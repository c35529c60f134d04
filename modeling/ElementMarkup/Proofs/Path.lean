import ElementMarkup.Path.Location

/-!
Paths in parts and paths as texts. Parts without slashes can be read off the text that they are
joined to, and so a location that is written out as text has the canonical path that it resolves to.
-/

namespace ElementMarkup

namespace Path

/-- A text that can stand between two slashes. -/
def IsName (name : String) : Prop := name ≠ "" ∧ '/' ∉ name.toList

theorem parts_slash (path : List Char) : parts ('/' :: path) = [] :: parts path := by
  simp [parts]

theorem parts_plain {name : List Char} (plain : '/' ∉ name) : parts name = [name] := by
  induction name with
  | nil => rfl
  | cons c rest ih =>
    obtain ⟨first, later⟩ := not_or.mp (mt List.mem_cons.mpr plain)
    rw [parts, if_neg (Ne.symm first), ih later]

theorem parts_append {name : List Char} (plain : '/' ∉ name) (path : List Char) :
    parts (name ++ '/' :: path) = name :: parts path := by
  induction name with
  | nil => exact parts_slash path
  | cons c rest ih =>
    obtain ⟨first, later⟩ := not_or.mp (mt List.mem_cons.mpr plain)
    rw [List.cons_append, parts, if_neg (Ne.symm first), ih later]

theorem slash_not_mem_parts {path part : List Char} (member : part ∈ parts path) : '/' ∉ part := by
  induction path generalizing part with
  | nil =>
    obtain rfl := List.mem_singleton.mp member
    simp
  | cons c rest ih =>
    unfold parts at member
    split at member
    · rcases List.mem_cons.mp member with rfl | later
      · simp
      · exact ih later
    · rename_i other
      cases split : parts rest with
      | nil =>
        rw [split] at member
        obtain rfl := List.mem_singleton.mp member
        simpa using Ne.symm other
      | cons first more =>
        rw [split] at member ih
        rcases List.mem_cons.mp member with rfl | later
        · have plain := ih (List.mem_cons_self ..)
          simp [plain, Ne.symm other]
        · exact ih (List.mem_cons_of_mem _ later)

theorem parts_intercalate {names : List String} (nonempty : names ≠ [])
    (plain : ∀ name ∈ names, '/' ∉ name.toList) :
    parts ("/".intercalate names).toList = names.map String.toList := by
  induction names with
  | nil => exact absurd rfl nonempty
  | cons name rest ih =>
    obtain ⟨first, later⟩ := List.forall_mem_cons.mp plain
    cases rest with
    | nil => simpa using parts_plain first
    | cons next more =>
      have text : ("/".intercalate (name :: next :: more)).toList =
          name.toList ++ '/' :: ("/".intercalate (next :: more)).toList := by
        simp [String.intercalate_cons_cons]
      rw [text, parts_append first, ih (List.cons_ne_nil _ _) later, ← List.map_cons]

theorem filter_parts_intercalate {names : List String} (named : ∀ name ∈ names, IsName name) :
    (parts ("/".intercalate names).toList).filter (· ≠ []) = names.map String.toList := by
  cases names with
  | nil => rfl
  | cons name rest =>
    rw [parts_intercalate (List.cons_ne_nil _ _) fun name member => (named name member).2,
      List.filter_eq_self]
    intro part member
    obtain ⟨name, own, rfl⟩ := List.mem_map.mp member
    simpa using (named name own).1

theorem intercalate_inj {names others : List String} (named : ∀ name ∈ names, IsName name)
    (alike : ∀ name ∈ others, IsName name) (same : "/".intercalate names = "/".intercalate others) :
    names = others := by
  have texts := filter_parts_intercalate named
  rw [same, filter_parts_intercalate alike] at texts
  exact ((List.map_inj_right fun _ _ => String.toList_inj.mp).mp texts).symm

theorem intercalate_head?_ne_slash {names : List String} (named : ∀ name ∈ names, IsName name) :
    ("/".intercalate names).toList.head? ≠ some '/' := by
  cases names with
  | nil => simp
  | cons name rest =>
    obtain ⟨nonempty, plain⟩ := named name (List.mem_cons_self ..)
    obtain ⟨c, text, chars⟩ : ∃ c text, name.toList = c :: text :=
      List.exists_cons_of_ne_nil (by simpa using nonempty)
    have first : c ≠ '/' := by
      rintro rfl
      exact plain (by simp [chars])
    cases rest with
    | nil => simpa [chars] using first
    | cons next more => simpa [String.intercalate_cons_cons, chars] using first

theorem mem_foldl_follow {path kept : List String} {name : String}
    (member : name ∈ path.foldl follow kept) :
    name ∈ kept ∨ name ∈ path ∧ name ≠ "" ∧ name ≠ "." ∧ name ≠ ".." := by
  induction path generalizing kept with
  | nil => exact Or.inl member
  | cons part rest ih =>
    rw [List.foldl_cons] at member
    rcases ih member with before | ⟨later, proper⟩
    · unfold follow at before
      split at before
      · exact Or.inl before
      · split at before
        · exact Or.inl (List.dropLast_subset _ before)
        · rcases List.mem_append.mp before with before | last
          · exact Or.inl before
          · obtain rfl := List.mem_singleton.mp last
            rename_i stays drops
            exact Or.inr ⟨List.mem_cons_self .., not_or.mp stays |>.1, not_or.mp stays |>.2, drops⟩
    · exact Or.inr ⟨List.mem_cons_of_mem _ later, proper⟩

theorem foldl_follow_eq_append {names : List String} (kept : List String)
    (proper : ∀ name ∈ names, name ≠ "" ∧ name ≠ "." ∧ name ≠ "..") :
    names.foldl follow kept = kept ++ names := by
  induction names generalizing kept with
  | nil => simp
  | cons name rest ih =>
    obtain ⟨⟨nonempty, stays, drops⟩, later⟩ := List.forall_mem_cons.mp proper
    have step : follow kept name = kept ++ [name] := by simp [follow, nonempty, stays, drops]
    rw [List.foldl_cons, step, ih _ later, List.append_assoc, List.singleton_append]

/-- The bytes that names take when a slash stands before each. -/
def span : List String → Nat
  | [] => 0
  | name :: rest => name.utf8ByteSize + 1 + span rest

theorem utf8ByteSize_intercalate (names : List String) :
    ("/".intercalate names).utf8ByteSize = span names - 1 := by
  induction names with
  | nil => rfl
  | cons name rest ih =>
    cases rest with
    | nil => simp [span]
    | cons next more =>
      have slash : "/".utf8ByteSize = 1 := rfl
      simp only [String.intercalate_cons_cons, String.utf8ByteSize_append, ih, slash, span]
      omega

theorem span_append (names more : List String) : span (names ++ more) = span names + span more := by
  induction names with
  | nil => exact (Nat.zero_add _).symm
  | cons name rest ih =>
    rw [List.cons_append, span, span, ih]
    omega

theorem span_dropLast_le (names : List String) : span names.dropLast ≤ span names := by
  rcases List.eq_nil_or_concat names with rfl | ⟨front, last, rfl⟩
  · exact Nat.le_refl _
  · rw [List.concat_eq_append, List.dropLast_concat, span_append]
    exact Nat.le_add_right _ _

theorem span_follow_le (kept : List String) (part : String) :
    span (follow kept part) ≤ span kept + span [part] := by
  unfold follow
  split
  · exact Nat.le_add_right _ _
  · split
    · exact Nat.le_trans (span_dropLast_le kept) (Nat.le_add_right _ _)
    · exact Nat.le_of_eq (span_append kept [part])

theorem span_foldl_follow_le (path kept : List String) :
    span (path.foldl follow kept) ≤ span kept + span path := by
  induction path generalizing kept with
  | nil => exact Nat.le_refl _
  | cons part rest ih =>
    have step := span_follow_le kept part
    have later := ih (follow kept part)
    have split : span (part :: rest) = span [part] + span rest := span_append [part] rest
    rw [List.foldl_cons]
    omega

theorem followed_rooted {names : List String} (plain : ∀ name ∈ names, '/' ∉ name.toList) :
    followed ('/' :: ("/".intercalate names).toList) = names.foldl follow [] := by
  cases names with
  | nil => rfl
  | cons name rest =>
    rw [followed, parts_slash, parts_intercalate (List.cons_ne_nil _ _) plain, List.map_cons,
      List.map_map, String.ofList_comp_toList, List.map_id]
    rfl

theorem lead_rooted {names : List String} (named : ∀ name ∈ names, IsName name) :
    lead ('/' :: ("/".intercalate names).toList) = "/" := by
  have next := intercalate_head?_ne_slash named
  cases text : ("/".intercalate names).toList with
  | nil => rfl
  | cons c rest =>
    have other : (c == '/') = false := by simpa [text] using next
    simp [lead, other]

theorem canonical_rooted {names : List String} (named : ∀ name ∈ names, IsName name) :
    canonical ('/' :: ("/".intercalate names).toList) =
      "/" ++ "/".intercalate (names.foldl follow []) := by
  rw [canonical, isAbsolute, List.head?_cons, decide_eq_true rfl, if_pos rfl, lead_rooted named,
    followed_rooted fun name member => (named name member).2]

theorem canonical_relative {path : List Char} (relative : path.head? ≠ some '/') :
    canonical path = canonical ('/' :: path) := by
  simp [canonical, isAbsolute, relative]

end Path

/-! ### Locations -/

namespace Location

structure Proper (location : Location) : Prop where
  named : ∀ part ∈ location.parts, Path.IsName part
  rooted : location.root = "" ∨ location.root = "/" ∨ location.root = "//"

variable {location : Location}

theorem ofString_proper (path : String) : (ofString path).Proper := by
  constructor
  · intro part member
    obtain ⟨split, kept⟩ := List.mem_filter.mp member
    obtain ⟨chars, between, rfl⟩ := List.mem_map.mp split
    have plain := Path.slash_not_mem_parts between
    exact ⟨(of_decide_eq_true kept).1, by rwa [String.toList_ofList]⟩
  · unfold ofString Path.lead
    simp only
    split
    · split
      · exact Or.inr (Or.inr rfl)
      · exact Or.inr (Or.inl rfl)
    · exact Or.inl rfl

theorem Proper.join (proper : location.Proper) (path : String) : (location.join path).Proper := by
  have next := ofString_proper path
  unfold Location.join
  simp only
  split
  · refine ⟨fun part member => ?_, proper.rooted⟩
    rcases List.mem_append.mp member with own | added
    · exact proper.named part own
    · exact next.named part added
  · exact next

/-- The names on the way from the root to a location, without `..`. -/
def way (location : Location) : List String := location.parts.foldl Path.follow []

theorem Proper.way_named (proper : location.Proper) : ∀ name ∈ location.way, Path.IsName name := by
  intro name member
  rcases Path.mem_foldl_follow member with impossible | ⟨part, -⟩
  · cases impossible
  · exact proper.named name part

theorem way_ofString (path : String) : (ofString path).way = Path.followed path.toList := by
  rw [way, ofString, Path.followed, List.foldl_filter]
  congr 1
  funext kept part
  by_cases stays : part = "" ∨ part = "."
  · rcases stays with rfl | rfl <;> rfl
  · simp [not_or.mp stays]

theorem Proper.way_resolved (proper : location.Proper) :
    (ofString location.resolved).way = location.way := by
  have text : location.resolved.toList = '/' :: ("/".intercalate location.way).toList := by
    simp [resolved, way]
  have steps : ∀ name ∈ location.way, name ≠ "" ∧ name ≠ "." ∧ name ≠ ".." := fun name member =>
    ((Path.mem_foldl_follow member).resolve_left List.not_mem_nil).2
  rw [way_ofString, text, Path.followed_rooted fun name member => (proper.way_named name member).2,
    Path.foldl_follow_eq_append [] steps, List.nil_append]

/-- Two leading slashes are another root than one, and only in the text of a location. -/
theorem Proper.canonical_text (proper : location.Proper) (single : location.root ≠ "//") :
    Path.canonical location.text.toList = location.resolved := by
  obtain ⟨root, parts⟩ := location
  have rooted := Path.canonical_rooted proper.named
  rcases proper.rooted with rfl | rfl | rfl
  · cases parts with
    | nil => decide
    | cons part rest =>
      have text : (text ⟨"", part :: rest⟩) = "/".intercalate (part :: rest) := by simp [text]
      rw [text, Path.canonical_relative (Path.intercalate_head?_ne_slash proper.named)]
      exact rooted
  · have text : (text ⟨"/", parts⟩).toList = '/' :: ("/".intercalate parts).toList := by simp [text]
    rw [text]
    exact rooted
  · exact absurd rfl single

/-- Resolving drops names and adds none. -/
theorem resolved_size_le (rooted : location.root ≠ "") :
    location.resolved.utf8ByteSize ≤ location.text.utf8ByteSize := by
  have slash : "/".utf8ByteSize = 1 := rfl
  have first : 1 ≤ location.root.utf8ByteSize :=
    Nat.one_le_iff_ne_zero.mpr (mt String.utf8ByteSize_eq_zero_iff.mp rooted)
  have shrinks := Path.span_foldl_follow_le location.parts []
  have nothing : Path.span [] = 0 := rfl
  rw [resolved, text, if_neg fun none => rooted none.1, String.utf8ByteSize_append,
    String.utf8ByteSize_append, Path.utf8ByteSize_intercalate, Path.utf8ByteSize_intercalate, slash]
  omega

end Location

end ElementMarkup
