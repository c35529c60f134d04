import ElementMarkup.Attribute
import ElementMarkup.Proofs.Token.Split

/-!
Attribute blocks in print. Segments that are joined by commas are split into the same segments, if
all their commas stand inside quotes and only the last one leaves a quote open. Entries of a list are
printed in quotes, pairs with a colon, content with its commas escaped, and each of them is read back.
-/

namespace ElementMarkup

namespace Text

variable {text : List Char}

theorem strip_eq_self (first : ∀ c ∈ text.head?, isBlank c = false)
    (last : ∀ c ∈ text.getLast?, isBlank c = false) : strip text = text := by
  have front : text.dropWhile isBlank = text := by
    cases text with
    | nil => rfl
    | cons c rest => simp [first c rfl]
  have back : text.reverse.dropWhile isBlank = text.reverse := by
    rw [← List.head?_reverse] at last
    generalize text.reverse = reversed at last
    cases reversed with
    | nil => rfl
    | cons c rest => simp [last c rfl]
  rw [strip, front, back, List.reverse_reverse]

theorem strip_getLast? (text : List Char) : ∀ c ∈ (strip text).getLast?, isBlank c = false := by
  rw [strip, List.getLast?_reverse]
  exact Token.dropWhile_head?_false isBlank _

theorem strip_head? (text : List Char) : ∀ c ∈ (strip text).head?, isBlank c = false := by
  intro c head
  rw [strip, List.head?_reverse] at head
  obtain ⟨before, whole⟩ := List.dropWhile_suffix isBlank (l := (text.dropWhile isBlank).reverse)
  -- what is dropped from the back is not the first character
  have first : (text.dropWhile isBlank).head? = some c := by
    rw [← List.getLast?_reverse, ← whole, List.getLast?_append, Option.mem_def.mp head]
    rfl
  exact Token.dropWhile_head?_false isBlank text c first

theorem strip_strip (text : List Char) : strip (strip text) = strip text :=
  strip_eq_self (strip_head? text) (strip_getLast? text)

theorem strip_subset (text : List Char) : strip text ⊆ text := by
  intro c member
  rw [strip, List.mem_reverse] at member
  have inside := (List.dropWhile_sublist isBlank).subset member
  rw [List.mem_reverse] at inside
  exact (List.dropWhile_sublist isBlank).subset inside

/-- A filter that no blank passes sees nothing of a strip. -/
theorem filter_strip {p : Char → Bool} (blanks : ∀ c, isBlank c = true → p c = false)
    (text : List Char) : (strip text).filter p = text.filter p := by
  have drop : ∀ text : List Char, (text.dropWhile isBlank).filter p = text.filter p := by
    intro text
    induction text with
    | nil => rfl
    | cons c rest ih =>
      by_cases blank : isBlank c = true
      · simp [blank, blanks c blank, ih]
      · simp [blank]
  rw [strip, List.filter_reverse, drop, List.filter_reverse, drop, List.reverse_reverse]

theorem strip_eq_nil_iff (text : List Char) : strip text = [] ↔ allBlank text = true := by
  rw [allBlank, List.all_eq_true]
  constructor
  · intro empty c member
    have kept : text.filter (!isBlank ·) = [] := by
      rw [← filter_strip (by simp), empty, List.filter_nil]
    simpa using List.filter_eq_nil_iff.mp kept c member
  · intro blank
    cases stripped : strip text with
    | nil => rfl
    | cons c rest =>
      have first : isBlank c = false := strip_head? text c (by rw [stripped]; rfl)
      have inside : c ∈ text := strip_subset text (by simp [stripped])
      exact absurd (blank c inside) (by simp [first])

end Text

namespace Attribute

/-! ### Segments -/

/-- Whether a text ends inside quotes; nothing if a comma in it stands outside them. -/
def ending? (quoted : Bool) : List Char → Option Bool
  | [] => some quoted
  | c :: rest =>
    if c = ',' ∧ quoted = false then none else ending? (quoted != (c == '"')) rest

/-- No comma stands outside quotes, and only the last segment leaves a quote open. -/
def Divided : List (List Char) → Prop
  | [] => True
  | segment :: rest =>
    (∃ quoted, ending? false segment = some quoted ∧ (rest ≠ [] → quoted = false)) ∧ Divided rest

variable {quoted ends : Bool} {segment : List Char} {segments : List (List Char)}

theorem split_segment (ending : ending? quoted segment = some ends) :
    split quoted segment = [segment] := by
  induction segment generalizing quoted with
  | nil => rfl
  | cons c segment ih =>
    rw [ending?] at ending
    split at ending
    · cases ending
    · rename_i inside
      rw [split, if_neg inside, ih ending, extend]

theorem split_append (ending : ending? quoted segment = some false) (rest : List Char) :
    split quoted (segment ++ ',' :: rest) = segment :: split false rest := by
  induction segment generalizing quoted with
  | nil =>
    cases ending
    simp [split]
  | cons c segment ih =>
    rw [ending?] at ending
    split at ending
    · cases ending
    · rename_i inside
      rw [List.cons_append, split, if_neg inside, ih ending, extend]

theorem split_intercalate (divided : Divided segments) (nonempty : segments ≠ []) :
    split false ([','].intercalate segments) = segments := by
  induction segments with
  | nil => exact absurd rfl nonempty
  | cons segment rest ih =>
    obtain ⟨⟨quoted, ending, closed⟩, later⟩ := divided
    cases rest with
    | nil => rw [List.intercalate_singleton, split_segment ending]
    | cons next more =>
      obtain rfl := closed (List.cons_ne_nil _ _)
      rw [List.intercalate_cons_cons, List.append_assoc, List.singleton_append, split_append ending,
        ih later (List.cons_ne_nil _ _)]

/-- What `split` gives is divided, where its first segment goes on from the quotes before it. -/
theorem split_divided (quoted : Bool) (text : List Char) :
    ∃ segment rest, split quoted text = segment :: rest ∧
      (∃ ends, ending? quoted segment = some ends ∧ (rest ≠ [] → ends = false)) ∧ Divided rest := by
  induction text generalizing quoted with
  | nil => exact ⟨[], [], rfl, ⟨quoted, rfl, fun impossible => absurd rfl impossible⟩, trivial⟩
  | cons c text ih =>
    by_cases outside : c = ',' ∧ quoted = false
    · obtain ⟨segment, rest, same, first, later⟩ := ih false
      refine ⟨[], segment :: rest, ?_, ⟨quoted, rfl, fun _ => outside.2⟩, first, later⟩
      rw [split, if_pos outside, same]
    · obtain ⟨segment, rest, same, ⟨ends, ending, closed⟩, later⟩ := ih (quoted != (c == '"'))
      refine ⟨c :: segment, rest, ?_, ⟨ends, ?_, closed⟩, later⟩
      · rw [split, if_neg outside, same, extend]
      · rw [ending?, if_neg outside, ending]

theorem segments_divided (text : List Char) : Divided (Attribute.segments text) := by
  obtain ⟨segment, rest, same, first, later⟩ := split_divided false text
  rw [Attribute.segments, same]
  exact ⟨first, later⟩

theorem Divided.filter (divided : Divided segments) (p : List Char → Bool) :
    Divided (segments.filter p) := by
  induction segments with
  | nil => trivial
  | cons segment rest ih =>
    obtain ⟨⟨ends, ending, closed⟩, later⟩ := divided
    by_cases kept : p segment = true
    · rw [List.filter_cons_of_pos kept]
      refine ⟨⟨ends, ending, fun more => closed ?_⟩, ih later⟩
      rintro rfl
      exact more rfl
    · rw [List.filter_cons_of_neg kept]
      exact ih later

theorem Divided.map {f : List Char → List Char} (divided : Divided segments)
    (same : ∀ segment ∈ segments, ending? false (f segment) = ending? false segment) :
    Divided (segments.map f) := by
  induction segments with
  | nil => trivial
  | cons segment rest ih =>
    obtain ⟨⟨ends, ending, closed⟩, later⟩ := divided
    obtain ⟨first, others⟩ := List.forall_mem_cons.mp same
    refine ⟨⟨ends, ?_, fun more => closed ?_⟩, ih later others⟩
    · rw [first, ending]
    · rintro rfl
      exact more rfl

def isMark (c : Char) : Bool := c = '"' || c = ','

/-- How a text ends depends on its quotes and commas only. -/
theorem ending?_filter_isMark (quoted : Bool) (text : List Char) :
    ending? quoted (text.filter isMark) = ending? quoted text := by
  induction text generalizing quoted with
  | nil => rfl
  | cons c rest ih =>
    by_cases mark : isMark c = true
    · rw [List.filter_cons_of_pos mark, ending?, ending?, ih]
    · simp only [isMark, Bool.or_eq_true, decide_eq_true_eq, not_or] at mark
      have quote : (c == '"') = false := by simpa using mark.1
      rw [List.filter_cons_of_neg (by simpa [isMark] using mark), ih, ending?,
        if_neg fun outside => mark.2 outside.1, quote, Bool.bne_false]

theorem isMark_of_isBlank : ∀ c, Text.isBlank c = true → isMark c = false := by
  intro c blank
  by_cases mark : isMark c = true
  · simp only [isMark, Bool.or_eq_true, decide_eq_true_eq] at mark
    rcases mark with rfl | rfl <;> exact absurd blank (by decide)
  · simpa using mark

/-! ### Pairs, lists and content -/

def printPair (pair : String × String) : List Char := pair.1.toList ++ ':' :: pair.2.toList

def printPairs (pairs : List (String × String)) : String :=
  String.ofList ([','].intercalate (pairs.map printPair))

theorem printPair_pair (segment : List Char) :
    printPair (pair segment) =
      Text.strip (segment.takeWhile (· != ':')) ++
        ':' :: Text.strip (segment.dropWhile (· != ':')).tail := by
  simp [printPair, pair]

theorem ending?_printPair (quoted : Bool) (segment : List Char) :
    ending? quoted (printPair (pair segment)) = ending? quoted segment := by
  rw [← ending?_filter_isMark quoted segment, ← ending?_filter_isMark, printPair_pair]
  congr 1
  have value : ((segment.dropWhile (· != ':')).tail).filter isMark =
      (segment.dropWhile (· != ':')).filter isMark := by
    cases found : segment.dropWhile (· != ':') with
    | nil => rfl
    | cons c rest =>
      have colon : c = ':' := by
        simpa [found] using Token.dropWhile_head?_false (· != ':') segment
      subst colon
      rfl
  calc (Text.strip (segment.takeWhile (· != ':')) ++
          ':' :: Text.strip (segment.dropWhile (· != ':')).tail).filter isMark
      = (Text.strip (segment.takeWhile (· != ':'))).filter isMark ++
          (Text.strip (segment.dropWhile (· != ':')).tail).filter isMark := by
        rw [List.filter_append, List.filter_cons_of_neg (by decide)]
    _ = (segment.takeWhile (· != ':')).filter isMark ++
          (segment.dropWhile (· != ':')).filter isMark := by
        rw [Text.filter_strip isMark_of_isBlank, Text.filter_strip isMark_of_isBlank, value]
    _ = segment.filter isMark := by rw [← List.filter_append, List.takeWhile_append_dropWhile]

theorem pair_printPair (segment : List Char) : pair (printPair (pair segment)) = pair segment := by
  have key : ∀ c ∈ Text.strip (segment.takeWhile (· != ':')), (c != ':') = true := by
    intro c member
    exact List.all_eq_true.mp List.all_takeWhile c (Text.strip_subset _ member)
  rw [printPair_pair, pair, List.takeWhile_append_of_pos key, List.dropWhile_append_of_pos key]
  simp [Text.strip_strip, pair]

theorem pairs_printPairs (text : String) (nonempty : pairs text ≠ []) :
    pairs (printPairs (pairs text)) = pairs text := by
  have divided : Divided ((entries text.toList).map (printPair ∘ pair)) :=
    ((segments_divided _).filter _).map fun segment _ => ending?_printPair false segment
  have present : (entries text.toList).map (printPair ∘ pair) ≠ [] := by
    simpa [pairs] using nonempty
  have visible : ∀ segment ∈ (entries text.toList).map (printPair ∘ pair),
      (!Text.allBlank segment) = true := by
    intro segment member
    obtain ⟨entry, -, rfl⟩ := List.mem_map.mp member
    simp [printPair, Text.allBlank, show Text.isBlank ':' = false by decide]
  have printed : entries (printPairs (pairs text)).toList =
      (entries text.toList).map (printPair ∘ pair) := by
    rw [printPairs, pairs, List.map_map, String.toList_ofList, entries, Attribute.segments,
      split_intercalate divided present, List.filter_eq_self.mpr visible]
  calc pairs (printPairs (pairs text))
      = ((entries text.toList).map (printPair ∘ pair)).map pair := by rw [pairs, printed]
    _ = (entries text.toList).map pair := by
      rw [List.map_map]
      exact List.map_congr_left fun segment _ => pair_printPair segment

def printEntry (entry : String) : List Char := '"' :: entry.toList ++ ['"']

def printList (entries : List String) : String :=
  String.ofList ([','].intercalate (entries.map printEntry))

theorem printEntry_head? (entry : String) : (printEntry entry).head? = some '"' := rfl

theorem printEntry_getLast? (entry : String) : (printEntry entry).getLast? = some '"' := by
  rw [printEntry, List.getLast?_append]
  rfl

theorem ending?_inside {text : List Char} (plain : '"' ∉ text) (rest : List Char) :
    ending? true (text ++ rest) = ending? true rest := by
  induction text with
  | nil => rfl
  | cons c text ih =>
    obtain ⟨other, later⟩ := List.ne_and_not_mem_of_not_mem_cons plain
    have quote : (c == '"') = false := by simpa using Ne.symm other
    rw [List.cons_append, ending?, if_neg (by simp), quote, Bool.bne_false, ih later]

theorem ending?_printEntry {entry : String} (plain : '"' ∉ entry.toList) :
    ending? false (printEntry entry) = some false := by
  rw [printEntry, List.cons_append, ending?, if_neg (by simp)]
  exact ending?_inside plain ['"']

theorem divided_printEntry {entries : List String} (plain : ∀ entry ∈ entries, '"' ∉ entry.toList) :
    Divided (entries.map printEntry) := by
  induction entries with
  | nil => trivial
  | cons entry rest ih =>
    obtain ⟨first, later⟩ := List.forall_mem_cons.mp plain
    exact ⟨⟨false, ending?_printEntry first, fun _ => rfl⟩, ih later⟩

theorem unquote_printEntry (entry : String) :
    String.ofList (unquote (Text.strip (printEntry entry))) = entry := by
  have quote : Text.isBlank '"' = false := by decide
  have whole : Text.strip (printEntry entry) = printEntry entry := by
    refine Text.strip_eq_self ?_ ?_
    · simp [printEntry_head?, quote]
    · simp [printEntry_getLast?, quote]
  rw [whole, unquote, if_pos ⟨printEntry_head? entry, printEntry_getLast? entry⟩]
  simp [printEntry]

theorem list_printList {entries : List String} (plain : ∀ entry ∈ entries, '"' ∉ entry.toList)
    (nonempty : entries ≠ []) : list (printList entries) = entries := by
  have present : entries.map printEntry ≠ [] := by simpa using nonempty
  have visible : ∀ segment ∈ entries.map printEntry, (!Text.allBlank segment) = true := by
    intro segment member
    obtain ⟨entry, -, rfl⟩ := List.mem_map.mp member
    simp [printEntry, Text.allBlank, show Text.isBlank '"' = false by decide]
  rw [printList, list, String.toList_ofList, Attribute.entries, Attribute.segments,
    split_intercalate (divided_printEntry plain) present, List.filter_eq_self.mpr visible, List.map_map]
  exact (List.map_congr_left fun entry _ => unquote_printEntry entry).trans (List.map_id _)

def escapeCommas (text : List Char) : List Char :=
  text.flatMap fun c => if c = ',' then ['\\', ','] else [c]

def printContent (content : String) : String := String.ofList (escapeCommas content.toList)

theorem unescape_cons {c : Char} {text : List Char} (plain : text.head? ≠ some ',') :
    unescape (c :: text) = c :: unescape text := by
  cases text with
  | nil => rfl
  | cons d rest =>
    have kept : ¬ (c = '\\' ∧ d = ',') := fun escape => plain (by rw [escape.2]; rfl)
    rw [unescape, if_neg kept]

theorem escapeCommas_head? (text : List Char) : (escapeCommas text).head? ≠ some ',' := by
  cases text with
  | nil => simp [escapeCommas]
  | cons c rest => by_cases comma : c = ',' <;> simp [escapeCommas, comma]

theorem unescape_escapeCommas (text : List Char) : unescape (escapeCommas text) = text := by
  induction text with
  | nil => rfl
  | cons c rest ih =>
    by_cases comma : c = ','
    · subst comma
      show unescape ('\\' :: ',' :: escapeCommas rest) = _
      rw [unescape, if_pos ⟨rfl, rfl⟩, ih]
    · have printed : escapeCommas (c :: rest) = c :: escapeCommas rest := by
        simp [escapeCommas, comma]
      rw [printed, unescape_cons (escapeCommas_head? rest), ih]

theorem content_printContent (text : String) : content (printContent text) = text := by
  simp [content, printContent, unescape_escapeCommas]

end Attribute

end ElementMarkup
