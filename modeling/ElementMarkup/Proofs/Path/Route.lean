import ElementMarkup.Proofs.Path

/-!
Canonical paths. A route is a canonical path in parts: a root of one slash or of two, and the names
that lead down from it. `LeadsTo` says by rules where a path leads from a route, with one rule for each
kind of component; `along` computes it. Resolving a path follows it from the route of its directory,
and what it comes to is the same from every directory.
-/

namespace ElementMarkup.Path

structure IsStep (name : String) : Prop where
  named : IsName name
  moves : name ≠ "."
  down : name ≠ ".."

@[ext]
structure Route where
  root : String
  names : List String
  rooted : root = "/" ∨ root = "//"
  steps : ∀ name ∈ names, IsStep name

theorem parts_ne_nil (path : List Char) : parts path ≠ [] := by
  cases path with
  | nil => exact List.cons_ne_nil _ _
  | cons c rest =>
    unfold parts
    split
    · exact List.cons_ne_nil _ _
    · split <;> exact List.cons_ne_nil _ _

theorem parts_append_slash (front path : List Char) :
    parts (front ++ '/' :: path) = parts front ++ parts path := by
  induction front with
  | nil => exact parts_slash path
  | cons c rest ih =>
    by_cases slash : c = '/'
    · rw [slash, List.cons_append, parts_slash, parts_slash, ih, List.cons_append]
    · obtain ⟨part, more, split⟩ := List.exists_cons_of_ne_nil (parts_ne_nil rest)
      rw [split, List.cons_append] at ih
      rw [List.cons_append, parts, if_neg slash, ih, parts, if_neg slash, split, List.cons_append]

theorem intercalate_parts (path : List Char) :
    "/".intercalate ((parts path).map String.ofList) = String.ofList path := by
  induction path with
  | nil => rfl
  | cons c rest ih =>
    obtain ⟨part, more, split⟩ := List.exists_cons_of_ne_nil (parts_ne_nil rest)
    rw [split] at ih
    by_cases slash : c = '/'
    · rw [slash, parts_slash, split, List.map_cons, List.map_cons, String.intercalate_cons_cons,
        ← List.map_cons, ih]
      simp
    · rw [parts, if_neg slash, split]
      have first : String.ofList (c :: rest) = String.ofList [c] ++ String.ofList rest := by simp
      rw [first, ← ih]
      cases more with
      | nil => simp
      | cons next later => simp [String.intercalate_cons_cons, String.append_assoc]

/-- Texts without slashes that make up the path with slashes between them. -/
structure Spells (components : List String) (path : List Char) : Prop where
  nonempty : components ≠ []
  plain : ∀ part ∈ components, '/' ∉ part.toList
  text : ("/".intercalate components).toList = path

theorem spells_iff {components : List String} {path : List Char} :
    Spells components path ↔ (parts path).map String.ofList = components := by
  constructor
  · rintro ⟨nonempty, plain, rfl⟩
    rw [parts_intercalate nonempty plain, List.map_map, String.ofList_comp_toList, List.map_id]
  · rintro rfl
    refine ⟨?_, ?_, ?_⟩
    · simpa using parts_ne_nil path
    · intro part member
      obtain ⟨chars, between, rfl⟩ := List.mem_map.mp member
      rw [String.toList_ofList]
      exact slash_not_mem_parts between
    · rw [intercalate_parts, String.toList_ofList]

/-- Following the components from the names kept so far leaves `names`. -/
inductive Walks : List String → List String → List String → Prop where
  | arrived (names : List String) : Walks names [] names
  | stays {kept rest names : List String} {part : String} (still : part = "" ∨ part = ".")
      (onward : Walks kept rest names) : Walks kept (part :: rest) names
  | down {kept rest names : List String} {part : String} (moves : ¬ (part = "" ∨ part = "."))
      (down : part ≠ "..") (onward : Walks (kept ++ [part]) rest names) :
      Walks kept (part :: rest) names
  /-- The last name kept is given up. -/
  | up {kept rest names : List String} {last : String} (onward : Walks kept rest names) :
      Walks (kept ++ [last]) (".." :: rest) names
  /-- There is no way up from the root. -/
  | atRoot {rest names : List String} (onward : Walks [] rest names) : Walks [] (".." :: rest) names

theorem walks_iff {kept components names : List String} :
    Walks kept components names ↔ components.foldl follow kept = names := by
  constructor
  · intro walk
    induction walk with
    | arrived => rfl
    | stays still onward ih => rwa [List.foldl_cons, follow, if_pos still]
    | down moves down onward ih => rwa [List.foldl_cons, follow, if_neg moves, if_neg down]
    | up onward ih => simpa [follow] using ih
    | atRoot onward ih => simpa [follow] using ih
  · rintro rfl
    induction components generalizing kept with
    | nil => exact .arrived kept
    | cons part rest ih =>
      rw [List.foldl_cons]
      by_cases still : part = "" ∨ part = "."
      · rw [follow, if_pos still]
        exact .stays still ih
      by_cases up : part = ".."
      · rw [follow, if_neg still, if_pos up, up]
        rcases List.eq_nil_or_concat kept with rfl | ⟨front, last, rfl⟩
        · exact .atRoot ih
        · rw [List.concat_eq_append, List.dropLast_concat]
          exact .up ih
      · rw [follow, if_neg still, if_neg up]
        exact .down still up ih

def walked (kept : List String) (path : List Char) : List String :=
  ((parts path).map String.ofList).foldl follow kept

theorem walked_slash (kept : List String) (path : List Char) :
    walked kept ('/' :: path) = walked kept path := by
  rw [walked, parts_slash, List.map_cons, List.foldl_cons]
  rfl

theorem walked_append_slash (kept : List String) (front path : List Char) :
    walked kept (front ++ '/' :: path) = walked (walked kept front) path := by
  rw [walked, parts_append_slash, List.map_append, List.foldl_append]
  rfl

inductive RootOf : List Char → String → Prop where
  | single {rest : List Char} (ends : rest.head? ≠ some '/') : RootOf ('/' :: rest) "/"
  | double {rest : List Char} (ends : rest.head? ≠ some '/') : RootOf ('/' :: '/' :: rest) "//"
  | many (rest : List Char) : RootOf ('/' :: '/' :: '/' :: rest) "/"

theorem takeWhile_slash {path : List Char} (relative : path.head? ≠ some '/') :
    path.takeWhile (· == '/') = [] := by
  cases path with
  | nil => rfl
  | cons c rest =>
    have other : (c == '/') = false := by simpa using relative
    simp [other]

theorem isAbsolute_iff {path : List Char} : isAbsolute path = true ↔ path.head? = some '/' := by
  simp [isAbsolute]

theorem rootOf_lead {path : List Char} (absolute : path.head? = some '/') : RootOf path (lead path) := by
  obtain ⟨rest, rfl⟩ := List.head?_eq_some_iff.mp absolute
  by_cases single : rest.head? = some '/'
  · obtain ⟨rest, rfl⟩ := List.head?_eq_some_iff.mp single
    by_cases double : rest.head? = some '/'
    · obtain ⟨rest, rfl⟩ := List.head?_eq_some_iff.mp double
      simpa [lead] using RootOf.many rest
    · simpa [lead, takeWhile_slash double] using RootOf.double double
  · simpa [lead, takeWhile_slash single] using RootOf.single single

theorem rootOf_iff {path : List Char} {root : String} :
    RootOf path root ↔ path.head? = some '/' ∧ lead path = root := by
  constructor
  · intro found
    cases found with
    | single ends => simp [lead, takeWhile_slash ends]
    | double ends => simp [lead, takeWhile_slash ends]
    | many rest => simp [lead]
  · rintro ⟨absolute, rfl⟩
    exact rootOf_lead absolute

/-- What stands before the last slash of a path, with that slash, read backwards. -/
theorem dropWhile_reverse_split {front name : List Char} (plain : '/' ∉ name) :
    (front ++ '/' :: name).reverse.dropWhile (· != '/') = '/' :: front.reverse := by
  have other : ∀ c ∈ name.reverse, (c != '/') = true := by
    intro c member
    simpa using fun slash : c = '/' => plain (slash ▸ List.mem_reverse.mp member)
  rw [List.reverse_append, List.reverse_cons, List.append_assoc, List.dropWhile_append_of_pos other]
  simp

theorem directory_of_split {path : String} {front name : List Char}
    (text : path.toList = front ++ '/' :: name) (plain : '/' ∉ name) (nonempty : front ≠ [])
    (ends : front.getLast? ≠ some '/') : directory path = String.ofList front := by
  obtain ⟨c, rest, backwards⟩ : ∃ c rest, front.reverse = c :: rest :=
    List.exists_cons_of_ne_nil (by simpa using nonempty)
  have forwards : (c :: rest).reverse = front := by rw [← backwards, List.reverse_reverse]
  have kept : (c == '/') = false := by simpa [← forwards] using ends
  simp only [directory, text, dropWhile_reverse_split plain, backwards]
  simp [kept, ← forwards]

theorem directory_of_root {path root : String} {front name : List Char}
    (text : path.toList = front ++ '/' :: name) (plain : '/' ∉ name)
    (rooted : root = "/" ∨ root = "//") (slashes : front ++ ['/'] = root.toList) :
    directory path = root := by
  have backwards : '/' :: front.reverse = root.toList := by
    rw [← List.reverse_concat, slashes]
    rcases rooted with rfl | rfl <;> rfl
  simp only [directory, text, dropWhile_reverse_split plain, backwards]
  rcases rooted with rfl | rfl <;> decide

/-! ### Routes as texts -/

namespace Route

variable {route other : Route}

/-- Where relative paths start that have no directory. -/
def top : Route := ⟨"/", [], Or.inl rfl, by simp⟩

def text (route : Route) : String := route.root ++ "/".intercalate route.names

/-- The directory that the last name of a route lies in. A root lies in itself. -/
def parent (route : Route) : Route :=
  { route with
    names := route.names.dropLast
    steps := fun name member => route.steps name (List.dropLast_subset _ member) }

@[simp] theorem parent_root (route : Route) : route.parent.root = route.root := rfl

@[simp] theorem parent_names (route : Route) : route.parent.names = route.names.dropLast := rfl

theorem named (route : Route) : ∀ name ∈ route.names, IsName name :=
  fun name member => (route.steps name member).named

theorem text_toList (route : Route) :
    route.text.toList = route.root.toList ++ ("/".intercalate route.names).toList :=
  String.toList_append

theorem takeWhile_text (route : Route) :
    route.text.toList.takeWhile (· == '/') = route.root.toList := by
  have slashes : ∀ c ∈ route.root.toList, (c == '/') = true := by
    rcases route.rooted with single | double
    · simp [single]
    · simp [double]
  rw [text_toList, List.takeWhile_append_of_pos slashes,
    takeWhile_slash (intercalate_head?_ne_slash route.named), List.append_nil]

theorem head?_text (route : Route) : route.text.toList.head? = some '/' := by
  rcases route.rooted with single | double
  · simp [text_toList, single]
  · simp [text_toList, double]

theorem lead_text (route : Route) : lead route.text.toList = route.root := by
  rw [lead, takeWhile_text]
  rcases route.rooted with single | double
  · simp [single]
  · simp [double]

theorem followed_text (route : Route) : followed route.text.toList = route.names := by
  have kept : route.names.foldl follow [] = route.names :=
    foldl_follow_eq_append [] fun name member =>
      ⟨(route.named name member).1, (route.steps name member).moves, (route.steps name member).down⟩
  have plain : followed ('/' :: ("/".intercalate route.names).toList) = route.names :=
    (followed_rooted fun name member => (route.named name member).2).trans kept
  rcases route.rooted with single | double
  · simpa [text_toList, single] using plain
  · have again : followed route.text.toList = followed ('/' :: ("/".intercalate route.names).toList) := by
      rw [text_toList, double]
      exact walked_slash [] _
    exact again.trans plain

theorem text_inj (same : route.text = other.text) : route = other := by
  apply Route.ext
  · rw [← lead_text, same, lead_text]
  · rw [← followed_text, same, followed_text]

theorem canonical_text (route : Route) : canonical route.text.toList = route.text := by
  rw [canonical, isAbsolute_iff.mpr route.head?_text, if_pos rfl, lead_text, followed_text]
  rfl

theorem resolve_text (base : String) (route : Route) : resolve base route.text = route.text := by
  rw [resolve, join, isAbsolute_iff.mpr route.head?_text, if_pos rfl, canonical_text]

/-- The last name stands behind a slash, which is the root's if there is no other name. -/
theorem text_concat {front : List String} {last : String} (names : route.names = front ++ [last]) :
    ∃ before, route.text.toList = before ++ '/' :: last.toList ∧
      (front = [] ∧ before ++ ['/'] = route.root.toList ∨
        front ≠ [] ∧ before = route.parent.text.toList) := by
  cases front with
  | nil =>
    rcases route.rooted with single | double
    · exact ⟨[], by simp [text_toList, names, single], Or.inl ⟨rfl, by simp [single]⟩⟩
    · exact ⟨['/'], by simp [text_toList, names, double], Or.inl ⟨rfl, by simp [double]⟩⟩
  | cons first more =>
    refine ⟨route.parent.text.toList, ?_, Or.inr ⟨List.cons_ne_nil _ _, rfl⟩⟩
    have above : route.parent.names = first :: more := by
      rw [parent_names, names, List.dropLast_concat]
    rw [text_toList, names, text_toList, above,
      String.intercalate_append_of_ne_nil (List.cons_ne_nil _ _) (List.cons_ne_nil _ _)]
    simp

theorem names_of_text_ends (ends : route.text.toList.getLast? = some '/') : route.names = [] := by
  rcases List.eq_nil_or_concat route.names with none | ⟨front, last, names⟩
  · exact none
  · rw [List.concat_eq_append] at names
    obtain ⟨before, text, -⟩ := text_concat names
    obtain ⟨nonempty, plain⟩ := route.named last (by simp [names])
    obtain ⟨c, rest, chars⟩ : ∃ c rest, last.toList = c :: rest :=
      List.exists_cons_of_ne_nil (by simpa using nonempty)
    rw [text, List.getLast?_append, chars, List.getLast?_cons_cons,
      List.getLast?_eq_some_getLast (List.cons_ne_nil _ _), Option.some_or] at ends
    have inside : '/' ∈ last.toList := by
      rw [chars, ← Option.some.inj ends]
      exact List.getLast_mem _
    exact absurd inside plain

theorem text_of_names_nil (none : route.names = []) : route.text = route.root := by
  simp [text, none]

theorem directory_text (route : Route) : directory route.text = route.parent.text := by
  rcases List.eq_nil_or_concat route.names with none | ⟨front, last, names⟩
  · rw [text_of_names_nil none, text_of_names_nil (by simp [none]), parent_root]
    rcases route.rooted with single | double
    · rw [single]
      decide
    · rw [double]
      decide
  · rw [List.concat_eq_append] at names
    have plain := (route.named last (by simp [names])).2
    have above : route.parent.names = front := by rw [parent_names, names, List.dropLast_concat]
    obtain ⟨before, text, ⟨first, slashes⟩ | ⟨deeper, rfl⟩⟩ := text_concat names
    · rw [text_of_names_nil (above.trans first), parent_root]
      exact directory_of_root text plain route.rooted slashes
    · have nonempty : route.parent.text.toList ≠ [] := by
        intro none
        simpa [none] using route.parent.head?_text
      have ends : route.parent.text.toList.getLast? ≠ some '/' :=
        fun ends => deeper (above.symm.trans (names_of_text_ends ends))
      rw [directory_of_split text plain nonempty ends, String.ofList_toList]

def along (start : Route) (path : List Char) : Route where
  root := if isAbsolute path then lead path else start.root
  names := walked (if isAbsolute path then [] else start.names) path
  rooted := by
    split
    · unfold lead
      split
      · exact Or.inr rfl
      · exact Or.inl rfl
    · exact start.rooted
  steps := by
    intro name member
    rcases mem_foldl_follow member with before | ⟨part, nonempty, moves, down⟩
    · split at before
      · cases before
      · exact start.steps name before
    · obtain ⟨chars, between, rfl⟩ := List.mem_map.mp part
      have plain := slash_not_mem_parts between
      exact ⟨⟨nonempty, by rwa [String.toList_ofList]⟩, moves, down⟩

theorem along_of_absolute (start : Route) {path : List Char} (absolute : path.head? = some '/') :
    (start.along path).root = lead path ∧ (start.along path).names = followed path := by
  simp [along, isAbsolute_iff.mpr absolute, walked, followed]

theorem along_of_relative (start : Route) {path : List Char} (relative : path.head? ≠ some '/') :
    (start.along path).root = start.root ∧ (start.along path).names = walked start.names path := by
  simp [along, isAbsolute, relative]

end Route

theorem canonical_eq_text (path : List Char) : canonical path = (Route.top.along path).text := by
  by_cases absolute : path.head? = some '/'
  · obtain ⟨root, names⟩ := Route.top.along_of_absolute absolute
    rw [canonical, isAbsolute_iff.mpr absolute, if_pos rfl, Route.text, root, names]
  · obtain ⟨root, names⟩ := Route.top.along_of_relative absolute
    have single : lead ('/' :: path) = "/" := by simp [lead, takeWhile_slash absolute]
    have same : followed ('/' :: path) = walked [] path := walked_slash [] path
    rw [canonical, isAbsolute, decide_eq_false absolute, if_neg Bool.false_ne_true, Route.text, root,
      names, single, same]
    rfl

/-- Followed from `start`, a path leads to `target`. An absolute one starts from its own root. -/
inductive LeadsTo (start : Route) (path : List Char) (target : Route) : Prop where
  | absolute {components : List String} (root : RootOf path target.root)
      (spelled : Spells components path) (walk : Walks [] components target.names) :
      LeadsTo start path target
  | relative {components : List String} (relative : path.head? ≠ some '/')
      (root : target.root = start.root) (spelled : Spells components path)
      (walk : Walks start.names components target.names) : LeadsTo start path target

theorem leadsTo_iff {start target : Route} {path : List Char} :
    LeadsTo start path target ↔ start.along path = target := by
  constructor
  · rintro (⟨root, spelled, walk⟩ | ⟨relative, root, spelled, walk⟩)
    · obtain ⟨absolute, lead⟩ := rootOf_iff.mp root
      obtain ⟨here, names⟩ := start.along_of_absolute absolute
      refine Route.ext (here.trans lead) (names.trans ?_)
      rw [followed, spells_iff.mp spelled]
      exact walks_iff.mp walk
    · obtain ⟨here, names⟩ := start.along_of_relative relative
      refine Route.ext (here.trans root.symm) (names.trans ?_)
      rw [walked, spells_iff.mp spelled]
      exact walks_iff.mp walk
  · rintro rfl
    have spelled : Spells ((parts path).map String.ofList) path := spells_iff.mpr rfl
    by_cases absolute : path.head? = some '/'
    · obtain ⟨here, names⟩ := start.along_of_absolute absolute
      exact .absolute (rootOf_iff.mpr ⟨absolute, here.symm⟩) spelled (walks_iff.mpr names.symm)
    · obtain ⟨here, names⟩ := start.along_of_relative absolute
      exact .relative absolute here spelled (walks_iff.mpr names.symm)

/-! ### Joined paths -/

/-- A path that stands behind another one leaves its root as it is. -/
theorem lead_append {base path : List Char} (nonempty : base ≠ [])
    (apart : base.getLast? = some '/' → path.head? ≠ some '/') : lead (base ++ path) = lead base := by
  have same : (base ++ path).takeWhile (· == '/') = base.takeWhile (· == '/') := by
    rw [List.takeWhile_append]
    split
    · rename_i whole
      have all : base.takeWhile (· == '/') = base := (List.takeWhile_prefix _).eq_of_length whole
      have slash : base.getLast nonempty = '/' := by
        have each := List.all_takeWhile (p := (· == '/')) (l := base)
        rw [all, List.all_eq_true] at each
        simpa using each _ (List.getLast_mem nonempty)
      have ends : base.getLast? = some '/' := by rw [List.getLast?_eq_some_getLast nonempty, slash]
      rw [takeWhile_slash (apart ends), List.append_nil, all]
    · rfl
  rw [lead, same, lead]

section

variable {base path : List Char}

theorem join_relative (base : List Char) (relative : path.head? ≠ some '/') :
    base = [] ∧ join base path = path ∨
      (∃ front, base = front ++ ['/']) ∧ join base path = base ++ path ∨
      base ≠ [] ∧ base.getLast? ≠ some '/' ∧ join base path = base ++ '/' :: path := by
  have shown : isAbsolute path = false := by simpa [isAbsolute] using relative
  rcases List.eq_nil_or_concat base with rfl | ⟨front, last, rfl⟩
  · exact Or.inl ⟨rfl, by simp [join, shown]⟩
  · refine Or.inr ?_
    by_cases slash : last = '/'
    · subst slash
      exact Or.inl ⟨⟨front, List.concat_eq_append⟩, by simp [join, shown]⟩
    · exact Or.inr ⟨by simp, by simpa using slash, by simp [join, shown, slash]⟩

theorem head?_join_iff (relative : path.head? ≠ some '/') :
    (join base path).head? = some '/' ↔ base.head? = some '/' := by
  rcases join_relative base relative with
    ⟨rfl, joined⟩ | ⟨⟨front, rfl⟩, joined⟩ | ⟨nonempty, -, joined⟩
  · simp [joined, relative]
  · rw [joined, List.append_assoc, List.singleton_append, List.head?_append, List.head?_append]
    simp
  · obtain ⟨c, rest, rfl⟩ := List.exists_cons_of_ne_nil nonempty
    rw [joined, List.cons_append, List.head?_cons, List.head?_cons]

theorem lead_join (absolute : base.head? = some '/') (relative : path.head? ≠ some '/') :
    lead (join base path) = lead base := by
  rcases join_relative base relative with
    ⟨rfl, joined⟩ | ⟨⟨front, rfl⟩, joined⟩ | ⟨nonempty, ends, joined⟩
  · cases absolute
  · rw [joined, lead_append (by simp) fun _ => relative]
  · rw [joined, lead_append nonempty fun slash => absurd slash ends]

theorem walked_join (kept : List String) (relative : path.head? ≠ some '/') :
    walked kept (join base path) = walked (walked kept base) path := by
  rcases join_relative base relative with
    ⟨rfl, joined⟩ | ⟨⟨front, rfl⟩, joined⟩ | ⟨-, -, joined⟩
  · rw [joined]
    rfl
  · have start : walked kept (front ++ ['/']) = walked kept front := walked_append_slash kept front []
    rw [joined, List.append_assoc, List.singleton_append, walked_append_slash, start]
  · rw [joined, walked_append_slash]

end

/-- Following a joined path goes on from where its directory leads. -/
theorem along_join (start : Route) (base path : List Char) :
    start.along (join base path) = (start.along base).along path := by
  by_cases absolute : path.head? = some '/'
  · have joined : join base path = path := by simp [join, isAbsolute, absolute]
    obtain ⟨root, names⟩ := start.along_of_absolute absolute
    obtain ⟨alike, same⟩ := (start.along base).along_of_absolute absolute
    rw [joined]
    exact Route.ext (root.trans alike.symm) (names.trans same.symm)
  · obtain ⟨root, names⟩ := (start.along base).along_of_relative absolute
    have rooted : (join base path).head? = some '/' ↔ base.head? = some '/' := head?_join_iff absolute
    by_cases whole : base.head? = some '/'
    · obtain ⟨before, above⟩ := start.along_of_absolute whole
      obtain ⟨joined, below⟩ := start.along_of_absolute (rooted.mpr whole)
      apply Route.ext
      · rw [joined, root, before, lead_join whole absolute]
      · rw [below, names, above]
        exact walked_join [] absolute
    · obtain ⟨before, above⟩ := start.along_of_relative whole
      obtain ⟨joined, below⟩ := start.along_of_relative (mt rooted.mp whole)
      apply Route.ext
      · rw [joined, root, before]
      · rw [below, names, above, walked_join _ absolute]

/-- A path that writes out a route: one slash or two, and then names with slashes between them. -/
def IsCanonical (path : String) : Prop := ∃ route : Route, route.text = path

theorem canonical_isCanonical (path : List Char) : IsCanonical (canonical path) :=
  ⟨Route.top.along path, (canonical_eq_text path).symm⟩

theorem IsCanonical.directory {path : String} (form : IsCanonical path) :
    IsCanonical (directory path) := by
  obtain ⟨route, rfl⟩ := form
  exact ⟨route.parent, route.directory_text.symm⟩

/-- The canonical paths are the ones that stand for themselves. -/
theorem isCanonical_iff {path : String} : IsCanonical path ↔ canonical path.toList = path := by
  constructor
  · rintro ⟨route, rfl⟩
    exact route.canonical_text
  · intro same
    rw [← same]
    exact canonical_isCanonical path.toList

instance (path : String) : Decidable (IsCanonical path) := decidable_of_iff _ isCanonical_iff.symm

example : IsCanonical "//a/b" ∧ ¬ IsCanonical "///a" ∧ ¬ IsCanonical "/a//b" ∧ ¬ IsCanonical "/a/" := by
  decide

structure Resolution (base path target : String) : Prop where
  form : IsCanonical target
  leading : target.toList.takeWhile (· == '/') = ['/'] ∨ target.toList.takeWhile (· == '/') = ['/', '/']
  /-- Only a root ends in a slash. -/
  ending : target.toList.getLast? = some '/' → target = "/" ∨ target = "//"
  /-- Following the components of the joined path from the root leads there, and nowhere else. -/
  joined : ∀ route : Route, LeadsTo .top (join base.toList path.toList) route ↔ route.text = target
  /-- The directory can be followed first, and then the path from where that leads. -/
  stepwise : ∀ route : Route,
    (∃ start, LeadsTo .top base.toList start ∧ LeadsTo start path.toList route) ↔ route.text = target
  fixed : ∀ other, resolve other target = target

theorem resolve_resolution (base path : String) : Resolution base path (resolve base path) := by
  obtain ⟨target, along⟩ : ∃ target, Route.top.along (join base.toList path.toList) = target := ⟨_, rfl⟩
  have text : resolve base path = target.text := by rw [resolve, canonical_eq_text, along]
  have only : ∀ route : Route, target = route ↔ route.text = target.text :=
    fun route => ⟨fun same => by rw [same], fun same => (Route.text_inj same).symm⟩
  rw [text]
  refine ⟨⟨target, rfl⟩, ?_, ?_, ?_, ?_, fun other => target.resolve_text other⟩
  · rw [target.takeWhile_text]
    rcases target.rooted with single | double
    · exact Or.inl (by rw [single]; rfl)
    · exact Or.inr (by rw [double]; rfl)
  · intro ends
    rw [Route.text_of_names_nil (Route.names_of_text_ends ends)]
    exact target.rooted
  · intro route
    rw [leadsTo_iff, along, only]
  · intro route
    rw [along_join] at along
    simp only [leadsTo_iff, exists_eq_left', along, only]

/-- No way leads up from the root, and three slashes are one. -/
example : resolve "/a/../.." "..//b/./c/../" = "/b" ∧ resolve "//x/y" "../../../z" = "//z" ∧
    resolve "///x" "" = "/x" := by
  decide

end ElementMarkup.Path
