import Mathlib.Data.List.Chain
import Mathlib.Data.List.Find
import Mathlib.Data.List.ProdSigma
import ElementMarkup.Proofs.Compile.Graph
import ElementMarkup.Proofs.Compile.Store

/-!
How deep a compile that ends can nest. Without cycle detection a file may be entered again while it
is being compiled, but not before another of the names that are imported anywhere has been stored:
all would be as it was, and the compile would never end. So `depth` is enough for every compile that
ends, and a compile that `compile` gives up never ends.
-/

namespace ElementMarkup.Compile

section

variable {context : Context} {path : String} {scope : Scope} {d e : Document} {fuel : Nat}
  {p : Progress} {events : List Event} {outcome : Outcome String} {i : Import} {text : String}
  {records : List Record} {components : Components}

def pending (context : Context) (components : Components) (path : String) : Option Import :=
  (importsAt context path).find? fun i => !Table.has components i.name

/-- While nothing else is stored, compiling the file at `path` enters the file at `next`. -/
def Awaits (context : Context) (components : Components) (path next : String) : Prop :=
  ∃ i, pending context components path = some i ∧ linked path i = next

theorem Awaits.read {next : String} (awaits : Awaits context components path next) :
    ∃ text d records, Table.find? context.files path = some (.ok text) ∧
      document context.wide context.width text = (.ok d, records) ∧
      importsAt context path = d.imports := by
  obtain ⟨i, first, -⟩ := awaits
  have member : i ∈ importsAt context path := List.mem_of_find?_eq_some first
  cases read : documentAt context path with
  | none => simp [importsAt, read] at member
  | some d =>
    obtain ⟨text, records, found, parsed⟩ := documentAt_eq_some read
    exact ⟨text, d, records, found, parsed, importsAt_of_document read⟩

theorem resolveAll_unending {nested : Scope → String → Progress → Outcome String} {rest : List Import}
    (absent : Table.has p.components i.name = false) (opens : Opens context scope i text)
    (unending : (nested (scope.enter (scope.target i)) text (p.enter i.name (scope.target i))).1 =
      .error .unending) :
    (resolveAll context nested scope (i :: rest) p).1 = .error .unending := by
  rcases result : nested (scope.enter (scope.target i)) text (p.enter i.name (scope.target i)) with
    ⟨failure | html, after⟩
  · rw [result] at unending
    obtain rfl := Except.error.inj unending
    rw [resolveAll, resolve_failed absent opens result]
  · rw [result] at unending
    cases unending

theorem resolveAll_pending {nested : Scope → String → Progress → Outcome String} {imports : List Import}
    (first : (imports.find? fun i => !Table.has p.components i.name) = some i)
    (opens : Opens context scope i text)
    (fails : ∀ q : Progress, q.components = p.components →
      (nested (scope.enter (scope.target i)) text q).1 = .error .unending) :
    (resolveAll context nested scope imports p).1 = .error .unending := by
  induction imports generalizing p with
  | nil => cases first
  | cons j rest ih =>
    by_cases present : Table.has p.components j.name = true
    · rw [resolveAll, resolve_reused present]
      exact ih (by simpa [present] using first) fails
    · have absent : Table.has p.components j.name = false := by simpa using present
      obtain rfl : j = i := by simpa [absent] using first
      exact resolveAll_unending absent opens (fails _ rfl)

theorem finish_unending (scope : Scope) (elements : List Element) {result : Outcome Unit}
    (unending : result.1 = .error .unending) : (scope.finish elements result).1 = .error .unending := by
  obtain ⟨result, after⟩ := result
  dsimp only at unending
  subst unending
  rfl

/-- Nothing is stored from one file to the next, so each is found as it was before. -/
theorem compileWithin_loop {files : List String} (detects : context.detect = false)
    (loop : ∀ path ∈ files, ∃ next ∈ files, Awaits context components path next)
    (member : path ∈ files) (found : Table.find? context.files path = some (.ok text))
    (base : scope.base = Path.directory path) (same : p.components = components) (fuel : Nat) :
    (compileWithin context fuel scope text p).1 = .error .unending := by
  induction fuel generalizing path scope text p with
  | zero => rfl
  | succ fuel ih =>
    obtain ⟨next, within, awaits⟩ := loop path member
    obtain ⟨own, d, records, foundOwn, read, imports⟩ := awaits.read
    obtain rfl : text = own := by simpa [found] using foundOwn
    obtain ⟨after, -, further⟩ := loop next within
    obtain ⟨inner, -, -, foundInner, -, -⟩ := further.read
    obtain ⟨i, first, leads⟩ := awaits
    have target : scope.target i = next := by rw [Scope.target, base, ← leads, linked]
    have opens : Opens context scope i inner :=
      ⟨fun again => by simp [detects] at again, by rwa [target]⟩
    rw [compileWithin_read read]
    apply finish_unending
    refine resolveAll_pending (i := i) ?_ opens fun q kept => ?_
    · rw [pending, imports] at first
      simpa [same] using first
    · exact ih within (by rwa [← target] at foundInner ⊢) (by rw [target]; rfl) (kept.trans same)

/-- A chain whose last element is followed by its first has a successor for each element. -/
theorem exists_next_of_ring {α : Type} {R : α → α → Prop} {first last : α} {rest : List α}
    (chain : (first :: rest).IsChain R) (ends : (first :: rest).getLast? = some last)
    (closes : R last first) : ∀ x ∈ first :: rest, ∃ y ∈ first :: rest, R x y := by
  intro x member
  obtain ⟨before, after, split⟩ := List.append_of_mem member
  cases after with
  | nil =>
    obtain rfl : x = last := by simpa [split] using ends
    exact ⟨first, List.mem_cons_self .., closes⟩
  | cons y after =>
    rw [split] at chain
    have step := (List.isChain_cons_cons.mp chain.right_of_append).1
    exact ⟨y, by simp [split], step⟩

theorem importsAt_storable (source : String) (member : i ∈ importsAt context path) :
    i.name ∈ storable context source := by
  cases read : documentAt context path with
  | none => simp [importsAt, read] at member
  | some d =>
    obtain ⟨text, records, found, parsed⟩ := documentAt_eq_some read
    rw [importsAt_of_document read] at member
    have own : i.name ∈ importNames context text := by
      simpa [importNames, parsed] using ⟨i, member, rfl⟩
    rw [storable, List.mem_eraseDups, List.mem_append, List.mem_flatMap]
    exact Or.inr ⟨_, Table.mem_of_find? found, own⟩

def Keeps (components later : Components) : Prop :=
  ∀ name, Table.has components name = true → Table.has later name = true

theorem Run.keeps_import {html : String} {after : Progress}
    (run : Run context fuel scope d p events (.ok html, after)) (name : String) :
    Keeps p.components (after.store name html).components := by
  intro other present
  have still : Table.has after.components other = true := run.keeps_names present
  simp [still]

def storedCount (context : Context) (source : String) (components : Components) : Nat :=
  (storable context source).countP (Table.has components)

theorem Keeps.eq_of_countP {later : Components} {names : List String} (keeps : Keeps components later)
    (same : names.countP (Table.has components) = names.countP (Table.has later)) :
    ∀ name ∈ names, Table.has components name = Table.has later name := by
  induction names with
  | nil => simp
  | cons first rest ih =>
    have fewer : rest.countP (Table.has components) ≤ rest.countP (Table.has later) :=
      List.countP_mono_left fun name _ => keeps name
    rw [List.countP_cons, List.countP_cons] at same
    cases before : Table.has components first with
    | true =>
      have after := keeps first before
      simp only [before, after, if_true, Nat.add_right_cancel_iff] at same
      simpa [before, after] using ih same
    | false =>
      cases after : Table.has later first with
      | true =>
        simp only [before, after, Bool.false_eq_true, if_false, if_true] at same
        omega
      | false =>
        simp only [before, after, Bool.false_eq_true, if_false] at same
        simpa [before, after] using ih same

theorem Awaits.of_count {later : Components} {next source : String}
    (awaits : Awaits context later path next) (keeps : Keeps components later)
    (same : storedCount context source components = storedCount context source later) :
    Awaits context components path next := by
  obtain ⟨i, first, leads⟩ := awaits
  refine ⟨i, ?_, leads⟩
  rw [← first]
  refine List.find?_congr fun j member => ?_
  rw [keeps.eq_of_countP same j.name (importsAt_storable source member)]

theorem Keeps.count_le {later : Components} (keeps : Keeps components later) (source : String) :
    storedCount context source components ≤ storedCount context source later :=
  List.countP_mono_left fun name _ => keeps name

/-! ### The files being compiled -/

def Passed (context : Context) (path : String) (components : Components) (left : List Import) : Prop :=
  ∃ before, importsAt context path = before ++ left ∧ ∀ i ∈ before, Table.has components i.name = true

theorem Passed.step {left : List Import} (passed : Passed context path components (i :: left))
    (present : Table.has components i.name = true) : Passed context path components left := by
  obtain ⟨before, imports, stored⟩ := passed
  refine ⟨before ++ [i], by simp [imports], ?_⟩
  intro j member
  rcases List.mem_append.mp member with member | member
  · exact stored j member
  · obtain rfl := List.mem_singleton.mp member
    exact present

theorem Passed.grow {left : List Import} {later : Components}
    (passed : Passed context path components left) (keeps : Keeps components later) :
    Passed context path later left := by
  obtain ⟨before, imports, stored⟩ := passed
  exact ⟨before, imports, fun i member => keeps _ (stored i member)⟩

theorem Passed.awaits {left : List Import} (passed : Passed context path components (i :: left))
    (base : scope.base = Path.directory path) (absent : Table.has components i.name = false) :
    Awaits context components path (scope.target i) := by
  obtain ⟨before, imports, stored⟩ := passed
  refine ⟨i, ?_, by rw [linked, Scope.target, base]⟩
  rw [pending, imports, List.find?_append, List.find?_eq_none.mpr]
  · simp [absent]
  · intro j member
    simp [stored j member]

def Settles (context : Context) (path : String) (components : Components) : Prop :=
  ∃ text scope p fuel, Table.find? context.files path = some (.ok text) ∧
    scope.base = Path.directory path ∧ p.components = components ∧
    (compileWithin context fuel scope text p).1 ≠ .error .unending

/-- The files being compiled inside a source, outermost first, each with the store it was entered
with. -/
structure Nest (context : Context) (source : String) (start : Nat) (scope : Scope) (d : Document)
    (components : Components) (stack : List (String × Components)) : Prop where
  depth : scope.resolving.length = start + stack.length
  base : ∀ x ∈ stack.getLast?, scope.base = Path.directory x.1
  passed : ∀ x ∈ stack.getLast?, Passed context x.1 components d.imports
  kept : ∀ x ∈ stack, Keeps x.2 components
  sorted : stack.Pairwise fun x y => Keeps x.2 y.2
  chain : stack.IsChain fun x y => Awaits context y.2 x.1 y.1
  settles : ∀ x ∈ stack, Settles context x.1 x.2
  distinct : (stack.map fun x => (x.1, storedCount context source x.2)).Nodup

section

variable {source : String} {start : Nat} {rest : List Import} {elements : List Element}
  {stack : List (String × Components)}

theorem Nest.step (nest : Nest context source start scope ⟨i :: rest, elements⟩ components stack)
    (present : Table.has components i.name = true) :
    Nest context source start scope ⟨rest, elements⟩ components stack :=
  { nest with passed := fun x last => (nest.passed x last).step present }

theorem Nest.grow {later : Components} (nest : Nest context source start scope d components stack)
    (keeps : Keeps components later) : Nest context source start scope d later stack :=
  { nest with
    passed := fun x last => (nest.passed x last).grow keeps
    kept := fun x member name present => keeps name (nest.kept x member name present) }

/-- While nothing that counts is stored, each file awaits the next as it did. -/
theorem Nest.chain_since {file : String} {entering : Components} {before after : List (String × Components)}
    (nest : Nest context source start scope d components stack)
    (split : stack = before ++ (file, entering) :: after)
    (count : storedCount context source entering = storedCount context source components) :
    ((file, entering) :: after).IsChain fun x y => Awaits context entering x.1 y.1 := by
  have suffix : (file, entering) :: after <:+ stack := ⟨before, split.symm⟩
  have later := (List.pairwise_cons.mp (nest.sorted.sublist suffix.sublist)).1
  refine (nest.chain.suffix suffix).imp_of_mem_tail_imp fun x y _ within awaits => ?_
  have keeps := later y within
  have above : storedCount context source y.2 ≤ storedCount context source components :=
    (nest.kept y (suffix.subset (List.mem_cons_of_mem _ within))).count_le source
  exact awaits.of_count keeps (Nat.le_antisymm (keeps.count_le source) (above.trans count.ge))

/-- A file is not entered again with the same names stored, because it would be entered for ever. -/
theorem Nest.fresh (nest : Nest context source start scope ⟨i :: rest, elements⟩ components stack)
    (detects : context.detect = false) (absent : Table.has components i.name = false) :
    (scope.target i, storedCount context source components) ∉
      stack.map fun x => (x.1, storedCount context source x.2) := by
  intro again
  obtain ⟨⟨file, entering⟩, member, same⟩ := List.mem_map.mp again
  obtain ⟨rfl, count⟩ := Prod.mk.inj same
  obtain ⟨before, after, split⟩ := List.append_of_mem member
  obtain ⟨last, ends⟩ : ∃ last, ((scope.target i, entering) :: after).getLast? = some last :=
    ⟨_, List.getLast?_eq_some_getLast (List.cons_ne_nil _ _)⟩
  have innermost : stack.getLast? = some last := by
    rw [split, List.getLast?_append_of_ne_nil _ (List.cons_ne_nil _ _), ends]
  have closes : Awaits context entering last.1 (scope.target i) :=
    ((nest.passed last innermost).awaits (nest.base last innermost) absent).of_count
      (nest.kept _ member) count
  have ring := exists_next_of_ring (nest.chain_since split count) ends closes
  have loop : ∀ path ∈ ((scope.target i, entering) :: after).map Prod.fst,
      ∃ next ∈ ((scope.target i, entering) :: after).map Prod.fst, Awaits context entering path next := by
    intro path listed
    obtain ⟨x, within, rfl⟩ := List.mem_map.mp listed
    obtain ⟨y, following, awaits⟩ := ring x within
    exact ⟨y.1, List.mem_map_of_mem following, awaits⟩
  -- but the file was settled when it was entered
  obtain ⟨text, inner, q, fuel, found, base, store, finishes⟩ := nest.settles _ member
  exact finishes (compileWithin_loop detects loop (List.mem_map_of_mem (List.mem_cons_self ..)) found base
    store fuel)

theorem Nest.enter (nest : Nest context source start scope ⟨i :: rest, elements⟩ components stack)
    (detects : context.detect = false) (absent : Table.has components i.name = false)
    (settles : Settles context (scope.target i) components)
    (imports : importsAt context (scope.target i) = e.imports) :
    Nest context source start (scope.enter (scope.target i)) e components
      (stack ++ [(scope.target i, components)]) where
  depth := by simp [nest.depth, Nat.add_assoc]
  base := by simp
  passed := by simp [Passed, imports]
  kept := by
    intro x member
    rcases List.mem_append.mp member with member | member
    · exact nest.kept x member
    · obtain rfl := List.mem_singleton.mp member
      exact fun _ present => present
  sorted := by
    refine List.pairwise_append.mpr ⟨nest.sorted, List.pairwise_singleton _ _, ?_⟩
    intro x member y last
    obtain rfl := List.mem_singleton.mp last
    exact nest.kept x member
  chain := by
    refine nest.chain.append (List.isChain_singleton _) ?_
    intro x last y first
    obtain rfl : (scope.target i, components) = y := by simpa using first
    exact (nest.passed x last).awaits (nest.base x last) absent
  settles := by
    intro x member
    rcases List.mem_append.mp member with member | member
    · exact nest.settles x member
    · obtain rfl := List.mem_singleton.mp member
      exact settles
  distinct := by
    rw [List.map_append, List.map_singleton, ← List.concat_eq_append]
    exact nest.distinct.concat (nest.fresh detects absent)

theorem Nest.length_le (nest : Nest context source start scope d components stack) :
    scope.resolving.length ≤
      start + Table.size context.files * ((storable context source).length + 1) := by
  have inside : (stack.map fun x => (x.1, storedCount context source x.2)) ⊆
      (context.files.map Prod.fst).dedup ×ˢ List.range ((storable context source).length + 1) := by
    intro pair member
    obtain ⟨x, within, rfl⟩ := List.mem_map.mp member
    obtain ⟨text, -, -, -, found, -⟩ := nest.settles x within
    have key := Table.mem_keys_of_has (Table.has_of_find? found)
    have count : storedCount context source x.2 ≤ (storable context source).length :=
      List.countP_le_length
    exact List.mem_product.mpr ⟨List.mem_dedup.mpr key, List.mem_range.mpr (Nat.lt_succ_of_le count)⟩
  have bound := List.Nodup.length_le_of_subset nest.distinct inside
  rw [List.length_map, List.length_product, List.length_range] at bound
  rw [nest.depth, Table.size]
  omega

theorem Nest.nil (context : Context) (source : String) (scope : Scope) (d : Document)
    (components : Components) : Nest context source scope.resolving.length scope d components [] where
  depth := rfl
  base := by simp
  passed := by simp
  kept := by simp
  sorted := List.Pairwise.nil
  chain := List.isChain_nil
  settles := by simp
  distinct := List.nodup_nil

/-! ### Compiles that end -/

theorem Opens.settles_unread {failure : Failure} (opens : Opens context scope i text)
    (fails : document context.wide context.width text = (.error failure, records))
    (components : Components) : Settles context (scope.target i) components :=
  ⟨text, scope.enter (scope.target i), { components }, 1, opens.found, scope.enter_base _, rfl,
    compileWithin_unread_ends fails 0 _ _⟩

theorem Opens.settles (opens : Opens context scope i text)
    (read : document context.wide context.width text = (.ok e, records))
    (inner : Run context fuel (scope.enter (scope.target i)) e
      ((p.enter i.name (scope.target i)).note records) events outcome)
    (ends : outcome.1 ≠ .error .unending) : Settles context (scope.target i) p.components := by
  have same := ((run_iff read fuel _ _ events outcome).mp inner).2
  exact ⟨text, _, _, fuel + 1, opens.found, scope.enter_base _, p.enter_components _ _, same ▸ ends⟩

theorem Run.nested_le (run : Run context fuel scope d p events outcome)
    (detects : context.detect = false) (ends : outcome.1 ≠ .error .unending)
    (nest : Nest context source start scope d p.components stack) {name target : String} {inner : Scope}
    (entered : .entered name target inner ∈ events) :
    inner.resolving.length ≤
      start + Table.size context.files * ((storable context source).length + 1) := by
  induction run generalizing stack with
  | rendered | refused => simp at entered
  | reused present tail ih => exact ih ends (nest.step present) entered
  | cut absent opens => exact absurd rfl ends
  | @unread fuel scope i rest elements p text failure records absent opens fails =>
    obtain ⟨-, -, rfl⟩ := Event.entered.inj (List.mem_singleton.mp entered)
    have nothing : importsAt context (scope.target i) = (⟨[], []⟩ : Document).imports := by
      simp [importsAt, documentAt, opens.found, fails, Except.toOption]
    exact (nest.enter detects absent (opens.settles_unread fails _) nothing).length_le
  | @failed fuel scope i rest elements p after text e records events failure absent opens read inner ih =>
    have finishes : ((.error failure, after) : Outcome String).1 ≠ .error .unending := by
      intro unending
      cases unending
      exact ends rfl
    have within := nest.enter detects absent (opens.settles read inner finishes)
      (importsAt_of_document (documentAt_of_text opens.found read))
    rcases List.mem_cons.mp entered with first | entered
    · obtain ⟨-, -, rfl⟩ := Event.entered.inj first
      exact within.length_le
    · exact ih finishes within entered
  | @stored fuel scope i rest elements p after text e records events more html outcome absent opens read
      inner tail ihInner ihTail =>
    have finishes : ((.ok html, after) : Outcome String).1 ≠ .error .unending := by simp
    have within := nest.enter detects absent (opens.settles read inner finishes)
      (importsAt_of_document (documentAt_of_text opens.found read))
    have keeps : Keeps p.components (after.store i.name html).components := inner.keeps_import i.name
    simp only [List.cons_append, List.mem_cons, List.mem_append, reduceCtorEq, false_or] at entered
    rcases entered with first | entered | entered
    · obtain ⟨-, -, rfl⟩ := Event.entered.inj first
      exact within.length_le
    · exact ihInner finishes within entered
    · exact ihTail ends ((nest.grow keeps).step (by simp)) entered

theorem Run.nested_lt_depth (run : Run context fuel scope d p events outcome)
    (ends : outcome.1 ≠ .error .unending) (source : String) {name target : String} {inner : Scope}
    (entered : .entered name target inner ∈ events) :
    inner.resolving.length < scope.resolving.length + depth context source := by
  have files := Table.size_le_length context.files
  cases detects : context.detect with
  | true =>
    have enters := run.enters entered
    have bound := enters.depth_le fun added same => (enters.added_fresh detects same).1
    have deep := size_lt_depth context source
    omega
  | false =>
    have bound := run.nested_le detects ends (Nest.nil context source scope d _) entered
    have rounds := Nat.mul_le_mul_right ((storable context source).length + 1) files
    rw [depth, detects, if_neg Bool.false_ne_true]
    omega

end

end

/-- `compile` comes to what any compile that ends comes to. -/
theorem compileWithin_eq_compile {context : Context} {fuel : Nat} {scope : Scope} {source : String}
    {p : Progress} (ends : (compileWithin context fuel scope source p).1 ≠ .error .unending) :
    compileWithin context fuel scope source p = compile context scope source p ∧
      historyWithin context fuel scope source p = history context scope source p := by
  cases fuel with
  | zero => exact absurd rfl ends
  | succ fuel =>
    rcases read : document context.wide context.width source with ⟨failure | d, records⟩
    · rw [compileWithin_unread read, historyWithin_unread read, (compile_unread read).1,
        (compile_unread read).2]
      exact ⟨rfl, rfl⟩
    · have run := compileWithin_run read fuel scope p
      have deep := size_lt_depth context source
      have shallow : ∀ name target inner,
          .entered name target inner ∈ historyWithin context (fuel + 1) scope source p →
            inner.resolving.length ≤ scope.resolving.length + (depth context source - 1) := by
        intro name target inner entered
        have bound := run.nested_lt_depth ends source entered
        omega
      have same := (run_iff read _ scope p _ _).mp (run.less_fuel ends shallow)
      rw [Nat.sub_add_cancel (by omega)] at same
      exact ⟨same.2, same.1⟩

theorem compile_unending_iff {context : Context} {scope : Scope} {source : String} {p : Progress} :
    (compile context scope source p).1 = .error .unending ↔
      ∀ fuel, (compileWithin context fuel scope source p).1 = .error .unending := by
  constructor
  · intro unending fuel
    by_contra ends
    exact ends ((compileWithin_eq_compile ends).1 ▸ unending)
  · exact fun unending => unending _

theorem text_of_unending {context : Context} {fuel : Nat} {path : String} {p : Progress}
    (unending : (fileWithin context fuel path p).1 = .error .unending) :
    ∃ text, Table.find? context.files (Path.canonical path.toList) = some (.ok text) := by
  by_contra closed
  obtain ⟨fault, -, fails⟩ := fileWithin_unopened (not_exists.mp closed)
  rw [fails] at unending
  cases unending

theorem file_unending_iff {context : Context} {path : String} {p : Progress} :
    (file context path p).1 = .error .unending ↔
      ∀ fuel, (fileWithin context fuel path p).1 = .error .unending := by
  constructor
  · intro unending fuel
    obtain ⟨text, found⟩ := text_of_unending (file_eq_fileWithin .. ▸ unending)
    rw [file_of_text found] at unending
    rw [fileWithin_of_text _ _ found]
    exact compile_unending_iff.mp unending fuel
  · intro unending
    rw [file_eq_fileWithin]
    exact unending _

end ElementMarkup.Compile
