import ElementMarkup.Proofs.Compile.Detection
import ElementMarkup.Proofs.Compile.Once

/-!
Compiles that never end. If every name stands for one file, a compile that cycle detection refuses
never ends without it: the files of the cycle wait for each other, and what they wait for is never
stored.
-/

namespace ElementMarkup.Compile

section

variable {context : Context} {root path : String} {scope : Scope} {d e : Document} {fuel : Nat}
  {p : Progress} {events : List Event} {outcome : Outcome String} {i : Import} {text : String}
  {records : List Record} {components : Components}

/-- What is left of the file at `path` is compiled while each file awaits the next. -/
structure Waits (context : Context) (root : String) (scope : Scope) (d : Document) (path : String)
    (components : Components) : Prop where
  reached : ∀ file ∈ scope.resolving, Reaches context root file
  last : scope.resolving.getLast? = some path
  chain : scope.resolving.IsChain (Awaits context components)
  passed : Passed context path components d.imports

theorem Waits.rest {rest : List Import} {elements : List Element}
    (waits : Waits context root scope ⟨i :: rest, elements⟩ path components)
    (present : Table.has components i.name = true) :
    Waits context root scope ⟨rest, elements⟩ path components :=
  { waits with passed := waits.passed.step present }

theorem Waits.enter {rest : List Import} {elements : List Element}
    (stands : Stands context root scope ⟨i :: rest, elements⟩ path)
    (waits : Waits context root scope ⟨i :: rest, elements⟩ path components)
    (absent : Table.has components i.name = false) (opens : Opens context scope i text)
    (read : document context.wide context.width text = (.ok e, records)) :
    Waits context root (scope.enter (scope.target i)) e (scope.target i) components where
  reached := by
    intro file member
    rcases List.mem_append.mp member with member | member
    · exact waits.reached file member
    · obtain rfl := List.mem_singleton.mp member
      exact stands.target_reached (List.mem_cons_self ..)
  last := by simp
  chain := by
    refine waits.chain.append (List.isChain_singleton _) ?_
    intro last ends target same
    obtain rfl : path = last := by simpa [waits.last] using ends
    obtain rfl : scope.target i = target := by simpa using same
    exact waits.passed.awaits stands.base absent
  passed := ⟨[], importsAt_of_document (documentAt_of_text opens.found read), by simp⟩

/-- More may be stored as long as it is not what the files being compiled are awaited for. -/
theorem Waits.grow {later : Components} (waits : Waits context root scope d path components)
    (keeps : Keeps components later)
    (spares : ∀ name, ∀ file ∈ scope.resolving, Binds context root name file →
      Table.has components name = false → Table.has later name = false) :
    Waits context root scope d path later := by
  refine { waits with
    chain := waits.chain.imp_of_mem_imp ?_
    passed := waits.passed.grow keeps }
  rintro file next member within ⟨i, first, rfl⟩
  obtain ⟨absent, earlier, rest, split, present⟩ := List.find?_eq_some_iff_append.mp first
  have own : i ∈ importsAt context file := by simp [split]
  have spared := spares i.name _ within ⟨file, waits.reached file member, i, own, rfl, rfl⟩
    (by simpa using absent)
  refine ⟨i, ?_, rfl⟩
  rw [pending, split, List.find?_append, List.find?_eq_none.mpr]
  · simp [spared]
  · intro j inside
    have before := present j inside
    simp only [Bool.not_not] at before
    simp [keeps j.name before]

theorem Waits.file (read : documentAt context root = some d) (components : Components) :
    Waits context root ⟨Path.directory root, [root]⟩ d root components where
  reached := by simp [Reaches, Relation.ReflTransGen.refl]
  last := rfl
  chain := List.isChain_singleton _
  passed := ⟨[], importsAt_of_document read, by simp⟩

/-! ### Compiles that are refused -/

/-- With detection, a name for a file that is being compiled is not stored. -/
theorem Run.spares (run : Run context fuel scope d p events outcome) (detects : context.detect = true)
    (consistent : Consistent context root) (stands : Stands context root scope d path)
    {name file : String} (member : file ∈ scope.resolving) (binds : Binds context root name file) :
    name ∉ storedNames events := by
  intro stored
  obtain ⟨target, entered⟩ := run.stored_entered stored
  obtain rfl := consistent _ _ _ binds (run.entered_binds stands entered).1
  obtain ⟨inner, occurs⟩ := mem_enteredFiles.mp entered
  have enters := run.enters occurs
  obtain ⟨added, same, last, -⟩ := enters.resolving
  exact (enters.added_fresh detects same).2 file (List.mem_of_getLast? last) member

theorem Waits.unending {rest : List Import} {elements : List Element}
    (waits : Waits context root scope ⟨i :: rest, elements⟩ path p.components)
    (stands : Stands context root scope ⟨i :: rest, elements⟩ path)
    (absent : Table.has p.components i.name = false) (again : scope.target i ∈ scope.resolving)
    (fuel : Nat) :
    (resolveAll (context.detecting false) (compileWithin (context.detecting false) fuel) scope (i :: rest)
      p).1 = .error .unending := by
  have closes := waits.passed.awaits stands.base absent
  -- the files from the one that is entered again onwards await each other in a ring
  obtain ⟨before, after, split⟩ := List.append_of_mem again
  have loop : ∀ file ∈ scope.target i :: after, ∃ next ∈ scope.target i :: after,
      Awaits (context.detecting false) p.components file next := by
    have suffix : scope.target i :: after <:+ scope.resolving := ⟨before, split.symm⟩
    have ends : (scope.target i :: after).getLast? = some path := by
      rw [← waits.last, split, List.getLast?_append_of_ne_nil _ (List.cons_ne_nil _ _)]
    exact exists_next_of_ring (waits.chain.suffix suffix) ends closes
  obtain ⟨next, -, awaits⟩ := loop _ (List.mem_cons_self ..)
  obtain ⟨text, d, records, found, -, -⟩ := awaits.read
  have opens : Opens (context.detecting false) scope i text :=
    ⟨fun detects => Bool.false_ne_true detects.1, found⟩
  exact resolveAll_unending absent opens
    (compileWithin_loop rfl loop (List.mem_cons_self ..) found (scope.enter_base _)
      (p.enter_components _ _) fuel)

theorem Waits.stored {rest : List Import} {elements : List Element} {after : Progress} {html : String}
    (waits : Waits context root scope ⟨i :: rest, elements⟩ path p.components)
    (stands : Stands context root scope ⟨i :: rest, elements⟩ path) (detects : context.detect = true)
    (consistent : Consistent context root) (opens : Opens context scope i text)
    (read : document context.wide context.width text = (.ok e, records))
    (inner : Run context fuel (scope.enter (scope.target i)) e
      ((p.enter i.name (scope.target i)).note records) events (.ok html, after)) :
    Waits context root scope ⟨rest, elements⟩ path (after.store i.name html).components := by
  have nested := stands.enter (List.mem_cons_self ..) opens read
  have replayed : after.components = replay p.components events := inner.replay_eq
  have grown : Waits context root scope ⟨i :: rest, elements⟩ path
      (after.store i.name html).components := by
    refine waits.grow (inner.keeps_import i.name) ?_
    intro name file member binds absent
    have other : name ≠ i.name := by
      rintro rfl
      obtain rfl := consistent _ _ _ binds (stands.binds (List.mem_cons_self ..))
      exact opens.fresh detects member
    have unstored : name ∉ storedNames events :=
      inner.spares detects consistent nested (List.mem_append_left _ member) binds
    have still : ¬ Table.has (replay p.components events) name = true := by
      rw [has_replay]
      simp [unstored, absent]
    simpa [other, replayed] using still
  exact grown.rest (by simp)

theorem Run.never_ends (run : Run context fuel scope d p events outcome)
    (detects : context.detect = true) (consistent : Consistent context root)
    (stands : Stands context root scope d path) (waits : Waits context root scope d path p.components)
    (refuses : RefusesCycle outcome.1) (more : Nat) :
    (resolveAll (context.detecting false) (compileWithin (context.detecting false) more) scope d.imports
      p).1 = .error .unending := by
  induction run generalizing path more with
  | rendered => exact absurd refuses (not_refusesCycle_ok _)
  | reused present tail ih =>
    rw [resolveAll, resolve_reused present]
    exact ih stands.rest (waits.rest present) refuses more
  | refused absent refusal =>
    have cyclic := refuses.of_attribute
    cases refusal with
    | cyclic _ again => exact waits.unending stands absent again more
    | notFound | unreadable =>
      obtain ⟨diagnostic, same, kind⟩ := cyclic
      cases same
      cases kind
  | cut =>
    obtain ⟨diagnostic, impossible, -⟩ := refuses
    cases impossible
  | unread absent opens fails =>
    exact absurd refuses.of_attribute.of_attribute (not_refusesCycle_of_unread fails)
  | @failed fuel scope i rest elements p after text e records events failure absent opens read inner ih =>
    have nested := stands.enter (List.mem_cons_self ..) opens read
    have waiting := waits.enter stands absent opens read
    refine resolveAll_unending absent opens.undetected ?_
    cases more with
    | zero => rfl
    | succ more =>
      have readToo : document (context.detecting false).wide (context.detecting false).width text =
          (.ok e, records) := read
      rw [compileWithin_read readToo]
      exact finish_unending _ _ (ih nested waiting refuses.of_attribute more)
  | @stored fuel scope i rest elements p after text e records events later html outcome absent opens read
      inner tail ihInner ihTail =>
    by_cases unending : (compileWithin (context.detecting false) more (scope.enter (scope.target i)) text
        (p.enter i.name (scope.target i))).1 = .error .unending
    · exact resolveAll_unending absent opens.undetected unending
    · -- the import comes to what it came to with detection, and the next ones go on from there
      have compiled := inner.compiled_undetected read (not_refusesCycle_ok html)
      have result := (compileWithin_ended_eq unending (by simp [compiled])).trans compiled
      rw [resolveAll, resolve_stored absent opens.undetected result]
      exact ihTail stands.rest (waits.stored stands detects consistent opens read inner) refuses more

theorem compileWithin_never_ends
    (refuses : RefusesCycle (compileWithin context fuel ⟨Path.directory root, [root]⟩ text p).1)
    (detects : context.detect = true) (consistent : Consistent context root)
    (found : Table.find? context.files root = some (.ok text)) (more : Nat) :
    (compileWithin (context.detecting false) more ⟨Path.directory root, [root]⟩ text p).1 =
      .error .unending := by
  cases fuel with
  | zero =>
    obtain ⟨diagnostic, impossible, -⟩ := refuses
    cases impossible
  | succ fuel =>
    rcases read : document context.wide context.width text with ⟨failure | d, records⟩
    · rw [compileWithin_unread read] at refuses
      exact absurd refuses.of_attribute (not_refusesCycle_of_unread read)
    · cases more with
      | zero => rfl
      | succ more =>
        have readAt := documentAt_of_text found read
        have readToo : document (context.detecting false).wide (context.detecting false).width text =
            (.ok d, records) := read
        have unending := (compileWithin_run read fuel _ p).never_ends detects consistent
          (Stands.start readAt) (Waits.file readAt _) refuses more
        rw [compileWithin_read readToo]
        exact finish_unending _ _ unending

end

section

variable {context : Context} {path : String} {p : Progress} {fuel : Nat}

theorem text_of_refusesCycle (refuses : RefusesCycle (fileWithin context fuel path p).1) :
    ∃ text, Table.find? context.files (Path.canonical path.toList) = some (.ok text) := by
  by_contra closed
  obtain ⟨fault, unopened, fails⟩ := fileWithin_unopened (not_exists.mp closed)
  obtain ⟨diagnostic, same, kind⟩ := refuses
  rw [fails] at same
  cases same
  cases unopened <;> cases kind

theorem fileWithin_never_ends
    (refuses : RefusesCycle (fileWithin (context.detecting true) fuel path p).1)
    (consistent : Consistent context (Path.canonical path.toList)) (more : Nat) :
    (fileWithin (context.detecting false) more path p).1 = .error .unending := by
  obtain ⟨text, found⟩ := text_of_refusesCycle refuses
  have foundToo : Table.find? (context.detecting false).files (Path.canonical path.toList) =
      some (.ok text) := found
  rw [fileWithin_of_text _ _ found] at refuses
  rw [fileWithin_of_text _ _ foundToo]
  exact compileWithin_never_ends refuses rfl consistent found more

theorem compile_unending_refusesCycle {scope : Scope} {source : String} (distinct : scope.resolving.Nodup)
    (unending : (compile (context.detecting false) scope source p).1 = .error .unending) :
    RefusesCycle (compile (context.detecting true) scope source p).1 := by
  have fresh : NestsDistinct (context.detecting true) scope source :=
    fun _ _ _ _ _ _ enters => enters.nodup rfl distinct
  have ends : (compile (context.detecting true) scope source p).1 ≠ .error .unending :=
    compileWithin_ends (size_lt_depth (context.detecting true) source) fresh
  by_contra accepted
  have same := compile_undetected ends accepted (Nat.le_refl _)
  exact ends (same ▸ compile_unending_iff.mp unending _)

theorem file_unending_refusesCycle
    (unending : (file (context.detecting false) path p).1 = .error .unending) :
    RefusesCycle (file (context.detecting true) path p).1 := by
  obtain ⟨text, found⟩ := text_of_unending (file_eq_fileWithin .. ▸ unending)
  have foundToo : Table.find? (context.detecting true).files (Path.canonical path.toList) =
      some (.ok text) := found
  rw [file_of_text found] at unending
  rw [file_of_text foundToo]
  exact compile_unending_refusesCycle (List.nodup_singleton _) unending

end

/-- Where every name stands for one file, detection refuses exactly the compiles that would never
end. -/
theorem cyclic_iff_never_ends (context : Context) (path : String) (p : Progress)
    (consistent : Consistent context (Path.canonical path.toList)) :
    (∃ diagnostic, (file (context.detecting true) path p).1 = .error (.diagnosed diagnostic) ∧
        diagnostic.kind = .cyclicImport) ↔
      ∀ fuel, (fileWithin (context.detecting false) fuel path p).1 = .error .unending := by
  constructor
  · intro refuses fuel
    rw [file_eq_fileWithin] at refuses
    exact fileWithin_never_ends refuses consistent fuel
  · intro unending
    exact file_unending_refusesCycle (file_unending_iff.mpr unending)

def ring : Context where
  files := [("/page", .ok "import A from \"a\"; A:;"),
    ("/a", .ok "import S from \"s\"; import B from \"b\"; S:;"),
    ("/b", .ok "import S from \"./s\"; import T from \"t\"; import A from \"a\"; A:;"),
    ("/s", .ok "p: content:{x};"), ("/t", .ok "i:;")]

theorem ring_never_ends :
    Consistent ring (Path.canonical "/page".toList) ∧
      (file (ring.detecting true) "/page" { components := [("T", "kept")] }).1 =
        .error (Fault.cyclic "A" "/a" ["/a", "/b"]).failure ∧
      ∀ fuel, (fileWithin (ring.detecting false) fuel "/page" { components := [("T", "kept")] }).1 =
        .error .unending := by
  have consistent : Consistent ring (Path.canonical "/page".toList) := by
    apply consistent_of_closed ["/page", "/a", "/b", "/s", "/t"] <;> decide +kernel
  have refused : (file (ring.detecting true) "/page" { components := [("T", "kept")] }).1 =
      .error (Fault.cyclic "A" "/a" ["/a", "/b"]).failure := by
    decide +kernel
  exact ⟨consistent, refused, (cyclic_iff_never_ends ring "/page" _ consistent).mp ⟨_, refused, rfl⟩⟩

end ElementMarkup.Compile
