import ElementMarkup.Proofs.Compile.Once
import ElementMarkup.Proofs.Html

/-!
The meaning of a file without a store: its elements rendered with the meanings of its own imports.
Where every name stands for one file and every file imports the names that it uses, the shared
store holds meanings only, so compiling a file gives what it means.
-/

namespace ElementMarkup.Compile

def denoteWithin (context : Context) : Nat → String → String
  | 0, _ => ""
  | fuel + 1, path =>
    match documentAt context path with
    | none => ""
    | some d =>
      Html.render (d.imports.map fun i => (i.name, denoteWithin context fuel (linked path i))) d.elements

/-- The meaning of a file: its elements, with what its own imports mean in their places. -/
def denote (context : Context) (path : String) : String :=
  denoteWithin context (Table.size context.files) path

def tagsAt (context : Context) (path : String) : List String :=
  match documentAt context path with
  | some d => Element.childrenTags d.elements
  | none => []

/-- Each file imports every name of the graph that it uses as a tag. -/
def SelfContained (context : Context) (root : String) : Prop :=
  ∀ path, Reaches context root path → ∀ tag ∈ tagsAt context path,
    (∃ target, Binds context root tag target) → ∃ i ∈ importsAt context path, i.name = tag

/-- What is stored under a name is what the file means that it stands for. -/
def Faithful (context : Context) (root : String) (components : Components) : Prop :=
  ∀ name html, Table.find? components name = some html →
    ∃ path, Binds context root name path ∧ html = denote context path

section

variable {context : Context} {root path : String} {scope : Scope} {d : Document} {fuel : Nat}
  {p : Progress} {events : List Event} {outcome : Outcome String} {html : String}

theorem tagsAt_of_document (read : documentAt context path = some d) :
    tagsAt context path = Element.childrenTags d.elements := by
  simp [tagsAt, read]

theorem documentAt_has (read : documentAt context path = some d) :
    Table.has context.files path = true := by
  obtain ⟨text, records, found, -⟩ := documentAt_eq_some read
  exact Table.has_of_find? found

/-- Fuel for all the files that are not on the way to a file is enough for it. -/
theorem denoteWithin_more_fuel (fuel more : Nat) (stack : List String)
    (healthy : Healthy context root) (reached : Reaches context root path) (distinct : stack.Nodup)
    (present : ∀ file ∈ stack, Table.has context.files file = true)
    (leads : ∀ file ∈ stack, Relation.TransGen (Leads context) file path)
    (enough : Table.size context.files ≤ stack.length + fuel) (larger : fuel ≤ more) :
    denoteWithin context more path = denoteWithin context fuel path := by
  induction fuel generalizing more path stack with
  | zero =>
    obtain ⟨d, read⟩ := healthy.readable path reached
    have fresh : path ∉ stack := fun again => healthy.acyclic path reached (leads path again)
    -- all files are on the way already, so this one would be there twice
    have bound := Table.length_le_size (List.nodup_cons.mpr ⟨fresh, distinct⟩)
      (List.forall_mem_cons.mpr ⟨documentAt_has read, present⟩)
    rw [List.length_cons] at bound
    omega
  | succ fuel ih =>
    obtain ⟨more, rfl⟩ : ∃ below, more = below + 1 := ⟨more - 1, by omega⟩
    obtain ⟨d, read⟩ := healthy.readable path reached
    have fresh : path ∉ stack := fun again => healthy.acyclic path reached (leads path again)
    have imports : ∀ i ∈ d.imports,
        (i.name, denoteWithin context more (linked path i)) =
          (i.name, denoteWithin context fuel (linked path i)) := by
      intro i member
      have lead := leads_of_import read member
      have same := ih more (path :: stack) (reached.tail lead) (List.nodup_cons.mpr ⟨fresh, distinct⟩)
        (List.forall_mem_cons.mpr ⟨documentAt_has read, present⟩)
        (List.forall_mem_cons.mpr ⟨.single lead, fun file inside => (leads file inside).tail lead⟩)
        (by rw [List.length_cons]; omega) (by omega)
      rw [same]
    simp only [denoteWithin, read]
    rw [List.map_congr_left imports]

theorem denote_eq (healthy : Healthy context root) (reached : Reaches context root path)
    (read : documentAt context path = some d) :
    denote context path =
      Html.render (d.imports.map fun i => (i.name, denote context (linked path i))) d.elements := by
  have positive := Table.length_le_size (List.nodup_singleton path)
    (List.forall_mem_singleton.mpr (documentAt_has read))
  obtain ⟨fuel, size⟩ : ∃ fuel, Table.size context.files = fuel + 1 :=
    ⟨Table.size context.files - 1, by rw [List.length_singleton] at positive; omega⟩
  have imports : ∀ i ∈ d.imports,
      (i.name, denoteWithin context fuel (linked path i)) = (i.name, denote context (linked path i)) := by
    intro i member
    have lead := leads_of_import read member
    have same := denoteWithin_more_fuel fuel (fuel + 1) [path] healthy
      (reached.tail lead) (List.nodup_singleton path)
      (List.forall_mem_singleton.mpr (documentAt_has read))
      (List.forall_mem_singleton.mpr (.single lead)) (by rw [List.length_singleton]; omega) (by omega)
    rw [denote, size, same]
  rw [denote, size, denoteWithin, read]
  simp only
  rw [List.map_congr_left imports]

/-! ### Stores of meanings -/

theorem Faithful.store {name target : String} {components : Components}
    (faithful : Faithful context root components) (binds : Binds context root name target) :
    Faithful context root (Table.store components name (denote context target)) := by
  intro other html found
  rw [Table.find?_store] at found
  split at found
  · rename_i same
    subst same
    exact ⟨target, binds, (Option.some.inj found).symm⟩
  · exact faithful other html found

theorem Faithful.find?_of_binds {name target : String} {components : Components}
    (faithful : Faithful context root components) (consistent : Consistent context root)
    (present : Table.has components name = true) (binds : Binds context root name target) :
    Table.find? components name = some (denote context target) := by
  obtain ⟨html, found⟩ := Table.has_iff.mp present
  obtain ⟨path, bound, rfl⟩ := faithful name html found
  obtain rfl := consistent name path target bound binds
  exact found

/-- The other names in the store are names of the graph, which the file does not use. -/
theorem Faithful.render_eq {components : Components} (faithful : Faithful context root components)
    (healthy : Healthy context root) (consistent : Consistent context root)
    (contained : SelfContained context root) (reached : Reaches context root path)
    (read : documentAt context path = some d)
    (imported : ∀ i ∈ d.imports, Table.has components i.name = true) :
    Html.render components d.elements = denote context path := by
  rw [denote_eq healthy reached read]
  apply Html.render_congr
  intro tag used
  by_cases bound : ∃ i ∈ d.imports, i.name = tag
  · obtain ⟨i, member, rfl⟩ := bound
    obtain ⟨meaning, found⟩ := Table.has_iff.mp
      (Table.has_map (·.name) (fun i => denote context (linked path i)) member)
    obtain ⟨j, within, same, rfl⟩ := Table.find?_map found
    rw [found, ← same]
    exact faithful.find?_of_binds consistent (imported j within)
      (binds_of_import reached read within)
  · have unmapped : Table.find? (d.imports.map fun i => (i.name, denote context (linked path i))) tag =
        none := by
      by_contra mapped
      obtain ⟨meaning, found⟩ := Option.ne_none_iff_exists'.mp mapped
      obtain ⟨i, member, same, -⟩ := Table.find?_map found
      exact bound ⟨i, member, same⟩
    rw [unmapped]
    by_contra stored
    obtain ⟨html, found⟩ := Option.ne_none_iff_exists'.mp stored
    obtain ⟨target, binds, -⟩ := faithful tag html found
    have imports := contained path reached tag (by rwa [tagsAt_of_document read]) ⟨target, binds⟩
    rw [importsAt_of_document read] at imports
    exact bound imports

theorem Run.keeps_faithful (run : Run context fuel scope d p events outcome)
    (healthy : Healthy context root) (consistent : Consistent context root)
    (contained : SelfContained context root) (stands : Stands context root scope d path)
    (faithful : Faithful context root p.components) :
    Faithful context root outcome.2.components := by
  induction run generalizing path with
  | rendered | cut | unread => exact faithful
  | reused present tail ih => exact ih stands.rest faithful
  | refused absent refusal =>
    rw [refusal.components]
    exact faithful
  | failed absent opens read inner ih =>
    exact ih (stands.enter (List.mem_cons_self ..) opens read) faithful
  | @stored fuel scope i rest elements p finished text e records events more part outcome absent opens
      read inner tail ihInner ihTail =>
    have nested := stands.enter (List.mem_cons_self ..) opens read
    have below := ihInner nested faithful
    -- the imported file has been rendered with a store that is faithful and has its imports
    have meaning : part = denote context (scope.target i) :=
      (inner.html_eq rfl).trans (below.render_eq healthy consistent contained nested.reached
        (documentAt_of_text opens.found read) (inner.imports_stored rfl))
    rw [meaning] at tail ihTail
    exact ihTail stands.rest (below.store (stands.binds (List.mem_cons_self ..)))

theorem selfContained_of_closed (files : List String)
    (closed : ∀ file ∈ files, ∀ i ∈ importsAt context file, linked file i ∈ files)
    (start : root ∈ files)
    (own : ∀ file ∈ files, ∀ tag ∈ tagsAt context file, ∀ other ∈ files,
      ∀ j ∈ importsAt context other, j.name = tag → ∃ i ∈ importsAt context file, i.name = tag) :
    SelfContained context root := by
  rintro path reaches tag used ⟨target, other, reached, j, member, name, -⟩
  exact own path (Reaches.mem_of_closed closed start reaches) tag used other
    (Reaches.mem_of_closed closed start reached) j member name

end

theorem file_run {context : Context} {path : String} {d : Document} (p : Progress)
    (read : documentAt context (Path.canonical path.toList) = some d) :
    ∃ fuel records, Run context fuel
      ⟨Path.directory (Path.canonical path.toList), [Path.canonical path.toList]⟩ d
      (((p.call (.asked (Path.canonical path.toList))).call
        (.opened (Path.canonical path.toList))).note records)
      (fileHistory context path p) (file context path p) := by
  obtain ⟨text, records, found, parsed⟩ := documentAt_eq_some read
  refine ⟨depth context text - 1, records, ?_⟩
  rw [file_of_text found, fileHistory_of_text found]
  exact compile_run parsed

/-- The shared store does not show: compiling a file gives what it means, and leaves what its
imports mean. From an empty store no name is compiled twice. -/
theorem file_denotes (context : Context) (path : String) (p : Progress)
    (healthy : Healthy context (Path.canonical path.toList))
    (consistent : Consistent context (Path.canonical path.toList))
    (contained : SelfContained context (Path.canonical path.toList))
    (faithful : Faithful context (Path.canonical path.toList) p.components) :
    (∀ file d, Reaches context (Path.canonical path.toList) file → documentAt context file = some d →
      denote context file =
        Html.render (d.imports.map fun i => (i.name, denote context (linked file i))) d.elements) ∧
    (file context path p).1 = .ok (denote context (Path.canonical path.toList)) ∧
    (∀ i ∈ importsAt context (Path.canonical path.toList),
      Table.find? (file context path p).2.components i.name =
        some (denote context (linked (Path.canonical path.toList) i))) ∧
    (p.components = [] →
      ((enteredFiles (fileHistory context path p)).map Prod.fst).Nodup ∧
      (∀ name target, (name, target) ∈ enteredFiles (fileHistory context path p) ↔
        Binds context (Path.canonical path.toList) name target) ∧
      reads (file context path p).2.calls =
        reads p.calls ++ Path.canonical path.toList ::
          (enteredFiles (fileHistory context path p)).map Prod.snd) := by
  obtain ⟨d, read⟩ := healthy.readable _ .refl
  obtain ⟨html, succeeds⟩ := healthy.compiles p
  obtain ⟨fuel, records, run⟩ := file_run p read
  have stands := Stands.start read
  have imports := importsAt_of_document read
  have stored := run.imports_stored succeeds
  have after := run.keeps_faithful healthy consistent contained stands faithful
  refine ⟨fun file d reached => denote_eq healthy reached, ?_, ?_, fun empty => ⟨?_, ?_, ?_⟩⟩
  · rw [succeeds, run.html_eq succeeds,
      after.render_eq healthy consistent contained .refl read stored]
  · intro i member
    rw [imports] at member
    exact after.find?_of_binds consistent (stored i member) (binds_of_import .refl read member)
  · exact run.entered_nodup healthy consistent stands
  · exact run.entered_iff consistent stands imports.symm empty succeeds
  · rw [run.reads_eq succeeds]
    simp [Progress.call, reads]

theorem diamond_denotes :
    Healthy diamond (Path.canonical "/page".toList) ∧
      Consistent diamond (Path.canonical "/page".toList) ∧
      SelfContained diamond (Path.canonical "/page".toList) ∧
      Faithful diamond (Path.canonical "/page".toList) [] ∧
      (file diamond "/page" {}).1 = .ok (denote diamond (Path.canonical "/page".toList)) ∧
      ((enteredFiles (fileHistory diamond "/page" {})).map Prod.fst).Nodup := by
  have compiles : (file diamond "/page" {}).1 = .ok "<div><p>x</p></div>\n<p>x</p>" := by decide +kernel
  have healthy := (file_grounded diamond_consistent rfl compiles).healthy
  have contained : SelfContained diamond (Path.canonical "/page".toList) := by
    apply selfContained_of_closed ["/page", "/a", "/b", "/s"] <;> decide +kernel
  have faithful : Faithful diamond (Path.canonical "/page".toList) [] := by simp [Faithful]
  obtain ⟨-, result, -, once⟩ :=
    file_denotes diamond "/page" {} healthy diamond_consistent contained faithful
  exact ⟨healthy, diamond_consistent, contained, faithful, result, (once rfl).1⟩

end ElementMarkup.Compile
