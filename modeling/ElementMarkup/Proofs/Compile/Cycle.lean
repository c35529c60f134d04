import Mathlib.Data.List.Chain
import ElementMarkup.Proofs.Compile.Health

/-!
Cycles of imports. In every scope of a compile the files being compiled form a path of the import
graph that ends at the file whose imports are resolved next. An import that is refused for leading
back to one of them therefore closes a cycle, and the diagnostic spells out that cycle.
-/

namespace ElementMarkup.Compile

/-- Different files, each of which imports the next, while the last imports the first under `name`. -/
structure Cycle (context : Context) (name first : String) (rest : List String) : Prop where
  distinct : (first :: rest).Nodup
  present : ∀ file ∈ first :: rest, Table.has context.files file = true
  leads : (first :: rest).IsChain (Leads context)
  closes : ∃ last, (first :: rest).getLast? = some last ∧
    ∃ i ∈ importsAt context last, i.name = name ∧ linked last i = first

/-- A diagnostic spells out a cycle of imports, whose first file is `Reached`. -/
def SpellsCycle (context : Context) (Reached : String → Prop) (diagnostic : Diagnostic) : Prop :=
  ∃ name first rest, diagnostic.path = some first ∧
    diagnostic.message = "Import of '" ++ name ++ "' re-enters a file being compiled: " ++
      " -> ".intercalate (first :: rest ++ [first]) ∧
    Cycle context name first rest ∧ Reached first

def ReachedBy (context : Context) (base source path : String) : Prop :=
  ∃ d records, document context.wide context.width source = (.ok d, records) ∧
    ∃ i ∈ d.imports, Reaches context (Path.resolve base i.path) path

section

variable {context : Context} {Reached : String → Prop} {scope : Scope} {d e : Document} {i : Import}
  {text : String} {records : List Record} {diagnostic : Diagnostic} {failure : Failure}

/-- The files being compiled form a path of the import graph, and what is left belongs to the last.
-/
structure Trail (context : Context) (Reached : String → Prop) (scope : Scope) (d : Document) :
    Prop where
  closed : ∀ path next, Reached path → Leads context path next → Reached next
  distinct : context.detect = true → scope.resolving.Nodup
  present : ∀ file ∈ scope.resolving, Table.has context.files file = true
  reached : ∀ file ∈ scope.resolving, Reached file
  leads : scope.resolving.IsChain (Leads context)
  base : ∀ path ∈ scope.resolving.getLast?, scope.base = Path.directory path
  own : ∀ path ∈ scope.resolving.getLast?, ∀ i ∈ d.imports, i ∈ importsAt context path
  targets : ∀ i ∈ d.imports, Reached (scope.target i)

theorem Trail.rest {rest : List Import} {elements : List Element}
    (trail : Trail context Reached scope ⟨i :: rest, elements⟩) :
    Trail context Reached scope ⟨rest, elements⟩ :=
  { trail with
    own := fun path last j member => trail.own path last j (List.mem_cons_of_mem _ member)
    targets := fun j member => trail.targets j (List.mem_cons_of_mem _ member) }

theorem Trail.target_eq (trail : Trail context Reached scope d) {last : String}
    (ends : scope.resolving.getLast? = some last) (i : Import) : scope.target i = linked last i := by
  rw [Scope.target, linked, trail.base last ends]

theorem Scope.enter_target (scope : Scope) (target : String) (i : Import) :
    (scope.enter target).target i = linked target i := by
  rw [Scope.target, Scope.enter_base, linked]

theorem Trail.enter (trail : Trail context Reached scope d) (member : i ∈ d.imports)
    (opens : Opens context scope i text)
    (read : document context.wide context.width text = (.ok e, records)) :
    Trail context Reached (scope.enter (scope.target i)) e := by
  have imports : importsAt context (scope.target i) = e.imports :=
    importsAt_of_document (documentAt_of_text opens.found read)
  have reached := trail.targets i member
  refine ⟨trail.closed, ?_, ?_, ?_, ?_, ?_, ?_, ?_⟩
  · intro detects
    exact Scope.enter_nodup (trail.distinct detects) (opens.fresh detects)
  · simp only [Scope.enter_resolving, List.mem_append, List.mem_singleton]
    rintro file (inside | rfl)
    · exact trail.present file inside
    · exact Table.has_of_find? opens.found
  · simp only [Scope.enter_resolving, List.mem_append, List.mem_singleton]
    rintro file (inside | rfl)
    · exact trail.reached file inside
    · exact reached
  · refine trail.leads.append (List.isChain_singleton _) ?_
    intro last ends target same
    obtain rfl : scope.target i = target := by simpa using same
    exact ⟨i, trail.own last ends i member, (trail.target_eq ends i).symm⟩
  · simp
  · simp [imports]
  · intro j inside
    rw [Scope.enter_target]
    exact trail.closed _ _ reached ⟨j, by rwa [imports], rfl⟩

/-- An import that leads back to a file being compiled closes the path from that file on. -/
theorem Trail.cycle (trail : Trail context Reached scope d) (member : i ∈ d.imports)
    (detects : context.detect = true) (again : scope.target i ∈ scope.resolving) :
    ∃ rest, scope.resolving.dropWhile (· != scope.target i) = scope.target i :: rest ∧
      Cycle context i.name (scope.target i) rest := by
  obtain ⟨before, rest, same, early⟩ := List.eq_append_cons_of_mem again
  have dropped : scope.resolving.dropWhile (· != scope.target i) = scope.target i :: rest := by
    rw [same, List.dropWhile_append_of_pos]
    · simp
    · intro file inside
      simpa using fun hit : file = scope.target i => early (hit ▸ inside)
  have suffix : scope.target i :: rest <:+ scope.resolving := ⟨before, same.symm⟩
  refine ⟨rest, dropped, ?_, ?_, trail.leads.suffix suffix, ?_⟩
  · exact (trail.distinct detects).sublist suffix.sublist
  · exact fun file inside => trail.present file (suffix.subset inside)
  · obtain ⟨last, ends⟩ : ∃ last, (scope.target i :: rest).getLast? = some last :=
      ⟨_, List.getLast?_eq_some_getLast (List.cons_ne_nil _ _)⟩
    have whole : scope.resolving.getLast? = some last := by rw [same, List.getLast?_append, ends]; rfl
    exact ⟨last, ends, i, trail.own last whole i member, rfl, (trail.target_eq whole i).symm⟩

theorem Trail.file {root : String} (read : documentAt context root = some d) :
    Trail context (Reaches context root) ⟨Path.directory root, [root]⟩ d := by
  obtain ⟨text, records, found, -⟩ := documentAt_eq_some read
  have imports := importsAt_of_document read
  refine ⟨fun _ _ reached leads => reached.tail leads, ?_, ?_, ?_, List.isChain_singleton _, ?_, ?_, ?_⟩
  · simp
  · simpa using Table.has_of_find? found
  · simp [Reaches, Relation.ReflTransGen.refl]
  · simp
  · simp [imports]
  · exact fun i member => .single ⟨i, by rwa [imports], rfl⟩

theorem Trail.source {base source : String}
    (read : document context.wide context.width source = (.ok d, records)) :
    Trail context (ReachedBy context base source) ⟨base, []⟩ d := by
  refine ⟨?_, by simp, by simp, by simp, List.isChain_nil, by simp, by simp, ?_⟩
  · rintro path next ⟨d, records, read, i, member, reaches⟩ leads
    exact ⟨d, records, read, i, member, reaches.tail leads⟩
  · exact fun i member => ⟨d, records, read, i, member, .refl⟩

/-! ### Diagnostics -/

theorem Scope.attribute_of_path {path : String} (named : diagnostic.path = some path) :
    scope.attribute (.diagnosed diagnostic) = .diagnosed diagnostic := by
  simp [Scope.attribute, named]

theorem Scope.attribute_kind (attributed : scope.attribute failure = .diagnosed diagnostic) :
    ∃ cause, failure = .diagnosed cause ∧ cause.kind = diagnostic.kind := by
  cases failure with
  | diagnosed cause =>
    refine ⟨cause, rfl, ?_⟩
    rw [Scope.attribute] at attributed
    split at attributed
    · cases attributed
      rfl
    · cases attributed
      rfl
  | offEnd => cases attributed
  | unending => cases attributed

theorem document_kind_ne_cyclicImport
    (fails : document context.wide context.width text = (.error (.diagnosed diagnostic), records)) :
    diagnostic.kind ≠ .cyclicImport := by
  obtain ⟨cause, same, -, kind⟩ := document_reported fails
  obtain rfl := Failure.diagnosed.inj same
  intro cyclic
  rw [cyclic] at kind
  cases kind

theorem Refusal.spells_cycle {p after : Progress} {fault : Fault}
    (refusal : Refusal context scope i p fault after) (trail : Trail context Reached scope d)
    (member : i ∈ d.imports)
    (fails : scope.attribute fault.failure = .diagnosed diagnostic)
    (kind : diagnostic.kind = .cyclicImport) : SpellsCycle context Reached diagnostic := by
  rw [Fault.failure, Scope.attribute_of_path rfl] at fails
  cases fails
  cases refusal with
  | cyclic detects again =>
    obtain ⟨rest, chain, cycle⟩ := trail.cycle member detects again
    rw [chain]
    exact ⟨i.name, scope.target i, rest, rfl, rfl, cycle, trail.targets i member⟩
  | notFound => cases kind
  | unreadable => cases kind

/-- The innermost compile refuses the import, and those around it hand the diagnostic on unchanged.
-/
theorem Run.spells_cycle {fuel : Nat} {p : Progress} {events : List Event} {outcome : Outcome String}
    (run : Run context fuel scope d p events outcome) (trail : Trail context Reached scope d)
    (fails : outcome.1 = .error (.diagnosed diagnostic)) (kind : diagnostic.kind = .cyclicImport) :
    SpellsCycle context Reached diagnostic := by
  induction run generalizing diagnostic with
  | rendered => cases fails
  | reused present tail ih => exact ih trail.rest fails kind
  | refused absent refusal =>
    exact refusal.spells_cycle trail (List.mem_cons_self ..) (Except.error.inj fails) kind
  | cut => cases fails
  | unread absent opens unread =>
    obtain ⟨cause, inner, same⟩ := Scope.attribute_kind (Except.error.inj fails)
    obtain ⟨origin, rfl, like⟩ := Scope.attribute_kind inner
    exact absurd (like.trans (same.trans kind)) (document_kind_ne_cyclicImport unread)
  | failed absent opens read inner ih =>
    obtain ⟨cause, rfl, same⟩ := Scope.attribute_kind (Except.error.inj fails)
    have spelled := ih (trail.enter (List.mem_cons_self ..) opens read) rfl (same.trans kind)
    have named : ∃ first, cause.path = some first := by
      obtain ⟨name, first, rest, path, -⟩ := spelled
      exact ⟨first, path⟩
    -- the scope around it adds nothing to a diagnostic that names its file
    obtain ⟨first, path⟩ := named
    rw [Scope.attribute_of_path path] at fails
    cases fails
    exact spelled
  | stored absent opens read inner tail ihInner ihTail => exact ihTail trail.rest fails kind

theorem compile_spells_cycle {source : String} {p : Progress}
    (trail : ∀ d records, document context.wide context.width source = (.ok d, records) →
      Trail context Reached scope d)
    (fails : (compile context scope source p).1 = .error (.diagnosed diagnostic))
    (kind : diagnostic.kind = .cyclicImport) : SpellsCycle context Reached diagnostic := by
  rcases read : document context.wide context.width source with ⟨failure | d, records⟩
  · rw [(compile_unread read).1] at fails
    obtain ⟨cause, rfl, same⟩ := Scope.attribute_kind (Except.error.inj fails)
    exact absurd (same.trans kind) (document_kind_ne_cyclicImport read)
  · exact (compile_run read).spells_cycle (trail d records read) fails kind

theorem file_spells_cycle {path : String} {p : Progress}
    (fails : (file context path p).1 = .error (.diagnosed diagnostic))
    (kind : diagnostic.kind = .cyclicImport) :
    SpellsCycle context (Reaches context (Path.canonical path.toList)) diagnostic := by
  match found : Table.find? context.files (Path.canonical path.toList) with
  | none =>
    simp only [file, found] at fails
    cases fails
    cases kind
  | some (.error cause) =>
    simp only [file, found] at fails
    cases fails
    cases kind
  | some (.ok text) =>
    rw [file_of_text found] at fails
    refine compile_spells_cycle ?_ fails kind
    exact fun d records read => Trail.file (documentAt_of_text found read)

end

/-- A failure on a cyclic import spells out a cycle of files that are there and reached. -/
theorem cyclic_import_spells_cycle (context : Context) (p : Progress) (diagnostic : Diagnostic)
    (kind : diagnostic.kind = .cyclicImport) :
    (∀ path, (file context path p).1 = .error (.diagnosed diagnostic) →
      SpellsCycle context (Reaches context (Path.canonical path.toList)) diagnostic) ∧
    (∀ base source, (compile context ⟨base, []⟩ source p).1 = .error (.diagnosed diagnostic) →
      SpellsCycle context (ReachedBy context base source) diagnostic) := by
  constructor
  · exact fun path fails => file_spells_cycle fails kind
  · intro base source fails
    exact compile_spells_cycle (fun d records read => Trail.source read) fails kind

def loop : Context where
  files := [("/page", .ok "import A from \"a\"; A:;"), ("/a", .ok "import B from \"x/../b\"; B:;"),
    ("/b", .ok "import C from \"./c\"; C:;"), ("/c", .ok "import D from \"/b\"; D:;")]

def loopDiagnostic : Diagnostic where
  kind := .cyclicImport
  message := "Import of 'D' re-enters a file being compiled: /b -> /c -> /b"
  path := some "/b"

theorem loop_spells_cycle :
    loopDiagnostic.kind = .cyclicImport ∧
      (file loop "page" {}).1 = .error (.diagnosed loopDiagnostic) ∧
      SpellsCycle loop (Reaches loop "/page") loopDiagnostic ∧
      (compile loop ⟨"/", []⟩ "import A from \"a\";" {}).1 = .error (.diagnosed loopDiagnostic) ∧
      SpellsCycle loop (ReachedBy loop "/" "import A from \"a\";") loopDiagnostic := by
  have page : (file loop "page" {}).1 = .error (.diagnosed loopDiagnostic) := by decide +kernel
  have source : (compile loop ⟨"/", []⟩ "import A from \"a\";" {}).1 =
      .error (.diagnosed loopDiagnostic) := by decide +kernel
  have spells := cyclic_import_spells_cycle loop {} loopDiagnostic rfl
  exact ⟨rfl, page, spells.1 "page" page, source, spells.2 _ _ source⟩

end ElementMarkup.Compile
