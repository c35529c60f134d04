import Mathlib.Logic.Relation
import ElementMarkup.Proofs.Compile.Nesting

/-!
The graph of files and their imports. A graph is healthy from a root if every file that the root
reaches can be read and none reaches itself. `Grounded` says the same inductively, from the files
without imports upwards.
-/

namespace ElementMarkup.Compile

def documentAt (context : Context) (path : String) : Option Document :=
  match Table.find? context.files path with
  | some (.ok text) => (document context.wide context.width text).1.toOption
  | _ => none

def linked (path : String) (i : Import) : String := Path.resolve (Path.directory path) i.path

def importsAt (context : Context) (path : String) : List Import :=
  match documentAt context path with
  | some d => d.imports
  | none => []

def Leads (context : Context) (path next : String) : Prop :=
  ∃ i ∈ importsAt context path, linked path i = next

abbrev Reaches (context : Context) : String → String → Prop := Relation.ReflTransGen (Leads context)

structure Healthy (context : Context) (root : String) : Prop where
  readable : ∀ path, Reaches context root path → ∃ d, documentAt context path = some d
  acyclic : ∀ path, Reaches context root path → ¬ Relation.TransGen (Leads context) path path

/-- Some file that the root reaches imports `name` from the file at `path`. -/
def Binds (context : Context) (root name path : String) : Prop :=
  ∃ file, Reaches context root file ∧
    ∃ i ∈ importsAt context file, i.name = name ∧ linked file i = path

/-- Every name leads to one file, wherever it is imported. -/
def Consistent (context : Context) (root : String) : Prop :=
  ∀ name path other, Binds context root name path → Binds context root name other → path = other

/-- A file that can be read and whose imports lead to grounded files. -/
inductive Grounded (context : Context) : String → Prop where
  | file {path : String} {d : Document} (read : documentAt context path = some d)
      (imports : ∀ i ∈ d.imports, Grounded context (linked path i)) : Grounded context path

section

variable {context : Context} {root path : String} {scope inner : Scope} {d e : Document}
  {i : Import} {text : String} {records : List Record}

theorem documentAt_of_text (found : Table.find? context.files path = some (.ok text))
    (read : document context.wide context.width text = (.ok d, records)) :
    documentAt context path = some d := by
  simp [documentAt, found, read, Except.toOption]

theorem documentAt_eq_some (read : documentAt context path = some d) :
    ∃ text records, Table.find? context.files path = some (.ok text) ∧
      document context.wide context.width text = (.ok d, records) := by
  unfold documentAt at read
  split at read
  · rename_i text found
    rcases parsed : document context.wide context.width text with ⟨failure | e, records⟩
    · simp [parsed, Except.toOption] at read
    · simp only [parsed, Except.toOption, Option.some.injEq] at read
      subst e
      exact ⟨text, records, found, parsed⟩
  · cases read

theorem importsAt_of_document (read : documentAt context path = some d) :
    importsAt context path = d.imports := by
  simp [importsAt, read]

theorem leads_of_import (read : documentAt context path = some d) (member : i ∈ d.imports) :
    Leads context path (linked path i) :=
  ⟨i, by rwa [importsAt_of_document read], rfl⟩

theorem binds_of_import (reached : Reaches context root path) (read : documentAt context path = some d)
    (member : i ∈ d.imports) : Binds context root i.name (linked path i) :=
  ⟨path, reached, i, by rwa [importsAt_of_document read], rfl, rfl⟩

theorem Grounded.lead {next : String} (grounded : Grounded context path)
    (leads : Leads context path next) : Grounded context next := by
  obtain ⟨i, member, rfl⟩ := leads
  cases grounded with
  | file read imports =>
    rw [importsAt_of_document read] at member
    exact imports i member

theorem Grounded.reached (grounded : Grounded context root) (reaches : Reaches context root path) :
    Grounded context path := by
  induction reaches with
  | refl => exact grounded
  | tail _ leads ih => exact ih.lead leads

theorem Grounded.irreflexive (grounded : Grounded context path) :
    ¬ Relation.TransGen (Leads context) path path := by
  induction grounded with
  | @file path d read imports ih =>
    intro cycle
    -- the cycle can be started at the first file it leads to
    obtain ⟨next, leads, back⟩ := Relation.TransGen.head'_iff.mp cycle
    have around : Relation.TransGen (Leads context) next next := Relation.TransGen.tail' back leads
    obtain ⟨i, member, rfl⟩ := leads
    rw [importsAt_of_document read] at member
    exact ih i member around

theorem Grounded.healthy (grounded : Grounded context root) : Healthy context root := by
  refine ⟨?_, fun path reaches => (grounded.reached reaches).irreflexive⟩
  intro path reaches
  cases grounded.reached reaches with
  | file read imports => exact ⟨_, read⟩

theorem Reaches.mem_of_closed {files : List String}
    (closed : ∀ file ∈ files, ∀ i ∈ importsAt context file, linked file i ∈ files)
    (start : root ∈ files) (reaches : Reaches context root path) : path ∈ files := by
  induction reaches with
  | refl => exact start
  | tail _ leads ih =>
    obtain ⟨i, member, rfl⟩ := leads
    exact closed _ ih i member

theorem consistent_of_closed (files : List String)
    (closed : ∀ file ∈ files, ∀ i ∈ importsAt context file, linked file i ∈ files)
    (start : root ∈ files)
    (same : ∀ file ∈ files, ∀ i ∈ importsAt context file, ∀ other ∈ files,
      ∀ j ∈ importsAt context other, i.name = j.name → linked file i = linked other j) :
    Consistent context root := by
  rintro name path other ⟨file, reaches, i, member, rfl, rfl⟩ ⟨second, reached, j, within, names, rfl⟩
  exact same file (Reaches.mem_of_closed closed start reaches) i member second
    (Reaches.mem_of_closed closed start reached) j within names.symm

/-- What is left of a file that the root reaches is compiled in a scope whose files lead there. -/
structure Stands (context : Context) (root : String) (scope : Scope) (d : Document) (path : String) :
    Prop where
  base : scope.base = Path.directory path
  reached : Reaches context root path
  stack : ∀ file ∈ scope.resolving, Reaches context file path
  own : ∀ i ∈ d.imports, i ∈ importsAt context path

theorem Stands.target_eq (stands : Stands context root scope d path) (i : Import) :
    scope.target i = linked path i := by
  rw [Scope.target, linked, stands.base]

theorem Stands.leads (stands : Stands context root scope d path) (member : i ∈ d.imports) :
    Leads context path (scope.target i) :=
  ⟨i, stands.own i member, (stands.target_eq i).symm⟩

theorem Stands.target_reached (stands : Stands context root scope d path) (member : i ∈ d.imports) :
    Reaches context root (scope.target i) :=
  stands.reached.tail (stands.leads member)

theorem Stands.binds (stands : Stands context root scope d path) (member : i ∈ d.imports) :
    Binds context root i.name (scope.target i) :=
  ⟨path, stands.reached, i, stands.own i member, rfl, (stands.target_eq i).symm⟩

theorem Stands.rest {rest : List Import} {elements : List Element}
    (stands : Stands context root scope ⟨i :: rest, elements⟩ path) :
    Stands context root scope ⟨rest, elements⟩ path :=
  { stands with own := fun j member => stands.own j (List.mem_cons_of_mem _ member) }

theorem Stands.enter (stands : Stands context root scope d path) (member : i ∈ d.imports)
    (opens : Opens context scope i text)
    (read : document context.wide context.width text = (.ok e, records)) :
    Stands context root (scope.enter (scope.target i)) e (scope.target i) where
  base := scope.enter_base _
  reached := stands.target_reached member
  stack := by
    intro file inside
    rw [Scope.enter_resolving, List.mem_append, List.mem_singleton] at inside
    rcases inside with inside | rfl
    · exact (stands.stack file inside).tail (stands.leads member)
    · exact .refl
  own := by
    rw [importsAt_of_document (documentAt_of_text opens.found read)]
    exact fun _ inside => inside

theorem Stands.start (read : documentAt context root = some d) :
    Stands context root ⟨Path.directory root, [root]⟩ d root where
  base := rfl
  reached := .refl
  stack := by simp [Reaches, Relation.ReflTransGen.refl]
  own := by
    rw [importsAt_of_document read]
    exact fun _ inside => inside

end

end ElementMarkup.Compile
