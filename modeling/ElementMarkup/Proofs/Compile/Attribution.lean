import ElementMarkup.Proofs.Compile.Cycle
import ElementMarkup.Proofs.Compile.Store

/-!
Where failures are reported. A failure in a text is named for the file that is compiled innermost
when it occurs, and the compiles around it hand the diagnostic on as it is; a failure of an import
names the file that the import leads to.
-/

namespace ElementMarkup.Compile

def Event.compiling (files : List String) : Event → List String
  | .entered _ target _ => files ++ [target]
  | .stored _ _ => files.dropLast

/-- The files being compiled after some events, outermost first, given those before. -/
def compiling (files : List String) (events : List Event) : List String :=
  events.foldl Event.compiling files

section

variable (files : List String) (events more : List Event) (name target html : String) (inner : Scope)

@[simp] theorem compiling_nil : compiling files [] = files := rfl

@[simp] theorem compiling_entered :
    compiling files (.entered name target inner :: events) = compiling (files ++ [target]) events := rfl

@[simp] theorem compiling_stored :
    compiling files (.stored name html :: events) = compiling files.dropLast events := rfl

@[simp] theorem compiling_append :
    compiling files (events ++ more) = compiling (compiling files events) more :=
  List.foldl_append

theorem Balanced.compiling_eq {events : List Event} (balanced : Balanced events) (files : List String) :
    compiling files events = files := by
  induction balanced generalizing files with
  | nil => rfl
  | whole nested later ihNested ihLater => simp [ihNested, ihLater]

end

/-! ### What a failure is about -/

def Fault.diagnostic (fault : Fault) : Diagnostic :=
  { kind := fault.kind, message := fault.message, path := some fault.target }

theorem Fault.failure_eq (fault : Fault) : fault.failure = .diagnosed fault.diagnostic := rfl

/-- An import stands in the file that is compiled innermost, or else is one of a source's `Own`. -/
inductive Resolves (context : Context) (Own : Scope → Import → Prop) (inner : Scope) (i : Import) :
    Prop where
  | own (own : Own inner i) : Resolves context Own inner i
  | inFile {file : String} (innermost : inner.resolving.getLast? = some file)
      (base : inner.base = Path.directory file) (member : i ∈ importsAt context file) :
      Resolves context Own inner i

/-- A diagnostic of a compile that stops while `files` are being compiled. -/
inductive Blames (context : Context) (Own : Scope → Import → Prop) (files : List String) :
    Diagnostic → Prop where
  | text {file text : String} {cause : Diagnostic} {records : List Record}
      (innermost : files.getLast? = some file)
      (found : Table.find? context.files file = some (.ok text))
      (fails : document context.wide context.width text = (.error (.diagnosed cause), records)) :
      Blames context Own files (cause.attach file)
  | imported {inner : Scope} {i : Import} {p after : Progress} {fault : Fault}
      (same : inner.resolving = files) (resolves : Resolves context Own inner i)
      (refusal : Refusal context inner i p fault after) : Blames context Own files fault.diagnostic

section

variable {context : Context} {Own : Scope → Import → Prop} {scope : Scope} {d : Document} {fuel : Nat}
  {p : Progress} {events : List Event} {outcome : Outcome String} {diagnostic cause : Diagnostic}
  {files : List String}

theorem Blames.path (blames : Blames context Own files diagnostic) :
    ∃ path, diagnostic.path = some path := by
  cases blames with
  | text => exact ⟨_, rfl⟩
  | imported => exact ⟨_, rfl⟩

theorem Scope.attribute_unnamed {file : String} (last : scope.resolving.getLast? = some file)
    (unnamed : cause.path = none) :
    scope.attribute (.diagnosed cause) = .diagnosed (cause.attach file) := by
  simp [Scope.attribute, last, unnamed]

/-- The innermost compile names the file, and those around it add nothing. -/
theorem Run.blames (run : Run context fuel scope d p events outcome)
    (fails : outcome.1 = .error (.diagnosed diagnostic))
    (own : ∀ i ∈ d.imports, Resolves context Own scope i) :
    Blames context Own (compiling scope.resolving events) diagnostic := by
  induction run generalizing diagnostic with
  | rendered => cases fails
  | reused present tail ih => exact ih fails fun i member => own i (List.mem_cons_of_mem _ member)
  | refused absent refusal =>
    rw [Fault.failure_eq, Scope.attribute_of_path rfl] at fails
    cases fails
    exact .imported rfl (own _ (List.mem_cons_self ..)) refusal
  | cut => cases fails
  | @unread fuel scope i rest elements p text failure records absent opens unread =>
    obtain ⟨cause, rfl, unnamed, -⟩ := document_reported unread
    have last : (scope.enter (scope.target i)).resolving.getLast? = some (scope.target i) := by simp
    rw [Scope.attribute_unnamed last unnamed, Scope.attribute_of_path rfl] at fails
    cases fails
    exact .text last opens.found unread
  | @failed fuel scope i rest elements p after text e records events failure absent opens read inner ih =>
    obtain ⟨cause, rfl, -⟩ := Scope.attribute_kind (Except.error.inj fails)
    have imports := importsAt_of_document (documentAt_of_text opens.found read)
    have last : (scope.enter (scope.target i)).resolving.getLast? = some (scope.target i) := by simp
    have blames := ih rfl fun j member => .inFile last (scope.enter_base _) (by rwa [imports])
    obtain ⟨path, named⟩ := blames.path
    rw [Scope.attribute_of_path named] at fails
    cases fails
    rwa [compiling_entered]
  | stored absent opens read inner tail ihInner ihTail =>
    have later := ihTail fails fun i member => own i (List.mem_cons_of_mem _ member)
    have whole := (inner.balanced rfl).compiling_eq
    simpa [whole] using later

theorem compile_blames {source : String}
    (fails : (compile context scope source p).1 = .error (.diagnosed diagnostic))
    (own : ∀ d records, document context.wide context.width source = (.ok d, records) →
      ∀ i ∈ d.imports, Resolves context Own scope i)
    (placed : ∀ file, scope.resolving.getLast? = some file →
      Table.find? context.files file = some (.ok source)) :
    (scope.resolving = [] ∧ ∃ records,
      document context.wide context.width source = (.error (.diagnosed diagnostic), records)) ∨
    Blames context Own (compiling scope.resolving (history context scope source p)) diagnostic := by
  rcases read : document context.wide context.width source with ⟨failure | d, records⟩
  · rw [(compile_unread read).1] at fails
    rw [(compile_unread read).2]
    obtain ⟨cause, rfl, unnamed, -⟩ := document_reported read
    cases last : scope.resolving.getLast? with
    | none =>
      left
      simp only [Scope.attribute, unnamed, last] at fails
      cases fails
      exact ⟨List.getLast?_eq_none_iff.mp last, records, rfl⟩
    | some file =>
      right
      rw [Scope.attribute_unnamed last unnamed] at fails
      cases fails
      exact .text last (placed file last) read
  · exact Or.inr ((compile_run read).blames fails (own d records read))

def RefusesImport (context : Context) (Own : Scope → Import → Prop) (files : List String)
    (fault : Fault) : Prop :=
  ∃ inner i p after, inner.resolving = files ∧ Resolves context Own inner i ∧
    fault.target = inner.target i ∧ Refusal context inner i p fault after

/-- A text fails as it would by itself, with its file named once. An import fails with a fault that
`Offends`, and names its target. -/
structure Attributed (context : Context) (files : List String) (Offends : Fault → Prop)
    (diagnostic : Diagnostic) : Prop where
  named : diagnostic.path ≠ none
  inText : diagnostic.kind.ofText = true → ∃ file text cause records,
    files.getLast? = some file ∧ Table.find? context.files file = some (.ok text) ∧
    document context.wide context.width text = (.error (.diagnosed cause), records) ∧
    diagnostic.kind = cause.kind ∧ diagnostic.position = cause.position ∧
    diagnostic.path = some file ∧ diagnostic.message = "In " ++ file ++ ":\n" ++ cause.message
  ofImport : diagnostic.kind.ofText = false → ∃ fault, Offends fault ∧
    diagnostic.kind = fault.kind ∧ diagnostic.position = none ∧
    diagnostic.path = some fault.target ∧ diagnostic.message = fault.message

theorem Refusal.target {i : Import} {fault : Fault} {after : Progress}
    (refusal : Refusal context scope i p fault after) : fault.target = scope.target i := by
  cases refusal <;> rfl

theorem Refusal.not_ofText {i : Import} {fault : Fault} {after : Progress}
    (refusal : Refusal context scope i p fault after) : fault.kind.ofText = false := by
  cases refusal <;> rfl

theorem Blames.attributed (blames : Blames context Own files diagnostic) :
    Attributed context files (RefusesImport context Own files) diagnostic := by
  cases blames with
  | @text file text cause records innermost found fails =>
    obtain ⟨origin, same, -, kind⟩ := document_reported fails
    obtain rfl := Failure.diagnosed.inj same
    refine ⟨by simp [Diagnostic.attach], fun _ => ?_, fun other => ?_⟩
    · exact ⟨file, text, cause, records, innermost, found, fails, rfl, rfl, rfl, rfl⟩
    · exact absurd kind (by simpa [Diagnostic.attach] using other)
  | @imported inner i p after fault same resolves refusal =>
    refine ⟨by simp [Fault.diagnostic], fun other => ?_, fun _ => ?_⟩
    · exact absurd refusal.not_ofText (by simpa [Fault.diagnostic] using other)
    · exact ⟨fault, ⟨inner, i, p, after, same, resolves, refusal.target, refusal⟩, rfl, rfl, rfl, rfl⟩

theorem Attributed.weaken {Offends Other : Fault → Prop}
    (attributed : Attributed context files Offends diagnostic)
    (also : ∀ fault, Offends fault → Other fault) : Attributed context files Other diagnostic := by
  refine { attributed with ofImport := fun kind => ?_ }
  obtain ⟨fault, offends, same⟩ := attributed.ofImport kind
  exact ⟨fault, also fault offends, same⟩

theorem Unopened.attributed {root : String} {fault : Fault} (unopened : Unopened context root fault) :
    Attributed context files (Unopened context root) fault.diagnostic := by
  refine ⟨by simp [Fault.diagnostic], fun other => ?_, fun _ => ⟨fault, unopened, rfl, rfl, rfl, rfl⟩⟩
  cases unopened <;> cases other

theorem compile_root_attributed {root text : String}
    (found : Table.find? context.files root = some (.ok text))
    (fails : (compile context ⟨Path.directory root, [root]⟩ text p).1 = .error (.diagnosed diagnostic)) :
    Attributed context (compiling [root] (history context ⟨Path.directory root, [root]⟩ text p))
      (RefusesImport context (fun _ _ => False)
        (compiling [root] (history context ⟨Path.directory root, [root]⟩ text p))) diagnostic := by
  have own : ∀ d records, document context.wide context.width text = (.ok d, records) →
      ∀ i ∈ d.imports, Resolves context (fun _ _ => False) ⟨Path.directory root, [root]⟩ i := by
    intro d records read i member
    have imports := importsAt_of_document (documentAt_of_text found read)
    exact .inFile List.getLast?_singleton rfl (by rwa [imports])
  rcases compile_blames fails own (by simpa using found) with ⟨impossible, -⟩ | blames
  · cases impossible
  · exact blames.attributed

theorem file_attributed {path : String}
    (fails : (file context path p).1 = .error (.diagnosed diagnostic)) :
    Attributed context (compiling [Path.canonical path.toList] (fileHistory context path p))
      (fun fault => Unopened context (Path.canonical path.toList) fault ∨
        RefusesImport context (fun _ _ => False)
          (compiling [Path.canonical path.toList] (fileHistory context path p)) fault)
      diagnostic := by
  by_cases opened : ∃ text, Table.find? context.files (Path.canonical path.toList) = some (.ok text)
  · obtain ⟨text, found⟩ := opened
    rw [file_of_text found] at fails
    rw [fileHistory_of_text found]
    exact (compile_root_attributed found fails).weaken fun fault => Or.inr
  · obtain ⟨fault, unopened, refused⟩ := fileWithin_unopened (not_exists.mp opened)
    rw [file_eq_fileWithin, refused, Fault.failure_eq] at fails
    cases fails
    exact unopened.attributed.weaken fun fault => Or.inl

def OwnImport (context : Context) (base source : String) (inner : Scope) (i : Import) : Prop :=
  inner = ⟨base, []⟩ ∧ ∃ d records,
    document context.wide context.width source = (.ok d, records) ∧ i ∈ d.imports

theorem compile_attributed {base source : String} {records : List Record}
    (read : document context.wide context.width source = (.ok d, records))
    (fails : (compile context ⟨base, []⟩ source p).1 = .error (.diagnosed diagnostic)) :
    Attributed context (compiling [] (history context ⟨base, []⟩ source p))
      (RefusesImport context (OwnImport context base source)
        (compiling [] (history context ⟨base, []⟩ source p))) diagnostic := by
  have own : ∀ d records, document context.wide context.width source = (.ok d, records) →
      ∀ i ∈ d.imports, Resolves context (OwnImport context base source) ⟨base, []⟩ i :=
    fun d records read i member => .own ⟨rfl, d, records, read, member⟩
  rcases compile_blames fails own (by simp) with ⟨-, others, unread⟩ | blames
  · rw [read] at unread
    cases unread
  · exact blames.attributed

theorem compile_unplaced {base source : String} {records : List Record}
    (unread : document context.wide context.width source = (.error (.diagnosed cause), records))
    (fails : (compile context ⟨base, []⟩ source p).1 = .error (.diagnosed diagnostic)) :
    diagnostic = cause ∧ diagnostic.path = none := by
  obtain ⟨origin, same, unnamed, -⟩ := document_reported unread
  obtain rfl := Failure.diagnosed.inj same
  rw [(compile_unread unread).1] at fails
  simp only [Scope.attribute, unnamed, List.getLast?_nil] at fails
  cases fails
  exact ⟨rfl, unnamed⟩

end

/-- Every failure is attributed to the right file, once. Only the text of a source that is no file
fails without one. -/
theorem failures_attributed (context : Context) (p : Progress) (diagnostic : Diagnostic) :
    (∀ path, (file context path p).1 = .error (.diagnosed diagnostic) →
      Attributed context (compiling [Path.canonical path.toList] (fileHistory context path p))
        (fun fault => Unopened context (Path.canonical path.toList) fault ∨
          RefusesImport context (fun _ _ => False)
            (compiling [Path.canonical path.toList] (fileHistory context path p)) fault)
        diagnostic) ∧
    (∀ base source, (compile context ⟨base, []⟩ source p).1 = .error (.diagnosed diagnostic) →
      (∀ cause records, document context.wide context.width source = (.error (.diagnosed cause), records) →
        diagnostic = cause ∧ diagnostic.path = none) ∧
      (∀ d records, document context.wide context.width source = (.ok d, records) →
        Attributed context (compiling [] (history context ⟨base, []⟩ source p))
          (RefusesImport context (OwnImport context base source)
            (compiling [] (history context ⟨base, []⟩ source p))) diagnostic)) := by
  refine ⟨fun path fails => file_attributed fails, fun base source fails => ⟨?_, ?_⟩⟩
  · exact fun cause records unread => compile_unplaced unread fails
  · exact fun d records read => compile_attributed read fails

/-- A block that is left open in a file two imports away from the page. -/
def leftOpen : Context where
  files := [("/page", .ok "import S from \"s\"; import A from \"a\"; A:;"),
    ("/a", .ok "import B from \"lib/b\"; B:;"), ("/lib/b", .ok "p: content:\x7b"), ("/s", .ok "i:;")]

def leftOpenCause : Diagnostic := (Token.Fault.unclosed .braces 11).diagnostic 40 "p: content:\x7b"

theorem left_open_attributed :
    (file leftOpen "/page" {}).1 = .error (.diagnosed (leftOpenCause.attach "/lib/b")) ∧
      (∃ file text cause records,
        (compiling [Path.canonical "/page".toList] (fileHistory leftOpen "/page" {})).getLast? =
          some file ∧
        Table.find? leftOpen.files file = some (.ok text) ∧
        document false 40 text = (.error (.diagnosed cause), records) ∧
        .unclosedConstruct = cause.kind ∧ (leftOpenCause.attach "/lib/b").position = cause.position ∧
        some "/lib/b" = some file ∧
        (leftOpenCause.attach "/lib/b").message = "In " ++ file ++ ":\n" ++ cause.message) ∧
      (compile leftOpen ⟨"/", []⟩ "p: content:\x7b" {}).1 = .error (.diagnosed leftOpenCause) ∧
      leftOpenCause.path = none := by
  have deep : (file leftOpen "/page" {}).1 =
      .error (.diagnosed (leftOpenCause.attach "/lib/b")) := by
    decide +kernel
  have own : (compile leftOpen ⟨"/", []⟩ "p: content:\x7b" {}).1 =
      .error (.diagnosed leftOpenCause) := by
    decide +kernel
  have scanned : Token.tokens false "p: content:\x7b" = .error (.unclosed .braces 11) := by decide +kernel
  have unread : document false 40 "p: content:\x7b" = (.error (.diagnosed leftOpenCause), []) := by
    rw [document, scanned, leftOpenCause]
  have attributed := (failures_attributed leftOpen {} (leftOpenCause.attach "/lib/b")).1 "/page" deep
  have unplaced := ((failures_attributed leftOpen {} leftOpenCause).2 "/" "p: content:\x7b" own).1
    leftOpenCause [] unread
  exact ⟨deep, attributed.inText rfl, own, unplaced.2⟩

end ElementMarkup.Compile
