import ElementMarkup.Compile
import ElementMarkup.Proofs.Table

/-!
Compiles as runs. `historyWithin` lists what a compile does to its store and which files it enters,
in order. `Run` describes a compile by rules, one for each thing that can happen to the next import;
`run_iff` shows that it is exactly what `compileWithin` computes, so that a property of compiles is
proved by induction on a run.
-/

namespace ElementMarkup.Compile

namespace Progress

@[simp] theorem note_components (p : Progress) (records : List Record) :
    (p.note records).components = p.components := rfl

@[simp] theorem note_calls (p : Progress) (records : List Record) : (p.note records).calls = p.calls := rfl

@[simp] theorem call_components (p : Progress) (call : Call) : (p.call call).components = p.components := rfl

@[simp] theorem call_calls (p : Progress) (call : Call) : (p.call call).calls = p.calls ++ [call] := rfl

@[simp] theorem store_components (p : Progress) (name html : String) :
    (p.store name html).components = Table.store p.components name html := rfl

@[simp] theorem store_calls (p : Progress) (name html : String) : (p.store name html).calls = p.calls := rfl

def enter (p : Progress) (name target : String) : Progress :=
  ((p.call (.asked target)).note [resolvingImport name target]).call (.opened target)

@[simp] theorem enter_components (p : Progress) (name target : String) :
    (p.enter name target).components = p.components := rfl

@[simp] theorem enter_calls (p : Progress) (name target : String) :
    (p.enter name target).calls = p.calls ++ [.asked target, .opened target] := by
  simp [enter]

end Progress

/-! ### One import -/

def Scope.target (scope : Scope) (i : Import) : String := Path.resolve scope.base i.path

@[simp] theorem Scope.enter_base (scope : Scope) (target : String) :
    (scope.enter target).base = Path.directory target := rfl

@[simp] theorem Scope.enter_resolving (scope : Scope) (target : String) :
    (scope.enter target).resolving = scope.resolving ++ [target] := rfl

structure Opens (context : Context) (scope : Scope) (i : Import) (text : String) : Prop where
  free : ¬ (context.detect = true ∧ scope.target i ∈ scope.resolving)
  found : Table.find? context.files (scope.target i) = some (.ok text)

/-- An import that is not stored cannot be resolved, for a fault that leaves `after` behind. -/
inductive Refusal (context : Context) (scope : Scope) (i : Import) (p : Progress) :
    Fault → Progress → Prop where
  | cyclic (detects : context.detect = true) (again : scope.target i ∈ scope.resolving) :
      Refusal context scope i p
        (.cyclic i.name (scope.target i) (scope.resolving.dropWhile (· != scope.target i))) p
  | notFound (free : ¬ (context.detect = true ∧ scope.target i ∈ scope.resolving))
      (missing : Table.find? context.files (scope.target i) = none) :
      Refusal context scope i p (.notFound i.name (scope.target i)) (p.call (.asked (scope.target i)))
  | unreadable {cause : Encoding.Undecodable}
      (free : ¬ (context.detect = true ∧ scope.target i ∈ scope.resolving))
      (found : Table.find? context.files (scope.target i) = some (.error cause)) :
      Refusal context scope i p (.unreadable (scope.target i) cause) (p.enter i.name (scope.target i))

theorem opens_or_refusal (context : Context) (scope : Scope) (i : Import) (p : Progress) :
    (∃ text, Opens context scope i text) ∨ ∃ fault after, Refusal context scope i p fault after := by
  by_cases again : context.detect = true ∧ scope.target i ∈ scope.resolving
  · exact Or.inr ⟨_, _, .cyclic again.1 again.2⟩
  · match found : Table.find? context.files (scope.target i) with
    | none => exact Or.inr ⟨_, _, .notFound again found⟩
    | some (.error cause) => exact Or.inr ⟨_, _, .unreadable again found⟩
    | some (.ok text) => exact Or.inl ⟨text, again, found⟩

section Resolve

variable {context : Context} {nested : Scope → String → Progress → Outcome String} {scope : Scope}
  {i : Import} {p : Progress}

theorem resolve_reused (present : Table.has p.components i.name = true) :
    resolve context nested scope i p = (.ok (), p.note [reused i.name]) := by
  simp [resolve, present]

theorem resolve_refused {fault : Fault} {after : Progress}
    (absent : Table.has p.components i.name = false)
    (refusal : Refusal context scope i p fault after) :
    resolve context nested scope i p = (.error fault.failure, after) := by
  cases refusal with
  | cyclic detects again =>
    rw [Scope.target] at again
    simp [resolve, absent, detects, again, Scope.target]
  | notFound free missing =>
    rw [Scope.target] at free missing
    simp [resolve, absent, free, missing, Scope.target]
  | unreadable free found =>
    rw [Scope.target] at free found
    simp [resolve, absent, free, found, Scope.target, Progress.enter]

theorem resolve_failed {text : String} {failure : Failure} {after : Progress}
    (absent : Table.has p.components i.name = false) (opens : Opens context scope i text)
    (fails : nested (scope.enter (scope.target i)) text (p.enter i.name (scope.target i)) =
      (.error failure, after)) :
    resolve context nested scope i p = (.error failure, after) := by
  obtain ⟨free, found⟩ := opens
  simp only [Scope.target, Progress.enter] at free found fails
  simp [resolve, absent, free, found, fails]

theorem resolve_stored {text html : String} {after : Progress}
    (absent : Table.has p.components i.name = false) (opens : Opens context scope i text)
    (compiles : nested (scope.enter (scope.target i)) text (p.enter i.name (scope.target i)) =
      (.ok html, after)) :
    resolve context nested scope i p = (.ok (), after.store i.name html) := by
  obtain ⟨free, found⟩ := opens
  simp only [Scope.target, Progress.enter] at free found compiles
  simp [resolve, absent, free, found, compiles]

end Resolve

inductive Event where
  /-- The file at `target` is entered for the import of a name, in a scope of its own. -/
  | entered (name target : String) (inner : Scope)
  /-- The HTML of the file entered for a name is stored. -/
  | stored (name html : String)
  deriving DecidableEq, Repr

/-- `nested` compiles the imported file, and `inside` is what that does. -/
def importHistory (context : Context) (nested : Scope → String → Progress → Outcome String)
    (inside : Scope → String → Progress → List Event) (scope : Scope) (i : Import) (p : Progress) :
    List Event :=
  let target := scope.target i
  if Table.has p.components i.name ∨ context.detect ∧ target ∈ scope.resolving then []
  else
    match Table.find? context.files target with
    | some (.ok text) =>
      let inner := scope.enter target
      let p := p.enter i.name target
      .entered i.name target inner :: inside inner text p ++
        match (nested inner text p).1 with
        | .ok html => [.stored i.name html]
        | .error _ => []
    | _ => []

def importsHistory (context : Context) (nested : Scope → String → Progress → Outcome String)
    (inside : Scope → String → Progress → List Event) (scope : Scope) :
    List Import → Progress → List Event
  | [], _ => []
  | i :: rest, p =>
    importHistory context nested inside scope i p ++
      match resolve context nested scope i p with
      | (.error _, _) => []
      | (.ok (), p) => importsHistory context nested inside scope rest p

def historyWithin (context : Context) : Nat → Scope → String → Progress → List Event
  | 0, _, _, _ => []
  | fuel + 1, scope, source, p =>
    match document context.wide context.width source with
    | (.error _, _) => []
    | (.ok d, records) =>
      importsHistory context (compileWithin context fuel) (historyWithin context fuel) scope d.imports
        (p.note records)

def history (context : Context) (scope : Scope) (source : String) (p : Progress) : List Event :=
  historyWithin context (depth context source) scope source p

section ImportHistory

variable {context : Context} {nested : Scope → String → Progress → Outcome String}
  {inside : Scope → String → Progress → List Event} {scope : Scope} {i : Import} {p : Progress}

theorem importHistory_reused (present : Table.has p.components i.name = true) :
    importHistory context nested inside scope i p = [] := by
  simp [importHistory, present]

theorem importHistory_refused {fault : Fault} {after : Progress}
    (refusal : Refusal context scope i p fault after) :
    importHistory context nested inside scope i p = [] := by
  cases refusal with
  | cyclic detects again => simp [importHistory, detects, again]
  | notFound free missing => simp [importHistory, missing]
  | unreadable free found => simp [importHistory, found]

theorem importHistory_failed {text : String} {failure : Failure} {after : Progress}
    (absent : Table.has p.components i.name = false) (opens : Opens context scope i text)
    (fails : nested (scope.enter (scope.target i)) text (p.enter i.name (scope.target i)) =
      (.error failure, after)) :
    importHistory context nested inside scope i p =
      .entered i.name (scope.target i) (scope.enter (scope.target i)) ::
        inside (scope.enter (scope.target i)) text (p.enter i.name (scope.target i)) := by
  obtain ⟨free, found⟩ := opens
  simp [importHistory, absent, free, found, fails]

theorem importHistory_stored {text html : String} {after : Progress}
    (absent : Table.has p.components i.name = false) (opens : Opens context scope i text)
    (compiles : nested (scope.enter (scope.target i)) text (p.enter i.name (scope.target i)) =
      (.ok html, after)) :
    importHistory context nested inside scope i p =
      .entered i.name (scope.target i) (scope.enter (scope.target i)) ::
        inside (scope.enter (scope.target i)) text (p.enter i.name (scope.target i)) ++
          [.stored i.name html] := by
  obtain ⟨free, found⟩ := opens
  simp [importHistory, absent, free, found, compiles]

end ImportHistory

/-! ### Runs -/

def Scope.finish (scope : Scope) (elements : List Element) : Outcome Unit → Outcome String
  | (.error failure, p) => (.error (scope.attribute failure), p)
  | (.ok (), p) => (.ok (Html.render p.components elements), p.note (Html.records p.components elements))

@[simp] theorem Scope.finish_error (scope : Scope) (elements : List Element) (failure : Failure)
    (p : Progress) :
    scope.finish elements (.error failure, p) = (.error (scope.attribute failure), p) := rfl

/-- From `p` on, what is left of a document compiles to `outcome` through `events`; the files it
enters may enter others `fuel` deep. -/
inductive Run (context : Context) :
    Nat → Scope → Document → Progress → List Event → Outcome String → Prop where
  | rendered (fuel : Nat) (scope : Scope) (elements : List Element) (p : Progress) :
      Run context fuel scope ⟨[], elements⟩ p []
        (.ok (Html.render p.components elements), p.note (Html.records p.components elements))
  | reused {fuel : Nat} {scope : Scope} {i : Import} {rest : List Import} {elements : List Element}
      {p : Progress} {events : List Event} {outcome : Outcome String}
      (present : Table.has p.components i.name = true)
      (tail : Run context fuel scope ⟨rest, elements⟩ (p.note [Compile.reused i.name]) events outcome) :
      Run context fuel scope ⟨i :: rest, elements⟩ p events outcome
  | refused {fuel : Nat} {scope : Scope} {i : Import} {rest : List Import} {elements : List Element}
      {p after : Progress} {fault : Fault}
      (absent : Table.has p.components i.name = false)
      (refusal : Refusal context scope i p fault after) :
      Run context fuel scope ⟨i :: rest, elements⟩ p [] (.error (scope.attribute fault.failure), after)
  /-- The imported file is too deep to be compiled. -/
  | cut {scope : Scope} {i : Import} {rest : List Import} {elements : List Element} {p : Progress}
      {text : String} (absent : Table.has p.components i.name = false)
      (opens : Opens context scope i text) :
      Run context 0 scope ⟨i :: rest, elements⟩ p
        [.entered i.name (scope.target i) (scope.enter (scope.target i))]
        (.error .unending, p.enter i.name (scope.target i))
  | unread {fuel : Nat} {scope : Scope} {i : Import} {rest : List Import} {elements : List Element}
      {p : Progress} {text : String} {failure : Failure} {records : List Record}
      (absent : Table.has p.components i.name = false) (opens : Opens context scope i text)
      (fails : document context.wide context.width text = (.error failure, records)) :
      Run context (fuel + 1) scope ⟨i :: rest, elements⟩ p
        [.entered i.name (scope.target i) (scope.enter (scope.target i))]
        (.error (scope.attribute ((scope.enter (scope.target i)).attribute failure)),
          (p.enter i.name (scope.target i)).note records)
  | failed {fuel : Nat} {scope : Scope} {i : Import} {rest : List Import} {elements : List Element}
      {p after : Progress} {text : String} {d : Document} {records : List Record}
      {events : List Event} {failure : Failure}
      (absent : Table.has p.components i.name = false) (opens : Opens context scope i text)
      (read : document context.wide context.width text = (.ok d, records))
      (inner : Run context fuel (scope.enter (scope.target i)) d
        ((p.enter i.name (scope.target i)).note records) events (.error failure, after)) :
      Run context (fuel + 1) scope ⟨i :: rest, elements⟩ p
        (.entered i.name (scope.target i) (scope.enter (scope.target i)) :: events)
        (.error (scope.attribute failure), after)
  | stored {fuel : Nat} {scope : Scope} {i : Import} {rest : List Import} {elements : List Element}
      {p after : Progress} {text : String} {d : Document} {records : List Record}
      {events more : List Event} {html : String} {outcome : Outcome String}
      (absent : Table.has p.components i.name = false) (opens : Opens context scope i text)
      (read : document context.wide context.width text = (.ok d, records))
      (inner : Run context fuel (scope.enter (scope.target i)) d
        ((p.enter i.name (scope.target i)).note records) events (.ok html, after))
      (tail : Run context (fuel + 1) scope ⟨rest, elements⟩ (after.store i.name html) more outcome) :
      Run context (fuel + 1) scope ⟨i :: rest, elements⟩ p
        (.entered i.name (scope.target i) (scope.enter (scope.target i)) :: events ++
          .stored i.name html :: more) outcome

section Adequacy

variable {context : Context} {source : String} {records : List Record}

theorem compileWithin_read {d : Document}
    (read : document context.wide context.width source = (.ok d, records)) (fuel : Nat) (scope : Scope)
    (p : Progress) :
    compileWithin context (fuel + 1) scope source p =
      scope.finish d.elements
        (resolveAll context (compileWithin context fuel) scope d.imports (p.note records)) := by
  rw [compileWithin, read]
  simp only
  rcases resolveAll context (compileWithin context fuel) scope d.imports (p.note records) with
    ⟨_ | _, _⟩ <;> rfl

theorem compileWithin_unread {failure : Failure}
    (fails : document context.wide context.width source = (.error failure, records)) (fuel : Nat)
    (scope : Scope) (p : Progress) :
    compileWithin context (fuel + 1) scope source p =
      (.error (scope.attribute failure), p.note records) := by
  rw [compileWithin, fails]

theorem historyWithin_read {d : Document}
    (read : document context.wide context.width source = (.ok d, records)) (fuel : Nat) (scope : Scope)
    (p : Progress) :
    historyWithin context (fuel + 1) scope source p =
      importsHistory context (compileWithin context fuel) (historyWithin context fuel) scope d.imports
        (p.note records) := by
  rw [historyWithin, read]

theorem historyWithin_unread {failure : Failure}
    (fails : document context.wide context.width source = (.error failure, records)) (fuel : Nat)
    (scope : Scope) (p : Progress) : historyWithin context (fuel + 1) scope source p = [] := by
  rw [historyWithin, fails]

/-- Resolving imports and rendering is a run, if compiling a file that is entered is one. -/
theorem resolveAll_run {fuel : Nat} {scope : Scope} (elements : List Element)
    (nested : ∀ below, fuel = below + 1 → ∀ (inner : Scope) {text : String} {d : Document}
      {records : List Record} (p : Progress),
      document context.wide context.width text = (.ok d, records) →
        Run context below inner d (p.note records) (historyWithin context fuel inner text p)
          (compileWithin context fuel inner text p))
    (imports : List Import) (p : Progress) :
    Run context fuel scope ⟨imports, elements⟩ p
      (importsHistory context (compileWithin context fuel) (historyWithin context fuel) scope imports p)
      (scope.finish elements (resolveAll context (compileWithin context fuel) scope imports p)) := by
  induction imports generalizing p with
  | nil => exact .rendered fuel scope elements p
  | cons i rest ih =>
    rw [importsHistory, resolveAll]
    by_cases present : Table.has p.components i.name = true
    · rw [resolve_reused present, importHistory_reused present]
      exact .reused present (ih _)
    have absent : Table.has p.components i.name = false := by simpa using present
    rcases opens_or_refusal context scope i p with ⟨text, opens⟩ | ⟨fault, after, refusal⟩
    · -- without fuel the file is entered and nothing in it is compiled
      cases fuel with
      | zero =>
        have fails : compileWithin context 0 (scope.enter (scope.target i)) text
            (p.enter i.name (scope.target i)) = (.error .unending, p.enter i.name (scope.target i)) := rfl
        rw [resolve_failed absent opens fails, importHistory_failed absent opens fails]
        exact .cut absent opens
      | succ below =>
        rcases read : document context.wide context.width text with ⟨failure | d, records⟩
        · have fails := compileWithin_unread read below (scope.enter (scope.target i))
            (p.enter i.name (scope.target i))
          rw [resolve_failed absent opens fails, importHistory_failed absent opens fails,
            historyWithin_unread read]
          exact .unread absent opens read
        · have inner := nested below rfl (scope.enter (scope.target i))
            (p.enter i.name (scope.target i)) read
          rcases result : compileWithin context (below + 1) (scope.enter (scope.target i)) text
            (p.enter i.name (scope.target i)) with ⟨failure | html, after⟩
          · rw [resolve_failed absent opens result, importHistory_failed absent opens result]
            rw [result] at inner
            simpa using Run.failed absent opens read inner
          · rw [resolve_stored absent opens result, importHistory_stored absent opens result]
            rw [result] at inner
            simpa using Run.stored absent opens read inner (ih _)
    · rw [resolve_refused absent refusal, importHistory_refused refusal]
      exact .refused absent refusal

theorem compileWithin_run {d : Document}
    (read : document context.wide context.width source = (.ok d, records)) (fuel : Nat) (scope : Scope)
    (p : Progress) :
    Run context fuel scope d (p.note records) (historyWithin context (fuel + 1) scope source p)
      (compileWithin context (fuel + 1) scope source p) := by
  induction fuel generalizing source d records scope p with
  | zero =>
    rw [compileWithin_read read, historyWithin_read read]
    exact resolveAll_run d.elements (fun below impossible => by omega) d.imports _
  | succ fuel ih =>
    rw [compileWithin_read read, historyWithin_read read]
    refine resolveAll_run d.elements ?_ d.imports _
    intro below same inner text nested found p readNested
    obtain rfl : fuel = below := by omega
    exact ih readNested inner p

theorem Run.computed {fuel : Nat} {scope : Scope} {d : Document} {p : Progress} {events : List Event}
    {outcome : Outcome String} (run : Run context fuel scope d p events outcome) :
    events = importsHistory context (compileWithin context fuel) (historyWithin context fuel) scope
      d.imports p ∧
    outcome = scope.finish d.elements
      (resolveAll context (compileWithin context fuel) scope d.imports p) := by
  induction run with
  | rendered fuel scope elements p => exact ⟨rfl, rfl⟩
  | reused present tail ih =>
    simpa [importsHistory, resolveAll, resolve_reused present, importHistory_reused present] using ih
  | refused absent refusal =>
    simp [importsHistory, resolveAll, resolve_refused absent refusal, importHistory_refused refusal]
  | @cut scope i rest elements p text absent opens =>
    have fails : compileWithin context 0 (scope.enter (scope.target i)) text
        (p.enter i.name (scope.target i)) = (.error .unending, p.enter i.name (scope.target i)) := rfl
    simp [importsHistory, resolveAll, resolve_failed absent opens fails,
      importHistory_failed absent opens fails, historyWithin, Scope.attribute]
  | @unread fuel scope i rest elements p text failure records absent opens unread =>
    have fails := compileWithin_unread unread fuel (scope.enter (scope.target i))
      (p.enter i.name (scope.target i))
    simp [importsHistory, resolveAll, resolve_failed absent opens fails,
      importHistory_failed absent opens fails, historyWithin_unread unread]
  | @failed fuel scope i rest elements p after text d records events failure absent opens read inner ih =>
    have fails := compileWithin_read read fuel (scope.enter (scope.target i))
      (p.enter i.name (scope.target i))
    rw [← ih.2] at fails
    simp [importsHistory, resolveAll, resolve_failed absent opens fails,
      importHistory_failed absent opens fails, historyWithin_read read, ← ih.1]
  | @stored fuel scope i rest elements p after text d records events more html outcome absent opens read
      inner tail ihInner ihTail =>
    have compiles := compileWithin_read read fuel (scope.enter (scope.target i))
      (p.enter i.name (scope.target i))
    rw [← ihInner.2] at compiles
    simp [importsHistory, resolveAll, resolve_stored absent opens compiles,
      importHistory_stored absent opens compiles, historyWithin_read read, ← ihInner.1, ← ihTail.1,
      ← ihTail.2]

theorem run_iff {d : Document} (read : document context.wide context.width source = (.ok d, records))
    (fuel : Nat) (scope : Scope) (p : Progress) (events : List Event) (outcome : Outcome String) :
    Run context fuel scope d (p.note records) events outcome ↔
      events = historyWithin context (fuel + 1) scope source p ∧
        outcome = compileWithin context (fuel + 1) scope source p := by
  constructor
  · intro run
    rw [historyWithin_read read, compileWithin_read read]
    exact run.computed
  · rintro ⟨rfl, rfl⟩
    exact compileWithin_run read fuel scope p

end Adequacy

end ElementMarkup.Compile
