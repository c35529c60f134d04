import ElementMarkup.Proofs.Compile.Nesting
import ElementMarkup.Proofs.Path.Route

/-!
The paths that a compile works with. An import leads to a canonical path, whatever directory it
starts from, and the directory of a canonical path is canonical. So in a compile that a file or a
source starts, the paths asked for and opened, the files being compiled and the directories of all
nested scopes are canonical, although the directory that a source is given need not be.
-/

namespace ElementMarkup.Compile

def Call.path : Call → String
  | .asked path | .opened path => path

structure Scope.IsCanonical (scope : Scope) : Prop where
  base : Path.IsCanonical scope.base
  resolving : ∀ file ∈ scope.resolving, Path.IsCanonical file

def CallsCanonical (p after : Progress) : Prop :=
  ∃ made, after.calls = p.calls ++ made ∧ ∀ call ∈ made, Path.IsCanonical call.path

/-- Whatever a compile asks for or opens, and every scope that it enters, is canonical. -/
structure StaysCanonical (p : Progress) (events : List Event) (outcome : Outcome String) : Prop where
  calls : CallsCanonical p outcome.2
  scopes : ∀ name target inner, .entered name target inner ∈ events → inner.IsCanonical

section

variable {context : Context} {fuel : Nat} {scope inner : Scope} {d : Document} {i : Import}
  {p q after : Progress} {events : List Event} {outcome : Outcome String} {name target : String}

theorem CallsCanonical.refl (p : Progress) : CallsCanonical p p := ⟨[], by simp, by simp⟩

theorem CallsCanonical.trans (first : CallsCanonical p q) (later : CallsCanonical q after) :
    CallsCanonical p after := by
  obtain ⟨made, all, forms⟩ := first
  obtain ⟨more, rest, alike⟩ := later
  refine ⟨made ++ more, by rw [rest, all, List.append_assoc], ?_⟩
  intro call member
  exact (List.mem_append.mp member).elim (forms call) (alike call)

theorem CallsCanonical.call (p : Progress) (call : Call) (form : Path.IsCanonical call.path) :
    CallsCanonical p (p.call call) :=
  ⟨[call], rfl, by simpa using form⟩

theorem CallsCanonical.enter (p : Progress) (name : String) (form : Path.IsCanonical target) :
    CallsCanonical p (p.enter name target) := by
  refine ⟨[.asked target, .opened target], p.enter_calls name target, ?_⟩
  simpa [Call.path] using form

theorem Scope.target_isCanonical (scope : Scope) (i : Import) : Path.IsCanonical (scope.target i) :=
  Path.canonical_isCanonical _

theorem Refusal.calls_canonical {fault : Fault} (refusal : Refusal context scope i p fault after) :
    CallsCanonical p after := by
  have form := scope.target_isCanonical i
  cases refusal with
  | cyclic => exact .refl p
  | notFound => exact .call p (.asked _) form
  | unreadable => exact .enter p i.name form

theorem Run.calls_canonical (run : Run context fuel scope d p events outcome) :
    CallsCanonical p outcome.2 := by
  induction run with
  | rendered fuel scope elements p => exact .refl p
  | reused present tail ih => exact ih
  | refused absent refusal => exact refusal.calls_canonical
  | @cut scope i rest elements p text absent opens =>
    exact .enter p i.name (scope.target_isCanonical i)
  | @unread fuel scope i rest elements p text failure records absent opens fails =>
    exact .enter p i.name (scope.target_isCanonical i)
  | @failed fuel scope i rest elements p after text e records events failure absent opens read inner ih =>
    exact (CallsCanonical.enter p i.name (scope.target_isCanonical i)).trans ih
  | @stored fuel scope i rest elements p after text e records events more html outcome absent opens read
      inner tail ihInner ihTail =>
    have inside : CallsCanonical p after :=
      (CallsCanonical.enter p i.name (scope.target_isCanonical i)).trans ihInner
    exact inside.trans ihTail

theorem Scope.enter_isCanonical (files : ∀ file ∈ scope.resolving, Path.IsCanonical file)
    (form : Path.IsCanonical target) : (scope.enter target).IsCanonical := by
  refine ⟨form.directory, ?_⟩
  rw [Scope.enter_resolving]
  intro file member
  rcases List.mem_append.mp member with before | last
  · exact files file before
  · obtain rfl := List.mem_singleton.mp last
    exact form

def Scope.ofFile (target : String) : Scope := ⟨Path.directory target, [target]⟩

theorem Scope.ofFile_isCanonical (form : Path.IsCanonical target) : (Scope.ofFile target).IsCanonical :=
  ⟨form.directory, by simpa [Scope.ofFile] using form⟩

theorem Enters.isCanonical (enters : Enters context scope d name target inner)
    (files : ∀ file ∈ scope.resolving, Path.IsCanonical file) : inner.IsCanonical := by
  -- nothing is asked of the outermost directory: a target is canonical from any
  induction enters with
  | @direct scope d i text member opens =>
    exact Scope.enter_isCanonical files (scope.target_isCanonical i)
  | @through scope inner d e i name target text records member opens read deeper ih =>
    exact ih (Scope.enter_isCanonical files (scope.target_isCanonical i)).resolving

end

section

variable {context : Context} {scope : Scope} {source : String} {p : Progress}

theorem compileWithin_staysCanonical (fuel : Nat)
    (files : ∀ file ∈ scope.resolving, Path.IsCanonical file) :
    StaysCanonical p (historyWithin context fuel scope source p)
      (compileWithin context fuel scope source p) := by
  cases fuel with
  | zero => exact ⟨.refl p, by simp [historyWithin]⟩
  | succ fuel =>
    rcases read : document context.wide context.width source with ⟨failure | d, records⟩
    · rw [compileWithin_unread read, historyWithin_unread read]
      exact ⟨.refl p, by simp⟩
    · have run := compileWithin_run read fuel scope p
      exact ⟨run.calls_canonical, fun name target inner entered => (run.enters entered).isCanonical files⟩

def fileHistoryWithin (context : Context) (fuel : Nat) (path : String) (p : Progress) : List Event :=
  let target := Path.canonical path.toList
  match Table.find? context.files target with
  | some (.ok text) =>
    historyWithin context fuel (.ofFile target) text ((p.call (.asked target)).call (.opened target))
  | _ => []

theorem fileHistory_eq_fileHistoryWithin (context : Context) (path : String) (p : Progress) :
    fileHistory context path p = fileHistoryWithin context (fileDepth context path) path p := by
  match found : Table.find? context.files (Path.canonical path.toList) with
  | none => simp [fileHistory, fileHistoryWithin, found]
  | some (.error cause) => simp [fileHistory, fileHistoryWithin, found]
  | some (.ok text) =>
    simp [fileHistory, fileHistoryWithin, fileDepth, Scope.ofFile, found, history]

theorem fileWithin_staysCanonical (context : Context) (fuel : Nat) (path : String) (p : Progress) :
    StaysCanonical p (fileHistoryWithin context fuel path p) (fileWithin context fuel path p) := by
  have form := Path.canonical_isCanonical path.toList
  have asked : CallsCanonical p (p.call (.asked (Path.canonical path.toList))) := .call p (.asked _) form
  have opened : CallsCanonical p
      ((p.call (.asked (Path.canonical path.toList))).call (.opened (Path.canonical path.toList))) :=
    asked.trans (.call _ (.opened _) form)
  match found : Table.find? context.files (Path.canonical path.toList) with
  | none => exact ⟨by simpa [fileWithin, found] using asked, by simp [fileHistoryWithin, found]⟩
  | some (.error cause) =>
    exact ⟨by simpa [fileWithin, found] using opened, by simp [fileHistoryWithin, found]⟩
  | some (.ok text) =>
    obtain ⟨calls, scopes⟩ : StaysCanonical _
        (historyWithin context fuel (.ofFile (Path.canonical path.toList)) text _) _ :=
      compileWithin_staysCanonical fuel (Scope.ofFile_isCanonical form).resolving
    rw [fileWithin_of_text _ _ found]
    exact ⟨opened.trans calls, by simpa only [fileHistoryWithin, found] using scopes⟩

end

/-- Every import leads to the canonical path that its components lead to. So whatever is asked for
or opened is canonical, and every scope, even in a compile that never ends. -/
theorem import_targets_canonical :
    (∀ base path : String, Path.Resolution base path (Path.resolve base path)) ∧
    ∀ (context : Context) (p : Progress),
      (∀ base source, StaysCanonical p (history context ⟨base, []⟩ source p)
        (compile context ⟨base, []⟩ source p)) ∧
      (∀ path : String, (Scope.ofFile (Path.canonical path.toList)).IsCanonical ∧
        StaysCanonical p (fileHistory context path p) (file context path p)) ∧
      ∀ fuel,
        (∀ base source, StaysCanonical p (historyWithin context fuel ⟨base, []⟩ source p)
          (compileWithin context fuel ⟨base, []⟩ source p)) ∧
        ∀ path, StaysCanonical p (fileHistoryWithin context fuel path p)
          (fileWithin context fuel path p) := by
  refine ⟨Path.resolve_resolution, fun context p => ⟨?_, ?_, fun fuel => ⟨?_, ?_⟩⟩⟩
  · exact fun base source => compileWithin_staysCanonical _ (by simp)
  · intro path
    rw [file_eq_fileWithin, fileHistory_eq_fileHistoryWithin]
    exact ⟨Scope.ofFile_isCanonical (Path.canonical_isCanonical _),
      fileWithin_staysCanonical context _ path p⟩
  · exact fun base source => compileWithin_staysCanonical fuel (by simp)
  · exact fun path => fileWithin_staysCanonical context fuel path p

end ElementMarkup.Compile
