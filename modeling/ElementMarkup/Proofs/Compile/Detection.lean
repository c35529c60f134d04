import ElementMarkup.Proofs.Compile.Cycle
import ElementMarkup.Proofs.Compile.Depth

/-!
Compiling with and without cycle detection. A compile that detection does not refuse is the same,
step by step, without it.
-/

namespace ElementMarkup.Compile

def Context.detecting (context : Context) (detect : Bool) : Context := { context with detect }

def RefusesCycle (result : Except Failure String) : Prop :=
  ∃ diagnostic, result = .error (.diagnosed diagnostic) ∧ diagnostic.kind = .cyclicImport

section

variable {context : Context} {scope : Scope} {d : Document} {fuel : Nat} {p : Progress}
  {events : List Event} {outcome : Outcome String} {i : Import} {text : String} {records : List Record}

theorem RefusesCycle.attribute {failure : Failure} (refuses : RefusesCycle (.error failure)) :
    RefusesCycle (.error (scope.attribute failure)) := by
  obtain ⟨diagnostic, same, kind⟩ := refuses
  obtain rfl := Except.error.inj same
  obtain ⟨named, attributed⟩ := scope.attribute_diagnosed diagnostic
  obtain ⟨cause, origin, like⟩ := Scope.attribute_kind attributed
  obtain rfl := Failure.diagnosed.inj origin
  exact ⟨named, by rw [attributed], like.symm.trans kind⟩

theorem RefusesCycle.of_attribute {failure : Failure}
    (refuses : RefusesCycle (.error (scope.attribute failure))) : RefusesCycle (.error failure) := by
  obtain ⟨diagnostic, same, kind⟩ := refuses
  obtain ⟨cause, rfl, like⟩ := Scope.attribute_kind (Except.error.inj same)
  exact ⟨cause, rfl, like.trans kind⟩

theorem not_refusesCycle_ok (html : String) : ¬ RefusesCycle (.ok html) := by
  rintro ⟨diagnostic, impossible, -⟩
  cases impossible

theorem not_refusesCycle_of_unread {failure : Failure}
    (fails : document context.wide context.width text = (.error failure, records)) :
    ¬ RefusesCycle (.error failure) := by
  rintro ⟨diagnostic, same, kind⟩
  obtain rfl := Except.error.inj same
  exact document_kind_ne_cyclicImport fails kind

theorem Opens.undetected (opens : Opens context scope i text) :
    Opens (context.detecting false) scope i text :=
  ⟨fun again => Bool.false_ne_true again.1, opens.found⟩

theorem Refusal.undetected {fault : Fault} {after : Progress}
    (refusal : Refusal context scope i p fault after)
    (accepted : ¬ RefusesCycle (.error fault.failure)) :
    Refusal (context.detecting false) scope i p fault after := by
  have free : ¬ ((context.detecting false).detect = true ∧ scope.target i ∈ scope.resolving) :=
    fun again => Bool.false_ne_true again.1
  cases refusal with
  | cyclic detects again => exact absurd ⟨_, rfl, rfl⟩ accepted
  | notFound _ missing => exact .notFound free missing
  | unreadable _ found => exact .unreadable free found

/-- The two differ only where detection refuses an import, and then that is what the run comes to.
-/
theorem Run.undetected (run : Run context fuel scope d p events outcome)
    (accepted : ¬ RefusesCycle outcome.1) :
    Run (context.detecting false) fuel scope d p events outcome := by
  induction run with
  | rendered fuel scope elements p => exact .rendered fuel scope elements p
  | reused present tail ih => exact .reused present (ih accepted)
  | refused absent refusal =>
    exact .refused absent (refusal.undetected fun refuses => accepted refuses.attribute)
  | cut absent opens => exact .cut absent opens.undetected
  | unread absent opens fails => exact .unread absent opens.undetected fails
  | failed absent opens read inner ih =>
    exact .failed absent opens.undetected read (ih fun refuses => accepted refuses.attribute)
  | stored absent opens read inner tail ihInner ihTail =>
    exact .stored absent opens.undetected read (ihInner (not_refusesCycle_ok _)) (ihTail accepted)

theorem Run.compiled_undetected (run : Run context fuel scope d (p.note records) events outcome)
    (read : document context.wide context.width text = (.ok d, records))
    (accepted : ¬ RefusesCycle outcome.1) :
    compileWithin (context.detecting false) (fuel + 1) scope text p = outcome := by
  have readToo : document (context.detecting false).wide (context.detecting false).width text =
      (.ok d, records) := read
  exact ((run_iff readToo fuel scope p events outcome).mp (run.undetected accepted)).2.symm

theorem compileWithin_undetected {source : String} (fuel : Nat) (scope : Scope) (p : Progress)
    (accepted : ¬ RefusesCycle (compileWithin context fuel scope source p).1) :
    compileWithin (context.detecting false) fuel scope source p =
      compileWithin context fuel scope source p := by
  cases fuel with
  | zero => rfl
  | succ fuel =>
    rcases read : document context.wide context.width source with ⟨failure | d, records⟩
    · have unread : document (context.detecting false).wide (context.detecting false).width source =
          (.error failure, records) := read
      rw [compileWithin_unread read, compileWithin_unread unread]
    · exact (compileWithin_run read fuel scope p).compiled_undetected read accepted

theorem compile_undetected {source : String}
    (ends : (compile context scope source p).1 ≠ .error .unending)
    (accepted : ¬ RefusesCycle (compile context scope source p).1)
    (enough : depth context source ≤ fuel) :
    compileWithin (context.detecting false) fuel scope source p = compile context scope source p := by
  have same := compileWithin_undetected (depth context source) scope p accepted
  have stable := compileWithin_stable (by rw [same]; exact ends) enough
  exact stable.trans same

end

/-- A compile that detection does not refuse comes to the same without it, in every respect. -/
theorem compile_same_without_detection (context : Context) (scope : Scope) (source : String)
    (p : Progress)
    (accepted : (∃ html, (compile (context.detecting true) scope source p).1 = .ok html) ∨
      ∃ diagnostic, (compile (context.detecting true) scope source p).1 = .error (.diagnosed diagnostic) ∧
        diagnostic.kind ≠ .cyclicImport) :
    compile (context.detecting false) scope source p = compile (context.detecting true) scope source p ∧
      ∀ fuel, depth (context.detecting true) source ≤ fuel →
        compileWithin (context.detecting false) fuel scope source p =
          compile (context.detecting true) scope source p := by
  have ends : (compile (context.detecting true) scope source p).1 ≠ .error .unending := by
    rcases accepted with ⟨html, result⟩ | ⟨diagnostic, result, -⟩
    · simp [result]
    · simp [result]
  have unrefused : ¬ RefusesCycle (compile (context.detecting true) scope source p).1 := by
    rintro ⟨cyclic, refused, kind⟩
    rcases accepted with ⟨html, result⟩ | ⟨diagnostic, result, other⟩
    · simp [refused] at result
    · obtain rfl : cyclic = diagnostic := by simpa [refused] using result
      exact other kind
  have same : ∀ fuel, depth (context.detecting true) source ≤ fuel →
      compileWithin (context.detecting false) fuel scope source p =
        compile (context.detecting true) scope source p :=
    fun fuel enough => compile_undetected ends unrefused enough
  have least := same _ (Nat.le_refl _)
  have settled := (compileWithin_eq_compile (by rw [least]; exact ends)).1
  exact ⟨settled.symm.trans least, same⟩

def halfway : Context where
  files := [("/a", .ok "import S from \"s\"; import X from \"x\"; S:;"), ("/s", .ok "p: content:{x};")]

theorem halfway_same_without_detection :
    (compile (halfway.detecting false) ⟨"/", ["/page"]⟩ "import A from \"a\"; A:;" {}).1 =
        .error (Fault.notFound "X" "/x").failure ∧
      (compile (halfway.detecting false) ⟨"/", ["/page"]⟩ "import A from \"a\"; A:;" {}).2.components =
        [("S", "<p>x</p>")] := by
  have result : (compile (halfway.detecting true) ⟨"/", ["/page"]⟩ "import A from \"a\"; A:;" {}).1 =
      .error (Fault.notFound "X" "/x").failure := by
    decide +kernel
  have stored : (compile (halfway.detecting true) ⟨"/", ["/page"]⟩ "import A from \"a\"; A:;"
      {}).2.components = [("S", "<p>x</p>")] := by
    decide +kernel
  have same := (compile_same_without_detection halfway ⟨"/", ["/page"]⟩ "import A from \"a\"; A:;" {}
    (Or.inr ⟨_, result, by decide⟩)).1
  exact ⟨by rw [same, result], by rw [same, stored]⟩

end ElementMarkup.Compile
