import ElementMarkup.Proofs.Compile.Depth
import ElementMarkup.Proofs.Compile.Extension

/-!
Which files a compile depends on. It learns nothing of a file that it does not ask for, so over other
files that are the same wherever it asks it goes the same way, step by step: to the same result, with
the same store, calls and journal.
-/

namespace ElementMarkup.Compile

def Context.over (context : Context) (files : Files) : Context := { context with files }

def Asks (p after : Progress) (path : String) : Prop :=
  ∃ calls, after.calls = p.calls ++ calls ∧ .asked path ∈ calls

/-- The files are those of the context at every path asked for between `p` and `after`. -/
def SameWhereAsked (context : Context) (files : Files) (p after : Progress) : Prop :=
  ∀ path, Asks p after path → Table.find? files path = Table.find? context.files path

section

variable {context : Context} {files : Files} {fuel : Nat} {scope : Scope} {d : Document} {i : Import}
  {p q after last : Progress} {events : List Event} {outcome : Outcome String} {path text : String}

/-- What is asked for in a part of a compile is asked for in the whole. -/
theorem Asks.part (asks : Asks q after path) (before : p.calls <+: q.calls)
    (later : after.calls <+: last.calls) : Asks p last path := by
  obtain ⟨calls, made, member⟩ := asks
  obtain ⟨front, first⟩ := before
  obtain ⟨back, rest⟩ := later
  refine ⟨front ++ calls ++ back, ?_, by simp [member]⟩
  rw [← rest, made, ← first]
  simp

theorem SameWhereAsked.part (same : SameWhereAsked context files p last) (before : p.calls <+: q.calls)
    (later : after.calls <+: last.calls) : SameWhereAsked context files q after :=
  fun path asks => same path (asks.part before later)

theorem calls_enter (p : Progress) (name target : String) : p.calls <+: (p.enter name target).calls :=
  ⟨_, (p.enter_calls name target).symm⟩

theorem Run.calls_kept (run : Run context fuel scope d p events outcome) : p.calls <+: outcome.2.calls := by
  obtain ⟨calls, made, -⟩ := run.calls_eq
  exact ⟨calls, made.symm⟩

theorem asks_enter (p : Progress) (name target : String) : Asks p (p.enter name target) target :=
  ⟨_, p.enter_calls name target, by simp⟩

theorem Opens.over (opens : Opens context scope i text)
    (same : SameWhereAsked context files p after)
    (later : (p.enter i.name (scope.target i)).calls <+: after.calls) :
    Opens (context.over files) scope i text := by
  refine ⟨opens.free, ?_⟩
  have asks : Asks p after (scope.target i) :=
    (asks_enter p i.name (scope.target i)).part (List.prefix_refl _) later
  exact (same _ asks).trans opens.found

theorem Refusal.over {fault : Fault} (refusal : Refusal context scope i p fault after)
    (same : SameWhereAsked context files p after) : Refusal (context.over files) scope i p fault after := by
  cases refusal with
  | cyclic detects again => exact .cyclic detects again
  | notFound free missing =>
    have asks : Asks p (p.call (.asked (scope.target i))) (scope.target i) :=
      ⟨[.asked (scope.target i)], rfl, List.mem_singleton.mpr rfl⟩
    exact .notFound free ((same _ asks).trans missing)
  | unreadable free found =>
    exact .unreadable free ((same _ (asks_enter p i.name (scope.target i))).trans found)

theorem Run.over (run : Run context fuel scope d p events outcome)
    (same : SameWhereAsked context files p outcome.2) :
    Run (context.over files) fuel scope d p events outcome := by
  induction run with
  | rendered fuel scope elements p => exact .rendered fuel scope elements p
  | reused present tail ih => exact .reused present (ih same)
  | refused absent refusal => exact .refused absent (refusal.over same)
  | cut absent opens => exact .cut absent (opens.over same (List.prefix_refl _))
  | unread absent opens fails => exact .unread absent (opens.over same (List.prefix_refl _)) fails
  | @failed fuel scope i rest elements p after text e records events failure absent opens read inner ih =>
    have inside : SameWhereAsked context files ((p.enter i.name (scope.target i)).note records) after :=
      same.part (calls_enter p i.name _) (List.prefix_refl _)
    exact .failed absent (opens.over same inner.calls_kept) read (ih inside)
  | @stored fuel scope i rest elements p middle text e records events more html outcome absent opens read
      inner tail ihInner ihTail =>
    -- the imported file is left with the calls that the rest of the imports start from
    have entered := calls_enter p i.name (scope.target i)
    have first : (p.enter i.name (scope.target i)).calls <+: middle.calls := inner.calls_kept
    have onward : middle.calls <+: outcome.2.calls := tail.calls_kept
    have inside : SameWhereAsked context files ((p.enter i.name (scope.target i)).note records) middle :=
      same.part entered onward
    have later : SameWhereAsked context files (middle.store i.name html) outcome.2 :=
      same.part (entered.trans first) (List.prefix_refl _)
    exact .stored absent (opens.over same (first.trans onward)) read (ihInner inside) (ihTail later)

end

/-- A compile that ends comes to the same over any files that are the same wherever it asks. -/
theorem compile_depends_on_asked (context : Context) (files : Files) (scope : Scope) (source : String)
    (p : Progress) (ends : (compile context scope source p).1 ≠ .error .unending)
    (same : SameWhereAsked context files p (compile context scope source p).2) :
    compile (context.over files) scope source p = compile context scope source p := by
  rcases read : document context.wide context.width source with ⟨failure | d, records⟩
  · have readToo : document (context.over files).wide (context.over files).width source =
        (.error failure, records) := read
    rw [(compile_unread read).1, (compile_unread readToo).1]
  · have readToo : document (context.over files).wide (context.over files).width source =
        (.ok d, records) := read
    have run : Run context _ scope d (p.note records) _ (compile context scope source p) := compile_run read
    obtain ⟨-, result⟩ := (run_iff readToo _ scope p _ _).mp (run.over same)
    -- over the other files another depth is taken, but a compile that ends does not depend on it
    rw [result]
    rw [result] at ends
    exact (compileWithin_eq_compile ends).1.symm

/-- An import that fails after a shared file has been stored. -/
def astray : Context where
  files := [("/a", .ok "import K from \"k\"; import S from \"s\"; import X from \"x\"; S:;"),
    ("/s", .ok "p: content:{x};"), ("/k", .ok "K")]

theorem astray_depends_on_asked :
    (compile astray ⟨"/", []⟩ "import A from \"a\"; A:;" { components := [("K", "kept")] }).1 =
        .error (Fault.notFound "X" "/x").failure ∧
      compile (astray.over [("/s", .ok "p: content:{x};"), ("/y", .ok "i:;"),
          ("/a", .ok "import K from \"k\"; import S from \"s\"; import X from \"x\"; S:;")])
          ⟨"/", []⟩ "import A from \"a\"; A:;" { components := [("K", "kept")] } =
        compile astray ⟨"/", []⟩ "import A from \"a\"; A:;" { components := [("K", "kept")] } := by
  have result : (compile astray ⟨"/", []⟩ "import A from \"a\"; A:;"
      { components := [("K", "kept")] }).1 = .error (Fault.notFound "X" "/x").failure := by
    decide +kernel
  have calls : (compile astray ⟨"/", []⟩ "import A from \"a\"; A:;"
      { components := [("K", "kept")] }).2.calls =
        [.asked "/a", .opened "/a", .asked "/s", .opened "/s", .asked "/x"] := by
    decide +kernel
  refine ⟨result, compile_depends_on_asked astray _ _ _ _ (by simp [result, Fault.failure]) ?_⟩
  rintro path ⟨made, all, member⟩
  rw [calls] at all
  obtain rfl : _ = made := all
  have listed : path = "/a" ∨ path = "/s" ∨ path = "/x" := by simpa using member
  rcases listed with rfl | rfl | rfl <;> decide

end ElementMarkup.Compile
