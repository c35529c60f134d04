import ElementMarkup.Proofs.Compile.Store

/-!
What a compile leaves of the store that it is given. Whether it succeeds or fails, the entries that
were there stay as they were, and each new one is what a whole import inside it came to.
-/

namespace ElementMarkup.Compile

section

variable {context : Context} {fuel : Nat} {scope : Scope} {d : Document} {p : Progress}
  {events : List Event} {outcome : Outcome String} {name html : String}

/-- What a name finds is what was stored under it last. -/
theorem stored_of_find?_replay (found : Table.find? (replay [] events) name = some html) :
    ∃ before after, events = before ++ .stored name html :: after := by
  induction events using List.reverseRecOn with
  | nil => simp at found
  | append_singleton events event ih =>
    cases event with
    | entered other target inner =>
      obtain ⟨before, after, split⟩ := ih (by simpa using found)
      exact ⟨before, after ++ [.entered other target inner], by simp [split]⟩
    | stored other stored =>
      by_cases same : name = other
      · subst same
        obtain rfl : stored = html := by simpa using found
        exact ⟨events, [], rfl⟩
      · obtain ⟨before, after, split⟩ := ih (by
          simpa [Table.find?_store_other _ _ same] using found)
        exact ⟨before, after ++ [.stored other stored], by simp [split]⟩

/-- No import of a name begins when it is stored, so nothing is stored in its place. -/
theorem Run.keeps_entries (run : Run context fuel scope d p events outcome)
    (found : Table.find? p.components name = some html) :
    Table.find? outcome.2.components name = some html := by
  have untouched : Table.find? (replay [] events) name = none := by
    by_contra stored
    obtain ⟨other, replaced⟩ := Option.ne_none_iff_exists'.mp stored
    obtain ⟨before, after, split⟩ := stored_of_find?_replay replaced
    obtain ⟨front, target, inner, inside, -, -, absent⟩ := run.store_ends_import split
    have present : Table.has (replay p.components front) name = true :=
      (has_replay _ _ _).mpr (Or.inr (Table.has_of_find? found))
    rw [present] at absent
    cases absent
  rw [run.replay_eq, find?_replay, untouched, Option.none_or, found]

theorem Run.new_entry (run : Run context fuel scope d p events outcome)
    (absent : Table.find? p.components name = none)
    (found : Table.find? outcome.2.components name = some html) :
    ∃ before after, events = before ++ .stored name html :: after ∧
      Finishes context scope d p.components before name html := by
  rw [run.replay_eq, find?_replay, absent, Option.or_none] at found
  obtain ⟨before, after, split⟩ := stored_of_find?_replay found
  exact ⟨before, after, split, run.finishes_import split⟩

theorem Refusal.calls {i : Import} {fault : Fault} {after : Progress}
    (refusal : Refusal context scope i p fault after) : ∃ calls, after.calls = p.calls ++ calls := by
  cases refusal with
  | cyclic => exact ⟨[], by simp⟩
  | notFound => exact ⟨[.asked (scope.target i)], rfl⟩
  | unreadable => exact ⟨[.asked (scope.target i), .opened (scope.target i)], p.enter_calls _ _⟩

/-- Every file that is entered is read. -/
theorem Run.calls_eq (run : Run context fuel scope d p events outcome) :
    ∃ calls, outcome.2.calls = p.calls ++ calls ∧
      ∀ name target inner, .entered name target inner ∈ events → .opened target ∈ calls := by
  induction run with
  | rendered => exact ⟨[], by simp⟩
  | reused present tail ih => exact ih
  | refused absent refusal =>
    obtain ⟨calls, same⟩ := refusal.calls
    exact ⟨calls, same, by simp⟩
  | @cut scope i rest elements p text absent opens =>
    exact ⟨[.asked (scope.target i), .opened (scope.target i)], by simp, by simp +contextual⟩
  | @unread fuel scope i rest elements p text failure records absent opens fails =>
    exact ⟨[.asked (scope.target i), .opened (scope.target i)], by simp, by simp +contextual⟩
  | @failed fuel scope i rest elements p after text e records events failure absent opens read inner ih =>
    obtain ⟨calls, same, opened⟩ := ih
    refine ⟨[.asked (scope.target i), .opened (scope.target i)] ++ calls, by simpa using same, ?_⟩
    intro name target deeper entered
    rcases List.mem_cons.mp entered with here | below
    · cases here
      simp
    · exact List.mem_append_right _ (opened name target deeper below)
  | @stored fuel scope i rest elements p after text e records events more html outcome absent opens read
      inner tail ihInner ihTail =>
    obtain ⟨inside, sameInside, openedInside⟩ := ihInner
    obtain ⟨later, sameLater, openedLater⟩ := ihTail
    refine ⟨[.asked (scope.target i), .opened (scope.target i)] ++ inside ++ later, ?_, ?_⟩
    · simp only [Progress.note_calls, Progress.enter_calls] at sameInside
      rw [sameLater, Progress.store_calls, sameInside]
      simp
    · intro name target deeper entered
      simp only [List.cons_append, List.mem_cons, List.mem_append, Event.entered.injEq, reduceCtorEq,
        false_or] at entered
      rcases entered with ⟨-, rfl, -⟩ | below | after
      · simp
      · simp [openedInside name target deeper below]
      · simp [openedLater name target deeper after]

end

/-- An entry is new because something that was compiled imports its name, and has the HTML of that
import. -/
structure Extends (context : Context) (scope : Scope) (source : String) (p : Progress)
    (calls : List Call) : Prop where
  made : (compile context scope source p).2.calls = p.calls ++ calls
  keeps : ∀ name html, Table.find? p.components name = some html →
    Table.find? (compile context scope source p).2.components name = some html
  adds : ∀ name html, Table.find? p.components name = none →
    Table.find? (compile context scope source p).2.components name = some html →
    ∃ d records before after, document context.wide context.width source = (.ok d, records) ∧
      history context scope source p = before ++ .stored name html :: after ∧
      Finishes context scope d p.components before name html
  reads : ∀ name target inner, .entered name target inner ∈ history context scope source p →
    .opened target ∈ calls
  unread : ∀ failure records, document context.wide context.width source = (.error failure, records) →
    (compile context scope source p).2.components = p.components ∧ calls = []
  imports : ∀ html d records, (compile context scope source p).1 = .ok html →
    document context.wide context.width source = (.ok d, records) → ∀ i ∈ d.imports,
      Table.has (compile context scope source p).2.components i.name = true

theorem extends_of_unread {context : Context} {scope : Scope} {source : String} {p : Progress}
    {failure : Failure} {records : List Record}
    (fails : document context.wide context.width source = (.error failure, records)) :
    Extends context scope source p [] := by
  obtain ⟨result, nothing⟩ : compile context scope source p = _ ∧ history context scope source p = [] :=
    compile_unread fails
  refine ⟨by simp [result], ?_, ?_, by simp [nothing], fun _ _ _ => by simp [result], ?_⟩
  · intro name html found
    rwa [result]
  · intro name html absent found
    rw [result, Progress.note_components, absent] at found
    cases found
  · intro html d others succeeds read
    cases fails.symm.trans read

theorem compile_extends (context : Context) (scope : Scope) (source : String) (p : Progress) :
    ∃ calls, Extends context scope source p calls := by
  rcases read : document context.wide context.width source with ⟨failure | d, records⟩
  · exact ⟨[], extends_of_unread read⟩
  · have run : Run context _ scope d (p.note records) (history context scope source p)
        (compile context scope source p) := compile_run read
    obtain ⟨calls, made, opened⟩ := run.calls_eq
    refine ⟨calls, made, fun _ _ => run.keeps_entries, ?_, opened, ?_, ?_⟩
    · intro name html absent found
      obtain ⟨before, after, split, finishes⟩ := run.new_entry absent found
      exact ⟨d, records, before, after, read, split, finishes⟩
    · intro failure others unread
      cases read.symm.trans unread
    · intro html e others succeeds again
      cases read.symm.trans again
      exact run.imports_stored succeeds

def partway : Context where
  files := [("/a", .ok "import S from \"s\"; import X from \"x\"; S:;"), ("/s", .ok "import K from \"k\"; K:;")]

/-- The shared file is stored, with what was there before, although the compile fails. -/
theorem partway_extends :
    ∃ d records before after, document false 40 "import A from \"a\"; A:;" = (.ok d, records) ∧
      history partway ⟨"/", []⟩ "import A from \"a\"; A:;" { components := [("K", "kept")] } =
        before ++ .stored "S" "kept" :: after ∧
      Finishes partway ⟨"/", []⟩ d [("K", "kept")] before "S" "kept" := by
  obtain ⟨calls, extended⟩ := compile_extends partway ⟨"/", []⟩ "import A from \"a\"; A:;"
    { components := [("K", "kept")] }
  exact extended.adds "S" "kept" (by decide) (by decide +kernel)

end ElementMarkup.Compile
