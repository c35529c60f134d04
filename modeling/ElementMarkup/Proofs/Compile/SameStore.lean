import ElementMarkup.Proofs.Compile.Store

/-!
What a compile comes to depends on the store that it starts with. The calls and the journal from
before it make no difference, and the calls that it adds are the same. If all its imports are stored
it depends on nothing else: so it is with the store that a compile of the same source has left.
-/

namespace ElementMarkup.Compile

/-- From `p` to `after` and from `q` to `other` the calls are the same, and the stores equal. -/
structure Alike (p q after other : Progress) : Prop where
  stored : other.components = after.components
  called : ∃ calls, after.calls = p.calls ++ calls ∧ other.calls = q.calls ++ calls

section

variable {context : Context} {fuel : Nat} {scope : Scope} {d : Document} {p q : Progress}
  {events : List Event} {outcome : Outcome String}

theorem Alike.trans {p' q' after other : Progress} (first : Alike p q p' q')
    (later : Alike p' q' after other) : Alike p q after other := by
  obtain ⟨calls, mine, yours⟩ := first.called
  obtain ⟨more, mineLater, yoursLater⟩ := later.called
  refine ⟨later.stored, calls ++ more, ?_, ?_⟩
  · rw [mineLater, mine, List.append_assoc]
  · rw [yoursLater, yours, List.append_assoc]

theorem Alike.refl (same : q.components = p.components) : Alike p q p q :=
  ⟨same, [], by simp⟩

theorem Alike.enter (same : q.components = p.components) (name target : String) :
    Alike p q (p.enter name target) (q.enter name target) :=
  ⟨same, [.asked target, .opened target], p.enter_calls name target, q.enter_calls name target⟩

theorem Alike.note {after other : Progress} (alike : Alike p q after other) (records more : List Record) :
    Alike p q (after.note records) (other.note more) :=
  ⟨alike.stored, alike.called⟩

theorem Alike.store {after other : Progress} (alike : Alike p q after other) (name html : String) :
    Alike p q (after.store name html) (other.store name html) := by
  refine ⟨?_, alike.called⟩
  rw [Progress.store_components, alike.stored, Progress.store_components]

theorem Refusal.alike {i : Import} {fault : Fault} {after : Progress}
    (refusal : Refusal context scope i p fault after) (same : q.components = p.components) :
    ∃ other, Refusal context scope i q fault other ∧ Alike p q after other := by
  cases refusal with
  | cyclic detects again => exact ⟨q, .cyclic detects again, .refl same⟩
  | notFound free missing =>
    exact ⟨_, .notFound free missing, same, [.asked (scope.target i)], rfl, rfl⟩
  | unreadable free found => exact ⟨_, .unreadable free found, .enter same _ _⟩

theorem Run.alike (run : Run context fuel scope d p events outcome)
    (same : q.components = p.components) :
    ∃ other, Run context fuel scope d q events (outcome.1, other) ∧ Alike p q outcome.2 other := by
  induction run generalizing q with
  | rendered fuel scope elements p =>
    refine ⟨q.note (Html.records q.components elements), ?_, (Alike.refl same).note _ _⟩
    rw [← same]
    exact .rendered fuel scope elements q
  | @reused fuel scope i rest elements p events outcome present tail ih =>
    obtain ⟨other, run, alike⟩ := ih (q := q.note [Compile.reused i.name]) same
    exact ⟨other, .reused (by rwa [same]) run, alike.stored, alike.called⟩
  | refused absent refusal =>
    obtain ⟨other, refused, alike⟩ := refusal.alike same
    exact ⟨other, .refused (by rwa [same]) refused, alike⟩
  | cut absent opens => exact ⟨_, .cut (by rwa [same]) opens, .enter same _ _⟩
  | unread absent opens fails =>
    exact ⟨_, .unread (by rwa [same]) opens fails, (Alike.enter same _ _).note _ _⟩
  | @failed fuel scope i rest elements p after text e records events failure absent opens read inner ih =>
    have entered := (Alike.enter same i.name (scope.target i)).note records records
    obtain ⟨other, run, alike⟩ := ih entered.stored
    exact ⟨other, .failed (by rwa [same]) opens read run, entered.trans alike⟩
  | @stored fuel scope i rest elements p after text e records events more html outcome absent opens read
      inner tail ihInner ihTail =>
    have entered := (Alike.enter same i.name (scope.target i)).note records records
    obtain ⟨middle, run, inside⟩ := ihInner entered.stored
    have stored := (entered.trans inside).store i.name html
    obtain ⟨last, later, alike⟩ := ihTail stored.stored
    exact ⟨last, .stored (by rwa [same]) opens read run later, stored.trans alike⟩

theorem compile_alike {source : String} (same : q.components = p.components) :
    (compile context scope source q).1 = (compile context scope source p).1 ∧
      Alike p q (compile context scope source p).2 (compile context scope source q).2 := by
  rcases read : document context.wide context.width source with ⟨failure | d, records⟩
  · rw [(compile_unread read).1, (compile_unread read).1]
    exact ⟨rfl, (Alike.refl same).note _ _⟩
  · have run : Run context _ scope d (p.note records) _ (compile context scope source p) := compile_run read
    obtain ⟨other, again, alike⟩ := run.alike (q := q.note records) same
    have own : Run context _ scope d (q.note records) _ (compile context scope source q) := compile_run read
    -- a run is determined by where it starts
    have equal := again.computed.2.trans own.computed.2.symm
    rw [← equal]
    exact ⟨rfl, alike.stored, alike.called⟩

theorem Progress.note_note (p : Progress) (records more : List Record) :
    (p.note records).note more = p.note (records ++ more) := by
  simp [Progress.note, Journal.addAll]

/-- Imports that are stored are passed over, whatever the files are and wherever the source stands. -/
theorem run_all_stored (context : Context) (fuel : Nat) (scope : Scope) (d : Document) (p : Progress)
    (stored : ∀ i ∈ d.imports, Table.has p.components i.name = true) :
    Run context fuel scope d p [] (.ok (Html.render p.components d.elements),
      p.note (d.imports.map (fun i => reused i.name) ++ Html.records p.components d.elements)) := by
  obtain ⟨imports, elements⟩ := d
  induction imports generalizing p with
  | nil => exact .rendered fuel scope elements p
  | cons i rest ih =>
    obtain ⟨present, others⟩ := List.forall_mem_cons.mp stored
    have tail := ih (p.note [reused i.name]) others
    rw [Progress.note_note] at tail
    exact .reused present tail

theorem compile_all_stored {source : String} {records : List Record}
    (read : document context.wide context.width source = (.ok d, records))
    (stored : ∀ i ∈ d.imports, Table.has p.components i.name = true) :
    ∃ noted, compile context scope source p = (.ok (Html.render p.components d.elements), p.note noted) := by
  have run : Run context _ scope d (p.note records) _ (compile context scope source p) := compile_run read
  have passed := run_all_stored context (depth context source - 1) scope d (p.note records) stored
  rw [Progress.note_note] at passed
  exact ⟨_, run.computed.2.trans passed.computed.2.symm⟩

end

/-- With the store that its compile has left, a source compiles to the same HTML, and no file is
asked for. -/
theorem recompile_from_store (context : Context) (scope : Scope) (source html : String)
    (p after : Progress) (compiled : compile context scope source p = (.ok html, after))
    (files : Files) (detect : Bool) (other : Scope) (q : Progress)
    (warm : q.components = after.components) :
    (compile { context with files, detect } other source q).1 = .ok html ∧
      (compile { context with files, detect } other source q).2.components = after.components ∧
      (compile { context with files, detect } other source q).2.calls = q.calls := by
  rcases read : document context.wide context.width source with ⟨failure | d, records⟩
  · rw [(compile_unread read).1] at compiled
    cases compiled
  · have run : Run context _ scope d (p.note records) _ (compile context scope source p) := compile_run read
    rw [compiled] at run
    have rendered : html = Html.render q.components d.elements := by
      rw [warm]
      exact run.html_eq rfl
    have stored : ∀ i ∈ d.imports, Table.has q.components i.name = true := by
      rw [warm]
      exact run.imports_stored rfl
    have readToo : document ({ context with files, detect } : Context).wide
        ({ context with files, detect } : Context).width source = (.ok d, records) := read
    obtain ⟨noted, again⟩ : ∃ noted, compile { context with files, detect } other source q = _ :=
      compile_all_stored readToo stored
    rw [again, rendered]
    exact ⟨rfl, warm, rfl⟩

/-- Without any file the source still compiles to what was stored last. -/
theorem same_name_inside_recompiled :
    compile sameNameInside ⟨"/", []⟩ "import N from \"a\"; N:;" {} =
        (.ok "<p><i>x</i></p>", (compile sameNameInside ⟨"/", []⟩ "import N from \"a\"; N:;" {}).2) ∧
      (compile {} ⟨"", ["/a"]⟩ "import N from \"a\"; N:;"
        { components := [("N", "<p><i>x</i></p>")] }).1 = .ok "<p><i>x</i></p>" ∧
      (compile {} ⟨"", ["/a"]⟩ "import N from \"a\"; N:;"
        { components := [("N", "<p><i>x</i></p>")] }).2.calls = [] := by
  have compiled : compile sameNameInside ⟨"/", []⟩ "import N from \"a\"; N:;" {} =
      (.ok "<p><i>x</i></p>", (compile sameNameInside ⟨"/", []⟩ "import N from \"a\"; N:;" {}).2) :=
    Prod.ext (by decide +kernel) rfl
  have left : (compile sameNameInside ⟨"/", []⟩ "import N from \"a\"; N:;" {}).2.components =
      [("N", "<p><i>x</i></p>")] := by
    decide +kernel
  obtain ⟨again, -, unread⟩ := recompile_from_store sameNameInside ⟨"/", []⟩ _ _ {} _ compiled [] true
    ⟨"", ["/a"]⟩ { components := [("N", "<p><i>x</i></p>")] } left.symm
  exact ⟨compiled, again, unread⟩

end ElementMarkup.Compile
