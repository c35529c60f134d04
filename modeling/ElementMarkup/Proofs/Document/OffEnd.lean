import ElementMarkup.Document.Cursor
import ElementMarkup.Proofs.Document.Earliest
import ElementMarkup.Proofs.Document.Ending

/-!
The reader and the end of its token list. The token for the end of a source is never passed, so a
list that holds one is read up to the first of them and no further, whatever stands behind it. A list
without one is never read to a document; it is read off its end exactly if it can go on to a list
that is.
-/

namespace ElementMarkup.Document

open Grammar

section

variable {s last : State} {index : Int} {tokens front before more : List Token} {finish : Token}
  {stop : Option Stop} {d : Document}

theorem Takes.length_le (takes : Takes s index before last) (inside : before <+: front ++ finish :: more)
    (ends : finish.kind = .finish) : before.length ≤ front.length := by
  obtain ⟨after, split⟩ := inside
  rcases List.append_eq_append_iff.mp split with ⟨between, rfl, -⟩ | ⟨beyond, rfl, later⟩
  · simp
  · cases beyond with
    | nil => simp
    | cons t beyond =>
      obtain ⟨rfl, -⟩ := List.cons.inj later
      exact absurd ends (takes.ne_finish finish (by simp))

/-- What stands behind the token for the end of a source makes no difference. -/
theorem read_finish (s : State) (index : Int) (front more : List Token) (ends : finish.kind = .finish) :
    read s index (front ++ finish :: more) = read s index (front ++ [finish]) := by
  induction front generalizing s index with
  | nil =>
    cases top : s.atTop with
    | true => simp [read, top, ends]
    | false =>
      obtain ⟨fault, refused⟩ := step_finish index top ends
      simp [read, top, refused]
  | cons t front ih =>
    rw [List.cons_append, List.cons_append, read, read]
    split
    · rfl
    · cases step s index t with
      | error fault => rfl
      | ok next => exact ih next (index + 1)

def firstEnd (tokens : List Token) : Nat := tokens.findIdx (·.kind = .finish)

theorem split_at_firstEnd (ends : ∃ t ∈ tokens, t.kind = .finish) :
    ∃ finish rest, finish.kind = .finish ∧ tokens = tokens.take (firstEnd tokens) ++ finish :: rest ∧
      tokens.take (firstEnd tokens + 1) = tokens.take (firstEnd tokens) ++ [finish] := by
  obtain ⟨t, member, isFinish⟩ := ends
  have inside : firstEnd tokens < tokens.length :=
    List.findIdx_lt_length_of_exists ⟨t, member, by simpa using isFinish⟩
  have found : decide (tokens[firstEnd tokens].kind = .finish) = true := List.findIdx_getElem (w := inside)
  refine ⟨tokens[firstEnd tokens], tokens.drop (firstEnd tokens + 1), of_decide_eq_true found, ?_, ?_⟩
  · rw [List.getElem_cons_drop, List.take_append_drop]
  · rw [List.take_add_one, List.getElem?_eq_getElem inside, Option.toList_some]

theorem read_take_firstEnd (s : State) (index : Int) (ends : ∃ t ∈ tokens, t.kind = .finish) :
    read s index tokens = read s index (tokens.take (firstEnd tokens + 1)) := by
  obtain ⟨finish, rest, isFinish, split, taken⟩ := split_at_firstEnd ends
  have same := read_finish s index (tokens.take (firstEnd tokens)) rest isFinish
  rwa [← split, ← taken] at same

theorem Takes.length_le_firstEnd (takes : Takes s index before last) (inside : before <+: tokens)
    (ends : ∃ t ∈ tokens, t.kind = .finish) : before.length ≤ firstEnd tokens := by
  obtain ⟨finish, rest, isFinish, split, -⟩ := split_at_firstEnd ends
  rw [split] at inside
  exact Nat.le_trans (takes.length_le inside isFinish) (List.length_take_le _ _)

theorem read_ends_at_finish (accepted : (read s index tokens).stop = none) :
    ∃ t ∈ tokens, t.kind = .finish := by
  obtain ⟨before, after, last, stop, rfl, -, halts, run⟩ := takes_of_read s index tokens
  rw [run] at accepted
  cases halts with
  | offEnd => cases accepted
  | @done t rest top ends => exact ⟨t, by simp, ends⟩
  | refused => cases accepted

/-- Tokens that are all taken can go on to a document. -/
theorem accepted_of_offEnd (off : ofTokens tokens = .error .offEnd) :
    ∃ more d, ofTokens (tokens ++ more) = .ok d := by
  obtain ⟨before, after, last, stop, rfl, takes, halts, run⟩ := takes_of_read {} 0 tokens
  rw [ofTokens, run] at off
  cases halts with
  | offEnd =>
    obtain ⟨d, completion⟩ := takes_completion last (0 + before.length)
    let finish : Terminal .finish := ⟨⟨.finish, "EOF", 0⟩, rfl⟩
    refine ⟨last.phase.completion ++ [finish.val], d, ?_⟩
    rw [List.append_nil, ← List.append_assoc]
    exact (takes.append completion).accepted finish
  | done => cases off
  | refused => cases off

/-- A token that is refused is refused whatever comes behind it. -/
theorem offEnd_of_accepted (unended : ∀ t ∈ tokens, t.kind ≠ .finish)
    (accepted : ofTokens (tokens ++ more) = .ok d) : ofTokens tokens = .error .offEnd := by
  obtain ⟨before, after, last, stop, rfl, takes, halts, run⟩ := takes_of_read {} 0 tokens
  cases halts with
  | offEnd => rw [ofTokens, run]
  | done top ends => exact absurd ends (unended _ (by simp))
  | refused goesOn refused =>
    rw [ofTokens, List.append_assoc, takes.read, List.cons_append, read, if_neg goesOn, refused] at accepted
    cases accepted

/-- What a cursor comes to that reads a whole list from its start. -/
theorem Cursor.whole_eq (tokens : List Token) (source : Option String) (traced : Bool) :
    ({ tokens, source, traced } : Cursor).whole =
      ⟨ofTokens tokens,
        { tokens, source, traced,
          index := (read {} 0 tokens).index, document := (read {} 0 tokens).state.document },
        (if traced then trace 0 (tokens.take (read {} 0 tokens).index.toNat) else []) ++
          (ofTokens tokens).toOption.toList.map parsed⟩ := by
  have ahead : ({ tokens, source, traced } : Cursor).upcoming = tokens := rfl
  rw [whole, ofTokens, ahead]
  cases (read {} 0 tokens).stop with
  | none => simp [traceTo, ahead, Except.toOption]
  | some stop => simp [traceTo, ahead, Except.toOption]

end

/-- The outcome is a diagnostic of a kind that token lists are refused with. -/
def Diagnosed (outcome : Except Stop Document) : Prop :=
  ∃ fault : Fault, outcome = .error (.fault fault) ∧
    (fault.kind = .unexpectedToken ∨ fault.kind = .invalidSyntax)

theorem ok_or_diagnosed {tokens : List Token} (fine : ofTokens tokens ≠ .error .offEnd) :
    (∃ d, ofTokens tokens = .ok d) ∨ Diagnosed (ofTokens tokens) := by
  cases outcome : ofTokens tokens with
  | ok d => exact .inl ⟨d, rfl⟩
  | error stop =>
    cases stop with
    | offEnd => exact absurd outcome fine
    | fault fault =>
      refine .inr ⟨fault, rfl, ?_⟩
      cases fault <;> simp [Fault.kind]

structure ReadToEnd (tokens : List Token) : Prop where
  settled : (∃ d, ({ tokens } : Cursor).whole.outcome = .ok d) ∨
    Diagnosed ({ tokens } : Cursor).whole.outcome
  cursor : ({ tokens } : Cursor).whole.cursor.index ≤ firstEnd tokens
  /-- However far the reader has come, it has not passed the first end. -/
  onTheWay : ∀ before last, before <+: tokens → Takes {} 0 before last → before.length ≤ firstEnd tokens
  outcome : ({ tokens := tokens.take (firstEnd tokens + 1) } : Cursor).whole.outcome =
    ({ tokens } : Cursor).whole.outcome

/-- A list that holds no end is too short, or cannot be made right by what follows. -/
structure ReadWithoutEnd (tokens : List Token) : Prop where
  unaccepted : ∀ d, ({ tokens } : Cursor).whole.outcome ≠ .ok d
  offEnd : ({ tokens } : Cursor).whole.outcome = .error .offEnd ↔
    ∃ more d, ({ tokens := tokens ++ more } : Cursor).whole.outcome = .ok d
  diagnosed : ({ tokens } : Cursor).whole.outcome ≠ .error .offEnd →
    Diagnosed ({ tokens } : Cursor).whole.outcome

/-- The reader never runs past the end of a source. It runs off a list only if that has no end and
is too short. -/
theorem never_past_the_end (tokens : List Token) :
    ((∃ t ∈ tokens, t.kind = .finish) → ReadToEnd tokens) ∧
      ((∀ t ∈ tokens, t.kind ≠ .finish) → ReadWithoutEnd tokens) := by
  have outcome : ∀ tokens, ({ tokens } : Cursor).whole.outcome = ofTokens tokens := by
    intro tokens
    rw [Cursor.whole_eq]
  constructor
  · intro ends
    obtain ⟨before, after, last, stop, split, takes, halts, run⟩ := takes_of_read {} 0 tokens
    refine ⟨?_, ?_, fun before last inside takes => takes.length_le_firstEnd inside ends, ?_⟩
    · rw [outcome]
      exact ok_or_diagnosed (ofTokens_ne_offEnd ends)
    · have reached := takes.length_le_firstEnd ⟨after, split.symm⟩ ends
      rw [Cursor.whole_eq, run]
      dsimp only
      omega
    · rw [outcome, outcome, ofTokens, ofTokens, ← read_take_firstEnd {} 0 ends]
  · intro unended
    have unaccepted : ∀ d, ofTokens tokens ≠ .ok d := by
      intro d accepted
      rw [ofTokens] at accepted
      split at accepted
      · rename_i stopped
        obtain ⟨t, member, ends⟩ := read_ends_at_finish stopped
        exact unended t member ends
      · cases accepted
    refine ⟨outcome tokens ▸ unaccepted, ?_, ?_⟩
    · simp only [outcome]
      constructor
      · exact accepted_of_offEnd
      · rintro ⟨more, d, accepted⟩
        exact offEnd_of_accepted unended accepted
    · rw [outcome]
      intro fine
      rcases ok_or_diagnosed fine with ⟨d, accepted⟩ | diagnosed
      · exact absurd accepted (unaccepted d)
      · exact diagnosed

/-- The end comes too early for an element, with more tokens behind it. -/
theorem early_end_not_passed :
    ReadToEnd [⟨.tag, "p", 0⟩, ⟨.colon, ":", 1⟩, ⟨.finish, "EOF", 2⟩, ⟨.semicolon, ";", 2⟩, ⟨.finish, "EOF", 3⟩] ∧
    ReadWithoutEnd [⟨.tag, "p", 0⟩, ⟨.colon, ":", 1⟩, ⟨.keyword .ids, "ids", 2⟩, ⟨.colon, ":", 5⟩] :=
  ⟨(never_past_the_end _).1 ⟨⟨.finish, "EOF", 2⟩, by simp, rfl⟩, (never_past_the_end _).2 (by decide)⟩

end ElementMarkup.Document
