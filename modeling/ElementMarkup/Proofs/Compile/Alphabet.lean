import ElementMarkup.Proofs.Alphabet
import ElementMarkup.Proofs.Compile.Extension

/-!
Where the characters of compiled HTML come from: from the source, from the files that are entered
for it, and from what was stored before.
-/

namespace ElementMarkup.Compile

section

variable {alphabet : Alphabet} {context : Context} {fuel : Nat} {scope : Scope} {d : Document}
  {p : Progress} {events : List Event} {outcome : Outcome String} {source : String}

theorem document_covered (ascii : alphabet.HasPlainAscii) {wide : Bool} {width : Int} {records : List Record}
    (read : document wide width source = (.ok d, records)) (covers : alphabet.Covers source) :
    ∀ element ∈ d.elements, element.Covered alphabet := by
  rw [document] at read
  split at read
  · cases read
  · rename_i tokens scanned
    simp only at read
    split at read
    · cases read
    · rename_i e parsed
      cases read
      exact Document.ofTokens_covered parsed (Token.tokens_covered ascii scanned covers)

def EntersCovered (alphabet : Alphabet) (context : Context) (events : List Event) : Prop :=
  ∀ name target inner text, .entered name target inner ∈ events →
    Table.find? context.files target = some (.ok text) → alphabet.Covers text

theorem EntersCovered.part {more : List Event} (entered : EntersCovered alphabet context more)
    (included : events ⊆ more) : EntersCovered alphabet context events :=
  fun name target inner text member => entered name target inner text (included member)

/-- A run keeps the store covered, and what it renders with such a store is covered too. -/
theorem Run.covered (ascii : alphabet.HasPlainAscii) (run : Run context fuel scope d p events outcome)
    (entered : EntersCovered alphabet context events)
    (own : ∀ element ∈ d.elements, element.Covered alphabet)
    (stored : Components.Covered alphabet p.components) :
    Components.Covered alphabet outcome.2.components ∧
      ∀ html, outcome.1 = .ok html → alphabet.Covers html := by
  induction run with
  | rendered fuel scope elements p =>
    refine ⟨stored, ?_⟩
    rintro html ⟨⟩
    exact Html.render_covered ascii stored own
  | reused present tail ih => exact ih entered own stored
  | refused absent refusal =>
    refine ⟨?_, nofun⟩
    rw [refusal.components]
    exact stored
  | cut | unread => exact ⟨stored, nofun⟩
  | failed absent opens read inner ih =>
    have covers := entered _ _ _ _ (List.mem_cons_self ..) opens.found
    have inside := ih (entered.part (List.subset_cons_self ..)) (document_covered ascii read covers) stored
    exact ⟨inside.1, nofun⟩
  | stored absent opens read inner tail ihInner ihTail =>
    have covers := entered _ _ _ _ (List.mem_cons_self ..) opens.found
    have inside := ihInner (entered.part (by intro event; simp +contextual))
      (document_covered ascii read covers) stored
    exact ihTail (entered.part (by intro event; simp +contextual)) own
      (inside.1.store (inside.2 _ rfl))

theorem compile_covered (ascii : alphabet.HasPlainAscii) (covers : alphabet.Covers source)
    (entered : EntersCovered alphabet context (history context scope source p))
    (stored : Components.Covered alphabet p.components) {html : String}
    (compiles : (compile context scope source p).1 = .ok html) : alphabet.Covers html := by
  rcases read : document context.wide context.width source with ⟨failure | d, records⟩
  · rw [(compile_unread read).1] at compiles
    cases compiles
  · exact ((compile_run read).covered ascii entered (document_covered ascii read covers) stored).2
      html compiles

/-- The characters that a compile with some calls is given. -/
inductive Given (context : Context) (components : Components) (source : String) (calls : List Call) :
    Char → Prop where
  | ascii {c : Char} (small : c.toNat < 128) : Given context components source calls c
  | source {c : Char} (occurs : c ∈ source.toList) : Given context components source calls c
  | file {c : Char} {path text : String} (opened : .opened path ∈ calls)
      (found : Table.find? context.files path = some (.ok text)) (occurs : c ∈ text.toList) :
      Given context components source calls c
  | stored {c : Char} {name html : String} (found : Table.find? components name = some html)
      (occurs : c ∈ html.toList) : Given context components source calls c

theorem compile_given {html : String} {after : Progress}
    (compiles : compile context scope source p = (.ok html, after)) :
    ∃ calls, after.calls = p.calls ++ calls ∧
      Alphabet.Covers (Given context p.components source calls) html := by
  rcases read : document context.wide context.width source with ⟨failure | d, records⟩
  · rw [(compile_unread read).1] at compiles
    cases compiles
  · have run : Run context _ scope d (p.note records) (history context scope source p)
        (compile context scope source p) := compile_run read
    obtain ⟨calls, made, opened⟩ := run.calls_eq
    rw [compiles] at made
    refine ⟨calls, made, compile_covered (fun c small _ => .ascii small) (fun c => .source) ?_ ?_
      (congrArg Prod.fst compiles)⟩
    · intro name target inner text entered found c occurs
      exact .file (opened name target inner entered) found occurs
    · intro name html found c occurs
      exact .stored found occurs

end

end ElementMarkup.Compile
