import ElementMarkup.Proofs.Document.Ending
import ElementMarkup.Proofs.Html
import ElementMarkup.Proofs.Token.Layout

/-!
Layout says nothing. With more blanks and comments in front of one of its tokens a source is read to
the same document, in which everything from that token on stands farther back, or it fails in the
same way.
-/

namespace ElementMarkup

/-- Where a position comes to when `length` characters are put in at `offset`. -/
def pushed (offset : Int) (length : Nat) (position : Int) : Int :=
  if position < offset then position else position + length

theorem Token.map_move_pushed {front back : List Token} {t : Token} (length : Nat)
    (ordered : ((front ++ t :: back).map Token.position).Pairwise (· < ·)) :
    (front ++ t :: back).map (·.move (pushed t.position length)) =
      front ++ (t :: back).map (·.move (· + length)) := by
  rw [List.pairwise_map, List.pairwise_append] at ordered
  obtain ⟨-, later, across⟩ := ordered
  rw [List.map_append]
  congr 1
  · have kept : ∀ other ∈ front, other.move (pushed t.position length) = other := by
      intro other member
      have earlier : other.position < t.position := across other member t (List.mem_cons_self ..)
      simp [Token.move, pushed, earlier]
    rw [List.map_congr_left kept, List.map_id']
  · apply List.map_congr_left
    intro other member
    have notEarlier : ¬ other.position < t.position := by
      rcases List.mem_cons.mp member with rfl | member
      · omega
      · have := List.rel_of_pairwise_cons later member
        omega
    simp [Token.move, pushed, notEarlier]

namespace Document

theorem Fault.move_kind (place : Int → Int) (fault : Fault) : (fault.move place).kind = fault.kind := by
  cases fault <;> rfl

theorem Fault.move_found (place : Int → Int) (fault : Fault) :
    (fault.move place).found = fault.found.move place := by
  cases fault <;> rfl

end Document

namespace Compile

section

variable {wide : Bool} {source other : String} {ts : List Token} {place : Int → Int}

/-- Sources with the same tokens elsewhere are read alike, or both are refused at the same token. -/
theorem document_of_moved_tokens (width : Int) (scanned : Token.tokens wide source = .ok ts)
    (moved : Token.tokens wide other = .ok (ts.map (·.move place))) :
    (∃ d, (document wide width source).1 = .ok d ∧ (document wide width other).1 = .ok (d.move place)) ∨
    ∃ a b, (document wide width source).1 = .error (.diagnosed a) ∧
      (document wide width other).1 = .error (.diagnosed b) ∧
      b.kind = a.kind ∧ b.position = a.position.map place := by
  have parsed := Document.ofTokens_move place ts
  simp only [document, scanned, moved]
  cases own : Document.ofTokens ts with
  | ok d =>
    rw [own] at parsed
    rw [parsed]
    exact Or.inl ⟨d, rfl, rfl⟩
  | error stop =>
    rw [own] at parsed
    rw [parsed]
    cases stop with
    | offEnd => exact absurd own (Document.ofTokens_ne_offEnd (Token.tokens_finish scanned))
    | fault cause =>
      refine Or.inr ⟨_, _, rfl, rfl, ?_, ?_⟩
      · simp only [Document.Fault.diagnostic, Diagnostic.report_kind, Document.Fault.move_kind]
      · simp only [Document.Fault.diagnostic, Diagnostic.report_position, Document.Fault.move_found,
          Option.map_some, Token.move]

end

/-- Layout in front of a token moves the tokens from there on, and changes nothing else. -/
theorem document_insert_layout (wide : Bool) (width : Int) (source layout : String)
    (front back : List Token) (t : Token)
    (scanned : Token.tokens wide source = .ok (front ++ t :: back))
    (blank : Token.Layout layout.toList) :
    Token.tokens wide (Token.insertAt source t.position layout) =
      .ok (front ++ (t :: back).map (·.move (· + layout.length))) ∧
    ((∃ d e, (document wide width source).1 = .ok d ∧
        (document wide width (Token.insertAt source t.position layout)).1 = .ok e ∧
        e = d.move (pushed t.position layout.length) ∧
        ∀ components, Html.render components e.elements = Html.render components d.elements) ∨
      ∃ a b, (document wide width source).1 = .error (.diagnosed a) ∧
        (document wide width (Token.insertAt source t.position layout)).1 = .error (.diagnosed b) ∧
        b.kind = a.kind ∧ b.position = a.position.map (pushed t.position layout.length)) := by
  have inserted := Token.tokens_insertAt scanned blank
  refine ⟨inserted, ?_⟩
  rw [← Token.map_move_pushed layout.length (Token.positions_increase scanned)] at inserted
  rcases document_of_moved_tokens width scanned inserted with ⟨d, read, again⟩ | fails
  · exact Or.inl ⟨d, _, read, again, rfl, fun components => Html.render_move components _ d.elements⟩
  · exact Or.inr fails

/-- A comment with a quote, put behind a comment that the source ends in. -/
theorem open_comment_extended :
    Token.Layout "--\"\r\n ".toList ∧
    Token.insertAt "p:ids\x7ba\x7d;--x" 12 "--\"\r\n " = "p:ids\x7ba\x7d;--x--\"\r\n " ∧
    Token.tokens false "p:ids\x7ba\x7d;--x--\"\r\n " =
      .ok [⟨.tag, "p", 0⟩, ⟨.colon, ":", 1⟩, ⟨.keyword .ids, "ids", 2⟩, ⟨.block, "a", 5⟩,
        ⟨.semicolon, ";", 8⟩, ⟨.finish, "EOF", 18⟩] ∧
    ∃ d, (document false 40 "p:ids\x7ba\x7d;--x").1 = .ok d ∧
      (document false 40 "p:ids\x7ba\x7d;--x--\"\r\n ").1 = .ok (d.move (pushed 12 6)) := by
  have layout : Token.Layout "--\"\r\n ".toList :=
    .comment (show '\n' ∉ ['"', '\r'] by decide) (.blank (by decide) .nil)
  have whole : Token.insertAt "p:ids\x7ba\x7d;--x" 12 "--\"\r\n " = "p:ids\x7ba\x7d;--x--\"\r\n " := by
    decide +kernel
  have scanned : Token.tokens false "p:ids\x7ba\x7d;--x" =
      .ok ([⟨.tag, "p", 0⟩, ⟨.colon, ":", 1⟩, ⟨.keyword .ids, "ids", 2⟩, ⟨.block, "a", 5⟩,
        ⟨.semicolon, ";", 8⟩] ++ ⟨.finish, "EOF", 12⟩ :: []) := by
    decide +kernel
  have reads : (document false 40 "p:ids\x7ba\x7d;--x").1.isOk = true := by decide +kernel
  obtain ⟨inserted, outcome⟩ := document_insert_layout false 40 _ _ _ [] _ scanned layout
  rw [whole] at inserted outcome
  refine ⟨layout, whole, inserted, ?_⟩
  rcases outcome with ⟨d, e, read, again, rfl, -⟩ | ⟨a, b, fails, -⟩
  · exact ⟨d, read, again⟩
  · rw [fails] at reads
    cases reads

end Compile

end ElementMarkup
