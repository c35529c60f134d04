import ElementMarkup.Proofs.Document.Placement
import ElementMarkup.Proofs.Token.Split

/-!
The text between tokens. A text divides into the same tokens wherever it stands, and more blanks and
comments in front of a token move that token and those behind it, and do nothing else. At the end of
a source they may run into a comment that is still open, which takes in the first of their lines.
-/

namespace ElementMarkup.Token

/-- Blanks and whole comments, each with the end of its line. -/
inductive Layout : List Char → Prop where
  | nil : Layout []
  | blank {c : Char} {rest : List Char} (blank : isSpace c = true) (more : Layout rest) :
      Layout (c :: rest)
  | comment {body rest : List Char} (line : '\n' ∉ body) (more : Layout rest) :
      Layout ('-' :: '-' :: body ++ '\n' :: rest)

section

variable {wide : Bool} {before text after other rest value w : List Char} {kind : Kind}
  {span : Span} {spans left right : List Span}

theorem Spells.beside (spells : Spells wide rest text kind value)
    (stops : ∀ c ∈ other.head?, c ∈ rest.head? ∨ isIdentifier wide c = false) :
    Spells wide other text kind value := by
  cases spells with
  | colon => exact .colon
  | semicolon => exact .semicolon
  | word nonempty inside stopped =>
    refine .word nonempty inside fun c head => ?_
    rcases stops c head with same | plain
    · exact stopped c same
    · exact plain
  | enclosed e body => exact .enclosed e body

theorem Gap.beside (gap : Gap rest text) (ends : ∀ c ∈ other.head?, c ∈ rest.head? ∨ c = '\n') :
    Gap other text := by
  cases gap with
  | space blank => exact .space blank
  | comment line ended =>
    refine .comment line fun c head => ?_
    rcases ends c head with same | newline
    · exact ended c same
    · exact newline

theorem Spells.head_ne_newline (spells : Spells wide rest text kind value) :
    ∀ c ∈ (text ++ rest).head?, c ≠ '\n' := by
  intro c head
  cases spells with
  | word nonempty inside stops =>
    obtain ⟨d, tail, rfl⟩ := List.exists_cons_of_ne_nil nonempty
    cases head
    exact ne_of_isIdentifier (inside c (List.mem_cons_self ..)) (isIdentifier_delimiter wide '\n' (by decide))
  | enclosed e body =>
    cases head
    cases e <;> decide
  | _ =>
    cases head
    decide

/-- A split does not depend on what stands before the text, but for where its spans start. -/
theorem Split.elsewhere (split : Split wide after before text spans) {shift : Int}
    (apart : (other.length : Int) = before.length + shift) :
    ∃ moved, Split wide after other text moved ∧
      moved.map Span.token = (spans.map Span.token).map (·.move (· + shift)) := by
  induction split generalizing other with
  | nil before => exact ⟨[], .nil other, rfl⟩
  | @gap before gap text spans blank tail ih =>
    obtain ⟨moved, tail, same⟩ := @ih (other ++ gap) (by simp only [List.length_append]; omega)
    exact ⟨moved, .gap blank tail, same⟩
  | @token before lexeme text value kind spans spells tail ih =>
    obtain ⟨moved, tail, same⟩ := @ih (other ++ lexeme) (by simp only [List.length_append]; omega)
    refine ⟨_, .token spells tail, ?_⟩
    rw [List.map_cons, same, List.map_cons, List.map_cons, Span.token, apart]
    rfl

/-- A split falls into two at each of its tokens. -/
theorem Split.divide (split : Split wide after before text spans) (listed : spans = left ++ span :: right) :
    ∃ front back, text = front ++ back ∧ Split wide (back ++ after) before front left ∧
      Split wide after (before ++ front) back (span :: right) ∧
      span.start = (before ++ front).length ∧ ∀ c ∈ (back ++ after).head?, c ≠ '\n' := by
  induction split generalizing left with
  | nil before => simp at listed
  | @gap before gap text spans blank tail ih =>
    obtain ⟨front, back, rfl, first, second, start, head⟩ := ih listed
    refine ⟨gap ++ front, back, by simp, .gap (by simpa using blank) first, ?_, ?_, head⟩
    · simpa using second
    · simpa using start
  | @token before lexeme text value kind spans spells tail ih =>
    cases left with
    | nil =>
      obtain ⟨rfl, rfl⟩ := List.cons.inj listed
      refine ⟨[], lexeme ++ text, rfl, .nil before, ?_, by simp, ?_⟩
      · simpa using Split.token spells tail
      · simpa using spells.head_ne_newline
    | cons first left =>
      obtain ⟨rfl, later⟩ := List.cons.inj listed
      obtain ⟨front, back, rfl, first, second, start, head⟩ := ih later
      refine ⟨lexeme ++ front, back, by simp, .token (by simpa using spells) first, ?_, ?_, head⟩
      · simpa using second
      · simpa using start

theorem Layout.head (layout : Layout w) : ∀ c ∈ w.head?, isIdentifier wide c = false := by
  intro c head
  cases layout with
  | nil => cases head
  | blank blank more =>
    cases head
    exact isIdentifier_space blank
  | comment line more =>
    cases head
    exact isIdentifier_delimiter wide '-' (by decide)

theorem Layout.split (layout : Layout w) (after before : List Char) : Split wide after before w [] := by
  induction layout generalizing before with
  | nil => exact .nil before
  | @blank c rest blank more ih =>
    have divided : Split wide after before ([c] ++ rest) [] := .gap (.space blank) (ih _)
    exact divided
  | @comment body rest line more ih =>
    have ended : Split wide after (before ++ '-' :: '-' :: body) (['\n'] ++ rest) [] :=
      .gap (.space (by decide)) (ih _)
    exact .gap (.comment line (by simp)) ended

/-- Behind an open comment, the first line of a layout belongs to that comment. -/
theorem Layout.split_open {body : List Char} (layout : Layout w) (line : '\n' ∉ body)
    (before : List Char) : Split wide [] before ('-' :: '-' :: body ++ w) [] := by
  induction layout generalizing body with
  | nil => exact .gap (.comment line (by simp)) (.nil _)
  | @blank c rest blank more ih =>
    by_cases newline : c = '\n'
    · subst newline
      exact (Layout.comment line more).split [] before
    · have longer : '\n' ∉ body ++ [c] := by simp [line, Ne.symm newline]
      simpa using ih longer
  | @comment inner rest inside more ih =>
    have longer : '\n' ∉ body ++ '-' :: '-' :: inner := by simp [line, inside]
    simpa using (Layout.comment longer more).split [] before

theorem Split.layout (split : Split wide after before text spans) (layout : Layout w)
    (apart : ∀ c ∈ after.head?, c ≠ '\n') : Split wide after before (text ++ w) spans := by
  induction split with
  | nil before => exact layout.split after before
  | @gap before gap text spans blank tail ih =>
    rw [List.append_assoc]
    cases text with
    | cons d text => exact .gap (blank.beside fun c head => Or.inl head) ih
    | nil =>
      cases blank with
      | space blank => exact .gap (.space blank) ih
      | comment line ends =>
        -- a comment up to the end of the text: nothing can follow but more of it
        obtain rfl : after = [] := by
          cases after with
          | nil => rfl
          | cons c rest => exact absurd (ends c rfl) (apart c rfl)
        obtain rfl : spans = [] := (Split.nil _).unique tail
        exact layout.split_open line before
  | @token before lexeme text value kind spans spells tail ih =>
    rw [List.append_assoc]
    refine .token (spells.beside fun c head => ?_) ih
    cases text with
    | cons d text => exact Or.inl head
    | nil =>
      cases w with
      | nil => exact Or.inl head
      | cons d rest => exact Or.inr (layout.head c head)

/-- Layout in front of a token moves the spans from there on. -/
theorem Split.insert (split : Split wide [] [] text (left ++ span :: right)) (layout : Layout w) :
    ∃ front back moved, text = front ++ back ∧ span.start = front.length ∧
      Split wide [] [] (front ++ w ++ back) (left ++ moved) ∧
      moved.map Span.token = ((span :: right).map Span.token).map (·.move (· + w.length)) := by
  obtain ⟨front, back, parts, first, second, start, apart⟩ := split.divide rfl
  have farther : ((front ++ w).length : Int) = ([] ++ front).length + w.length := by simp
  obtain ⟨moved, relocated, same⟩ := second.elsewhere farther
  exact ⟨front, back, moved, parts, start, (first.layout layout apart).append relocated, same⟩

/-! ### Sources -/

theorem positions_increase {source : String} {ts : List Token} (scanned : tokens wide source = .ok ts) :
    (ts.map Token.position).Pairwise (· < ·) := by
  obtain ⟨-, spans, split, rfl⟩ := split_of_tokens scanned
  have starts := split.starts_increase.map (fun n : Nat => (n : Int)) fun a b less => Int.ofNat_lt.mpr less
  simpa [Function.comp_def, Span.token, close, String.length_toList] using starts

def insertAt (source : String) (offset : Int) (text : String) : String :=
  String.ofList (source.toList.take offset.toNat ++ text.toList ++ source.toList.drop offset.toNat)

theorem toList_insertAt {source : String} {front back : List Char} (parts : source.toList = front ++ back)
    (text : String) : (insertAt source front.length text).toList = front ++ text.toList ++ back := by
  simp [insertAt, parts]

theorem length_insertAt (source : String) (offset : Int) (text : String) :
    (insertAt source offset text).length = source.length + text.length := by
  simp only [insertAt, String.length_ofList, List.length_append, List.length_take, List.length_drop,
    String.length_toList]
  omega

theorem close_insertAt (source : String) (offset : Int) (text : String) :
    close (insertAt source offset text) = (close source).move (· + text.length) := by
  simp [close, Token.move, length_insertAt]

theorem insertAt_ne_empty {source : String} (nonempty : source ≠ "") (offset : Int) (text : String) :
    insertAt source offset text ≠ "" := by
  intro empty
  have positive : source.length ≠ 0 := by simpa using nonempty
  have length := length_insertAt source offset text
  rw [empty, String.length_empty] at length
  omega

/-- The tokens before `t` stay, and those from `t` on move back by the length of the layout. -/
theorem tokens_insertAt {source layout : String} {front back : List Token} {t : Token}
    (scanned : tokens wide source = .ok (front ++ t :: back)) (blank : Layout layout.toList) :
    tokens wide (insertAt source t.position layout) =
      .ok (front ++ (t :: back).map (·.move (· + layout.length))) := by
  obtain ⟨nonempty, spans, split, listed⟩ := split_of_tokens scanned
  have present := insertAt_ne_empty nonempty t.position layout
  rcases List.eq_nil_or_concat back with rfl | ⟨middle, last, rfl⟩
  · -- in front of the end of the source
    obtain ⟨rfl, same⟩ := List.append_inj' listed rfl
    cases same
    have whole := toList_insertAt (List.append_nil source.toList).symm layout
    rw [String.length_toList, List.append_nil] at whole
    have longer := split.layout blank (by simp)
    rw [← whole] at longer
    rw [List.map_singleton, ← close_insertAt source source.length]
    exact longer.tokens present
  · rw [List.concat_eq_append, ← List.cons_append, ← List.append_assoc] at listed
    obtain ⟨inside, same⟩ := List.append_inj' listed rfl
    cases same
    obtain ⟨left, rest, rfl, rfl, here⟩ := List.map_eq_append_iff.mp inside.symm
    obtain ⟨span, right, rfl, rfl, rfl⟩ := List.map_eq_cons_iff.mp here
    obtain ⟨first, second, moved, parts, start, longer, same⟩ := split.insert blank
    have whole := toList_insertAt parts layout
    rw [← start] at whole
    rw [← whole] at longer
    rw [show span.token.position = span.start from rfl] at present ⊢
    rw [longer.tokens present, close_insertAt, List.map_append, same, String.length_toList]
    simp

theorem Split.followed (split : Split wide after before text spans)
    (ends : ∀ c ∈ other.head?, c ∈ after.head? ∨ c = '\n') : Split wide other before text spans := by
  induction split with
  | nil before => exact .nil before
  | @gap before gap text spans blank tail ih =>
    refine .gap (blank.beside fun c head => ?_) ih
    cases text with
    | nil => exact ends c head
    | cons d text => exact Or.inl head
  | @token before lexeme text value kind spans spells tail ih =>
    refine .token (spells.beside fun c head => ?_) ih
    cases text with
    | nil =>
      rcases ends c head with same | rfl
      · exact Or.inl same
      · exact Or.inr (isIdentifier_delimiter wide '\n' (by decide))
    | cons d text => exact Or.inl head

/-- Whatever a source ends in, a new line ends it, and the tokens of another source follow. -/
theorem tokens_lines {first second : String} {ts us : List Token}
    (scanned : tokens wide first = .ok ts) (next : tokens wide second = .ok us) :
    tokens wide (first ++ "\n" ++ second) =
      .ok (ts.dropLast ++ us.map (·.move (· + (first.length + 1)))) := by
  obtain ⟨-, spans, split, rfl⟩ := split_of_tokens scanned
  obtain ⟨-, others, later, rfl⟩ := split_of_tokens next
  have farther : ((first.toList ++ ['\n']).length : Int) =
      ([] : List Char).length + (first.length + 1 : Int) := by
    simp [String.length_toList]
  obtain ⟨moved, relocated, same⟩ := later.elsewhere farther
  have ended : Split wide (['\n'] ++ second.toList ++ []) [] first.toList spans := split.followed (by simp)
  have line : Split wide [] ([] ++ first.toList) (['\n'] ++ second.toList) moved :=
    .gap (.space (by decide)) relocated
  have whole : Split wide [] [] (first ++ "\n" ++ second).toList (spans ++ moved) := by
    simpa using ended.append line
  have closed : close (first ++ "\n" ++ second) = (close second).move (· + (first.length + 1)) := by
    have length : "\n".length = 1 := by decide
    simp only [close, Token.move, String.length_append, length, Token.mk.injEq, true_and]
    omega
  rw [whole.tokens (by simp), List.map_append, same, closed]
  simp

end

end ElementMarkup.Token
