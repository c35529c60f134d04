import ElementMarkup.Proofs.Compile.Depth
import ElementMarkup.Proofs.Token.Layout

/-!
Wide identifiers. What is scanned without them is scanned to the same tokens with them: characters
outside ASCII stand in blocks, strings and comments only, so that no word meets one and grows. A
compile that succeeds reads all its sources, and is therefore the same, step by step.
-/

namespace ElementMarkup

namespace Token

section

variable {before text after rest value : List Char} {kind : Kind} {spans : List Span} {source : String}
  {ts : List Token}

theorem isIdentifier_widen {c : Char} (identifier : isIdentifier false c = true) :
    isIdentifier true c = true := by
  simp only [isIdentifier, Bool.false_and, Bool.or_false] at identifier
  simp [isIdentifier, identifier]

/-- The first character of a text is in a wide word just if it is in a narrow one. -/
def Narrow (text : List Char) : Prop := ∀ c ∈ text.head?, isIdentifier true c = isIdentifier false c

theorem narrow_delimiter {c : Char} (rest : List Char)
    (delimiter : c ∈ [':', ';', '{', '}', '"', '-', ' ', '\t', '\r', '\n']) : Narrow (c :: rest) := by
  intro d head
  cases head
  rw [isIdentifier_delimiter true c delimiter, isIdentifier_delimiter false c delimiter]

theorem Spells.narrow (spells : Spells false rest text kind value) (other : List Char) :
    Narrow (text ++ other) := by
  cases spells with
  | colon => exact narrow_delimiter _ (by decide)
  | semicolon => exact narrow_delimiter _ (by decide)
  | word nonempty inside stops =>
    obtain ⟨c, tail, rfl⟩ := List.exists_cons_of_ne_nil nonempty
    intro d head
    cases head
    have narrow := inside c (List.mem_cons_self ..)
    rw [isIdentifier_widen narrow, narrow]
  | enclosed e body => cases e <;> exact narrow_delimiter _ (by decide)

theorem Gap.narrow (gap : Gap rest text) (other : List Char) : Narrow (text ++ other) := by
  cases gap with
  | space blank =>
    intro d head
    cases head
    rw [isIdentifier_space blank, isIdentifier_space blank]
  | comment line ends => exact narrow_delimiter _ (by decide)

theorem Split.narrow (split : Split false after before text spans) (next : Narrow after) :
    Narrow (text ++ after) := by
  cases split with
  | nil => exact next
  | gap blank tail => exact List.append_assoc .. ▸ blank.narrow _
  | token spells tail => exact List.append_assoc .. ▸ spells.narrow _

theorem Spells.widen (spells : Spells false rest text kind value) (next : Narrow rest) :
    Spells true rest text kind value := by
  cases spells with
  | colon => exact .colon
  | semicolon => exact .semicolon
  | word nonempty inside stops =>
    exact .word nonempty (fun c member => isIdentifier_widen (inside c member))
      fun c head => (next c head).trans (stops c head)
  | enclosed e body => exact .enclosed e body

theorem Split.widen (split : Split false after before text spans) (next : Narrow after) :
    Split true after before text spans := by
  induction split with
  | nil before => exact .nil before
  | gap blank tail ih => exact .gap blank ih
  | token spells tail ih => exact .token (spells.widen (tail.narrow next)) ih

theorem tokens_widen (scanned : tokens false source = .ok ts) : tokens true source = .ok ts := by
  obtain ⟨nonempty, spans, split, rfl⟩ := split_of_tokens scanned
  exact (split.widen (by simp [Narrow])).tokens nonempty

end

end Token

namespace Compile

def Context.spelling (context : Context) (wide : Bool) : Context := { context with wide }

section

variable {context : Context} {scope : Scope} {d : Document} {fuel : Nat} {p : Progress}
  {events : List Event} {outcome : Outcome String} {source html : String} {records : List Record}

theorem document_widen {width : Int} (read : document false width source = (.ok d, records)) :
    document true width source = (.ok d, records) := by
  unfold document at read ⊢
  split at read
  · cases read
  · rename_i ts scanned
    rw [Token.tokens_widen scanned]
    exact read

/-- A run that succeeds has read every source that it has entered. -/
theorem Run.widen (run : Run (context.spelling false) fuel scope d p events outcome)
    (succeeds : outcome.1 = .ok html) : Run (context.spelling true) fuel scope d p events outcome := by
  induction run generalizing html with
  | rendered fuel scope elements p => exact .rendered fuel scope elements p
  | reused present tail ih => exact .reused present (ih succeeds)
  | refused | cut | unread | failed => cases succeeds
  | stored absent opens read inner tail ihInner ihTail =>
    exact .stored absent ⟨opens.free, opens.found⟩ (document_widen read) (ihInner rfl) (ihTail succeeds)

end

/-- Wide identifiers change nothing for what is accepted without them. -/
theorem wide_identifiers_conserve (context : Context) (scope : Scope) (source : String) (p : Progress) :
    (∀ ts, Token.tokens false source = .ok ts → Token.tokens true source = .ok ts) ∧
    ∀ html after, compile (context.spelling false) scope source p = (.ok html, after) →
      compile (context.spelling true) scope source p = (.ok html, after) := by
  refine ⟨fun ts => Token.tokens_widen, fun html after compiled => ?_⟩
  rcases read : document (context.spelling false).wide (context.spelling false).width source with
    ⟨failure | d, records⟩
  · rw [(compile_unread read).1] at compiled
    cases compiled
  · have run : Run (context.spelling false) _ scope d (p.note records) _
        (compile (context.spelling false) scope source p) := compile_run read
    rw [compiled] at run
    obtain ⟨-, result⟩ := (run_iff (document_widen read) _ scope p _ _).mp (run.widen rfl)
    -- with wide identifiers another depth is taken, but a compile that ends does not depend on it
    rw [result]
    refine (compileWithin_eq_compile ?_).1.symm
    rw [← result]
    simp

/-- Letters outside ASCII in a path, in a block and in a comment that touches a word. -/
def foreignLetters : Context where
  files := [("/é", .ok "p--É\n: content:\x7bß\x7dids:\x7bø\x7d;")]

theorem foreign_letters_conserved :
    (compile (foreignLetters.spelling false) ⟨"/", []⟩ "import N from \"é\"; N:;" {}).1 =
        .ok "<p id=\"ø\">ß</p>" ∧
      compile (foreignLetters.spelling true) ⟨"/", []⟩ "import N from \"é\"; N:;" {} =
        compile (foreignLetters.spelling false) ⟨"/", []⟩ "import N from \"é\"; N:;" {} := by
  have result : (compile (foreignLetters.spelling false) ⟨"/", []⟩ "import N from \"é\"; N:;" {}).1 =
      .ok "<p id=\"ø\">ß</p>" := by
    decide +kernel
  have compiled : compile (foreignLetters.spelling false) ⟨"/", []⟩ "import N from \"é\"; N:;" {} =
      (.ok "<p id=\"ø\">ß</p>", (compile (foreignLetters.spelling false) ⟨"/", []⟩ "import N from \"é\"; N:;" {}).2) :=
    Prod.ext result rfl
  have wide := (wide_identifiers_conserve foreignLetters ⟨"/", []⟩ _ {}).2 _ _ compiled
  exact ⟨result, wide.trans compiled.symm⟩

end Compile

end ElementMarkup
