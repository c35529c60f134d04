import ElementMarkup.Proofs.Token.Split

/-!
Tokens in print. Words and punctuation are written as they are, the texts of blocks and strings with
their delimiters escaped, and one space between a token and the next. Scanning what is printed gives
the tokens back, each at the place where it was written.
-/

namespace ElementMarkup.Token

namespace Enclosure

def escape (e : Enclosure) (text : List Char) : List Char :=
  text.flatMap fun c => if e.escapable c then ['\\', c] else [c]

def print (e : Enclosure) (text : String) : List Char :=
  e.opener :: e.escape text.toList ++ [e.closer]

theorem body_escape (e : Enclosure) (text : List Char) : e.Body (e.escape text) text := by
  induction text with
  | nil => exact .nil
  | cons c rest ih =>
    by_cases escapable : e.escapable c = true
    · have printed : e.escape (c :: rest) = '\\' :: c :: e.escape rest := by
        simp [escape, escapable]
      rw [printed]
      exact .escape escapable ih
    · have printed : e.escape (c :: rest) = c :: e.escape rest := by simp [escape, escapable]
      -- closers and backslashes can all be escaped
      have inside : c ≠ e.closer := by
        rintro rfl
        cases e <;> exact escapable rfl
      have literal : c ≠ '\\' := by
        rintro rfl
        cases e <;> exact escapable rfl
      rw [printed]
      exact .plain inside (fun slash => absurd slash literal) ih

end Enclosure

def print (t : Token) : List Char :=
  match t.kind with
  | .block => Enclosure.braces.print t.value
  | .quoted => Enclosure.quotes.print t.value
  | _ => t.value.toList

def printAll (ts : List Token) : String := " ".intercalate (ts.map fun t => String.ofList t.print)

/-- What is printed before a token, if these tokens come before it. -/
def lead (front : List Token) : List Char := front.flatMap fun t => t.print ++ [' ']

def isPrintable (t : Token) : Bool :=
  match t.kind with
  | .colon => t.value = ":"
  | .semicolon => t.value = ";"
  | .block | .quoted => true
  | .finish => false
  | kind => t.value ≠ "" ∧ t.value.toList.all Char.isAlphanum ∧ kind = .ofWord t.value

section

variable {wide : Bool} {before rest : List Char} {t : Token} {ts front back : List Token}

theorem printAll_singleton (t : Token) : (printAll [t]).toList = t.print := by
  simp [printAll]

theorem printAll_cons (t : Token) (more : ts ≠ []) :
    (printAll (t :: ts)).toList = t.print ++ ' ' :: (printAll ts).toList := by
  obtain ⟨next, rest, rfl⟩ := List.exists_cons_of_ne_nil more
  simp [printAll, String.intercalate_cons_cons]

theorem lead_print_prefix (t : Token) (front back : List Token) :
    lead front ++ t.print <+: (printAll (front ++ t :: back)).toList := by
  induction front with
  | nil =>
    cases back with
    | nil => simp [lead, printAll_singleton]
    | cons next back => simp [lead, printAll_cons]
  | cons first front ih =>
    rw [List.cons_append, printAll_cons first (by simp)]
    simpa [lead] using ih

theorem spells_word (word : String) (nonempty : word ≠ "") (plain : word.toList.all Char.isAlphanum = true)
    (stops : ∀ c ∈ rest.head?, isIdentifier wide c = false) :
    Spells wide rest word.toList (.ofWord word) word.toList := by
  have spells : Spells wide rest word.toList (.ofWord (String.ofList word.toList)) word.toList := by
    refine .word (by simpa using nonempty) (fun c member => ?_) stops
    simp [isIdentifier, List.all_eq_true.mp plain c member]
  rwa [String.ofList_toList] at spells

theorem spells_print (printable : t.isPrintable = true)
    (stops : ∀ c ∈ rest.head?, isIdentifier wide c = false) :
    Spells wide rest t.print t.kind t.value.toList := by
  obtain ⟨kind, value, position⟩ := t
  cases kind with
  | colon =>
    obtain rfl : value = ":" := by simpa [isPrintable] using printable
    simpa [print] using (Spells.colon : Spells wide rest _ _ _)
  | semicolon =>
    obtain rfl : value = ";" := by simpa [isPrintable] using printable
    simpa [print] using (Spells.semicolon : Spells wide rest _ _ _)
  | block => exact .enclosed .braces (Enclosure.braces.body_escape value.toList)
  | quoted => exact .enclosed .quotes (Enclosure.quotes.body_escape value.toList)
  | finish => cases printable
  | _ =>
    obtain ⟨nonempty, plain, kind⟩ : value ≠ "" ∧ value.toList.all Char.isAlphanum = true ∧ _ := by
      simpa [isPrintable] using printable
    have spells := spells_word value nonempty plain stops
    rwa [← kind] at spells

theorem printAll_ne_empty (nonempty : ts ≠ []) (printable : ∀ t ∈ ts, t.isPrintable = true) :
    printAll ts ≠ "" := by
  obtain ⟨t, rest, rfl⟩ := List.exists_cons_of_ne_nil nonempty
  have starts := lead_print_prefix t [] rest
  have spells : Spells true [] t.print t.kind t.value.toList :=
    spells_print (printable t (List.mem_cons_self ..)) (by simp)
  intro empty
  rw [List.nil_append, empty] at starts
  exact spells.ne_nil (by simpa [lead] using starts)

/-- The tokens with the offsets at which they are printed, if the first is printed at `offset`. -/
def placed (offset : Nat) : List Token → List Token
  | [] => []
  | t :: rest => ⟨t.kind, t.value, offset⟩ :: placed (offset + (t.print.length + 1)) rest

theorem placed_length (offset : Nat) (ts : List Token) : (placed offset ts).length = ts.length := by
  induction ts generalizing offset with
  | nil => rfl
  | cons t rest ih => rw [placed, List.length_cons, ih, List.length_cons]

theorem placed_getElem? (offset : Nat) (t : Token) (front back : List Token) :
    (placed offset (front ++ t :: back))[front.length]? =
      some ⟨t.kind, t.value, (offset + (lead front).length : Nat)⟩ := by
  induction front generalizing offset with
  | nil => simp [placed, lead]
  | cons first front ih =>
    rw [List.cons_append, placed, List.length_cons, List.getElem?_cons_succ, ih]
    simp only [lead, List.flatMap_cons, List.length_append, List.length_singleton]
    congr 3
    omega

theorem split_printAll (nonempty : ts ≠ []) (printable : ∀ t ∈ ts, t.isPrintable = true)
    (before : List Char) :
    ∃ spans, Split wide [] before (printAll ts).toList spans ∧
      spans.map Span.token = placed before.length ts := by
  induction ts generalizing before with
  | nil => exact absurd rfl nonempty
  | cons t rest ih =>
    obtain ⟨own, others⟩ := List.forall_mem_cons.mp printable
    by_cases last : rest = []
    · subst last
      have split : Split wide [] before (t.print ++ []) _ := .token (spells_print own (by simp)) (.nil _)
      rw [List.append_nil, ← printAll_singleton] at split
      exact ⟨_, split, by simp [Span.token, placed]⟩
    · obtain ⟨spans, split, same⟩ := ih last others (before ++ t.print ++ [' '])
      have spaced : Split wide [] (before ++ t.print) ([' '] ++ (printAll rest).toList) spans :=
        .gap (.space (by decide)) split
      have stops : ∀ c ∈ ([' '] ++ (printAll rest).toList ++ []).head?, isIdentifier wide c = false := by
        simpa using isIdentifier_delimiter wide ' ' (by decide)
      have whole := Split.token (spells_print own stops) spaced
      rw [printAll_cons t last]
      refine ⟨_, whole, ?_⟩
      simp [Span.token, placed, same]

end

/-- Printed tokens are read back as they were, each where it was printed. -/
theorem tokens_printAll (wide : Bool) (ts : List Token) (nonempty : ts ≠ [])
    (printable : ∀ t ∈ ts, t.isPrintable = true) :
    ∃ read, tokens wide (printAll ts) = .ok (read ++ [⟨.finish, "EOF", (printAll ts).length⟩]) ∧
      read.length = ts.length ∧
      ∀ front t back, ts = front ++ t :: back →
        read[front.length]? = some ⟨t.kind, t.value, (lead front).length⟩ ∧
          lead front ++ t.print <+: (printAll ts).toList := by
  obtain ⟨spans, split, same⟩ : ∃ spans, Split wide [] [] (printAll ts).toList spans ∧ _ :=
    split_printAll nonempty printable []
  have present := printAll_ne_empty nonempty printable
  refine ⟨placed 0 ts, ?_, placed_length 0 ts, ?_⟩
  · rw [split.tokens present, same]
    rfl
  · rintro front t back rfl
    refine ⟨?_, lead_print_prefix t front back⟩
    simpa using placed_getElem? 0 t front back

def thornyTokens : List Token :=
  [⟨.keyword .ids, "ids", 0⟩, ⟨.block, "\\\x7d\x7b\\", 0⟩, ⟨.quoted, "--\"\\\n", 0⟩, ⟨.tag, "a1", 0⟩]

theorem thorny_tokens_read_back :
    (∀ t ∈ thornyTokens, t.isPrintable = true) ∧
    printAll thornyTokens = "ids \x7b\\\\\\\x7d\\\x7b\\\\\x7d \"--\\\"\\\\\n\" a1" ∧
    ∃ read, tokens false (printAll thornyTokens) =
        .ok (read ++ [⟨.finish, "EOF", (printAll thornyTokens).length⟩]) ∧
      read[2]? = some ⟨.quoted, "--\"\\\n", 15⟩ := by
  have printable : ∀ t ∈ thornyTokens, t.isPrintable = true := by decide
  obtain ⟨read, scanned, -, placed⟩ := tokens_printAll false thornyTokens nofun printable
  refine ⟨printable, by decide +kernel, read, scanned, ?_⟩
  have third := (placed [⟨.keyword .ids, "ids", 0⟩, ⟨.block, "\\\x7d\x7b\\", 0⟩]
    ⟨.quoted, "--\"\\\n", 0⟩ [⟨.tag, "a1", 0⟩] rfl).1
  exact third.trans (by decide +kernel)

end ElementMarkup.Token
