import Mathlib.Data.List.Chain
import ElementMarkup.Proofs.Document.Ending
import ElementMarkup.Proofs.Token.Layout
import ElementMarkup.Token.Cursor

/-!
Where the scanner gives up. A fault lies at the first character that begins no lexeme: the text in
front of it is scanned as a source of its own, to the tokens collected so far. A block or a string is
unclosed when each closer behind its opener is escaped. Any other fault stays where it is whatever
follows, unless what follows makes a comment of a dash at the end.
-/

namespace ElementMarkup.Token

def slashes (text : List Char) : Nat := (text.reverse.takeWhile (· = '\\')).length

theorem slashes_cons (c : Char) (text : List Char) :
    slashes (c :: text) = slashes text + if c = '\\' ∧ slashes text = text.length then 1 else 0 := by
  unfold slashes
  rw [List.reverse_cons, List.takeWhile_append, List.length_reverse]
  by_cases all : (text.reverse.takeWhile (· = '\\')).length = text.length
  · by_cases slash : c = '\\' <;> simp [all, slash]
  · simp [all]

theorem slashes_le (text : List Char) : slashes text ≤ text.length := by
  unfold slashes
  simpa using (List.takeWhile_sublist (l := text.reverse) (· = '\\')).length_le

namespace Enclosure

variable {e : Enclosure} {c : Char} {text : List Char}

/-- Read with its escapes, a text comes to a closer. -/
def Closes (e : Enclosure) (text : List Char) : Prop :=
  ∃ inside value left, text = inside ++ e.closer :: left ∧ e.Body inside value

/-- In front of every closer of a text stands an odd number of backslashes. -/
def Escaped (e : Enclosure) (text : List Char) : Prop :=
  ∀ before left, text = before ++ e.closer :: left → slashes before % 2 = 1

theorem body?_eq_none_iff : e.body? text = none ↔ ¬ e.Closes text := by
  constructor
  · rintro unread ⟨inside, value, left, rfl, body⟩
    rw [body.read left] at unread
    cases unread
  · intro unclosed
    rcases read : e.body? text with _ | ⟨value, left⟩
    · rfl
    · obtain ⟨inside, split, body⟩ := body_of_read read
      exact absurd ⟨inside, value, left, split, body⟩ unclosed

theorem escapable_slash (e : Enclosure) : e.escapable '\\' = true := by
  cases e <;> rfl

theorem escapable_closer (e : Enclosure) : e.escapable e.closer = true := by
  cases e <;> rfl

theorem closer_ne_slash (e : Enclosure) : e.closer ≠ '\\' := by
  cases e <;> decide

/-- A backslash takes the character behind it along, so the two change no parity. -/
theorem escaped_pair (e : Enclosure) (d : Char) (rest : List Char) :
    e.Escaped ('\\' :: d :: rest) ↔ e.Escaped rest := by
  have parity (before : List Char) : slashes ('\\' :: d :: before) % 2 = slashes before % 2 := by
    have most := slashes_le before
    rw [slashes_cons, slashes_cons, List.length_cons]
    by_cases both : d = '\\' ∧ slashes before = before.length
    · rw [if_pos both, if_pos ⟨rfl, by omega⟩]
      omega
    · rw [if_neg both, if_neg (by omega)]
      omega
  constructor
  · intro escaped before left split
    rw [← parity before]
    exact escaped ('\\' :: d :: before) left (by rw [split]; rfl)
  · intro escaped before left split
    match before with
    | [] => exact absurd (List.cons.inj split).1.symm e.closer_ne_slash
    | [first] =>
      obtain ⟨rfl, -⟩ := List.cons.inj split
      rfl
    | first :: second :: before =>
      simp only [List.cons_append, List.cons.injEq] at split
      obtain ⟨rfl, rfl, tail⟩ := split
      rw [parity before]
      exact escaped before left tail

/-- A backslash that escapes nothing stands in front of no backslash and of no closer. -/
theorem escaped_plain (inside : c ≠ e.closer)
    (literal : c = '\\' → ∀ d ∈ text.head?, e.escapable d = false) :
    e.Escaped (c :: text) ↔ e.Escaped text := by
  have kept {before left : List Char} (split : text = before ++ e.closer :: left) :
      slashes (c :: before) = slashes before := by
    rw [slashes_cons, if_neg, Nat.add_zero]
    rintro ⟨rfl, all⟩
    cases before with
    | nil =>
      have plain := literal rfl e.closer (by simp [split])
      rw [e.escapable_closer] at plain
      cases plain
    | cons first before =>
      have plain := literal rfl first (by simp [split])
      have most := slashes_le before
      rw [slashes_cons, List.length_cons] at all
      by_cases slash : first = '\\'
      · rw [slash, e.escapable_slash] at plain
        cases plain
      · rw [if_neg (fun both => slash both.1)] at all
        omega
  constructor
  · intro escaped before left split
    rw [← kept split]
    exact escaped (c :: before) left (by rw [split]; rfl)
  · intro escaped before left split
    cases before with
    | nil => exact absurd (List.cons.inj split).1 inside
    | cons first before =>
      obtain ⟨rfl, tail⟩ := List.cons.inj split
      rw [kept tail]
      exact escaped before left tail

theorem not_escaped_closer (e : Enclosure) (left : List Char) : ¬ e.Escaped (e.closer :: left) := by
  intro escaped
  have odd := escaped [] left rfl
  cases odd

/-- Reading escapes from left to right comes to a closer unless all of them are escaped. -/
theorem not_closes_iff_escaped : ¬ e.Closes text ↔ e.Escaped text := by
  rw [← body?_eq_none_iff]
  fun_induction body? e text with
  | case1 => simp [Escaped]
  | case2 => simpa using e.not_escaped_closer []
  | case3 c inside =>
    rw [escaped_plain inside (by simp)]
    simp [Escaped]
  | case4 c d rest escapes ih =>
    obtain ⟨rfl, -⟩ := escapes
    rw [escaped_pair, ← ih]
    simp
  | case5 d rest kept => simpa using e.not_escaped_closer (d :: rest)
  | case6 c d rest kept inside ih =>
    rw [escaped_plain inside, ← ih]
    · simp
    · rintro rfl other head
      cases head
      simpa using kept

end Enclosure

section

variable {wide : Bool} {c d : Char} {rest text left : List Char} {e : Enclosure} {fault : Fault}

/-! ### Characters that begin no lexeme -/

theorem enclosed_eq_unclosed_iff {other : Enclosure} :
    Lexeme.enclosed e rest = .unclosed other ↔ e = other ∧ ¬ e.Closes rest := by
  rw [← Enclosure.body?_eq_none_iff]
  unfold Lexeme.enclosed
  split
  · rename_i found
    simp [found]
  · rename_i unread
    simp [unread]

theorem enclosed_ne_unexpected : Lexeme.enclosed e rest ≠ .unexpected d := by
  unfold Lexeme.enclosed
  split <;> simp

def isPunctuation (c : Char) : Bool := c = ':' || c = ';' || c = '{' || c = '"'

theorem lexeme_eq_unclosed_iff :
    lexeme wide c rest = .unclosed e ↔ c = e.opener ∧ ¬ e.Closes rest := by
  constructor
  · intro read
    unfold lexeme at read
    split at read
    · cases read
    split at read
    · cases read
    split at read
    · rename_i brace
      obtain ⟨rfl, unclosed⟩ := enclosed_eq_unclosed_iff.mp read
      exact ⟨brace, unclosed⟩
    split at read
    · rename_i quote
      obtain ⟨rfl, unclosed⟩ := enclosed_eq_unclosed_iff.mp read
      exact ⟨quote, unclosed⟩
    split at read
    · cases read
    split at read
    · cases read
    split at read <;> cases read
  · rintro ⟨rfl, unclosed⟩
    rw [lexeme_enclosed]
    exact enclosed_eq_unclosed_iff.mpr ⟨rfl, unclosed⟩

/-- A character that no lexeme begins with, and not the first of the two dashes of a comment. -/
structure Meaningless (wide : Bool) (c : Char) (rest : List Char) : Prop where
  punctuation : isPunctuation c = false
  space : isSpace c = false
  identifier : isIdentifier wide c = false
  dash : ¬ (c = '-' ∧ rest.head? = some '-')

theorem lexeme_eq_unexpected_iff :
    lexeme wide c rest = .unexpected d ↔ c = d ∧ Meaningless wide c rest := by
  constructor
  · intro read
    unfold lexeme at read
    split at read
    · cases read
    rename_i colon
    split at read
    · cases read
    rename_i semicolon
    split at read
    · exact absurd read enclosed_ne_unexpected
    rename_i brace
    split at read
    · exact absurd read enclosed_ne_unexpected
    rename_i quote
    split at read
    · cases read
    rename_i dash
    split at read
    · cases read
    rename_i identifier
    split at read
    · cases read
    rename_i space
    cases read
    exact ⟨rfl, by simp [isPunctuation, colon, semicolon, brace, quote], by simpa using space,
      by simpa using identifier, dash⟩
  · rintro ⟨rfl, punctuation, space, identifier, dash⟩
    simp only [isPunctuation, Bool.or_eq_false_iff, decide_eq_false_iff_not] at punctuation
    obtain ⟨⟨⟨colon, semicolon⟩, brace⟩, quote⟩ := punctuation
    unfold lexeme
    rw [if_neg colon, if_neg semicolon, if_neg brace, if_neg quote, if_neg dash, identifier, space]
    rfl

theorem Meaningless.append (meaningless : Meaningless wide c rest) {more : List Char}
    (apart : ¬ (rest = [] ∧ c = '-' ∧ more.head? = some '-')) : Meaningless wide c (rest ++ more) := by
  refine { meaningless with dash := ?_ }
  rintro ⟨dash, second⟩
  cases rest with
  | nil => exact apart ⟨rfl, dash, second⟩
  | cons next rest => exact meaningless.dash ⟨dash, second⟩

/-- The scanner goes over the head of a text once, up to `left`. -/
def Pass (wide : Bool) (text left : List Char) : Prop :=
  Reads wide text (.gap left) ∨ ∃ kind value, Reads wide text (.token kind value left)

theorem Pass.shorter (pass : Pass wide text left) : left.length < text.length := by
  rcases pass with ⟨c, rest, rfl, read⟩ | ⟨kind, value, c, rest, rfl, read⟩
  · exact lexeme_gap_shorter read
  · exact lexeme_token_shorter read

theorem passes_le {passes : List (List Char)} (chain : (text :: passes).IsChain (Pass wide)) :
    passes.length ≤ text.length := by
  induction passes generalizing text with
  | nil => exact Nat.zero_le _
  | cons next passes ih =>
    obtain ⟨pass, later⟩ := List.isChain_cons_cons.mp chain
    have shorter := pass.shorter
    have rest := ih later
    rw [List.length_cons]
    omega

/-! ### Scans that fail -/

/-- What stands at the head of a text is no lexeme, as the fault says. -/
inductive Blocks (wide : Bool) (position : Int) : List Char → Fault → Prop where
  | unclosed {e : Enclosure} {rest : List Char} (unread : ¬ e.Closes rest) :
      Blocks wide position (e.opener :: rest) (.unclosed e position)
  | unexpected {c : Char} {rest : List Char} (meaningless : Meaningless wide c rest) :
      Blocks wide position (c :: rest) (.unexpected c position)

theorem Blocks.scan {stop position : Int} (blocks : Blocks wide position text fault)
    (place : position = stop - text.length) :
    (Token.scan wide stop text).fault = some fault ∧ (Token.scan wide stop text).tokens = [] := by
  cases blocks with
  | @unclosed e rest unread =>
    have read : lexeme wide e.opener rest = .unclosed e := lexeme_eq_unclosed_iff.mpr ⟨rfl, unread⟩
    rw [Token.scan]
    split
    all_goals simp_all
  | @unexpected c rest meaningless =>
    have read : lexeme wide c rest = .unexpected c := lexeme_eq_unexpected_iff.mpr ⟨rfl, meaningless⟩
    rw [Token.scan]
    split
    all_goals simp_all

theorem split_of_blocks {stop : Int} (before : List Char) (whole : stop = before.length + text.length)
    (blocks : Blocks wide (stop - text.length) text fault) :
    ∃ front back spans, text = front ++ back ∧ Split wide back before front spans ∧
      Blocks wide (before ++ front).length back fault := by
  have place : stop - text.length = (before ++ []).length := by
    rw [List.append_nil]
    omega
  exact ⟨[], text, [], rfl, .nil before, place ▸ blocks⟩

/-- A scan that meets a fault has split the text in front of it. -/
theorem split_of_fault {stop : Int} (before : List Char)
    (whole : stop = before.length + text.length)
    (faulty : (Token.scan wide stop text).fault = some fault) :
    ∃ front back spans, text = front ++ back ∧ Split wide back before front spans ∧
      Blocks wide (before ++ front).length back fault := by
  fun_induction Token.scan wide stop text generalizing before with
  | case1 => cases faulty
  | case2 c rest start kind value left read shorter ih =>
    obtain ⟨lexeme, source, spells⟩ := lexeme_spells read
    rw [source] at whole ⊢
    obtain ⟨front, back, spans, rfl, tail, blocks⟩ :=
      ih (before ++ lexeme) (by simp only [List.length_append] at whole ⊢; omega) faulty
    exact ⟨lexeme ++ front, back, _, by simp, .token spells tail, by simpa using blocks⟩
  | case3 c rest left read shorter ih =>
    obtain ⟨gap, source, blank⟩ := lexeme_gap read
    rw [source] at whole ⊢
    obtain ⟨front, back, spans, rfl, tail, blocks⟩ :=
      ih (before ++ gap) (by simp only [List.length_append] at whole ⊢; omega) faulty
    exact ⟨gap ++ front, back, spans, by simp, .gap blank tail, by simpa using blocks⟩
  | case4 c rest start construct read =>
    obtain ⟨rfl, unread⟩ := lexeme_eq_unclosed_iff.mp read
    cases faulty
    exact split_of_blocks before whole (.unclosed unread)
  | case5 c rest start d read =>
    obtain ⟨rfl, meaningless⟩ := lexeme_eq_unexpected_iff.mp read
    cases faulty
    exact split_of_blocks before whole (.unexpected meaningless)

end

/-- A source splits as far as `front`, and `back` begins with a fault. -/
structure Stuck (wide : Bool) (source : String) (fault : Fault) (front back : List Char)
    (spans : List Span) : Prop where
  parts : source.toList = front ++ back
  split : Split wide back [] front spans
  blocks : Blocks wide front.length back fault

section

variable {wide : Bool} {source : String} {fault : Fault} {front back : List Char} {spans : List Span}

theorem stuck_of_tokens (faulty : tokens wide source = .error fault) (nonempty : source ≠ "") :
    ∃ front back spans, Stuck wide source fault front back spans := by
  have found : (scan wide source.length source.toList).fault = some fault := by
    have present : source.isEmpty = false := by simpa using nonempty
    simp only [tokens, present, Bool.false_eq_true, if_false] at faulty
    split at faulty
    · rename_i found
      cases faulty
      exact found
    · cases faulty
  obtain ⟨front, back, spans, parts, split, blocks⟩ :=
    split_of_fault [] (by simp [String.length_toList]) found
  exact ⟨front, back, spans, parts, split, blocks⟩

theorem Stuck.present (stuck : Stuck wide source fault front back spans) : source.isEmpty = false := by
  have nonempty : source ≠ "" := by
    rintro rfl
    obtain ⟨-, rfl⟩ := List.append_eq_nil_iff.mp stuck.parts.symm
    cases stuck.blocks
  simpa using nonempty

theorem Stuck.scan (stuck : Stuck wide source fault front back spans) :
    (Token.scan wide source.length source.toList).fault = some fault ∧
      (Token.scan wide source.length source.toList).tokens = spans.map Span.token := by
  have size : (source.length : Int) = ([] : List Char).length + front.length + back.length := by
    rw [← String.length_toList, stuck.parts]
    simp
  have place : (front.length : Int) = source.length - back.length := by
    simp only [List.length_nil] at size
    omega
  obtain ⟨faulty, nothing⟩ := stuck.blocks.scan place
  rw [stuck.parts, stuck.split.scan size]
  exact ⟨faulty, by simp [Scan.prepend, nothing]⟩

theorem Stuck.tokens (stuck : Stuck wide source fault front back spans) :
    Token.tokens wide source = .error fault := by
  simp [Token.tokens, stuck.present, stuck.scan.1]

theorem Stuck.tokens_front (stuck : Stuck wide source fault front back spans) (some : front ≠ []) :
    Token.tokens wide (String.ofList front) =
      .ok (spans.map Span.token ++ [⟨.finish, "EOF", front.length⟩]) := by
  have alone : Split wide [] [] (String.ofList front).toList spans := by
    rw [String.toList_ofList]
    -- a word or a comment that ended at the fault also ends where the text does
    exact stuck.split.followed (by simp)
  have present : String.ofList front ≠ "" := by simpa using some
  rw [alone.tokens present, close, String.length_ofList]

/-- A cursor that runs into a fault keeps the tokens that it has collected. -/
theorem Stuck.collected (stuck : Stuck wide source fault front back spans) :
    ({ source, wide } : Cursor).finish.cursor.tokens = spans.map Span.token := by
  obtain ⟨faulty, collected⟩ := stuck.scan
  have settled : ∀ t ∈ spans.map Span.token, ({ source, wide } : Cursor).settle t = t := by
    intro t member
    obtain ⟨span, -, rfl⟩ := List.mem_map.mp member
    have ahead : ¬ span.token.position < 0 := by simp [Span.token]
    simp [Cursor.settle, ahead]
  have ahead : Offset.upcoming? ({ source, wide } : Cursor).text 0 = some source.toList := rfl
  simp [Cursor.finish, stuck.present, ahead, Cursor.length, faulty, collected, List.map_congr_left settled]

theorem Stuck.append {more : String} (stuck : Stuck wide source fault front back spans)
    (still : Blocks wide front.length (back ++ more.toList) fault) :
    Stuck wide (source ++ more) fault front (back ++ more.toList) spans := by
  refine ⟨by simp [stuck.parts], stuck.split.followed fun c head => .inl ?_, still⟩
  cases back with
  | nil => cases stuck.blocks
  | cons first back => exact head

end

/-- A fault that lies at the character `c` with offset `p` and at no earlier one. -/
structure FirstFault (wide : Bool) (source : String) (fault : Fault) (p : Nat) (c : Char) : Prop where
  position : fault.position = some (p : Int)
  inside : p < source.length
  char : source.toList[p]? = some c
  front : p = 0 ∨ tokens wide (String.ofList (source.toList.take p)) =
    .ok (({ source, wide } : Cursor).finish.cursor.tokens ++ [⟨.finish, "EOF", p⟩])
  unclosed : fault.kind = .unclosedConstruct ↔
    ∃ e : Enclosure, c = e.opener ∧ ¬ e.Closes (source.toList.drop (p + 1))
  parity : ∀ e : Enclosure,
    ¬ e.Closes (source.toList.drop (p + 1)) ↔ e.Escaped (source.toList.drop (p + 1))
  unexpected : fault.kind ≠ .unclosedConstruct → fault.kind = .unexpectedCharacter ∧
    Meaningless wide c (source.toList.drop (p + 1)) ∧
    ∀ more : String, ¬ (p + 1 = source.length ∧ c = '-' ∧ more.toList.head? = some '-') →
      tokens wide (source ++ more) = .error fault

theorem Stuck.firstFault {wide : Bool} {source : String} {fault : Fault} {front rest : List Char}
    {c : Char} {spans : List Span} (stuck : Stuck wide source fault front (c :: rest) spans) :
    FirstFault wide source fault front.length c := by
  have behind : source.toList.drop (front.length + 1) = rest := by simp [stuck.parts]
  have ahead : source.toList.take front.length = front := by simp [stuck.parts]
  have length : source.length = front.length + (rest.length + 1) := by
    rw [← String.length_toList, stuck.parts]
    simp
  have opening : front.length = 0 ∨ Token.tokens wide (String.ofList front) =
      .ok (({ source, wide } : Cursor).finish.cursor.tokens ++ [⟨.finish, "EOF", front.length⟩]) := by
    rw [stuck.collected]
    by_cases none : front = []
    · exact .inl (by simp [none])
    · exact .inr (stuck.tokens_front none)
  refine ⟨?_, by omega, by simp [stuck.parts], by rwa [ahead], ?_, fun e => e.not_closes_iff_escaped, ?_⟩
  · cases stuck.blocks <;> rfl
  · rw [behind]
    cases stuck.blocks with
    | @unclosed e _ unread => exact ⟨fun _ => ⟨e, rfl, unread⟩, fun _ => rfl⟩
    | unexpected meaningless =>
      constructor
      · intro other
        cases other
      · rintro ⟨e, rfl, -⟩
        have begins : isPunctuation e.opener = true := by cases e <;> rfl
        rw [meaningless.punctuation] at begins
        cases begins
  · intro other
    rw [behind]
    cases stuck.blocks with
    | unclosed unread => exact absurd rfl other
    | unexpected meaningless =>
      refine ⟨rfl, meaningless, fun more apart => ?_⟩
      have still : Meaningless wide c (rest ++ more.toList) := by
        apply meaningless.append
        rintro ⟨rfl, dash, second⟩
        exact apart ⟨by simpa using length.symm, dash, second⟩
      exact (stuck.append (.unexpected still)).tokens

/-- A scan ends after at most one pass for each character. A fault is the first there is, and the
tokens collected are those before it. -/
theorem fault_at_first_character (wide : Bool) (source : String) :
    (∀ passes, (source.toList :: passes).IsChain (Pass wide) → passes.length ≤ source.length) ∧
    ((∃ fault, tokens wide source = .error fault ∧ fault.kind = .emptySource) ↔ source = "") ∧
    ∀ fault, tokens wide source = .error fault → fault.kind ≠ .emptySource →
      ∃ p c, FirstFault wide source fault p c ∧
        ∀ width, (fault.diagnostic width source).kind = fault.kind ∧
          (fault.diagnostic width source).position = some (p : Int) := by
  refine ⟨fun passes chain => source.length_toList ▸ passes_le chain, ⟨?_, ?_⟩, ?_⟩
  · rintro ⟨fault, faulty, kind⟩
    by_contra nonempty
    obtain ⟨front, back, spans, stuck⟩ := stuck_of_tokens faulty nonempty
    cases stuck.blocks <;> cases kind
  · rintro rfl
    exact ⟨.empty, rfl, rfl⟩
  · intro fault faulty kind
    have nonempty : source ≠ "" := by
      rintro rfl
      cases faulty
      exact kind rfl
    obtain ⟨front, back, spans, stuck⟩ := stuck_of_tokens faulty nonempty
    cases back with
    | nil => cases stuck.blocks
    | cons c rest =>
      have first := stuck.firstFault
      refine ⟨front.length, c, first, fun width => ⟨Diagnostic.report_kind .., ?_⟩⟩
      rw [Fault.diagnostic, Diagnostic.report_position, first.position]

/-- Both quotes behind the opener are escaped. A dash at the end is a fault until another follows.
-/
theorem quotes_and_dash_first :
    tokens false "p:ids\x7b\\\x7d\x7d--\"\n\"\\\"\\\\\\\"" = .error (.unclosed .quotes 13) ∧
    (∃ p c, FirstFault false "p:ids\x7b\\\x7d\x7d--\"\n\"\\\"\\\\\\\"" (.unclosed .quotes 13) p c) ∧
    tokens true "é:-" = .error (.unexpected '-' 2) ∧
    tokens true ("é:-" ++ ";--") = .error (.unexpected '-' 2) := by
  have string : tokens false "p:ids\x7b\\\x7d\x7d--\"\n\"\\\"\\\\\\\"" = .error (.unclosed .quotes 13) := by
    decide +kernel
  have dash : tokens true "é:-" = .error (.unexpected '-' 2) := by decide +kernel
  obtain ⟨-, -, unclosed⟩ := fault_at_first_character false "p:ids\x7b\\\x7d\x7d--\"\n\"\\\"\\\\\\\""
  obtain ⟨-, -, unexpected⟩ := fault_at_first_character true "é:-"
  obtain ⟨p, c, first, -⟩ := unclosed _ string (by decide)
  obtain ⟨q, d, other, -⟩ := unexpected _ dash (by decide)
  obtain ⟨-, -, still⟩ := other.unexpected (by decide)
  exact ⟨string, ⟨p, c, first⟩, dash, still ";--" fun joined => absurd joined.2.2 (by decide)⟩

end ElementMarkup.Token
