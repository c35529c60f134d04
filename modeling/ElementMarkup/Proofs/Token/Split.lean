import ElementMarkup.Token.Scan

/-!
The lexical grammar, apart from the scanner. `Spells` says which text stands for a token when it is
followed by another text, `Gap` which text stands for nothing, and `Split` divides a whole text into
gaps and the spans of its tokens. A source has at most one split, and scanning it succeeds exactly
when it has one.
-/

namespace ElementMarkup.Token

def Enclosure.opener : Enclosure → Char
  | .braces => '{'
  | .quotes => '"'

/-- `e.Body text value`: between the delimiters of `e`, and before its closer, `text` stands for
`value`. -/
inductive Enclosure.Body (e : Enclosure) : List Char → List Char → Prop where
  | nil : Body e [] []
  | escape {d : Char} {text value : List Char} (escapable : e.escapable d = true)
      (tail : Body e text value) : Body e ('\\' :: d :: text) (d :: value)
  /-- A backslash stands for itself only in front of a character that cannot be escaped; the closer
  can be. -/
  | plain {c : Char} {text value : List Char} (inside : c ≠ e.closer)
      (literal : c = '\\' → ∃ d, text.head? = some d ∧ e.escapable d = false)
      (tail : Body e text value) : Body e (c :: text) (c :: value)

/-- `Spells wide rest text kind value`: in front of `rest`, `text` stands for a token. -/
inductive Spells (wide : Bool) (rest : List Char) : List Char → Kind → List Char → Prop where
  | colon : Spells wide rest [':'] .colon [':']
  | semicolon : Spells wide rest [';'] .semicolon [';']
  | word {text : List Char} (nonempty : text ≠ [])
      (inside : ∀ c ∈ text, isIdentifier wide c = true)
      (stops : ∀ c ∈ rest.head?, isIdentifier wide c = false) :
      Spells wide rest text (.ofWord (String.ofList text)) text
  | enclosed (e : Enclosure) {text value : List Char} (body : e.Body text value) :
      Spells wide rest (e.opener :: text ++ [e.closer]) e.kind value

/-- `Gap rest text`: in front of `rest`, `text` is one blank or one comment. -/
inductive Gap (rest : List Char) : List Char → Prop where
  | space {c : Char} (blank : isSpace c = true) : Gap rest [c]
  | comment {body : List Char} (line : '\n' ∉ body) (ends : ∀ c ∈ rest.head?, c = '\n') :
      Gap rest ('-' :: '-' :: body)

structure Span where
  start : Nat
  text : List Char
  kind : Kind
  value : List Char
  deriving DecidableEq, Repr

def Span.token (span : Span) : Token := ⟨span.kind, String.ofList span.value, span.start⟩

/-- `Split wide after before text spans`: standing between `before` and `after`, `text` divides into
gaps and these spans. -/
inductive Split (wide : Bool) (after : List Char) : List Char → List Char → List Span → Prop where
  | nil (before : List Char) : Split wide after before [] []
  | gap {before gap text : List Char} {spans : List Span} (blank : Gap (text ++ after) gap)
      (tail : Split wide after (before ++ gap) text spans) :
      Split wide after before (gap ++ text) spans
  | token {before lexeme text value : List Char} {kind : Kind} {spans : List Span}
      (spells : Spells wide (text ++ after) lexeme kind value)
      (tail : Split wide after (before ++ lexeme) text spans) :
      Split wide after before (lexeme ++ text) (⟨before.length, lexeme, kind, value⟩ :: spans)

theorem isIdentifier_delimiter (wide : Bool) :
    ∀ c ∈ [':', ';', '{', '}', '"', '-', ' ', '\t', '\r', '\n'], isIdentifier wide c = false := by
  have all : [':', ';', '{', '}', '"', '-', ' ', '\t', '\r', '\n'].all (!isIdentifier wide ·) = true := by
    cases wide <;> decide
  intro c member
  simpa using List.all_eq_true.mp all c member

theorem isIdentifier_space {wide : Bool} {c : Char} (blank : isSpace c = true) :
    isIdentifier wide c = false := by
  simp only [isSpace, Bool.or_eq_true, decide_eq_true_eq] at blank
  rcases blank with ((rfl | rfl) | rfl) | rfl <;> exact isIdentifier_delimiter wide _ (by decide)

theorem ne_of_isIdentifier {wide : Bool} {c d : Char} (identifier : isIdentifier wide c = true)
    (other : isIdentifier wide d = false) : c ≠ d := by
  rintro rfl
  rw [identifier] at other
  cases other

namespace Enclosure

variable {e : Enclosure} {c : Char} {text value left : List Char}

theorem body?_closer (e : Enclosure) (left : List Char) : e.body? (e.closer :: left) = some ([], left) := by
  cases left with
  | nil => simp [body?]
  | cons d rest => cases e <;> simp [body?, closer]

theorem body?_escape {d : Char} (escapable : e.escapable d = true) (rest : List Char) :
    e.body? ('\\' :: d :: rest) = (e.body? rest).map fun (text, left) => (d :: text, left) := by
  simp [body?, escapable]

theorem body?_plain (inside : c ≠ e.closer)
    (literal : c = '\\' → ∀ d ∈ text.head?, e.escapable d = false) :
    e.body? (c :: text) = (e.body? text).map fun (text, left) => (c :: text, left) := by
  cases text with
  | nil => simp [body?, inside]
  | cons d rest =>
    have kept : ¬ (c = '\\' ∧ e.escapable d = true) := by
      rintro ⟨slash, escapable⟩
      rw [literal slash d rfl] at escapable
      cases escapable
    rw [body?, if_neg kept, if_neg inside]

theorem Body.read (body : e.Body text value) (left : List Char) :
    e.body? (text ++ e.closer :: left) = some (value, left) := by
  induction body with
  | nil => exact e.body?_closer left
  | escape escapable tail ih =>
    rw [List.cons_append, List.cons_append, body?_escape escapable, ih]
    rfl
  | plain inside literal tail ih =>
    rw [List.cons_append, body?_plain inside, ih]
    · rfl
    · intro slash d next
      obtain ⟨first, head, kept⟩ := literal slash
      rw [List.head?_append, head] at next
      cases next
      exact kept

theorem body_of_read (read : e.body? text = some (value, left)) :
    ∃ inside, text = inside ++ e.closer :: left ∧ e.Body inside value := by
  fun_induction body? e text generalizing value with
  | case1 => cases read
  | case2 =>
    cases read
    exact ⟨[], rfl, .nil⟩
  | case3 => cases read
  | case4 c d rest escapes ih =>
    obtain ⟨⟨tail, end'⟩, found, same⟩ := Option.map_eq_some_iff.mp read
    cases same
    obtain ⟨inside, rfl, body⟩ := ih found
    obtain ⟨rfl, escapable⟩ := escapes
    exact ⟨'\\' :: d :: inside, rfl, .escape escapable body⟩
  | case5 d rest kept =>
    cases read
    exact ⟨[], rfl, .nil⟩
  | case6 c d rest kept inside ih =>
    obtain ⟨⟨tail, end'⟩, found, same⟩ := Option.map_eq_some_iff.mp read
    cases same
    obtain ⟨text, split, body⟩ := ih found
    refine ⟨c :: text, by rw [split]; rfl, .plain inside ?_ body⟩
    rintro rfl
    have plain : e.escapable d = false := by simpa using kept
    cases text with
    | nil =>
      -- the closer would be the next character, and it can be escaped
      obtain ⟨rfl, -⟩ := List.cons.inj split
      cases e <;> simp [closer, escapable] at plain
    | cons first more =>
      obtain ⟨rfl, -⟩ := List.cons.inj split
      exact ⟨d, rfl, plain⟩

end Enclosure

/-! ### Lexemes -/

def Reads (wide : Bool) (source : List Char) (read : Lexeme) : Prop :=
  ∃ c rest, source = c :: rest ∧ lexeme wide c rest = read

theorem Reads.unique {wide : Bool} {source : List Char} {read other : Lexeme}
    (first : Reads wide source read) (second : Reads wide source other) : read = other := by
  obtain ⟨c, rest, rfl, rfl⟩ := first
  obtain ⟨d, more, same, rfl⟩ := second
  cases same
  rfl

section

variable {wide : Bool} {c : Char} {rest text left value : List Char} {kind : Kind}

theorem takeWhile_append_stop {p : Char → Bool} (inside : ∀ c ∈ text, p c = true)
    (stops : ∀ c ∈ rest.head?, p c = false) :
    (text ++ rest).takeWhile p = text ∧ (text ++ rest).dropWhile p = rest := by
  rw [List.takeWhile_append_of_pos inside, List.dropWhile_append_of_pos inside]
  cases rest with
  | nil => simp
  | cons d more => simp [stops d rfl]

theorem dropWhile_head?_false (p : Char → Bool) (text : List Char) :
    ∀ c ∈ (text.dropWhile p).head?, p c = false := by
  intro c head
  simpa [Option.mem_def.mp head] using List.head?_dropWhile_not p text

theorem lexeme_enclosed (e : Enclosure) (rest : List Char) :
    lexeme wide e.opener rest = .enclosed e rest := by
  cases e <;> simp [lexeme, Enclosure.opener]

theorem lexeme_identifier (identifier : isIdentifier wide c = true) (rest : List Char) :
    lexeme wide c rest =
      .token (.ofWord (String.ofList (c :: rest.takeWhile (isIdentifier wide))))
        (c :: rest.takeWhile (isIdentifier wide)) (rest.dropWhile (isIdentifier wide)) := by
  have other : ∀ d ∈ [':', ';', '{', '}', '"', '-', ' ', '\t', '\r', '\n'], c ≠ d :=
    fun d member => ne_of_isIdentifier identifier (isIdentifier_delimiter wide d member)
  simp only [List.forall_mem_cons] at other
  simp [lexeme, other, identifier]

theorem lexeme_space (blank : isSpace c = true) (rest : List Char) : lexeme wide c rest = .gap rest := by
  have plain : isIdentifier wide c = false := isIdentifier_space blank
  simp only [isSpace, Bool.or_eq_true, decide_eq_true_eq] at blank
  rcases blank with ((rfl | rfl) | rfl) | rfl <;> simp [lexeme, plain, isSpace]

theorem Spells.reads (spells : Spells wide rest text kind value) :
    Reads wide (text ++ rest) (.token kind value rest) := by
  cases spells with
  | colon => exact ⟨':', rest, rfl, by simp [lexeme]⟩
  | semicolon => exact ⟨';', rest, rfl, by simp [lexeme]⟩
  | word nonempty inside stops =>
    obtain ⟨c, tail, rfl⟩ := List.exists_cons_of_ne_nil nonempty
    obtain ⟨taken, dropped⟩ := takeWhile_append_stop (List.forall_mem_cons.mp inside).2 stops
    refine ⟨c, tail ++ rest, rfl, ?_⟩
    rw [lexeme_identifier (inside c (List.mem_cons_self ..)), taken, dropped]
  | @enclosed e text value body =>
    refine ⟨e.opener, text ++ e.closer :: rest, by simp, ?_⟩
    rw [lexeme_enclosed, Lexeme.enclosed, body.read]

theorem Gap.reads (gap : Gap rest text) : Reads wide (text ++ rest) (.gap rest) := by
  cases gap with
  | @space c blank => exact ⟨c, rest, rfl, lexeme_space blank rest⟩
  | @comment body line ends =>
    refine ⟨'-', '-' :: body ++ rest, rfl, ?_⟩
    have inside : ∀ c ∈ body, (c != '\n') = true := by
      intro c member
      simpa using fun newline : c = '\n' => line (newline ▸ member)
    have stops : ∀ c ∈ rest.head?, (c != '\n') = false := fun c head => by simp [ends c head]
    have dropped := (takeWhile_append_stop inside stops).2
    simp [lexeme, dropped]

theorem enclosed_spells {e : Enclosure} (read : Lexeme.enclosed e rest = .token kind value left) :
    ∃ text, e.opener :: rest = text ++ left ∧ Spells wide left text kind value := by
  unfold Lexeme.enclosed at read
  split at read
  · rename_i found
    cases read
    obtain ⟨inside, rfl, body⟩ := Enclosure.body_of_read found
    exact ⟨e.opener :: inside ++ [e.closer], by simp, .enclosed e body⟩
  · cases read

theorem lexeme_spells (read : lexeme wide c rest = .token kind value left) :
    ∃ text, c :: rest = text ++ left ∧ Spells wide left text kind value := by
  unfold lexeme at read
  split at read
  · rename_i colon
    cases read
    exact ⟨[c], rfl, colon ▸ .colon⟩
  split at read
  · rename_i semicolon
    cases read
    exact ⟨[c], rfl, semicolon ▸ .semicolon⟩
  split at read
  · rename_i brace
    exact brace ▸ enclosed_spells read
  split at read
  · rename_i quote
    exact quote ▸ enclosed_spells read
  split at read
  · cases read
  split at read
  · rename_i identifier
    cases read
    refine ⟨c :: rest.takeWhile (isIdentifier wide), ?_, ?_⟩
    · rw [List.cons_append, List.takeWhile_append_dropWhile]
    · refine .word (List.cons_ne_nil _ _) ?_ (dropWhile_head?_false _ rest)
      exact List.forall_mem_cons.mpr
        ⟨identifier, fun d member => List.all_eq_true.mp List.all_takeWhile d member⟩
  split at read <;> cases read

theorem lexeme_gap (read : lexeme wide c rest = .gap left) :
    ∃ text, c :: rest = text ++ left ∧ Gap left text := by
  have enclosed : ∀ e : Enclosure, Lexeme.enclosed e rest ≠ .gap left := by
    intro e
    unfold Lexeme.enclosed
    split <;> simp
  unfold lexeme at read
  split at read
  · cases read
  split at read
  · cases read
  split at read
  · exact absurd read (enclosed _)
  split at read
  · exact absurd read (enclosed _)
  split at read
  · rename_i dashes
    obtain ⟨rfl, second⟩ := dashes
    cases read
    obtain ⟨body, rfl⟩ := List.head?_eq_some_iff.mp second
    refine ⟨'-' :: '-' :: body.takeWhile (· != '\n'), ?_, .comment ?_ ?_⟩
    · simp [List.takeWhile_append_dropWhile]
    · intro member
      simpa using List.all_eq_true.mp List.all_takeWhile _ member
    · intro d head
      simpa using dropWhile_head?_false (· != '\n') ('-' :: body) d head
  split at read
  · cases read
  split at read
  · rename_i blank
    cases read
    exact ⟨[c], rfl, .space blank⟩
  · cases read

theorem Spells.ne_nil (spells : Spells wide rest text kind value) : text ≠ [] := by
  cases spells with
  | word nonempty => exact nonempty
  | _ => simp

theorem Gap.ne_nil (gap : Gap rest text) : text ≠ [] := by
  cases gap <;> simp

end

/-! ### Splits -/

section

variable {wide : Bool} {before text after : List Char} {spans : List Span}

theorem Split.append {more : List Char} {others : List Span}
    (first : Split wide (more ++ after) before text spans)
    (second : Split wide after (before ++ text) more others) :
    Split wide after before (text ++ more) (spans ++ others) := by
  induction first with
  | nil before => simpa using second
  | gap blank tail ih =>
    rw [List.append_assoc]
    exact .gap (by simpa using blank) (ih (by simpa using second))
  | token spells tail ih =>
    rw [List.append_assoc]
    exact .token (by simpa using spells) (ih (by simpa using second))

/-- Two splits agree on every piece, because both are what the scanner reads there. -/
theorem Split.unique {others : List Span} (first : Split wide after before text spans)
    (second : Split wide after before text others) : others = spans := by
  induction first generalizing others with
  | nil before =>
    generalize empty : ([] : List Char) = text at second
    cases second with
    | nil => rfl
    | gap blank tail => exact absurd (List.append_eq_nil_iff.mp empty.symm).1 blank.ne_nil
    | token spells tail => exact absurd (List.append_eq_nil_iff.mp empty.symm).1 spells.ne_nil
  | @gap before gap text spans blank tail ih =>
    have here : Reads wide (gap ++ text ++ after) (.gap (text ++ after)) := by simpa using blank.reads
    generalize whole : gap ++ text = source at second here
    cases second with
    | nil => exact absurd (List.append_eq_nil_iff.mp whole).1 blank.ne_nil
    | @gap _ otherGap otherText _ otherBlank otherTail =>
      have same := here.unique (by simpa using otherBlank.reads)
      simp only [Lexeme.gap.injEq, List.append_cancel_right_eq] at same
      subst same
      obtain rfl := List.append_cancel_right whole
      exact ih otherTail
    | token spells otherTail => cases here.unique (by simpa using spells.reads)
  | @token before lexeme text value kind spans spells tail ih =>
    have here : Reads wide (lexeme ++ text ++ after) (.token kind value (text ++ after)) := by
      simpa using spells.reads
    generalize whole : lexeme ++ text = source at second here
    cases second with
    | nil => exact absurd (List.append_eq_nil_iff.mp whole).1 spells.ne_nil
    | gap blank otherTail => cases here.unique (by simpa using blank.reads)
    | @token _ otherLexeme otherText otherValue otherKind otherSpans otherSpells otherTail =>
      have same := here.unique (by simpa using otherSpells.reads)
      simp only [Lexeme.token.injEq, List.append_cancel_right_eq] at same
      obtain ⟨rfl, rfl, rfl⟩ := same
      obtain rfl := List.append_cancel_right whole
      rw [ih otherTail]

theorem Split.start_bounds (split : Split wide after before text spans) :
    ∀ span ∈ spans, before.length ≤ span.start ∧ span.start < before.length + text.length := by
  induction split with
  | nil before => simp
  | gap blank tail ih =>
    intro span member
    have := ih span member
    simp only [List.length_append] at this ⊢
    omega
  | @token before lexeme text value kind spans spells tail ih =>
    have positive : 0 < lexeme.length := List.length_pos_iff.mpr spells.ne_nil
    rw [List.length_append]
    refine List.forall_mem_cons.mpr ⟨⟨Nat.le_refl _, Nat.lt_add_of_pos_right (by omega)⟩, ?_⟩
    intro span member
    have := ih span member
    rw [List.length_append] at this
    omega

theorem Split.starts_increase (split : Split wide after before text spans) :
    (spans.map Span.start ++ [before.length + text.length]).Pairwise (· < ·) := by
  induction split with
  | nil before => simp
  | gap blank tail ih => simpa [Nat.add_assoc] using ih
  | @token before lexeme text value kind spans spells tail ih =>
    have positive : 0 < lexeme.length := List.length_pos_iff.mpr spells.ne_nil
    rw [List.map_cons, List.cons_append, List.pairwise_cons]
    refine ⟨?_, by simpa [Nat.add_assoc] using ih⟩
    intro start member
    show before.length < start
    rcases List.mem_append.mp member with member | member
    · obtain ⟨span, inside, rfl⟩ := List.mem_map.mp member
      have := (tail.start_bounds span inside).1
      rw [List.length_append] at this
      omega
    · obtain rfl := List.mem_singleton.mp member
      rw [List.length_append]
      omega

theorem Spells.kind_ne_finish {rest value : List Char} {kind : Kind}
    (spells : Spells wide rest text kind value) : kind ≠ .finish := by
  cases spells with
  | word =>
    unfold Kind.ofWord
    repeat' split
    all_goals simp
  | enclosed e => cases e <;> simp [Enclosure.kind]
  | _ => simp

theorem Split.kind_ne_finish (split : Split wide after before text spans) :
    ∀ span ∈ spans, span.kind ≠ .finish := by
  induction split with
  | nil before => simp
  | gap blank tail ih => exact ih
  | token spells tail ih => exact List.forall_mem_cons.mpr ⟨spells.kind_ne_finish, ih⟩

/-- No word runs across the border between two texts. -/
def Parted (wide : Bool) (before text : List Char) : Prop :=
  ∀ c ∈ before.getLast?, ∀ d ∈ text.head?, isIdentifier wide c = true → isIdentifier wide d = false

theorem parted_of_last {c : Char} (last : before.getLast? = some c)
    (plain : isIdentifier wide c = false) : Parted wide before text := by
  intro d ends e _ identifier
  rw [last] at ends
  cases ends
  rw [plain] at identifier
  cases identifier

theorem Gap.parted {rest : List Char} (gap : Gap rest text) : Parted wide (before ++ text) rest := by
  cases gap with
  | @space c blank => exact parted_of_last (by simp) (isIdentifier_space blank)
  | comment line ends =>
    intro c _ d head _
    rw [ends d head]
    exact isIdentifier_delimiter wide _ (by decide)

theorem Spells.parted {rest value : List Char} {kind : Kind}
    (spells : Spells wide rest text kind value) : Parted wide (before ++ text) rest := by
  cases spells with
  | colon => exact parted_of_last (by simp) (isIdentifier_delimiter wide ':' (by decide))
  | semicolon => exact parted_of_last (by simp) (isIdentifier_delimiter wide ';' (by decide))
  | word nonempty inside stops => exact fun _ _ d head _ => stops d head
  | enclosed e body =>
    refine parted_of_last (c := e.closer) (by simp [List.getLast?_cons]) ?_
    cases e <;> exact isIdentifier_delimiter wide _ (by decide)

theorem Spells.head_identifier {rest value : List Char} {kind : Kind}
    (spells : Spells wide rest text kind value) (word : kind.isWord = true) :
    ∃ c, text.head? = some c ∧ isIdentifier wide c = true := by
  cases spells with
  | word nonempty inside stops =>
    obtain ⟨c, tail, rfl⟩ := List.exists_cons_of_ne_nil nonempty
    exact ⟨c, rfl, inside c (List.mem_cons_self ..)⟩
  | enclosed e => cases e <;> cases word
  | _ => cases word

theorem Split.word_starts (split : Split wide after before text spans)
    (parted : Parted wide before (text ++ after)) :
    ∀ span ∈ spans, span.kind.isWord = true →
      ∀ c ∈ ((before ++ text).take span.start).getLast?, isIdentifier wide c = false := by
  induction split with
  | nil before => simp
  | gap blank tail ih => simpa using ih blank.parted
  | @token before lexeme text value kind spans spells tail ih =>
    intro span member word
    rcases List.mem_cons.mp member with rfl | member
    · obtain ⟨d, head, identifier⟩ := spells.head_identifier word
      intro c last
      simp only [List.take_left'] at last
      have apart := parted c last d (by simp [List.head?_append, head])
      cases plain : isIdentifier wide c with
      | false => rfl
      | true =>
        rw [apart plain] at identifier
        cases identifier
    · rw [← List.append_assoc]
      exact ih spells.parted span member word

theorem scan_gap {c : Char} {rest left : List Char} (read : lexeme wide c rest = .gap left) (stop : Int) :
    scan wide stop (c :: rest) = scan wide stop left := by
  rw [scan]
  split
  all_goals simp_all

theorem scan_token {c : Char} {rest left value : List Char} {kind : Kind}
    (read : lexeme wide c rest = .token kind value left) (stop : Int) :
    scan wide stop (c :: rest) =
      (scan wide stop left).cons ⟨kind, String.ofList value, stop - (c :: rest).length⟩ := by
  rw [scan]
  split
  all_goals simp_all

def Scan.prepend (ts : List Token) (scan : Scan) : Scan := { scan with tokens := ts ++ scan.tokens }

/-- A text is scanned to the tokens of its split, and the scan goes on behind it. -/
theorem Split.scan (split : Split wide after before text spans) {stop : Int}
    (whole : stop = before.length + text.length + after.length) :
    Token.scan wide stop (text ++ after) = (Token.scan wide stop after).prepend (spans.map Span.token) := by
  induction split with
  | nil before => rfl
  | gap blank tail ih =>
    obtain ⟨c, rest, source, read⟩ : Reads wide _ _ := blank.reads
    rw [List.append_assoc, source, scan_gap read]
    exact ih (by simp only [List.length_append] at whole ⊢; omega)
  | @token before lexeme text value kind spans spells tail ih =>
    obtain ⟨c, rest, source, read⟩ := spells.reads
    have start : stop - (c :: rest).length = before.length := by
      rw [← source]
      simp only [List.length_append] at whole ⊢
      omega
    rw [List.append_assoc, source, scan_token read, start,
      ih (by simp only [List.length_append] at whole ⊢; omega)]
    rfl

theorem split_of_scan {stop : Int} (clean : (Token.scan wide stop text).fault = none) (before : List Char) :
    ∃ spans, Split wide [] before text spans := by
  fun_induction Token.scan wide stop text generalizing before with
  | case1 => exact ⟨[], .nil before⟩
  | case2 c rest start kind value left read shorter ih =>
    obtain ⟨lexeme, source, spells⟩ := lexeme_spells read
    obtain ⟨spans, tail⟩ := ih clean (before ++ lexeme)
    rw [source]
    exact ⟨_, .token (by simpa using spells) tail⟩
  | case3 c rest left read shorter ih =>
    obtain ⟨gap, source, blank⟩ := lexeme_gap read
    obtain ⟨spans, tail⟩ := ih clean (before ++ gap)
    rw [source]
    exact ⟨spans, .gap (by simpa using blank) tail⟩
  | case4 => cases clean
  | case5 => cases clean

theorem Split.tokens {source : String} (split : Split wide [] [] source.toList spans)
    (nonempty : source ≠ "") :
    Token.tokens wide source = .ok (spans.map Span.token ++ [close source]) := by
  have scanned : Token.scan wide source.length (source.toList ++ []) = _ :=
    split.scan (by simp [String.length_toList])
  have present : source.isEmpty = false := by simpa using nonempty
  rw [List.append_nil] at scanned
  simp [Token.tokens, present, scanned, Scan.prepend, Token.scan]

theorem split_of_tokens {source : String} {ts : List Token} (scanned : Token.tokens wide source = .ok ts) :
    source ≠ "" ∧ ∃ spans, Split wide [] [] source.toList spans ∧
      ts = spans.map Span.token ++ [close source] := by
  have nonempty : source ≠ "" := by
    rintro rfl
    cases scanned
  have clean : (scan wide source.length source.toList).fault = none := by
    have present : source.isEmpty = false := by simpa using nonempty
    simp only [tokens, present, Bool.false_eq_true, if_false] at scanned
    split at scanned
    · cases scanned
    · assumption
  obtain ⟨spans, split⟩ := split_of_scan clean []
  rw [split.tokens nonempty] at scanned
  exact ⟨nonempty, spans, split, (Except.ok.inj scanned).symm⟩

end

/-- A source is scanned exactly when it has a split, and to the tokens of that. There is at most
one; its spans stand in order, and its words are whole. -/
theorem tokens_eq_ok_iff_split (wide : Bool) (source : String) :
    (∀ ts, tokens wide source = .ok ts ↔ source ≠ "" ∧
      ∃ spans, Split wide [] [] source.toList spans ∧
        ts = spans.map Span.token ++ [⟨.finish, "EOF", source.length⟩]) ∧
    ∀ spans, Split wide [] [] source.toList spans →
      (∀ others, Split wide [] [] source.toList others → others = spans) ∧
      (spans.map Span.start ++ [source.length]).Pairwise (· < ·) ∧
      (∀ span ∈ spans, span.kind ≠ .finish) ∧
      ∀ span ∈ spans, span.kind.isWord = true →
        ∀ c ∈ (source.toList.take span.start).getLast?, isIdentifier wide c = false := by
  constructor
  · intro ts
    constructor
    · exact split_of_tokens
    · rintro ⟨nonempty, spans, split, rfl⟩
      exact split.tokens nonempty
  · intro spans split
    refine ⟨fun others other => split.unique other, ?_, split.kind_ne_finish, ?_⟩
    · simpa [String.length_toList] using split.starts_increase
    · simpa using split.word_starts (by simp [Parted])

/-- Escapes up to the closer, and a comment that touches the block before it. -/
theorem tight_source_splits :
    ∃ spans, Split false [] [] "ids\x7b\\\x7d\\x\\\\\x7d--:\n;".toList spans ∧
      spans.map Span.token =
        [⟨.keyword .ids, "ids", 0⟩, ⟨.block, "\x7d\\x\\", 3⟩, ⟨.semicolon, ";", 15⟩] ∧
      ∀ others, Split false [] [] "ids\x7b\\\x7d\\x\\\\\x7d--:\n;".toList others → others = spans := by
  obtain ⟨scanned, unique⟩ := tokens_eq_ok_iff_split false "ids\x7b\\\x7d\\x\\\\\x7d--:\n;"
  have read : (tokens false "ids\x7b\\\x7d\\x\\\\\x7d--:\n;").toOption =
      some ([⟨.keyword .ids, "ids", 0⟩, ⟨.block, "\x7d\\x\\", 3⟩, ⟨.semicolon, ";", 15⟩] ++
        [⟨.finish, "EOF", 16⟩]) := by
    decide +kernel
  cases outcome : tokens false "ids\x7b\\\x7d\\x\\\\\x7d--:\n;" with
  | error fault =>
    rw [outcome] at read
    cases read
  | ok ts =>
    rw [outcome] at read
    obtain ⟨-, spans, split, same⟩ := (scanned ts).mp outcome
    obtain rfl := Option.some.inj read
    exact ⟨spans, split, (List.append_cancel_right same).symm, (unique spans split).1⟩

end ElementMarkup.Token
