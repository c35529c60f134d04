import ElementMarkup.Diagnostic
import ElementMarkup.Journal
import ElementMarkup.Token

/-!
Scanning a text into tokens. `lexeme` reads what stands at the head of a text and says what is
left; `scan` repeats it to the end of the text or to the first fault; `tokens` is the scan of a
whole source, closed by the token for its end.
-/

namespace ElementMarkup.Token

/-! ### Blocks and strings -/

inductive Enclosure where
  | braces
  | quotes
  deriving DecidableEq, Repr

namespace Enclosure

def closer : Enclosure → Char
  | .braces => '}'
  | .quotes => '"'

/-- Characters that a backslash before them takes literally. -/
def escapable : Enclosure → Char → Bool
  | .braces, c => c = '{' || c = '}' || c = '\\'
  | .quotes, c => c = '"' || c = '\\'

def kind : Enclosure → Kind
  | .braces => .block
  | .quotes => .quoted

def name : Enclosure → String
  | .braces => "block"
  | .quotes => "string"

/-- The text up to the closer, with escapes resolved, and what follows the closer. A backslash
that escapes nothing stands for itself. -/
def body? (e : Enclosure) : List Char → Option (List Char × List Char)
  | [] => none
  | [c] => if c = e.closer then some ([], []) else none
  | c :: d :: rest =>
    if c = '\\' ∧ e.escapable d then (body? e rest).map fun (text, left) => (d :: text, left)
    else if c = e.closer then some ([], d :: rest)
    else (body? e (d :: rest)).map fun (text, left) => (c :: text, left)

theorem body?_shorter (e : Enclosure) (text : List Char) :
    ∀ {value left : List Char}, e.body? text = some (value, left) → left.length < text.length := by
  fun_induction body? e text with
  | case1 => simp
  | case2 => intro value left h; simp_all
  | case3 => simp
  | case4 c d rest _ ih =>
    intro value left h
    obtain ⟨⟨v, l⟩, found, same⟩ := Option.map_eq_some_iff.mp h
    cases same
    have := ih found
    simp only [List.length_cons]
    omega
  | case5 d rest _ =>
    intro value left h
    cases h
    simp
  | case6 c d rest _ _ ih =>
    intro value left h
    obtain ⟨⟨v, l⟩, found, same⟩ := Option.map_eq_some_iff.mp h
    cases same
    have := ih found
    simp only [List.length_cons] at this ⊢
    omega

end Enclosure

/-! ### One lexeme -/

/-- What stands at the head of a text, with the text that is left behind it. -/
inductive Lexeme where
  | token (kind : Kind) (value : List Char) (left : List Char)
  | gap (left : List Char)
  /-- A construct that the text ends inside. -/
  | unclosed (construct : Enclosure)
  | unexpected (c : Char)
  deriving DecidableEq, Repr

def Lexeme.enclosed (e : Enclosure) (rest : List Char) : Lexeme :=
  match e.body? rest with
  | some (value, left) => .token e.kind value left
  | none => .unclosed e

/-- Reads one lexeme from the text `c :: rest`. A word is the longest run of identifier
characters, and a comment runs up to the end of its line. -/
def lexeme (wide : Bool) (c : Char) (rest : List Char) : Lexeme :=
  if c = ':' then .token .colon [c] rest
  else if c = ';' then .token .semicolon [c] rest
  else if c = '{' then .enclosed .braces rest
  else if c = '"' then .enclosed .quotes rest
  else if c = '-' ∧ rest.head? = some '-' then .gap (rest.dropWhile (· != '\n'))
  else if isIdentifier wide c then
    let word := c :: rest.takeWhile (isIdentifier wide)
    .token (.ofWord (String.ofList word)) word (rest.dropWhile (isIdentifier wide))
  else if isSpace c then .gap rest
  else .unexpected c

theorem enclosed_token_shorter {e : Enclosure} {rest : List Char} {kind : Kind}
    {value left : List Char} (read : Lexeme.enclosed e rest = .token kind value left) :
    left.length < rest.length := by
  unfold Lexeme.enclosed at read
  split at read
  · rename_i found
    cases read
    exact e.body?_shorter rest found
  · cases read

theorem lexeme_token_shorter {wide : Bool} {c : Char} {rest : List Char} {kind : Kind}
    {value left : List Char} (read : lexeme wide c rest = .token kind value left) :
    left.length < (c :: rest).length := by
  have run : (rest.dropWhile (isIdentifier wide)).length ≤ rest.length :=
    (List.dropWhile_sublist _).length_le
  simp only [List.length_cons]
  unfold lexeme at read
  split at read
  · cases read; omega
  split at read
  · cases read; omega
  split at read
  · have := enclosed_token_shorter read; omega
  split at read
  · have := enclosed_token_shorter read; omega
  split at read
  · cases read
  split at read
  · cases read; omega
  split at read <;> cases read

theorem lexeme_gap_shorter {wide : Bool} {c : Char} {rest left : List Char}
    (read : lexeme wide c rest = .gap left) : left.length < (c :: rest).length := by
  have comment : (rest.dropWhile (· != '\n')).length ≤ rest.length :=
    (List.dropWhile_sublist _).length_le
  have enclosed : ∀ e : Enclosure, Lexeme.enclosed e rest ≠ .gap left := by
    intro e
    unfold Lexeme.enclosed
    split <;> simp
  simp only [List.length_cons]
  unfold lexeme at read
  split at read
  · cases read
  split at read
  · cases read
  split at read
  · exact absurd read (enclosed _)
  split at read
  · exact absurd read (enclosed _)
  split at read
  · cases read; omega
  split at read
  · cases read
  split at read
  · cases read; omega
  · cases read

/-! ### A whole text -/

inductive Fault where
  | empty
  | unclosed (construct : Enclosure) (position : Int)
  | unexpected (c : Char) (position : Int)
  deriving DecidableEq, Repr

/-- What a scan has read: the tokens in order, where it stands, and the fault that stopped it. -/
structure Scan where
  tokens : List Token := []
  position : Int
  fault : Option Fault := none
  deriving DecidableEq, Repr

def Scan.cons (token : Token) (scan : Scan) : Scan := { scan with tokens := token :: scan.tokens }

/-- Scans a text that ends at offset `stop` of its source, so that its first character has offset
`stop - text.length`. -/
def scan (wide : Bool) (stop : Int) : List Char → Scan
  | [] => { position := stop }
  | c :: rest =>
    let start := stop - (c :: rest).length
    match read : lexeme wide c rest with
    | .token kind value left =>
      have := lexeme_token_shorter read
      (scan wide stop left).cons ⟨kind, String.ofList value, start⟩
    | .gap left =>
      have := lexeme_gap_shorter read
      scan wide stop left
    | .unclosed construct => { position := stop, fault := some (.unclosed construct start) }
    | .unexpected c => { position := start, fault := some (.unexpected c start) }
termination_by text => text.length
decreasing_by all_goals assumption

def close (source : String) : Token := ⟨.finish, "EOF", source.length⟩

/-- The tokens of a source, with the one for its end last. -/
def tokens (wide : Bool) (source : String) : Except Fault (List Token) :=
  if source.isEmpty then .error .empty
  else
    let read := scan wide source.length source.toList
    match read.fault with
    | some fault => .error fault
    | none => .ok (read.tokens ++ [close source])

/-! ### Reports -/

/-- Kept in the journal when a source has been read whole. -/
def scanned (source : String) (count : Nat) : Record :=
  ⟨3, "Tokenized " ++ toString source.length ++ " characters into " ++ toString count ++ " tokens"⟩

namespace Fault

def kind : Fault → Diagnostic.Kind
  | .empty => .emptySource
  | .unclosed _ _ => .unclosedConstruct
  | .unexpected _ _ => .unexpectedCharacter

def message : Fault → String
  | .empty => "Empty source given to compile."
  | .unclosed construct position =>
    "Unclosed " ++ construct.name ++ " opened at position " ++ toString position
  | .unexpected c position =>
    "Unexpected char '" ++ c.toString ++ "' at position " ++ toString position

def position : Fault → Option Int
  | .empty => none
  | .unclosed _ position | .unexpected _ position => some position

def diagnostic (width : Int) (source : String) (fault : Fault) : Diagnostic :=
  .report width fault.kind fault.message (some source) fault.position none

end Fault

end ElementMarkup.Token
