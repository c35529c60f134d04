import ElementMarkup.Text.Digit
import ElementMarkup.Text.Literal

/-!
How a text is laid out in a field. A layout cuts the text to a length and fills it up to a width on
one side or on both. It is written as a fill character and an alignment, a width, a point with a
length, and a letter; the marks that only numbers can be given are read as well and refused.
-/

namespace ElementMarkup.Text

inductive Alignment where
  | left
  | right
  | center
  deriving DecidableEq, Repr

structure Layout where
  fill : Char := ' '
  alignment : Alignment := .left
  width : Nat := 0
  length : Option Nat := none
  deriving DecidableEq, Repr

namespace Layout

def apply (layout : Layout) (text : List Char) : List Char :=
  let shown := match layout.length with
    | none => text
    | some length => text.take length
  let room := layout.width - shown.length
  let before := match layout.alignment with
    | .left => 0
    | .right => room
    | .center => room / 2
  List.replicate before layout.fill ++ shown ++ List.replicate (room - before) layout.fill

/-! ### Refusals -/

inductive Fault where
  | tooManyDigits
  /-- Digits grouped in two ways at once. -/
  | twoGroupings
  | lengthMissing
  /-- A layout that does not end where it should. -/
  | unreadable (written : List Char)
  /-- A letter whose numbers have no groups. -/
  | ungrouped (grouping letter : Char)
  | unknownLetter (letter : Char)
  | signed (sign : Char)
  | zeroed
  | alternate
  /-- Filling between a sign and the digits after it. -/
  | inside
  /-- A width that no text can be filled up to. -/
  | tooWide
  deriving DecidableEq, Repr

/-- A character by itself, or its code if it is not between the space and `bound`. -/
def shown (bound : Nat) (c : Char) : String :=
  if 32 < c.toNat ∧ c.toNat < bound then c.toString else "\\x" ++ String.ofList (hex 1 c.toNat)

def Fault.message : Fault → String
  | .tooManyDigits => "Too many decimal digits in format string"
  | .twoGroupings => "Cannot specify both ',' and '_'."
  | .lengthMissing => "Format specifier missing precision"
  | .unreadable written =>
    "Invalid format specifier '" ++ String.ofList written ++ "' for object of type 'str'"
  | .ungrouped grouping letter =>
    "Cannot specify '" ++ grouping.toString ++ "' with '" ++ shown 128 letter ++ "'."
  | .unknownLetter letter =>
    "Unknown format code '" ++ shown 128 letter ++ "' for object of type 'str'"
  | .signed ' ' => "Space not allowed in string format specifier"
  | .signed _ => "Sign not allowed in string format specifier"
  | .zeroed => "Negative zero coercion (z) not allowed in string format specifier"
  | .alternate => "Alternate form (#) not allowed in string format specifier"
  | .inside => "'=' alignment not allowed in string format specifier"
  | .tooWide => ""

/-! ### Reading -/

/-- Takes the first character off if it is one of those wanted. -/
def first? (wanted : List Char) : List Char → Option Char × List Char
  | c :: rest => if c ∈ wanted then (some c, rest) else (none, c :: rest)
  | [] => (none, [])

def number? (written : List Char) : Except Fault (Option Nat × List Char) :=
  let digits := written.takeWhile isDecimal
  if largest < decimal digits then .error .tooManyDigits
  else .ok (if digits = [] then none else some (decimal digits), written.dropWhile isDecimal)

/-- The marks of an alignment; the last fills between a sign and its digits. -/
def alignments : List Char := ['<', '>', '^', '=']

/-- Takes a fill character and an alignment off, or an alignment alone. -/
def aligned? : List Char → Option Char × Option Char × List Char
  | c :: d :: rest =>
    if d ∈ alignments then (some c, some d, rest)
    else if c ∈ alignments then (none, some c, d :: rest)
    else (none, none, c :: d :: rest)
  | [c] => if c ∈ alignments then (none, some c, []) else (none, none, [c])
  | [] => (none, none, [])

def grouping? (written : List Char) : Except Fault (Option Char × List Char) :=
  let (comma, written) := first? [','] written
  let (underscore, written) := first? ['_'] written
  if underscore.isSome ∧ (comma.isSome ∨ written.head? = some ',') then .error .twoGroupings
  else .ok (comma <|> underscore, written)

def length? (written : List Char) : Except Fault (Option Nat × List Char) :=
  match written with
  | '.' :: rest =>
    match number? rest with
    | .error fault => .error fault
    | .ok (none, _) => .error .lengthMissing
    | .ok (length, rest) => .ok (length, rest)
  | written => .ok (none, written)

/-- Whether the numbers of a letter have groups. -/
def groups (grouping letter : Char) : Bool :=
  ['d', 'e', 'f', 'g', 'E', 'G', '%', 'F', '\x00'].contains letter ||
    (grouping = '_' && ['b', 'o', 'x', 'X'].contains letter)

/-- The letter that a layout ends in; a text's own if it ends in none. -/
def letter (written : List Char) (grouping : Option Char) : List Char → Except Fault Unit
  | _ :: _ :: _ => .error (.unreadable written)
  | rest =>
    let letter := rest.head?.getD 's'
    match grouping with
    | none => if letter = 's' then .ok () else .error (.unknownLetter letter)
    | some grouping =>
      if groups grouping letter then .error (.unknownLetter letter)
      else .error (.ungrouped grouping letter)

/-- No text is filled up to this many characters. -/
def tooMany : Nat := 0x80000000

def read (written : List Char) : Except Fault Layout := do
  let (fill, alignment, rest) := aligned? written
  let (sign, rest) := first? ['+', '-', ' '] rest
  let (zeroed, rest) := first? ['z'] rest
  let (alternate, rest) := first? ['#'] rest
  let (zero, rest) := if fill.isSome then (none, rest) else first? ['0'] rest
  let (width, rest) ← number? rest
  let (grouping, rest) ← grouping? rest
  let (length, rest) ← length? rest
  letter written grouping rest
  if let some sign := sign then throw (.signed sign)
  if zeroed.isSome then throw .zeroed
  if alternate.isSome then throw .alternate
  if alignment = some '=' then throw .inside
  if tooMany ≤ width.getD 0 then throw .tooWide
  return {
    fill := (fill <|> zero).getD ' '
    alignment := match alignment with
      | some '>' => .right
      | some '^' => .center
      | _ => .left
    width := width.getD 0
    length }

end Layout

end ElementMarkup.Text
