import ElementMarkup.Text.Unprintable

/-!
Texts written as quoted literals in trace lines and messages. Single quotes are used unless the text
holds a single quote and no double quote; the quote in use, the backslash and every unprintable
character are escaped.
-/

namespace ElementMarkup.Text

def hex (width n : Nat) : List Char :=
  let digits := Nat.toDigits 16 n
  List.replicate (width - digits.length) '0' ++ digits

/-- The code of a character in two, four or eight digits, behind a letter that says how many. -/
def coded (c : Char) : List Char :=
  if c.toNat < 0x100 then 'x' :: hex 2 c.toNat
  else if c.toNat < 0x10000 then 'u' :: hex 4 c.toNat
  else 'U' :: hex 8 c.toNat

/-- A character inside quotes. Those that `hidden` picks are written by their code. -/
def escape (hidden : Char → Bool) (quote c : Char) : List Char :=
  if c = quote ∨ c = '\\' then ['\\', c]
  else if c = '\n' then ['\\', 'n']
  else if c = '\r' then ['\\', 'r']
  else if c = '\t' then ['\\', 't']
  else if hidden c then '\\' :: coded c
  else [c]

def quoted (hidden : Char → Bool) (text : List Char) : List Char :=
  let quote := if text.contains '\'' && !text.contains '"' then '"' else '\''
  quote :: text.flatMap (escape hidden quote) ++ [quote]

def literal (text : String) : String := String.ofList (quoted isUnprintable text.toList)

/-- The literal of a text in ASCII alone. -/
def asciiLiteral (text : String) : String :=
  String.ofList (quoted (fun c => isUnprintable c || 0x80 ≤ c.toNat) text.toList)

end ElementMarkup.Text
