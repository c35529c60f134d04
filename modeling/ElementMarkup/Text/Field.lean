import ElementMarkup.Text.Digit
import ElementMarkup.Text.Literal

/-!
The name in a field of a template. It starts with the name of a value, and may go on to a character
of that value by its place in brackets.
-/

namespace ElementMarkup.Text.Field

inductive Fault where
  | missing (name : String)
  /-- A value asked for by its place: values have names only. -/
  | placed (place : Nat)
  | tooManyDigits
  | beyond
  /-- A character asked for by something that is no place. -/
  | unplaced
  /-- A text has no parts with names. -/
  | unnamed (name : String)
  | empty
  | unclosed
  /-- Something else than a further part behind a closing bracket. -/
  | trailing
  deriving DecidableEq, Repr

def Fault.message : Fault → String
  | .missing name => literal name
  | .placed place =>
    "Replacement index " ++ toString place ++ " out of range for positional args tuple"
  | .tooManyDigits => "Too many decimal digits in format string"
  | .beyond => "string index out of range"
  | .unplaced => "string indices must be integers, not 'str'"
  | .unnamed name => "'str' object has no attribute '" ++ name ++ "'"
  | .empty => "Empty attribute in format string"
  | .unclosed => "Missing ']' in format string"
  | .trailing => "Only '.' or '[' may follow ']' in format field specifier"

/-! ### Parts -/

/-- A part of a value, asked for behind a dot or in brackets. -/
inductive Part where
  | named (name : List Char)
  | item (key : List Char)
  deriving DecidableEq, Repr

/-- How far the parts behind a value's name are read. -/
inductive Reading where
  | between
  | name (read : List Char)
  | key (read : List Char)
  deriving DecidableEq, Repr

/-- The parts behind the name of a value, up to the first that cannot be read. -/
def parts : Reading → List Char → List (Except Fault Part)
  | .between, [] => []
  | .between, c :: rest =>
    if c = '.' then parts (.name []) rest
    else if c = '[' then parts (.key []) rest
    else [.error .trailing]
  | .name read, [] => [.ok (.named read)]
  | .name read, c :: rest =>
    if c = '.' then .ok (.named read) :: parts (.name []) rest
    else if c = '[' then .ok (.named read) :: parts (.key []) rest
    else parts (.name (read ++ [c])) rest
  | .key _, [] => [.error .unclosed]
  | .key read, c :: rest =>
    if c = ']' then .ok (.item read) :: parts .between rest else parts (.key (read ++ [c])) rest

def place? (text : List Char) : Except Fault (Option Nat) :=
  let digits := text.takeWhile isDecimal
  if largest < decimal digits then .error .tooManyDigits
  else if digits = [] ∨ digits ≠ text then .ok none
  else .ok (some (decimal digits))

/-- A part of a text. Only its characters are parts of it. -/
def Part.of (text : List Char) : Part → Except Fault (List Char)
  | .named [] | .item [] => .error .empty
  | .named name => .error (.unnamed (String.ofList name))
  | .item key =>
    match place? key with
    | .error fault => .error fault
    | .ok none => .error .unplaced
    | .ok (some place) =>
      match text[place]? with
      | none => .error .beyond
      | some c => .ok [c]

def follow (text : List Char) : List (Except Fault Part) → Except Fault (List Char)
  | [] => .ok text
  | .error fault :: _ => .error fault
  | .ok part :: rest =>
    match part.of text with
    | .error fault => .error fault
    | .ok text => follow text rest

/-! ### Looking up -/

def endsName (c : Char) : Bool := c = '.' || c = '['

def value (values : List (String × String)) (name : List Char) : Except Fault (List Char) :=
  let head := name.takeWhile fun c => !endsName c
  match place? head with
  | .error fault => .error fault
  | .ok (some place) => .error (.placed place)
  | .ok none =>
    if head = [] then .error (.placed 0)
    else
      match values.lookup (String.ofList head) with
      | none => .error (.missing (String.ofList head))
      | some text => follow text.toList (parts .between (name.dropWhile fun c => !endsName c))

end ElementMarkup.Text.Field
