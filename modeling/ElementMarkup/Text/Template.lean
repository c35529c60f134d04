import ElementMarkup.Text.Field
import ElementMarkup.Text.Layout

/-!
Message templates. A field in braces stands for a value: its name may be followed by a conversion
behind an exclamation mark and by a layout behind a colon, and the layout may hold fields itself. A
doubled brace stands for the brace.
-/

namespace ElementMarkup.Text.Template

inductive Fault where
  /-- An opening brace ends the template. -/
  | openAlone
  | closeAlone
  | openInName
  | nameUnfinished
  | conversionMissing
  /-- Something else than a colon or the end of the field behind a conversion. -/
  | conversionUnfinished
  | layoutUnfinished
  | unknownConversion (letter : Char)
  /-- A layout in a layout that holds fields. -/
  | tooDeep
  | field (fault : Field.Fault)
  | layout (fault : Layout.Fault)
  deriving DecidableEq, Repr

def Fault.message : Fault → String
  | .openAlone => "Single '\x7b' encountered in format string"
  | .closeAlone => "Single '\x7d' encountered in format string"
  | .openInName => "unexpected '\x7b' in field name"
  | .nameUnfinished => "expected '\x7d' before end of string"
  | .conversionMissing => "end of string while looking for conversion specifier"
  | .conversionUnfinished => "expected ':' after conversion specifier"
  | .layoutUnfinished => "unmatched '\x7b' in format spec"
  | .unknownConversion letter => "Unknown conversion specifier " ++ Layout.shown 127 letter
  | .tooDeep => "Max string recursion exceeded"
  | .field fault => fault.message
  | .layout fault => fault.message

/-! ### Pieces -/

structure Slot where
  name : List Char
  conversion : Option Char := none
  layout : List Char := []
  deriving DecidableEq, Repr

inductive Piece where
  | char (c : Char)
  | slot (slot : Slot)
  deriving DecidableEq, Repr

inductive Reading where
  | text
  /-- In a field's name, of which some is read, inside brackets or not. -/
  | name (read : List Char) (bracketed : Bool)
  /-- Behind the exclamation mark. -/
  | conversion (name : List Char)
  /-- Behind the letter of a conversion. -/
  | converted (name : List Char) (letter : Char)
  /-- In a layout, of which some is read, with braces open in it. -/
  | layout (slot : Slot) (braces : Nat)
  deriving DecidableEq, Repr

/-- The pieces of a template, up to the first that cannot be read. -/
def pieces : Reading → List Char → List (Except Fault Piece)
  | .text, [] => []
  | .text, '{' :: '{' :: rest => .ok (.char '{') :: pieces .text rest
  | .text, '}' :: '}' :: rest => .ok (.char '}') :: pieces .text rest
  | .text, ['{'] => [.error .openAlone]
  | .text, '{' :: rest => pieces (.name [] false) rest
  | .text, '}' :: _ => [.error .closeAlone]
  | .text, c :: rest => .ok (.char c) :: pieces .text rest
  | .name _ _, [] => [.error .nameUnfinished]
  | .name read true, c :: rest => pieces (.name (read ++ [c]) (c != ']')) rest
  | .name _ false, '{' :: _ => [.error .openInName]
  | .name read false, '}' :: rest => .ok (.slot ⟨read, none, []⟩) :: pieces .text rest
  | .name read false, '!' :: rest => pieces (.conversion read) rest
  | .name read false, ':' :: rest => pieces (.layout ⟨read, none, []⟩ 0) rest
  | .name read false, c :: rest => pieces (.name (read ++ [c]) (c == '[')) rest
  | .conversion _, [] => [.error .conversionMissing]
  | .conversion name, letter :: rest => pieces (.converted name letter) rest
  | .converted _ _, [] => [.error .layoutUnfinished]
  | .converted name letter, '}' :: rest => .ok (.slot ⟨name, some letter, []⟩) :: pieces .text rest
  | .converted name letter, ':' :: rest => pieces (.layout ⟨name, some letter, []⟩ 0) rest
  | .converted _ _, _ :: _ => [.error .conversionUnfinished]
  | .layout _ _, [] => [.error .layoutUnfinished]
  | .layout slot 0, '}' :: rest => .ok (.slot slot) :: pieces .text rest
  | .layout slot (braces + 1), '}' :: rest =>
    pieces (.layout { slot with layout := slot.layout ++ ['}'] } braces) rest
  | .layout slot braces, c :: rest =>
    pieces (.layout { slot with layout := slot.layout ++ [c] }
      (if c = '{' then braces + 1 else braces)) rest

/-! ### Filling in -/

/-- A value by itself or as a literal. The null character converts nothing. -/
def converted (text : List Char) : Option Char → Except Fault (List Char)
  | none | some 's' | some '\x00' => .ok text
  | some 'r' => .ok (quoted isUnprintable text)
  | some 'a' => .ok (asciiLiteral (String.ofList text)).toList
  | some letter => .error (.unknownConversion letter)

def liftField {α : Type} : Except Field.Fault α → Except Fault α := Except.mapError .field

def liftLayout {α : Type} : Except Layout.Fault α → Except Fault α := Except.mapError .layout

/-- What a field stands for. `nested` fills in a layout that holds fields. -/
def Slot.fill (values : List (String × String)) (nested : List Char → Except Fault (List Char))
    (slot : Slot) : Except Fault (List Char) := do
  let value ← liftField (Field.value values slot.name)
  let text ← converted value slot.conversion
  let written ← if slot.layout.contains '{' then nested slot.layout else .ok slot.layout
  let layout ← liftLayout (Layout.read written)
  return layout.apply text

def join (values : List (String × String)) (nested : List Char → Except Fault (List Char)) :
    List (Except Fault Piece) → Except Fault (List Char)
  | [] => .ok []
  | .error fault :: _ => .error fault
  | .ok (.char c) :: rest => (join values nested rest).map (c :: ·)
  | .ok (.slot slot) :: rest =>
    match slot.fill values nested with
    | .error fault => .error fault
    | .ok text => (join values nested rest).map (text ++ ·)

/-- Fills a template in, with layouts in it to some depth. -/
def fillWithin (values : List (String × String)) : Nat → List Char → Except Fault (List Char)
  | 0, _ => .error .tooDeep
  | depth + 1, template => join values (fillWithin values depth) (pieces .text template)

/-- Fills a template in. A layout may hold fields, but not theirs in turn. -/
def fill (values : List (String × String)) (template : String) : Except Fault String :=
  (fillWithin values 2 template.toList).map String.ofList

end ElementMarkup.Text.Template
