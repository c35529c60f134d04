import ElementMarkup.Diagnostic.Excerpt
import ElementMarkup.Text.Literal

/-!
Diagnostics: what went wrong, in words, where in the source, and in which file. A diagnostic is
made with the excerpt of its source already in the message; `attach` adds the file once it is known.
-/

namespace ElementMarkup

namespace Diagnostic

inductive Kind where
  | emptySource
  | unclosedConstruct
  | unexpectedCharacter
  | unexpectedToken
  | invalidSyntax
  | importNotFound
  | cyclicImport
  | unreadableSource
  deriving DecidableEq, Repr

def Kind.name : Kind → String
  | .emptySource => "EmptySource"
  | .unclosedConstruct => "UnclosedConstruct"
  | .unexpectedCharacter => "UnexpectedCharacter"
  | .unexpectedToken => "UnexpectedToken"
  | .invalidSyntax => "InvalidSyntax"
  | .importNotFound => "ImportNotFound"
  | .cyclicImport => "CyclicImport"
  | .unreadableSource => "UnreadableSource"

/-- The words that a report to the user opens with. -/
def Kind.headline : Kind → String
  | .emptySource => "Empty source"
  | .unclosedConstruct => "Unclosed construct"
  | .unexpectedCharacter => "Unexpected character"
  | .unexpectedToken => "Unexpected token"
  | .invalidSyntax => "Invalid syntax"
  | .importNotFound => "Import not found"
  | .cyclicImport => "Cyclic import"
  | .unreadableSource => "Unreadable source"

def Kind.all : List Kind :=
  [.emptySource, .unclosedConstruct, .unexpectedCharacter, .unexpectedToken, .invalidSyntax,
   .importNotFound, .cyclicImport, .unreadableSource]

def Kind.named? (name : String) : Option Kind := Kind.all.find? fun kind => kind.name = name

/-- Said of a word that names no kind. -/
def Kind.unknown (name : String) : String := Text.literal name ++ " is not a valid ErrorKind"

end Diagnostic

structure Diagnostic where
  kind : Diagnostic.Kind
  message : String
  position : Option Int := none
  path : Option String := none
  deriving DecidableEq, Repr

namespace Diagnostic

/-- A diagnostic whose message shows the source around the fault, when both the source and the
position are known. -/
def report (width : Int) (kind : Kind) (message : String) (source : Option String)
    (position : Option Int) (path : Option String) : Diagnostic :=
  match source, position with
  | some text, some offset => ⟨kind, message ++ "\n" ++ located width text.toList offset, position, path⟩
  | _, _ => ⟨kind, message, position, path⟩

def attach (d : Diagnostic) (path : String) : Diagnostic :=
  { d with path := some path, message := "In " ++ path ++ ":\n" ++ d.message }

def headline (d : Diagnostic) : String := d.kind.headline

/-- The diagnostic as one text, its kind first. -/
def text (d : Diagnostic) : String := d.kind.name ++ ": " ++ d.message

def notice (d : Diagnostic) : String := d.headline ++ ": " ++ d.message

end Diagnostic

end ElementMarkup
