import ElementMarkup.Text.Blank
import ElementMarkup.Token

/-!
The text of an attribute block. A block is split at the commas outside double quotes; a list block
holds one entry to a segment, a pair block a key and a value, and a content block is plain text.
-/

namespace ElementMarkup

namespace Attribute

/-- Puts a character in front of the first segment. -/
def extend (c : Char) : List (List Char) → List (List Char)
  | [] => [[c]]
  | segment :: rest => (c :: segment) :: rest

/-- Splits a text at the commas outside double quotes. The quotes stay in the segments; `quoted`
says whether the text starts inside a pair of them. -/
def split (quoted : Bool) : List Char → List (List Char)
  | [] => [[]]
  | c :: rest =>
    if c = ',' ∧ quoted = false then [] :: split false rest
    else extend c (split (quoted != (c == '"')) rest)

def segments (text : List Char) : List (List Char) := split false text

def entries (text : List Char) : List (List Char) :=
  (segments text).filter fun segment => !Text.allBlank segment

def unquote (text : List Char) : List Char :=
  if text.head? = some '"' ∧ text.getLast? = some '"' then text.tail.dropLast else text

/-- A key and its value, divided at the first colon; without one the value is empty. -/
def pair (segment : List Char) : String × String :=
  (String.ofList (Text.strip (segment.takeWhile (· != ':'))),
   String.ofList (Text.strip (segment.dropWhile (· != ':')).tail))

/-- The pairs of a block of properties, data or style declarations. -/
def pairs (text : String) : List (String × String) := (entries text.toList).map pair

/-- The entries of a block of classes or identifiers. -/
def list (text : String) : List String :=
  (entries text.toList).map fun segment => String.ofList (unquote (Text.strip segment))

/-- Resolves the one escape of content text, the comma after a backslash. -/
def unescape : List Char → List Char
  | [] => []
  | [c] => [c]
  | c :: d :: rest =>
    if c = '\\' ∧ d = ',' then ',' :: unescape rest else c :: unescape (d :: rest)

def content (text : String) : String := String.ofList (unescape text.toList)

end Attribute

/-- What the attribute blocks of one element say. -/
structure Attributes where
  props : List (String × String) := []
  dataset : List (String × String) := []
  styles : List (String × String) := []
  classes : List String := []
  ids : List String := []
  content : Option String := none
  deriving DecidableEq, Repr

/-- Reads the block of a category. A later block replaces an earlier one. -/
def Attributes.set (attributes : Attributes) (category : Category) (text : String) : Attributes :=
  match category with
  | .props => { attributes with props := Attribute.pairs text }
  | .dataset => { attributes with dataset := Attribute.pairs text }
  | .styles => { attributes with styles := Attribute.pairs text }
  | .classes => { attributes with classes := Attribute.list text }
  | .ids => { attributes with ids := Attribute.list text }
  | .content => { attributes with content := some (Attribute.content text) }

end ElementMarkup
