import ElementMarkup.Path
import ElementMarkup.Text.Literal

/-!
Places on a disk as a command line names them. A location is kept in parts: empty parts and `.` are
dropped when it is read, and `..` is kept, because what it leads to is the disk's to say.
-/

namespace ElementMarkup

structure Location where
  /-- The slashes the location starts with: none when it is relative. -/
  root : String := ""
  parts : List String := []
  deriving DecidableEq, Repr

namespace Location

def ofString (path : String) : Location :=
  let chars := path.toList
  { root := if Path.isAbsolute chars then Path.lead chars else ""
    parts := ((Path.parts chars).map String.ofList).filter fun part => part ≠ "" ∧ part ≠ "." }

/-- The location as text. A location without parts is the current directory. -/
def text (location : Location) : String :=
  if location.root = "" ∧ location.parts = [] then "."
  else location.root ++ "/".intercalate location.parts

/-- Whether a location holds the null character, which no disk has in a path. -/
def hasNull (location : Location) : Bool := location.text.toList.contains '\x00'

/-- A path from a location; an absolute one stands for itself. -/
def join (location : Location) (path : String) : Location :=
  let next := ofString path
  if next.root = "" then { location with parts := location.parts ++ next.parts } else next

/-- The last part of a location, empty if it has none. -/
def name (location : Location) : String := location.parts.getLast?.getD ""

/-- The location that names the same place from the root without `..`. -/
def resolved (location : Location) : String :=
  "/" ++ "/".intercalate (location.parts.foldl Path.follow [])

/-! ### Names and suffixes -/

inductive NameFault where
  /-- A suffix that no file name can end in. -/
  | invalidSuffix (suffix : String)
  /-- A location that has no name to change. -/
  | emptyName (location : Location)
  deriving DecidableEq, Repr

def NameFault.message : NameFault → String
  | .invalidSuffix suffix => "Invalid suffix " ++ Text.literal suffix
  | .emptyName location => "PosixPath(" ++ Text.literal location.text ++ ") has an empty name"

/-- A name without its suffix. The suffix starts at the last dot, unless that is the first or the
last character of the name. -/
def stem (name : List Char) : List Char :=
  let reversed := name.reverse
  let head := (reversed.dropWhile (· != '.')).tail.reverse
  if head = [] ∨ reversed.head? = some '.' then name else head

def isSuffix (suffix : List Char) : Bool :=
  !suffix.contains '/' && (suffix = [] || (suffix.head? = some '.' && suffix ≠ ['.']))

/-- The name of a location with its suffix replaced, or added if it has none. -/
def renamed (location : Location) (suffix : String) : Except NameFault String :=
  if !isSuffix suffix.toList then .error (.invalidSuffix suffix)
  else if location.name = "" then .error (.emptyName location)
  else .ok (String.ofList (stem location.name.toList) ++ suffix)

end Location

end ElementMarkup
