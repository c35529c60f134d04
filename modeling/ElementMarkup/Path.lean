/-!
Paths as texts. Import paths are resolved against a directory to one canonical absolute form: one
or exactly two leading slashes, no empty, `.` or `..` part, and no slash at the end.
-/

namespace ElementMarkup.Path

def parts : List Char → List (List Char)
  | [] => [[]]
  | c :: rest =>
    if c = '/' then [] :: parts rest
    else
      match parts rest with
      | [] => [[c]]
      | part :: more => (c :: part) :: more

/-- Follows one part from the parts kept so far: `..` drops the last of them, and an empty part or
`.` stays where it is. -/
def follow (kept : List String) (part : String) : List String :=
  if part = "" ∨ part = "." then kept
  else if part = ".." then kept.dropLast
  else kept ++ [part]

/-- The parts that are left when a path is followed from the root. -/
def followed (path : List Char) : List String :=
  ((parts path).map String.ofList).foldl follow []

def isAbsolute (path : List Char) : Bool := path.head? = some '/'

/-- The slashes that a canonical path starts with. Two are kept; any other number is one. -/
def lead (path : List Char) : String :=
  if (path.takeWhile (· == '/')).length = 2 then "//" else "/"

/-- A path from a directory; an absolute one stands for itself. -/
def join (base path : List Char) : List Char :=
  if isAbsolute path then path
  else if base = [] ∨ base.getLast? = some '/' then base ++ path
  else base ++ '/' :: path

/-- The canonical form of a path. A relative one starts at the root. -/
def canonical (path : List Char) : String :=
  let rooted := if isAbsolute path then path else '/' :: path
  lead rooted ++ "/".intercalate (followed rooted)

def resolve (base path : String) : String := canonical (join base.toList path.toList)

def directory (path : String) : String :=
  let reversed := path.toList.reverse.dropWhile (· != '/')
  if reversed.all (· == '/') then String.ofList reversed
  else String.ofList (reversed.dropWhile (· == '/')).reverse

end ElementMarkup.Path
