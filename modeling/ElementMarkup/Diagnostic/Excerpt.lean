import ElementMarkup.Offset

/-!
Where a fault lies, in lines and columns, and an excerpt of the source with a caret under it.
-/

namespace ElementMarkup.Diagnostic

def before (source : List Char) (position : Int) : List Char := Offset.cut source 0 position

def line (source : List Char) (position : Int) : Nat := (before source position).count '\n' + 1

/-- The offset at which the line of a position starts: after the last line end before it. -/
def lineStart (source : List Char) (position : Int) : Nat :=
  let text := before source position
  text.length - (text.reverse.takeWhile (· != '\n')).length

def column (source : List Char) (position : Int) : Int :=
  position - lineStart source position + 1

/-- A tab or a line end takes one column of an excerpt, like every other character. -/
def flatten (c : Char) : Char := if c = '\n' ∨ c = '\t' ∨ c = '\r' then ' ' else c

def excerptStart (width position : Int) : Int := max 0 (position - width)

def excerptStop (width : Int) (source : List Char) (position : Int) : Int :=
  min source.length (position + width)

/-- The characters of the source on either side of a position, on one line. -/
def excerpt (width : Int) (source : List Char) (position : Int) : List Char :=
  (Offset.cut source (excerptStart width position) (excerptStop width source position)).map flatten

/-- The excerpt's line, and under it the caret's. -/
def context (width : Int) (source : List Char) (position : Int) : String :=
  let indent := (position - excerptStart width position).toNat
  "Context: ..." ++ String.ofList (excerpt width source position) ++ "...\n" ++
    String.ofList (List.replicate (12 + indent) ' ') ++ "^"

def located (width : Int) (source : List Char) (position : Int) : String :=
  "Line " ++ toString (line source position) ++ ", column " ++ toString (column source position) ++
    "\n" ++ context width source position

end ElementMarkup.Diagnostic
