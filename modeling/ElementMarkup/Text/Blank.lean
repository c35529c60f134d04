import ElementMarkup.Text.Ranges

/-!
Blank characters, and `strip`, which takes them off both ends of a text. Keys, values and list
entries of an attribute block are stripped; the blanks between tokens are a smaller set of their
own.
-/

namespace ElementMarkup.Text

/-- Tabs and line ends, the four information separators, the spaces of every width, and the line
and paragraph separators. -/
def blanks : Ranges :=
  [(0x09, 0x0D), (0x1C, 0x20), (0x85, 0x85), (0xA0, 0xA0), (0x1680, 0x1680), (0x2000, 0x200A),
   (0x2028, 0x2029), (0x202F, 0x202F), (0x205F, 0x205F), (0x3000, 0x3000)]

def isBlank (c : Char) : Bool := blanks.has c

def strip (text : List Char) : List Char :=
  ((text.dropWhile isBlank).reverse.dropWhile isBlank).reverse

def allBlank (text : List Char) : Bool := text.all isBlank

end ElementMarkup.Text
