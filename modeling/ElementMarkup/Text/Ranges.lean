/-!
Sets of characters given as sorted lists of code point ranges, both ends included.
-/

namespace ElementMarkup.Text

abbrev Ranges := List (Nat × Nat)

def Ranges.has (ranges : Ranges) (c : Char) : Bool :=
  ranges.any fun range => range.1 ≤ c.toNat && c.toNat ≤ range.2

end ElementMarkup.Text
