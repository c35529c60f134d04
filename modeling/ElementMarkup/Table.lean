/-!
Finite tables with their keys in the order in which they were first stored.
-/

namespace ElementMarkup

abbrev Table (κ α : Type) := List (κ × α)

namespace Table

variable {κ α : Type} [DecidableEq κ]

def find? (table : Table κ α) (key : κ) : Option α := table.lookup key

def has (table : Table κ α) (key : κ) : Bool := (table.find? key).isSome

/-- Stores a value. It takes the place of the value that the key had before. -/
def store (table : Table κ α) (key : κ) (value : α) : Table κ α :=
  match table with
  | [] => [(key, value)]
  | entry :: rest =>
    if entry.1 = key then (key, value) :: rest else entry :: store rest key value

end Table

end ElementMarkup
