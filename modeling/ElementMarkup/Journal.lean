import ElementMarkup.Text.Template

/-!
The journal of a run. Every record has a level, and the journal keeps the messages of those whose
level its verbosity reaches.
-/

namespace ElementMarkup

/-- A message and the verbosity from which on it is kept. Level one reports stages, level two
imports and files, level three counts and single steps. -/
structure Record where
  level : Int
  message : String
  deriving DecidableEq, Repr

structure Journal where
  verbosity : Int := 0
  messages : List String := []
  deriving DecidableEq, Repr

namespace Journal

def add (journal : Journal) (record : Record) : Journal :=
  if record.level ≤ journal.verbosity then
    { journal with messages := journal.messages ++ [record.message] }
  else journal

def addAll (journal : Journal) (records : List Record) : Journal := records.foldl add journal

/-! ### Messages with values -/

inductive Fault where
  /-- A value with a name that a record has for itself. -/
  | reserved (name : String)
  | template (fault : Text.Template.Fault)
  deriving DecidableEq, Repr

def Fault.message : Fault → String
  | .reserved name => "LOG() got multiple values for argument '" ++ name ++ "'"
  | .template fault => fault.message

/-- The names that a record has for its own parts. -/
def reserved : List String := ["message", "level"]

/-- Adds a message with named values filled in. It is filled in only if it is kept, and only if
there are values, so that a message without any may hold braces. -/
def fill (journal : Journal) (record : Record) (values : List (String × String)) :
    Except Fault Journal :=
  match values.find? fun value => value.1 ∈ reserved with
  | some value => .error (.reserved value.1)
  | none =>
    if record.level ≤ journal.verbosity ∧ values ≠ [] then
      match Text.Template.fill values record.message with
      | .error fault => .error (.template fault)
      | .ok message => .ok (journal.add { record with message })
    else .ok (journal.add record)

end Journal

end ElementMarkup
