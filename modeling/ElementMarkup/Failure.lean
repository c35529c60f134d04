import ElementMarkup.Diagnostic

/-!
The ways in which reading or compiling ends without a result.
-/

namespace ElementMarkup

inductive Failure where
  | diagnosed (diagnostic : Diagnostic)
  /-- The token list ends where a token is due. -/
  | offEnd
  /-- The imports lead back to themselves and nothing stops them. -/
  | unending
  deriving DecidableEq, Repr

end ElementMarkup
