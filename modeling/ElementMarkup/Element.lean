import ElementMarkup.Attribute

/-!
Elements, and the documents made of them: a forest of elements under the imports they use.
-/

namespace ElementMarkup

structure Element where
  tag : String
  attributes : Attributes := {}
  /-- Whether the element's body was ended by a semicolon. -/
  closed : Bool := false
  children : List Element := []
  position : Int := 0
  deriving Repr

/-- Binds a name to the file whose HTML stands for elements of that name. -/
structure Import where
  name : String
  path : String
  position : Int := 0
  deriving DecidableEq, Repr

structure Document where
  imports : List Import := []
  elements : List Element := []
  deriving Repr

end ElementMarkup
