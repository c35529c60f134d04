/-!
Settings of the compiler and of the command, with their default values.
-/

namespace ElementMarkup

structure Settings where
  sourceSuffix : String := ".webf"
  outputSuffix : String := ".html"
  encoding : String := "utf-8"
  wideIdentifiers : Bool := false
  detectCycles : Bool := true
  excerptWidth : Int := 40
  deriving DecidableEq, Repr

end ElementMarkup
