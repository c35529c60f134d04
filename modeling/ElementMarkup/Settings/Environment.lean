import ElementMarkup.Path.Location
import ElementMarkup.Settings
import ElementMarkup.Text.Blank

/-!
Settings taken from environment variables. A variable's name is a fixed head followed by the
setting's name, in any case; variables that name no setting are passed over.
-/

namespace ElementMarkup.Settings

inductive Fault where
  | notBool
  | notInt
  deriving DecidableEq, Repr

def Fault.name : Fault → String
  | .notBool => "bool_parsing"
  | .notInt => "int_parsing"

/-- Reads a yes or a no, in any case. -/
def bool? (text : String) : Except Fault Bool :=
  let word := text.map Char.toLower
  if ["1", "true", "t", "yes", "y", "on"].contains word then .ok true
  else if ["0", "false", "f", "no", "n", "off"].contains word then .ok false
  else .error .notBool

def digits? (text : List Char) : Option Nat :=
  if text = [] ∨ !text.all Char.isDigit then none
  else some (text.foldl (fun n c => n * 10 + (c.toNat - '0'.toNat)) 0)

/-- Whether a character may stand around a number. -/
def isSpace (c : Char) : Bool := Text.isBlank c && !(0x1C ≤ c.toNat && c.toNat ≤ 0x1F)

/-- Reads digits in groups, with an underscore between two groups. -/
def grouped? (text : List Char) : Option Nat :=
  if text.head? = some '_' ∨ text.getLast? = some '_' ∨ (text.zip text.tail).contains ('_', '_') then
    none
  else digits? (text.filter (· != '_'))

/-- Reads a number without a sign. A point may follow it, with zeros behind. -/
def whole? (text : List Char) : Option Nat :=
  let fraction := (text.dropWhile (· != '.')).drop 1
  if fraction.all (· == '0') then grouped? (text.takeWhile (· != '.')) else none

def int? (text : String) : Except Fault Int :=
  let chars := ((text.toList.dropWhile isSpace).reverse.dropWhile isSpace).reverse
  let number := match chars with
    | '-' :: rest => (whole? rest).map fun n => -(n : Int)
    | '+' :: rest => (whole? rest).map fun n => (n : Int)
    | rest => (whole? rest).map fun n => (n : Int)
  match number with
  | some n => .ok n
  | none => .error .notInt

/-- The value of a variable whose name differs at most in case; of several the last. -/
def valueOf? (environment : List (String × String)) (setting : String) : Option String :=
  let name := "webflow_" ++ setting
  (environment.reverse.find? fun entry => entry.1.map Char.toLower = name).map (·.2)

/-- A setting's value, or its default if no variable names it, with the faults met so far. -/
def taken {α : Type} (environment : List (String × String)) (setting : String)
    (convert : String → Except Fault α) (default : α) : α × List (String × Fault) :=
  match valueOf? environment setting with
  | none => (default, [])
  | some text =>
    match convert text with
    | .ok value => (value, [])
    | .error fault => (default, [(setting, fault)])

/-- The settings of an environment, or every setting whose value cannot be read, by name. -/
def ofEnvironment (environment : List (String × String)) :
    Except (List (String × Fault)) Settings :=
  let (excerptWidth, faults₁) := taken environment "context_width" int? 40
  let (detectCycles, faults₂) := taken environment "detect_cycles" bool? true
  let (wideIdentifiers, faults₃) := taken environment "unicode_identifiers" bool? false
  match faults₁ ++ faults₂ ++ faults₃ with
  | [] =>
    .ok
      { sourceSuffix := (valueOf? environment "source_suffix").getD ".webf"
        outputSuffix := (valueOf? environment "output_suffix").getD ".html"
        encoding := (valueOf? environment "encoding").getD "utf-8"
        wideIdentifiers, detectCycles, excerptWidth }
  | faults => .error faults

/-- The name of the output for a source: its last part with the suffix changed. -/
def outputName (settings : Settings) (source : String) : Except Location.NameFault String :=
  (Location.ofString source).renamed settings.outputSuffix

end ElementMarkup.Settings
