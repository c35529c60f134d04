import ElementMarkup.Text.Digit
import ElementMarkup.Text.Literal

/-!
The words of a command line. All words are told apart first: plain words, options and the double
dash after which every word is plain. Then they are taken from left to right: plain words fill the
two directories, and an option takes the word it needs.
-/

namespace ElementMarkup.Words

inductive Flag where
  | help
  | inputFile
  | outputFile
  | verbosity
  | version
  | saveInputMeta
  | saveOutputMeta
  deriving DecidableEq, Repr

def spellings : List (String × Flag) :=
  [("-h", .help), ("--help", .help), ("--inputFile", .inputFile), ("--outputFile", .outputFile),
   ("-v", .verbosity), ("--verbosity", .verbosity), ("-V", .version), ("--version", .version),
   ("--saveinputmeta", .saveInputMeta), ("--saveoutputmeta", .saveOutputMeta)]

/-- The spellings of one option, as messages name it. -/
def Flag.name (flag : Flag) : String :=
  "/".intercalate ((spellings.filter fun entry => entry.2 = flag).map (·.1))

def Flag.takesValue : Flag → Bool
  | .inputFile | .outputFile => true
  | _ => false

inductive Fault where
  /-- A shortened option that several could be meant by. -/
  | ambiguous (word : String) (spellings : List String)
  | valueMissing (flag : Flag)
  | valueIgnored (flag : Flag) (value : String)
  | required (names : List String)
  | unrecognized (words : List String)
  deriving DecidableEq, Repr

def Fault.message : Fault → String
  | .ambiguous word spellings =>
    "ambiguous option: " ++ word ++ " could match " ++ ", ".intercalate spellings
  | .valueMissing flag => "argument " ++ flag.name ++ ": expected one argument"
  | .valueIgnored flag value =>
    "argument " ++ flag.name ++ ": ignored explicit argument " ++ Text.literal value
  | .required names => "the following arguments are required: " ++ ", ".intercalate names
  | .unrecognized words => "unrecognized arguments: " ++ " ".intercalate words

def Fault.notice (fault : Fault) : String := "webflow: error: " ++ fault.message

def versionLine : String := "webflow 1.0.0"

/-! ### Telling words apart -/

inductive Word where
  | plain (text : String)
  /-- The double dash after which every word is plain. -/
  | dashes
  /-- An option, whether it is spelled with a single dash, and what the same word holds behind it:
  a value after an equals sign, or more letters. -/
  | option (flag : Flag) (single : Bool) (attached : Option String)
  | unknown (text : String)
  deriving DecidableEq, Repr

def startsWith (head word : List Char) : Bool := head.isPrefixOf word

/-- Whether a word is a number below zero, whole or with a point. A line may end behind it. -/
def isNegative (word : List Char) : Bool :=
  let line := if word.getLast? = some '\n' then word.dropLast else word
  match line with
  | '-' :: rest =>
    match rest.dropWhile Text.isDecimal with
    | [] => rest ≠ []
    | '.' :: fraction => fraction ≠ [] && fraction.all Text.isDecimal
    | _ => false
  | _ => false

def valued (word : List Char) : List Char × Option String :=
  match word.dropWhile (· != '=') with
  | [] => (word, none)
  | _ :: value => (word.takeWhile (· != '='), some (String.ofList value))

/-- The options that a word may be short for, by spelling. A long option may be cut anywhere; an
option of one letter may have others behind it. -/
def candidates (word : List Char) : List (String × Word) :=
  if startsWith ['-', '-'] word then
    let (head, attached) := valued word
    (spellings.filter fun entry => startsWith head entry.1.toList).map fun (spelling, flag) =>
      (spelling, .option flag false attached)
  else
    (spellings.filter fun entry => entry.1.toList = word.take 2).map fun (spelling, flag) =>
      (spelling, .option flag true (some (String.ofList (word.drop 2))))

/-- Tells what a word before any double dash is. -/
def classify (word : String) : Except Fault Word :=
  let chars := word.toList
  let (head, attached) := valued chars
  let single := !startsWith ['-', '-'] chars
  if chars.head? ≠ some '-' then .ok (.plain word)
  else
    match spellings.lookup word, spellings.lookup (String.ofList head) with
    | some flag, _ => .ok (.option flag single none)
    | none, some flag => .ok (.option flag single attached)
    | none, none =>
      if chars.length = 1 then .ok (.plain word)
      else
        match candidates chars with
        | [(_, option)] => .ok option
        | [] =>
          if isNegative chars || chars.contains ' ' then .ok (.plain word) else .ok (.unknown word)
        | several => .error (.ambiguous word (several.map (·.1)))

def classifyAll : List String → Except Fault (List Word)
  | [] => .ok []
  | word :: rest =>
    if word = "--" then .ok (.dashes :: rest.map .plain)
    else
      match classify word with
      | .error fault => .error fault
      | .ok first => (classifyAll rest).map (first :: ·)

/-! ### Taking words -/

/-- What a word gives for a directory or a file. A double dash gives nothing, and takes the place
of a name all the same. -/
abbrev Name := Option String

def Name.of (word : String) : Name := if word = "--" then none else some word

structure Taken where
  directories : List Name := []
  inputFile : Option Name := none
  outputFile : Name := none
  verbosity : Int := 1
  extras : List String := []
  deriving DecidableEq, Repr

def Taken.set (taken : Taken) (flag : Flag) (name : Name) : Taken :=
  match flag with
  | .inputFile => { taken with inputFile := some name }
  | .outputFile => { taken with outputFile := name }
  | _ => taken

structure Order where
  inputDir : Name
  outputDir : Name
  inputFile : Name
  /-- Empty if the output is to be named for the input. -/
  outputFile : String
  verbosity : Int
  deriving DecidableEq, Repr

inductive Request where
  | compile (order : Order)
  | version
  | help
  deriving DecidableEq, Repr

/-- How taking words ends: with all of them taken, or early. -/
inductive End where
  | taken (taken : Taken)
  | early (request : Request)
  deriving DecidableEq, Repr

/-- The options that letters behind an option of one letter stand for, that option first. -/
def bundle (flag : Flag) : List Char → Except Fault (List Flag)
  | [] => .ok [flag]
  | c :: rest =>
    match spellings.lookup (String.ofList ['-', c]) with
    | none => .error (.valueIgnored flag (String.ofList (c :: rest)))
    | some next => (bundle next rest).map (flag :: ·)

def flags (flag : Flag) (single : Bool) : Option String → Except Fault (List Flag)
  | none => .ok [flag]
  | some text =>
    if single ∧ text ≠ "" then bundle flag text.toList else .error (.valueIgnored flag text)

/-- The effect of options without a value, in order, up to one that ends the command. -/
def count (taken : Taken) : List Flag → End
  | [] => .taken taken
  | .version :: _ => .early .version
  | .help :: _ => .early .help
  | .verbosity :: rest => count { taken with verbosity := taken.verbosity + 1 } rest
  | _ :: rest => count taken rest

/-- What the word before is to a word for a directory. -/
inductive Before where
  /-- A directory, which passes over a double dash behind it. -/
  | directory
  /-- A double dash that no directory has passed over. -/
  | dashes
  | other
  deriving DecidableEq, Repr

/-- Takes words from left to right. A double dash next to a directory is passed over. -/
def take (taken : Taken) (before : Before) : List Word → Except Fault End
  | [] => .ok (.taken taken)
  | .plain text :: rest =>
    if taken.directories.length < 2 then
      let name := if before = .dashes then some text else Name.of text
      take { taken with directories := taken.directories ++ [name] } .directory rest
    else take { taken with extras := taken.extras ++ [text] } .other rest
  | .dashes :: rest =>
    if before = .directory then take taken .other rest
    else if taken.directories.length < 2 ∧ rest ≠ [] then take taken .dashes rest
    else take { taken with extras := taken.extras ++ ["--"] } .other rest
  | .unknown text :: rest => take { taken with extras := taken.extras ++ [text] } .other rest
  | .option flag single attached :: rest =>
    if flag.takesValue then
      match attached, rest with
      | some text, rest => take (taken.set flag (Name.of text)) .other rest
      | none, .plain text :: rest => take (taken.set flag (some text)) .other rest
      | none, _ => .error (.valueMissing flag)
    else
      match flags flag single attached with
      | .error fault => .error fault
      | .ok all =>
        match count taken all with
        | .early request => .ok (.early request)
        | .taken taken => take taken .other rest

def missing (taken : Taken) : List String :=
  (if taken.inputFile.isNone then ["--inputFile"] else []) ++
    ["inputdir", "outputdir"].drop taken.directories.length

def request (words : List String) : Except Fault Request :=
  match classifyAll words with
  | .error fault => .error fault
  | .ok classified =>
    match take {} .other classified with
    | .error fault => .error fault
    | .ok (.early request) => .ok request
    | .ok (.taken taken) =>
      match taken.directories, taken.inputFile, taken.extras with
      | [inputDir, outputDir], some inputFile, [] =>
        .ok (.compile
          { inputDir, outputDir, inputFile, outputFile := taken.outputFile.getD ""
            verbosity := taken.verbosity })
      | [_, _], some _, extras => .error (.unrecognized extras)
      | _, _, _ => .error (.required (missing taken))

end ElementMarkup.Words
