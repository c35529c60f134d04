import ElementMarkup.Compile
import ElementMarkup.Disk
import ElementMarkup.Settings.Environment
import ElementMarkup.Words

/-!
The work of one command: a source file of an input directory is compiled to a file of an output
directory, in five stages. Each stage either hands on the job with more of it filled in or halts;
what it printed, recorded and changed on the disk stands in either case. The encoding that the
settings name is given beside them. The stages that only read take any decoder for it.
-/

namespace ElementMarkup

structure Job where
  inputDir : Location
  outputDir : Location
  verbosity : Int := 1
  /-- The source's path from the input directory, or nothing where a name was due. -/
  inputFile : Words.Name := some ""
  /-- The output's name, taken from the input's if empty. -/
  outputFile : String := ""
  /-- Whether the input was found and the output directory made. -/
  ready : Bool := false
  source : Location := ⟨"/", []⟩
  output : Location := ⟨"/", []⟩
  sourceText : Option String := none
  html : Option String := none
  componentCount : Int := 0
  deriving DecidableEq, Repr

structure Shell where
  disk : Disk := []
  journal : Journal := {}
  /-- The text printed for the user about what went wrong. -/
  errors : String := ""
  deriving DecidableEq, Repr

namespace Shell

def note (shell : Shell) (level : Int) (message : String) : Shell :=
  { shell with journal := shell.journal.add ⟨level, message⟩ }

def print (shell : Shell) (line : String) : Shell :=
  { shell with errors := shell.errors ++ line ++ "\n" }

end Shell

namespace Job

inductive Unnamed where
  | directory
  | inputFile
  deriving DecidableEq, Repr

def Unnamed.message : Unnamed → String
  | .directory => "expected str, bytes or os.PathLike object, not list"
  | .inputFile => "unsupported operand type(s) for /: 'PosixPath' and 'list'"

inductive Halt where
  /-- The command ends with a code, having said why. -/
  | exit (code : Nat)
  | disk (fault : Disk.Fault)
  | name (fault : Location.NameFault)
  /-- The encoding gave up on a file in a way of its own. -/
  | encoding (name message : String)
  | unencodable (cause : Encoding.Unencodable)
  | unnamed (what : Unnamed)
  /-- A compile that ends without a diagnostic. -/
  | compile (failure : Failure)
  deriving DecidableEq, Repr

abbrev Outcome (α : Type) := Except Halt α × Shell

inductive Stage where
  | prepare
  | read
  | compile
  | write
  | report
  deriving DecidableEq, Repr

def fail {α : Type} (shell : Shell) (line : String) : Outcome α :=
  (.error (.exit 1), shell.print line)

/-- Ends a stage in which the disk refused something. What the disk was not even asked, because no
path holds a null character, is not the user's to read. -/
def refuse {α : Type} (shell : Shell) (what : String) (fault : Disk.Fault) : Outcome α :=
  if fault.reason = .nullCharacter then (.error (.disk fault), shell)
  else fail shell (what ++ fault.message)

/-- The name of the output: the job's own, or one taken from the input's. -/
def outputName (settings : Settings) (job : Job) (inputFile : String) :
    Except Location.NameFault String :=
  if job.outputFile = "" then settings.outputName inputFile else .ok job.outputFile

/-- Names the output of a source that was found, and makes the directory it goes to. -/
def place (settings : Settings) (job : Job) (inputFile : String) (source : Location)
    (shell : Shell) : Outcome Job :=
  match job.outputName settings inputFile with
  | .error fault => (.error (.name fault), shell)
  | .ok name =>
    match shell.disk.makeDirectories job.outputDir with
    | (.error fault, disk) => (.error (.disk fault), { shell with disk })
    | (.ok (), disk) =>
      let output := job.outputDir.join name
      (.ok { job with source, output, ready := true },
        { shell with disk }.note 2 ("Output file: " ++ output.text))

def prepare (settings : Settings) (job : Job) (shell : Shell) : Outcome Job :=
  let shell := shell.note 2 "Checking environment..."
  match job.inputFile with
  | none => (.error (.unnamed .inputFile), shell)
  | some inputFile =>
    let source := job.inputDir.join inputFile
    match shell.disk.isFile source with
    | .error fault => (.error (.disk fault), shell)
    | .ok false => fail shell ("Error: Input file not found: " ++ source.text)
    | .ok true =>
      place settings job inputFile source (shell.note 2 ("Input file: " ++ source.text))

def read (decoder : Encoding.Decoder) (job : Job) (shell : Shell) : Outcome Job :=
  let shell := shell.note 1 "Reading source file..."
  match shell.disk.bytes job.source with
  | .error fault => refuse shell "Error reading input file: " fault
  | .ok bytes =>
    match decoder bytes with
    | .error (.undecodable u) => fail shell ("Error reading input file: " ++ u.message)
    | .error (.other name message) => (.error (.encoding name message), shell)
    | .ok text =>
      (.ok { job with sourceText := some text },
        shell.note 2 ("Read " ++ toString text.length ++ " characters from " ++ job.source.name))

def context (settings : Settings) (disk : Disk) (decoder : Encoding.Decoder) : Compile.Context where
  files := disk.sources decoder
  wide := settings.wideIdentifiers
  width := settings.excerptWidth
  detect := settings.detectCycles

/-- What ends a compile in place of a diagnostic: the path that was asked about last is too long to be
asked about, or the encoding gave up on the file that was opened last. -/
def barred (decoder : Encoding.Decoder) (disk : Disk) (progress : Compile.Progress) : Option Halt :=
  match progress.calls.getLast? with
  | some (.asked path) =>
    match disk.isFile (.ofString path) with
    | .error fault => some (.disk fault)
    | .ok _ => none
  | some (.opened path) =>
    match (disk.bytes (.ofString path)).map decoder with
    | .ok (.error (.other name message)) => some (.encoding name message)
    | _ => none
  | none => none

/-- What a compile comes to on a disk, where a path or a file may have ended it. -/
def onDisk (decoder : Encoding.Decoder) (disk : Disk) :
    Compile.Outcome String → Except Halt String × Compile.Progress
  | (.ok html, progress) => (.ok html, progress)
  | (.error failure, progress) =>
    match barred decoder disk progress with
    | some halt => (.error halt, progress)
    | none => (.error (.compile failure), progress)

/-- What the source of a job compiles to, as a file at its own path. -/
def compiled (settings : Settings) (decoder : Encoding.Decoder) (job : Job) (shell : Shell) :
    Except Halt String × Compile.Progress :=
  let path := job.source.resolved
  let context := context settings shell.disk decoder
  onDisk decoder shell.disk <| Compile.compile context ⟨Path.directory path, [path]⟩
    (job.sourceText.getD "") { journal := shell.journal }

def compile (settings : Settings) (decoder : Encoding.Decoder) (job : Job) (shell : Shell) :
    Outcome Job :=
  let shell := shell.note 1 "Compiling source to HTML..."
  if job.source.hasNull then (.error (.disk ⟨.nullCharacter, job.source.text⟩), shell)
  else
    match compiled settings decoder job shell with
    | (.error (.compile (.diagnosed d)), progress) =>
      fail { shell with journal := progress.journal } d.notice
    | (.error halt, progress) => (.error halt, { shell with journal := progress.journal })
    | (.ok html, progress) =>
      let count := progress.components.length
      (.ok { job with html := some html, componentCount := count },
        { shell with journal := progress.journal }.note 2
          ("Compilation complete: " ++ toString count ++ " components resolved"))

/-- Writes the HTML. A file that its text cannot be written to is left empty. -/
def write (encoding : Encoding) (job : Job) (shell : Shell) : Outcome Job :=
  match job.html with
  | none => fail shell "Error: No compiled HTML available"
  | some html =>
    let encoded := encoding.write html
    let bytes := match encoded with
      | .ok bytes => bytes
      | .error _ => []
    match shell.disk.write job.output bytes with
    | .error fault => refuse shell "Error writing output file: " fault
    | .ok disk =>
      match encoded with
      | .error cause => (.error (.unencodable cause), { shell with disk })
      | .ok _ => (.ok job, { shell with disk }.note 2 ("Wrote " ++ job.output.text))

def report (job : Job) (shell : Shell) : Outcome Job :=
  (.ok job,
    ((shell.note 1 "\n✓ Compilation successful!").note 1 ("  Output: " ++ job.output.text)).note 1
      ("  Components: " ++ toString job.componentCount))

def run (settings : Settings) (encoding : Encoding) : Stage → Job → Shell → Outcome Job
  | .prepare => prepare settings
  | .read => read encoding.decoder
  | .compile => compile settings encoding.decoder
  | .write => write encoding
  | .report => report

def runAll (settings : Settings) (encoding : Encoding) : List Stage → Job → Shell → Outcome Job
  | [], job, shell => (.ok job, shell)
  | stage :: rest, job, shell =>
    match run settings encoding stage job shell with
    | (.error halt, shell) => (.error halt, shell)
    | (.ok job, shell) => runAll settings encoding rest job shell

def stages : List Stage := [.prepare, .read, .compile, .write, .report]

/-- The whole command: makes the output directory unless it is there, asks for the input directory,
and then runs all stages with the journal as detailed as the job says. -/
def command (settings : Settings) (encoding : Encoding) (job : Job) (disk : Disk) : Outcome Unit :=
  let notDirectory (location : Location) (disk : Disk) : Outcome Unit :=
    fail { disk } ("Not a directory: " ++ location.text)
  match disk.findOrMake job.outputDir with
  | (.error fault, disk) => (.error (.disk fault), { disk })
  | (.ok (.file _), disk) => notDirectory job.outputDir disk
  | (.ok .directory, disk) =>
    match disk.isDirectory job.inputDir with
    | .error fault => (.error (.disk fault), { disk })
    | .ok false => notDirectory job.inputDir disk
    | .ok true =>
      match runAll settings encoding stages job { disk, journal := { verbosity := job.verbosity } } with
      | (.error halt, shell) => (.error halt, shell)
      | (.ok _, shell) => (.ok (), shell)

/-- The job that a command line orders, with its directories located. -/
def ofOrder (locate : String → Location) (order : Words.Order) : Except Halt Job :=
  match order.inputDir, order.outputDir with
  | some inputDir, some outputDir =>
    .ok
      { inputDir := locate inputDir, outputDir := locate outputDir, inputFile := order.inputFile
        outputFile := order.outputFile, verbosity := order.verbosity }
  | _, _ => .error (.unnamed .directory)

end Job

end ElementMarkup
