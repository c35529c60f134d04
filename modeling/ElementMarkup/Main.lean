import ElementMarkup.Job
import ElementMarkup.Words

/-!
The command itself. What it may look at on the machine's disk is read first, the job is run on that,
and the directories and the file that it made are then written back.
-/

namespace ElementMarkup.Main

/-! ### Reading the machine -/

/-- The settings by name, as environment variables spell them. -/
def settingNames : List String :=
  ["source_suffix", "output_suffix", "encoding", "unicode_identifiers", "detect_cycles",
   "context_width"]

def environment : IO (List (String × String)) := do
  let names := settingNames.flatMap fun name =>
    ["webflow_" ++ name, ("webflow_" ++ name).map Char.toUpper]
  let mut found := #[]
  for name in names do
    if let some value ← IO.getEnv name then found := found.push (name, value)
  return found.toList

/-- What stands at a path; reading a directory is refused in a way of its own. -/
def probe (path : String) : IO (Option Node) := do
  try
    return some (.file (← IO.FS.readBinFile path).toList)
  catch failure =>
    match failure with
    | .inappropriateType _ 21 _ => return some .directory
    | _ => return none

/-- Adds what stands along a way from the root, as far as it leads. -/
def look (disk : Disk) (names : List String) : IO Disk := do
  let mut disk := disk
  for n in List.range names.length do
    let way := names.take (n + 1)
    if (disk.node? way).isNone then
      if let some node ← probe (Disk.written way) then disk := Table.store disk way node
  return disk

def imported (settings : Settings) (names : List String) (source : String) : List (List String) :=
  match (Compile.document settings.wideIdentifiers settings.excerptWidth source).1 with
  | .error _ => []
  | .ok d => d.imports.map fun i =>
    Path.followed (Path.resolve (Path.directory (Disk.written names)) i.path).toList

/-- Adds a file and every file that it leads to through imports. -/
partial def gather (settings : Settings) (encoding : Encoding) (disk : Disk)
    (seen : List (List String)) : List (List String) → IO Disk
  | [] => return disk
  | names :: rest => do
    if names ∈ seen then gather settings encoding disk seen rest
    else
      let disk ← look disk names
      let next := match disk.node? names with
        | some (.file bytes) =>
          match encoding.read bytes with
          | .ok text => imported settings names text
          | .error _ => []
        | _ => []
      gather settings encoding disk (names :: seen) (next ++ rest)

/-! ### Writing back -/

def writeBack (old new : Disk) : IO Unit := do
  for (names, node) in new do
    if old.node? names ≠ some node then
      match node with
      | .directory => IO.FS.createDirAll (Disk.written names)
      | .file bytes => IO.FS.writeBinFile (Disk.written names) ⟨bytes.toArray⟩

/-! ### Running -/

/-- A directory as a word names it, from the current one. -/
def located (here word : String) : Location := (Location.ofString here).join word

def finish (old : Disk) (outcome : Job.Outcome Unit) : IO UInt32 := do
  writeBack old outcome.2.disk
  for message in outcome.2.journal.messages do IO.eprintln message
  IO.eprint outcome.2.errors
  match outcome.1 with
  | .ok () => return 0
  | .error (.exit code) => return code.toUInt32
  | .error (.disk fault) => IO.eprintln fault.message; return 1
  | .error (.name fault) => IO.eprintln fault.message; return 1
  | .error (.encoding _ message) => IO.eprintln message; return 1
  | .error (.unencodable cause) => IO.eprintln cause.message; return 1
  | .error (.unnamed what) => IO.eprintln what.message; return 1
  | .error (.compile _) => IO.eprintln "Imports nest without end"; return 1

def compile (settings : Settings) (encoding : Encoding) (job : Job) : IO UInt32 := do
  let inputFile := job.inputFile.getD ""
  let source := job.inputDir.join inputFile
  let output := job.outputDir.join ((settings.outputName inputFile).toOption.getD "")
  let ways := [job.inputDir, source, job.outputDir, output, job.outputDir.join job.outputFile]
  let mut disk : Disk := []
  for location in ways do
    for n in List.range (location.parts.length + 1) do
      disk ← look disk ((location.parts.take n).foldl Path.follow [])
  disk ← gather settings encoding disk [] [source.parts.foldl Path.follow []]
  finish disk (Job.command settings encoding job disk)

end ElementMarkup.Main

open ElementMarkup in
def main (words : List String) : IO UInt32 := do
  match Settings.ofEnvironment (← Main.environment) with
  | .error faults =>
    for (name, fault) in faults do IO.eprintln (name ++ ": " ++ fault.name)
    return 1
  | .ok settings =>
    match Words.request words with
    | .error fault => IO.eprintln fault.notice; return 2
    | .ok .version => IO.println Words.versionLine; return 0
    | .ok .help =>
      IO.println ("usage: webflow [-h] --inputFile INPUTFILE [--outputFile OUTPUTFILE] [-v] [-V] " ++
        "[--saveinputmeta] [--saveoutputmeta] inputdir outputdir")
      return 0
    | .ok (.compile order) =>
      let here := (← IO.currentDir).toString
      match Job.ofOrder (Main.located here) order, Encoding.named? settings.encoding with
      | .error halt, _ => Main.finish [] (.error halt, {})
      | .ok _, none => IO.eprintln ("unknown encoding: " ++ settings.encoding); return 1
      | .ok job, some encoding => Main.compile settings encoding job
