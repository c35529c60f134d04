import ElementMarkup.Encoding
import ElementMarkup.Path.Location
import ElementMarkup.Table

/-!
A disk of directories and files. A location is walked part by part from the root, and every part
but the last has to lead to a directory. Making directories and writing a file are the only
changes. The limits on how long a name and a path may be are kept; refusals for lack of permission
are left out, and everything on a disk may be read and changed.
-/

namespace ElementMarkup

inductive Node where
  | directory
  | file (bytes : List UInt8)
  deriving DecidableEq, Repr

/-- What stands where, by the names on the way from the root. The root itself is not listed. -/
abbrev Disk := Table (List String) Node

namespace Disk

/-! ### Refusals -/

inductive Reason where
  | noEntry
  | entryExists
  | notDirectory
  | isDirectory
  | nameTooLong
  /-- A null character, which no path holds. -/
  | nullCharacter
  deriving DecidableEq, Repr

def Reason.text : Reason → String
  | .noEntry => "[Errno 2] No such file or directory"
  | .entryExists => "[Errno 17] File exists"
  | .notDirectory => "[Errno 20] Not a directory"
  | .isDirectory => "[Errno 21] Is a directory"
  | .nameTooLong => "[Errno 36] File name too long"
  | .nullCharacter => "embedded null byte"

structure Fault where
  reason : Reason
  path : String
  deriving DecidableEq, Repr

def Fault.message (fault : Fault) : String :=
  if fault.reason = .nullCharacter then fault.reason.text
  else fault.reason.text ++ ": " ++ Text.literal fault.path

/-! ### Looking -/

/-- What stands at the end of a way from the root. -/
def node? (disk : Disk) (names : List String) : Option Node :=
  if names = [] then some .directory else Table.find? disk names

def longestName : Nat := 255

def longestPath : Nat := 4095

/-- Walks on from a directory. The way it returns may lead to nothing yet. -/
def walk (disk : Disk) (reached : List String) : List String → Except Reason (List String)
  | [] => .ok reached
  | part :: rest =>
    match disk.node? reached with
    | none => .error .noEntry
    | some (.file _) => .error .notDirectory
    | some .directory =>
      if longestName < part.utf8ByteSize then .error .nameTooLong
      else walk disk (Path.follow reached part) rest

def reach (disk : Disk) (location : Location) : Except Reason (List String) :=
  if location.hasNull then .error .nullCharacter
  else if longestPath < location.text.utf8ByteSize then .error .nameTooLong
  else disk.walk [] location.parts

def find (disk : Disk) (location : Location) : Except Reason Node :=
  match disk.reach location with
  | .error reason => .error reason
  | .ok names =>
    match disk.node? names with
    | none => .error .noEntry
    | some node => .ok node

/-- Whether there is a file at a location. Only a name that is too long cannot be asked about. -/
def isFile (disk : Disk) (location : Location) : Except Fault Bool :=
  match disk.find location with
  | .ok (.file _) => .ok true
  | .error .nameTooLong => .error ⟨.nameTooLong, location.text⟩
  | _ => .ok false

/-- Whether there is a directory at a location, asked in the same way. -/
def isDirectory (disk : Disk) (location : Location) : Except Fault Bool :=
  match disk.find location with
  | .ok .directory => .ok true
  | .error .nameTooLong => .error ⟨.nameTooLong, location.text⟩
  | _ => .ok false

def bytes (disk : Disk) (location : Location) : Except Fault (List UInt8) :=
  match disk.find location with
  | .ok (.file bytes) => .ok bytes
  | .ok .directory => .error ⟨.isDirectory, location.text⟩
  | .error reason => .error ⟨reason, location.text⟩

def written (names : List String) : String := "/" ++ "/".intercalate names

/-- A fault as a source's. One that is not a decoding fault stands at the first byte; `Job.onDisk`
keeps it from being taken for one. -/
def sourceFault : Encoding.Fault → Encoding.Undecodable
  | .undecodable cause => cause
  | .other name message => ⟨name, 0, [], .other message⟩

/-- The files of a disk by canonical path, decoded, as far as the path is not too long. It may start
with one slash or with two. -/
def sources (disk : Disk) (decoder : Encoding.Decoder) :
    Table String (Except Encoding.Undecodable String) :=
  disk.flatMap fun
    | (names, .file bytes) =>
      let paths := [written names, "/" ++ written names]
      let text := (decoder bytes).mapError sourceFault
      (paths.filter fun path => path.utf8ByteSize ≤ longestPath).map (·, text)
    | (_, .directory) => []

/-- The files below a location, by their paths through it. -/
def below (disk : Disk) (location : Location) : List (String × List UInt8) :=
  match disk.walk [] location.parts with
  | .error _ => []
  | .ok top =>
    disk.filterMap fun
      | (names, .file bytes) =>
        if top.isPrefixOf names && names ≠ top then
          let parts := location.parts ++ names.drop top.length
          some (Location.text ⟨location.root, parts⟩, bytes)
        else none
      | (_, .directory) => none

/-! ### Changing -/

/-- Puts a file or directory at the end of a way, and directories along it where nothing is. -/
def put (disk : Disk) (names : List String) (node : Node) : Disk :=
  let ways := (List.range names.length).map fun n => names.take n
  let parents := ways.filter fun way => (disk.node? way).isNone
  Table.store (parents.foldl (fun d way => Table.store d way .directory) disk) names node

def makeDirectory (disk : Disk) (location : Location) : Except Reason Disk :=
  match disk.reach location with
  | .error reason => .error reason
  | .ok names =>
    match disk.node? names with
    | some _ => .error .entryExists
    | none => .ok (Table.store disk names .directory)

/-- What making a directory comes to: done or refused, and the disk it leaves. -/
abbrev Made := Except Fault Unit × Disk

def refused (disk : Disk) (location : Location) (reason : Reason) : Made :=
  (.error ⟨reason, location.text⟩, disk)

/-- A refusal with which nothing is wrong if the directory is there. -/
def settled (disk : Disk) (location : Location) (reason : Reason) : Made :=
  match disk.isDirectory location with
  | .ok true => (.ok (), disk)
  | _ => disk.refused location reason

/-- Makes a directory. Where nothing leads to it, it is tried once more on the disk with the
directory above made. `refusal` says what a refusal comes to. -/
def make (refusal : Disk → Location → Reason → Made) (disk : Disk) (location : Location)
    (above : Made) : Made :=
  match disk.makeDirectory location, above with
  | .ok made, _ => (.ok (), made)
  | .error .noEntry, (.error fault, disk) => (.error fault, disk)
  | .error .noEntry, (.ok (), disk) =>
    match disk.makeDirectory location with
    | .ok made => (.ok (), made)
    | .error reason => refusal disk location reason
  | .error reason, _ => refusal disk location reason

/-- Makes directories given by their parts from the last to the first, as far as they are not
there. -/
def makeAll (root : String) (disk : Disk) : List String → Made
  | [] => (.ok (), disk)
  | part :: above =>
    make settled disk ⟨root, (part :: above).reverse⟩ (makeAll root disk above)

/-- Makes a directory and those above it, as far as they are not there. -/
def makeDirectories (disk : Disk) (location : Location) : Made :=
  makeAll location.root disk location.parts.reverse

/-- Makes a directory that is not to be there yet, and those above it as far as they are not
there. -/
def makeNew (disk : Disk) (location : Location) : Made :=
  make refused disk location (makeAll location.root disk location.parts.reverse.tail)

/-- What stands at a location: a new directory if nothing did. -/
def findOrMake (disk : Disk) (location : Location) : Except Fault Node × Disk :=
  match disk.find location with
  | .ok node => (.ok node, disk)
  | .error _ =>
    match disk.makeNew location with
    | (.error fault, disk) => (.error fault, disk)
    | (.ok (), disk) => (.ok .directory, disk)

def write (disk : Disk) (location : Location) (bytes : List UInt8) : Except Fault Disk :=
  match disk.reach location with
  | .error reason => .error ⟨reason, location.text⟩
  | .ok names =>
    match disk.node? names with
    | some .directory => .error ⟨.isDirectory, location.text⟩
    | _ => .ok (Table.store disk names (.file bytes))

end Disk

end ElementMarkup
