import ElementMarkup.Document.Reader
import ElementMarkup.Encoding
import ElementMarkup.Html
import ElementMarkup.Path

/-!
Compiling a source with its imports. Each import is compiled once, depth first, and stored under
its name; a name that is already stored is not compiled again. With cycle detection a file that
is being compiled is never entered again, so every compile ends; without it the nesting is bounded
by fuel, and `compile` takes enough for every compile that ends at all. Left out are files that may
not be read for lack of permission, and any limit of a machine on how deep calls may nest: imports and
elements nest as deep as the sources say.
-/

namespace ElementMarkup

/-- The files that imports can reach, by canonical path, with their texts as far as they decode. -/
abbrev Files := Table String (Except Encoding.Undecodable String)

namespace Compile

/-- What stays the same throughout a compile. -/
structure Context where
  files : Files := []
  /-- Whether tag names may hold letters outside ASCII. -/
  wide : Bool := false
  /-- How many characters an excerpt shows on either side of a fault. -/
  width : Int := 40
  /-- Whether an import that re-enters a file being compiled is refused. -/
  detect : Bool := true

/-- Where a source stands: the directory its imports start from, and the files being compiled,
outermost first, the source's own last. -/
structure Scope where
  base : String
  resolving : List String := []
  deriving DecidableEq, Repr

inductive Call where
  | asked (path : String)
  | opened (path : String)
  deriving DecidableEq, Repr

/-- What a compile leaves behind, whether it succeeds or fails. -/
structure Progress where
  components : Components := []
  calls : List Call := []
  journal : Journal := {}
  deriving DecidableEq, Repr

namespace Progress

def note (p : Progress) (records : List Record) : Progress :=
  { p with journal := p.journal.addAll records }

def call (p : Progress) (call : Call) : Progress := { p with calls := p.calls ++ [call] }

def store (p : Progress) (name html : String) : Progress :=
  { p with components := Table.store p.components name html }

end Progress

abbrev Outcome (α : Type) := Except Failure α × Progress

/-! ### One source -/

def document (wide : Bool) (width : Int) (source : String) : Except Failure Document × List Record :=
  match Token.tokens wide source with
  | .error fault => (.error (.diagnosed (fault.diagnostic width source)), [])
  | .ok tokens =>
    let scanned := Token.scanned source tokens.length
    match Document.ofTokens tokens with
    | .error stop => (.error (stop.failure width (some source)), [scanned])
    | .ok d => (.ok d, [scanned, d.parsed])

/-- Names the file that a failure lies in, unless it is named already or there is none. -/
def Scope.attribute (scope : Scope) : Failure → Failure
  | .diagnosed d =>
    match d.path, scope.resolving.getLast? with
    | none, some path => .diagnosed (d.attach path)
    | _, _ => .diagnosed d
  | failure => failure

/-! ### Imports -/

inductive Fault where
  /-- An import that leads back to a file being compiled, through a chain of files. -/
  | cyclic (name target : String) (chain : List String)
  | notFound (name target : String)
  | missing (target : String)
  | unreadable (target : String) (cause : Encoding.Undecodable)
  deriving DecidableEq, Repr

namespace Fault

def kind : Fault → Diagnostic.Kind
  | .cyclic _ _ _ => .cyclicImport
  | .notFound _ _ | .missing _ => .importNotFound
  | .unreadable _ _ => .unreadableSource

def message : Fault → String
  | .cyclic name target chain =>
    "Import of '" ++ name ++ "' re-enters a file being compiled: " ++
      " -> ".intercalate (chain ++ [target])
  | .notFound name target => "Cannot import '" ++ name ++ "': file not found: " ++ target
  | .missing target => "Source file not found: " ++ target
  | .unreadable target cause =>
    "Cannot decode " ++ target ++ ": " ++ cause.reason.text ++ " at byte " ++ toString cause.start

def target : Fault → String
  | .cyclic _ target _ | .notFound _ target | .missing target | .unreadable target _ => target

def failure (fault : Fault) : Failure :=
  .diagnosed { kind := fault.kind, message := fault.message, path := some fault.target }

end Fault

def reused (name : String) : Record := ⟨3, "Component '" ++ name ++ "' already compiled, reusing"⟩

def resolvingImport (name target : String) : Record :=
  ⟨2, "Resolving import '" ++ name ++ "' from " ++ target⟩

/-- The scope of the file at a canonical path, entered from another scope. -/
def Scope.enter (scope : Scope) (target : String) : Scope :=
  ⟨Path.directory target, scope.resolving ++ [target]⟩

/-- Compiles one import and stores it. `nested` compiles the source of the imported file. -/
def resolve (context : Context) (nested : Scope → String → Progress → Outcome String)
    (scope : Scope) (i : Import) (p : Progress) : Outcome Unit :=
  if Table.has p.components i.name then (.ok (), p.note [reused i.name])
  else
    let target := Path.resolve scope.base i.path
    if context.detect ∧ target ∈ scope.resolving then
      let chain := scope.resolving.dropWhile (· != target)
      (.error (Fault.cyclic i.name target chain).failure, p)
    else
      match Table.find? context.files target with
      | none => (.error (Fault.notFound i.name target).failure, p.call (.asked target))
      | some (.error cause) =>
        (.error (Fault.unreadable target cause).failure,
          ((p.call (.asked target)).note [resolvingImport i.name target]).call (.opened target))
      | some (.ok text) =>
        let entered :=
          ((p.call (.asked target)).note [resolvingImport i.name target]).call (.opened target)
        match nested (scope.enter target) text entered with
        | (.error failure, p) => (.error failure, p)
        | (.ok html, p) => (.ok (), p.store i.name html)

def resolveAll (context : Context) (nested : Scope → String → Progress → Outcome String)
    (scope : Scope) : List Import → Progress → Outcome Unit
  | [], p => (.ok (), p)
  | i :: rest, p =>
    match resolve context nested scope i p with
    | (.error failure, p) => (.error failure, p)
    | (.ok (), p) => resolveAll context nested scope rest p

/-! ### Whole compiles -/

/-- Compiles a source whose imports nest less than `fuel` deep. -/
def compileWithin (context : Context) : Nat → Scope → String → Progress → Outcome String
  | 0, _, _, p => (.error .unending, p)
  | fuel + 1, scope, source, p =>
    match document context.wide context.width source with
    | (.error failure, records) => (.error (scope.attribute failure), p.note records)
    | (.ok d, records) =>
      match resolveAll context (compileWithin context fuel) scope d.imports (p.note records) with
      | (.error failure, p) => (.error (scope.attribute failure), p)
      | (.ok (), p) =>
        (.ok (Html.render p.components d.elements), p.note (Html.records p.components d.elements))

def importNames (context : Context) (source : String) : List String :=
  match (document context.wide context.width source).1 with
  | .ok d => d.imports.map (·.name)
  | .error _ => []

/-- The names that can be stored in a compile of a source. -/
def storable (context : Context) (source : String) : List String :=
  (importNames context source ++ context.files.flatMap fun
    | (_, .ok text) => importNames context text
    | (_, .error _) => []).eraseDups

/-- How deep a compile that ends can nest. With cycle detection no file is entered twice. Without
it a file may be entered again only after another name has been stored. -/
def depth (context : Context) (source : String) : Nat :=
  if context.detect then context.files.length + 1
  else context.files.length * ((storable context source).length + 1) + 1

def compile (context : Context) (scope : Scope) (source : String) (p : Progress) : Outcome String :=
  compileWithin context (depth context source) scope source p

def importInto (context : Context) (scope : Scope) (i : Import) (p : Progress) : Outcome Unit :=
  resolve context (fun inner source => compile context inner source) scope i p

def file (context : Context) (path : String) (p : Progress) : Outcome String :=
  let target := Path.canonical path.toList
  let asked := p.call (.asked target)
  match Table.find? context.files target with
  | none => (.error (Fault.missing target).failure, asked)
  | some (.error cause) =>
    (.error (Fault.unreadable target cause).failure, asked.call (.opened target))
  | some (.ok text) =>
    compile context ⟨Path.directory target, [target]⟩ text (asked.call (.opened target))

end Compile

end ElementMarkup
