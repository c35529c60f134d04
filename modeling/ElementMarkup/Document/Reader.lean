import ElementMarkup.Element
import ElementMarkup.Failure
import ElementMarkup.Token.Scan

/-!
Reading tokens into a document. The reader is a machine that takes one token at a time: `step`
says what one token does in each phase, and `read` runs it up to the end of the source. A token
that cannot follow is refused at once, so a fault lies at the first token that rules the text out.
Elements may nest to any depth; a limit of a machine on how deep calls may nest is left out.
-/

namespace ElementMarkup.Document

/-! ### The machine -/

inductive Due where
  | colon
  /-- A child, an attribute block, or the semicolon that ends the body. -/
  | item
  /-- The block of a category, before which one colon may stand. -/
  | blockOrColon (category : Category)
  | block (category : Category)
  deriving DecidableEq, Repr

inductive Phase where
  | between
  | importName (position : Int)
  | importOrigin (position : Int) (name : String)
  | importPath (position : Int) (name : String)
  | importEnd (position : Int) (name path : String)
  /-- In the element `inner`, with the elements around it from the inside out. -/
  | inside (inner : Element) (outer : List Element) (due : Due)
  deriving Repr

inductive Fault where
  | expected (kind : Token.Kind) (index : Int) (found : Token)
  /-- A token that no item of a body starts with. -/
  | stray (tag : String) (index : Int) (found : Token)
  | lateImport (index : Int) (found : Token)
  /-- A token that is no keyword where an attribute block is due. -/
  | noKeyword (found : Token)
  deriving DecidableEq, Repr

/-- The document finished so far, and the phase in what comes next. -/
structure State where
  document : Document := {}
  phase : Phase := .between
  deriving Repr

def State.addImport (s : State) (i : Import) : State :=
  ⟨{ s.document with imports := s.document.imports ++ [i] }, .between⟩

/-- Puts a finished element where it belongs: last among the children of the element around it, or
last in the document. -/
def State.finish (s : State) (element : Element) : List Element → State
  | [] => ⟨{ s.document with elements := s.document.elements ++ [element] }, .between⟩
  | parent :: outer =>
    { s with phase := .inside { parent with children := parent.children ++ [element] } outer .item }

/-- The phase after a token that is due to be the tag of an element inside `outer`. -/
def enter (outer : List Element) (index : Int) (t : Token) : Except Fault Phase :=
  if t.kind = .tag then .ok (.inside { tag := t.value, position := t.position } outer .colon)
  else .error (.expected .tag index t)

def step (s : State) (index : Int) (t : Token) : Except Fault State :=
  match s.phase with
  | .between =>
    match t.kind with
    | .importing =>
      if s.document.elements.isEmpty then .ok { s with phase := .importName t.position }
      else .error (.lateImport index t)
    | .semicolon => .ok s
    | _ => (enter [] index t).map fun phase => { s with phase }
  | .importName position =>
    if t.kind = .tag then .ok { s with phase := .importOrigin position t.value }
    else .error (.expected .tag index t)
  | .importOrigin position name =>
    if t.kind = .origin then .ok { s with phase := .importPath position name }
    else .error (.expected .origin index t)
  | .importPath position name =>
    if t.kind = .quoted then .ok { s with phase := .importEnd position name t.value }
    else .error (.expected .quoted index t)
  | .importEnd position name path =>
    if t.kind = .semicolon then .ok (s.addImport ⟨name, path, position⟩)
    else .error (.expected .semicolon index t)
  | .inside inner outer .colon =>
    if t.kind = .colon then .ok { s with phase := .inside inner outer .item }
    else .error (.expected .colon index t)
  | .inside inner outer .item =>
    match t.kind with
    | .semicolon => .ok (s.finish { inner with closed := true } outer)
    | .tag => (enter (inner :: outer) index t).map fun phase => { s with phase }
    | .keyword category => .ok { s with phase := .inside inner outer (.blockOrColon category) }
    | _ => .error (.stray inner.tag index t)
  | .inside inner outer (.blockOrColon category) =>
    match t.kind with
    | .colon => .ok { s with phase := .inside inner outer (.block category) }
    | .block =>
      let attributes := inner.attributes.set category t.value
      .ok { s with phase := .inside { inner with attributes } outer .item }
    | _ => .error (.expected .block index t)
  | .inside inner outer (.block category) =>
    if t.kind = .block then
      let attributes := inner.attributes.set category t.value
      .ok { s with phase := .inside { inner with attributes } outer .item }
    else .error (.expected .block index t)

/-! ### Runs -/

inductive Stop where
  | fault (cause : Fault)
  /-- The tokens end where one is due. -/
  | offEnd
  deriving DecidableEq, Repr

/-- Where a run came to: the state reached, the index of the next token, and why it went no
further, if not because it was done. -/
structure Run where
  state : State
  index : Int
  stop : Option Stop := none
  deriving Repr

/-- Whether a state has the end of the source to come next. -/
def State.atTop (s : State) : Bool :=
  match s.phase with
  | .between => true
  | _ => false

/-- Runs over the tokens from `index` on, up to the end of the source at top level. -/
def read (s : State) (index : Int) : List Token → Run
  | [] => ⟨s, index, some .offEnd⟩
  | t :: rest =>
    if s.atTop ∧ t.kind = .finish then ⟨s, index, none⟩
    else
      match step s index t with
      | .error fault => ⟨s, index, some (.fault fault)⟩
      | .ok next => read next (index + 1) rest

/-- Runs over the tokens from `index` on, no further than until the state holds what is asked for,
and gives it with the index reached. -/
def readUntil {α : Type} (asked : State → Option α) (s : State) (index : Int)
    (tokens : List Token) : Except Stop α × Int :=
  match asked s, tokens with
  | some value, _ => (.ok value, index)
  | none, [] => (.error .offEnd, index)
  | none, t :: rest =>
    match step s index t with
    | .error fault => (.error (.fault fault), index)
    | .ok next => readUntil asked next (index + 1) rest

def ofTokens (tokens : List Token) : Except Stop Document :=
  let run := read {} 0 tokens
  match run.stop with
  | none => .ok run.state.document
  | some stop => .error stop

/-! ### Reports -/

namespace Fault

def kind : Fault → Diagnostic.Kind
  | .expected _ _ _ | .stray _ _ _ => .unexpectedToken
  | .lateImport _ _ | .noKeyword _ => .invalidSyntax

def found : Fault → Token
  | .expected _ _ t | .stray _ _ t | .lateImport _ t | .noKeyword t => t

/-- Names a token that cannot stand at its index. -/
def unexpected (index : Int) (t : Token) : String :=
  "Unexpected token '" ++ t.value ++ "' of type " ++ t.kind.name ++ " at token position " ++
    toString index

def message : Fault → String
  | .expected kind index t => unexpected index t ++ " (expected " ++ kind.name ++ ")"
  | .stray tag index t => unexpected index t ++ " in body of '" ++ tag ++ "'"
  | .lateImport index _ =>
    "Imports must appear before elements (token position " ++ toString index ++ ")"
  | .noKeyword _ => "Invalid attribute set or missing semicolon"

def diagnostic (width : Int) (source : Option String) (fault : Fault) : Diagnostic :=
  .report width fault.kind fault.message source (some fault.found.position) none

end Fault

def Stop.failure (width : Int) (source : Option String) : Stop → Failure
  | .fault cause => .diagnosed (cause.diagnostic width source)
  | .offEnd => .offEnd

/-- Kept in the journal when a document has been read whole. -/
def parsed (d : Document) : Record :=
  ⟨3, "Parsed " ++ toString d.imports.length ++ " imports and " ++ toString d.elements.length ++
    " top-level elements"⟩

/-- Kept in the journal for each token taken, when tokens are traced. -/
def taken (index : Int) (t : Token) : Record :=
  ⟨3, "eat #" ++ toString index ++ ": " ++ t.kind.name ++ " " ++ Text.literal t.value⟩

def trace (index : Int) : List Token → List Record
  | [] => []
  | t :: rest => taken index t :: trace (index + 1) rest

end ElementMarkup.Document
