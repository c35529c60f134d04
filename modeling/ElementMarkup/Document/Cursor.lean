import ElementMarkup.Document.Reader
import ElementMarkup.Offset

/-!
A token list that is read piece by piece: single tokens, one import, one element, one attribute
block, or a whole document. The cursor may be moved to any signed index. Only whole documents are
gathered, and what a failing one had finished is kept.
-/

namespace ElementMarkup.Document

structure Cursor where
  tokens : List Token
  /-- The text that the tokens were read from, if any. -/
  source : Option String := none
  /-- Whether each token taken is recorded. -/
  traced : Bool := false
  index : Int := 0
  document : Document := {}
  deriving Repr

namespace Cursor

structure Piece (α : Type) where
  outcome : Except Stop α
  cursor : Cursor
  records : List Record := []

def seek (c : Cursor) (index : Int) : Cursor := { c with index }

def upcoming (c : Cursor) : List Token := (Offset.upcoming? c.tokens c.index).getD []

def current (c : Cursor) : Except Stop Token :=
  match c.upcoming with
  | [] => .error .offEnd
  | t :: _ => .ok t

/-- The records of the tokens taken from the cursor up to an index. -/
def traceTo (c : Cursor) (index : Int) : List Record :=
  if c.traced then trace c.index (c.upcoming.take (index - c.index).toNat) else []

/-- Takes one token, which may be asked to be of a kind. The end of the source is never passed. -/
def take (c : Cursor) (kind : Option Token.Kind) : Piece Token :=
  match c.current with
  | .error stop => ⟨.error stop, c, []⟩
  | .ok t =>
    let next := if t.kind = .finish then c else c.seek (c.index + 1)
    let records := if c.traced then [taken c.index t] else []
    match kind with
    | none => ⟨.ok t, next, records⟩
    | some due =>
      if t.kind = due then ⟨.ok t, next, records⟩
      else ⟨.error (.fault (.expected due c.index t)), c, []⟩

/-- Reads on from the first token, which `start` turns into a state, until the state holds what is
asked for. -/
def piece {α : Type} (c : Cursor) (start : Int → Token → Except Fault State)
    (asked : State → Option α) : Piece α :=
  match c.upcoming with
  | [] => ⟨.error .offEnd, c, []⟩
  | t :: rest =>
    match start c.index t with
    | .error fault => ⟨.error (.fault fault), c, []⟩
    | .ok state =>
      let (outcome, index) := readUntil asked state (c.index + 1) rest
      ⟨outcome, c.seek index, c.traceTo index⟩

def importing (c : Cursor) : Piece Import :=
  c.piece
    (fun index t =>
      if t.kind = .importing then .ok { phase := .importName t.position }
      else .error (.expected .importing index t))
    (fun s => s.document.imports.head?)

def element (c : Cursor) : Piece Element :=
  c.piece
    (fun index t => (enter [] index t).map fun phase => { phase })
    (fun s => s.document.elements.head?)

def block (c : Cursor) (host : Element) : Piece Element :=
  c.piece
    (fun _ t =>
      match t.kind with
      | .keyword category => .ok { phase := .inside host [] (.blockOrColon category) }
      | _ => .error (.noKeyword t))
    (fun s =>
      match s.phase with
      | .inside inner _ .item => some inner
      | _ => none)

/-- Reads up to the end of the source, and gathers what is read. -/
def whole (c : Cursor) : Piece Document :=
  let run := read { document := c.document } c.index c.upcoming
  let document := run.state.document
  let reached := { c with index := run.index, document }
  match run.stop with
  | some stop => ⟨.error stop, reached, c.traceTo run.index⟩
  | none => ⟨.ok document, reached, c.traceTo run.index ++ [parsed document]⟩

end Cursor

end ElementMarkup.Document
