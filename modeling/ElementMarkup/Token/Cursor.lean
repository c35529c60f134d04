import ElementMarkup.Offset
import ElementMarkup.Token.Scan

/-!
A source that is scanned piece by piece. The cursor may be moved to any signed offset, before the
start and past the end included; a piece that fails leaves the cursor where it came to and keeps the
tokens read so far.
-/

namespace ElementMarkup.Token

structure Cursor where
  source : String
  wide : Bool := false
  position : Int := 0
  tokens : List Token := []
  deriving DecidableEq, Repr

namespace Cursor

inductive Stop where
  | fault (cause : Fault)
  /-- The cursor stands before the first character. -/
  | outOfRange
  deriving DecidableEq, Repr

structure Piece (α : Type) where
  outcome : Except Stop α
  cursor : Cursor
  records : List Record := []

def text (c : Cursor) : List Char := c.source.toList

def length (c : Cursor) : Int := c.source.length

def seek (c : Cursor) (position : Int) : Cursor := { c with position }

/-- The character some way ahead of the cursor; none past the end. -/
def peek (c : Cursor) (offset : Int) : Except Stop (Option Char) :=
  match Offset.upcoming? c.text (c.position + offset) with
  | some text => .ok text.head?
  | none => .error .outOfRange

def push (c : Cursor) (token : Token) : Cursor := { c with tokens := c.tokens ++ [token] }

def wordAt (c : Cursor) (start stop : Int) : Token :=
  let word := String.ofList (Offset.cut c.text start stop)
  ⟨.ofWord word, word, start⟩

/-- Reads the longest run of identifier characters, which may be empty, as a word. -/
def word (c : Cursor) : Piece Unit :=
  match Offset.upcoming? c.text c.position with
  | none => ⟨.error .outOfRange, c, []⟩
  | some text =>
    let stop := c.position + (text.takeWhile (isIdentifier c.wide)).length
    ⟨.ok (), (c.push (c.wordAt c.position stop)).seek stop, []⟩

def comment (c : Cursor) : Piece Unit :=
  match Offset.upcoming? c.text c.position with
  | none => ⟨.error .outOfRange, c, []⟩
  | some text => ⟨.ok (), c.seek (c.position + (text.takeWhile (· != '\n')).length), []⟩

/-- Reads a block or a string, taking the character at the cursor for its opener. -/
def enclosed (c : Cursor) (e : Enclosure) : Piece Unit :=
  let start := c.position
  let inside := c.seek (start + 1)
  match Offset.upcoming? c.text inside.position with
  | none => ⟨.error .outOfRange, inside, []⟩
  | some text =>
    match e.body? text with
    | none => ⟨.error (.fault (.unclosed e start)), c.seek (max c.length inside.position), []⟩
    | some (value, left) =>
      ⟨.ok (), (c.push ⟨e.kind, String.ofList value, start⟩).seek (c.length - left.length), []⟩

/-- A word that starts before the first character is cut between its signed offsets, like a word
read on its own. -/
def settle (c : Cursor) (t : Token) : Token :=
  if t.kind.isWord ∧ t.position < 0 then c.wordAt t.position (t.position + t.value.length) else t

/-- Scans from the cursor to the end of the source and adds the token for its end. -/
def finish (c : Cursor) : Piece Unit :=
  if c.source.isEmpty then ⟨.error (.fault .empty), c, []⟩
  else
    match Offset.upcoming? c.text c.position with
    | none => ⟨.error .outOfRange, c, []⟩
    | some text =>
      let read := scan c.wide c.length text
      let scanned := { c with
        position := max c.position read.position
        tokens := c.tokens ++ read.tokens.map c.settle }
      match read.fault with
      | some fault => ⟨.error (.fault fault), scanned, []⟩
      | none =>
        let closed := scanned.push (close c.source)
        ⟨.ok (), closed, [Token.scanned c.source closed.tokens.length]⟩

end Cursor

end ElementMarkup.Token
