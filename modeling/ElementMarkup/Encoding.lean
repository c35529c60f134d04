import ElementMarkup.Text.Literal

/-!
Texts as bytes. Decoding is strict: it stops at the first sequence that its encoding does not
allow and says which bytes of it were read. Decoded lines all end in a plain line feed. Three
encodings are known by name; any other is a function from bytes to what it makes of them.
-/

namespace ElementMarkup

inductive Encoding where
  | utf8
  | latin1
  | ascii
  deriving DecidableEq, Repr

namespace Encoding

def name : Encoding → String
  | .utf8 => "utf-8"
  | .latin1 => "latin-1"
  | .ascii => "ascii"

def named? (name : String) : Option Encoding :=
  [.utf8, .latin1, .ascii].find? fun e : Encoding => e.name = name

/-! ### Decoding -/

inductive Reason where
  | startByte
  | continuation
  | endOfData
  | range (size : Nat)
  /-- What an encoding that is not one of the three has to say. -/
  | other (text : String)
  deriving DecidableEq, Repr

def Reason.text : Reason → String
  | .startByte => "invalid start byte"
  | .continuation => "invalid continuation byte"
  | .endOfData => "unexpected end of data"
  | .range size => "ordinal not in range(" ++ toString size ++ ")"
  | .other text => text

/-- Bytes that do not decode: the sequence from `start` on, as far as it was read. -/
structure Undecodable where
  encoding : String
  start : Nat
  bytes : List UInt8
  reason : Reason
  deriving DecidableEq, Repr

def Undecodable.message (u : Undecodable) : String :=
  let place := match u.bytes with
    | [b] => "byte 0x" ++ String.ofList (Text.hex 2 b.toNat) ++ " in position " ++ toString u.start
    | bytes => "bytes in position " ++ toString u.start ++ "-" ++
        toString (u.start + bytes.length - 1)
  "'" ++ u.encoding ++ "' codec can't decode " ++ place ++ ": " ++ u.reason.text

/-- A sequence of which more bytes are due: those read, the code they give, how many are due, and
the range the next one lies in. -/
structure Pending where
  seen : List UInt8
  code : Nat
  due : Nat
  low : Nat
  high : Nat
  deriving DecidableEq, Repr

/-- What a first byte opens: a sequence with some bytes due, or none if it opens nothing. The range
of the second byte leaves out codes that have a shorter form, surrogates and codes too large. -/
def opening (b : UInt8) : Option Pending :=
  let n := b.toNat
  if 0xC2 ≤ n ∧ n ≤ 0xDF then some ⟨[b], n - 0xC0, 1, 0x80, 0xBF⟩
  else if n = 0xE0 then some ⟨[b], n - 0xE0, 2, 0xA0, 0xBF⟩
  else if n = 0xED then some ⟨[b], n - 0xE0, 2, 0x80, 0x9F⟩
  else if 0xE1 ≤ n ∧ n ≤ 0xEF then some ⟨[b], n - 0xE0, 2, 0x80, 0xBF⟩
  else if n = 0xF0 then some ⟨[b], n - 0xF0, 3, 0x90, 0xBF⟩
  else if n = 0xF4 then some ⟨[b], n - 0xF0, 3, 0x80, 0x8F⟩
  else if 0xF1 ≤ n ∧ n ≤ 0xF3 then some ⟨[b], n - 0xF0, 3, 0x80, 0xBF⟩
  else none

/-- Decodes UTF-8 from offset `offset` on, inside a sequence if one is pending. -/
def decodeUtf8 (offset : Nat) : Option Pending → List UInt8 → Except Undecodable (List Char)
  | none, [] => .ok []
  | some p, [] => .error ⟨utf8.name, offset - p.seen.length, p.seen, .endOfData⟩
  | none, b :: rest =>
    if b.toNat < 0x80 then (decodeUtf8 (offset + 1) none rest).map (Char.ofNat b.toNat :: ·)
    else
      match opening b with
      | some p => decodeUtf8 (offset + 1) (some p) rest
      | none => .error ⟨utf8.name, offset, [b], .startByte⟩
  | some p, b :: rest =>
    if p.low ≤ b.toNat ∧ b.toNat ≤ p.high then
      let code := p.code * 64 + (b.toNat - 0x80)
      if p.due ≤ 1 then (decodeUtf8 (offset + 1) none rest).map (Char.ofNat code :: ·)
      else decodeUtf8 (offset + 1) (some ⟨p.seen ++ [b], code, p.due - 1, 0x80, 0xBF⟩) rest
    else .error ⟨utf8.name, offset - p.seen.length, p.seen, .continuation⟩

def decodeAscii (offset : Nat) : List UInt8 → Except Undecodable (List Char)
  | [] => .ok []
  | b :: rest =>
    if b.toNat < 128 then (decodeAscii (offset + 1) rest).map (Char.ofNat b.toNat :: ·)
    else .error ⟨ascii.name, offset, [b], .range 128⟩

def decode : Encoding → List UInt8 → Except Undecodable (List Char)
  | .utf8, bytes => decodeUtf8 0 none bytes
  | .latin1, bytes => .ok (bytes.map fun b => Char.ofNat b.toNat)
  | .ascii, bytes => decodeAscii 0 bytes

/-- Ends every line in a plain line feed, whether it ended in a carriage return, in a line feed or
in both. -/
def plainLines : List Char → List Char
  | [] => []
  | [c] => [if c = '\r' then '\n' else c]
  | c :: d :: rest =>
    if c = '\r' then
      if d = '\n' then '\n' :: plainLines rest else '\n' :: plainLines (d :: rest)
    else c :: plainLines (d :: rest)

def read (e : Encoding) (bytes : List UInt8) : Except Undecodable String :=
  (e.decode bytes).map fun text => String.ofList (plainLines text)

inductive Fault where
  | undecodable (cause : Undecodable)
  /-- The encoding gives up on the bytes in some way that is not for want of a decoding: there is no
  such encoding, or they lack a mark that it asks for. -/
  | other (name message : String)
  deriving DecidableEq, Repr

/-- Whatever an encoding makes of bytes. -/
abbrev Decoder := List UInt8 → Except Fault String

def decoder (e : Encoding) : Decoder := fun bytes => (e.read bytes).mapError .undecodable

/-! ### Encoding -/

/-- Text that does not encode: the first character, or run of characters, that cannot. -/
structure Unencodable where
  encoding : Encoding
  start : Nat
  chars : List Char
  size : Nat
  deriving DecidableEq, Repr

def Unencodable.message (u : Unencodable) : String :=
  let place := match u.chars with
    | [c] =>
      "character '\\" ++ String.ofList (Text.coded c) ++ "' in position " ++ toString u.start
    | chars => "characters in position " ++ toString u.start ++ "-" ++
        toString (u.start + chars.length - 1)
  "'" ++ u.encoding.name ++ "' codec can't encode " ++ place ++ ": " ++ (Reason.range u.size).text

def charUtf8 (c : Char) : List UInt8 :=
  let n := c.toNat
  if n < 0x80 then [UInt8.ofNat n]
  else if n < 0x800 then [UInt8.ofNat (0xC0 + n / 64), UInt8.ofNat (0x80 + n % 64)]
  else if n < 0x10000 then
    [UInt8.ofNat (0xE0 + n / 4096), UInt8.ofNat (0x80 + n / 64 % 64), UInt8.ofNat (0x80 + n % 64)]
  else
    [UInt8.ofNat (0xF0 + n / 262144), UInt8.ofNat (0x80 + n / 4096 % 64),
     UInt8.ofNat (0x80 + n / 64 % 64), UInt8.ofNat (0x80 + n % 64)]

/-- One byte to each character, for an encoding that has the first `size` codes. -/
def encodeSingle (e : Encoding) (size : Nat) (text : List Char) : Except Unencodable (List UInt8) :=
  let fits := fun c : Char => c.toNat < size
  let good := text.takeWhile fits
  match text.dropWhile fits with
  | [] => .ok (text.map fun c => UInt8.ofNat c.toNat)
  | bad => .error ⟨e, good.length, bad.takeWhile (fun c => !fits c), size⟩

def write (e : Encoding) (text : String) : Except Unencodable (List UInt8) :=
  match e with
  | .utf8 => .ok (text.toList.flatMap charUtf8)
  | .latin1 => encodeSingle e 256 text.toList
  | .ascii => encodeSingle e 128 text.toList

end Encoding

end ElementMarkup
