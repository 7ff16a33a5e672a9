/-! UTF-8 text as bytes. Decoding is one left-to-right pass over the bytes; a longest front of a
character that is broken off counts as one ill-formed piece, and the byte that broke it starts anew. -/
namespace SchemaBinding

/-- The content of a document or a file. -/
abbrev Bytes := List UInt8

namespace Utf8

/-- A character whose first bytes have been read. -/
structure Pending where
  more : Nat
  value : Nat
  low : UInt8 := 0x80
  high : UInt8 := 0xBF
deriving Repr, DecidableEq

inductive Lead where
  | scalar (c : Char)
  | opens (p : Pending)
  | illFormed
deriving Repr, DecidableEq

/-- What a byte says at the beginning of a character. The bounds on the second byte keep out
overlong forms, surrogates and values above the last code point. -/
def lead (b : UInt8) : Lead :=
  let v := b.toNat
  if v < 0x80 then .scalar (Char.ofNat v)
  else if v < 0xC2 then .illFormed
  else if v < 0xE0 then .opens { more := 0, value := v % 32 }
  else if v = 0xE0 then .opens { more := 1, value := 0, low := 0xA0 }
  else if v = 0xED then .opens { more := 1, value := 13, high := 0x9F }
  else if v < 0xF0 then .opens { more := 1, value := v % 16 }
  else if v = 0xF0 then .opens { more := 2, value := 0, low := 0x90 }
  else if v < 0xF4 then .opens { more := 2, value := v % 8 }
  else if v = 0xF4 then .opens { more := 2, value := 4, high := 0x8F }
  else .illFormed

/-- Pieces decoded so far, newest first; an ill-formed piece is `none`. -/
structure Decoder where
  pieces : List (Option Char) := []
  pending : Option Pending := none
deriving Repr, DecidableEq

namespace Decoder

def start (pieces : List (Option Char)) (b : UInt8) : Decoder :=
  match lead b with
  | .scalar c => { pieces := some c :: pieces }
  | .opens p => { pieces, pending := some p }
  | .illFormed => { pieces := none :: pieces }

def feed (d : Decoder) (b : UInt8) : Decoder :=
  match d.pending with
  | none => start d.pieces b
  | some p =>
    if p.low ≤ b && b ≤ p.high then
      let value := p.value * 64 + b.toNat % 64
      match p.more with
      | 0 => { pieces := some (Char.ofNat value) :: d.pieces }
      | more + 1 => { d with pending := some { more, value } }
    else start (none :: d.pieces) b

def finish (d : Decoder) : List (Option Char) :=
  match d.pending with
  | none => d.pieces.reverse
  | some _ => (none :: d.pieces).reverse

end Decoder

def pieces (bytes : Bytes) : List (Option Char) :=
  (bytes.foldl Decoder.feed {}).finish

/-- The text of well-formed bytes. -/
def decode? (bytes : Bytes) : Option (List Char) :=
  (pieces bytes).mapM id

def decodeString? (bytes : Bytes) : Option String :=
  (decode? bytes).map String.ofList

/-- Each ill-formed piece reads as U+FFFD. -/
def decodeLossy (bytes : Bytes) : String :=
  String.ofList ((pieces bytes).map fun c => c.getD '\uFFFD')

def encodeChar (c : Char) : Bytes :=
  let v := c.toNat
  let tail (shift : Nat) : UInt8 := UInt8.ofNat (0x80 + v / shift % 64)
  if v < 0x80 then [UInt8.ofNat v]
  else if v < 0x800 then [UInt8.ofNat (0xC0 + v / 64),tail 1]
  else if v < 0x10000 then [UInt8.ofNat (0xE0 + v / 4096),tail 64,tail 1]
  else [UInt8.ofNat (0xF0 + v / 262144),tail 4096,tail 64,tail 1]

def encode (cs : List Char) : Bytes :=
  cs.flatMap encodeChar

def encodeString (s : String) : Bytes :=
  encode s.toList

theorem encode_append (s t : List Char) : encode (s ++ t) = encode s ++ encode t := by
  simp [encode]

end Utf8
end SchemaBinding
