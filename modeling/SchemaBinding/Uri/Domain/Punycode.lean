import SchemaBinding.Uri.Domain.Permitted

/-! Text beyond ASCII written in letters and digits: first the ASCII characters and a hyphen, then one number
for each other character. A number counts places in the text and rounds over them; each round goes on to the
next code point, so the number tells the character and where it stands. -/
namespace SchemaBinding
namespace Uri
namespace Domain
namespace Punycode

/-- Letters are the digits up to 25, and the digits of ASCII go on from there. -/
def digit? (c : Char) : Option Nat :=
  if 'a' ≤ c && c ≤ 'z' then some (c.toNat - 'a'.toNat)
  else if c.isDigit then some (c.toNat - '0'.toNat + 26)
  else none

/-- The digit for a number below 36. -/
def digitOf (n : Nat) : Char := Char.ofNat (if n < 26 then 'a'.toNat + n else '0'.toNat + (n - 26))

/-- A number whose first digits have been read, the least one first. -/
structure Pending where
  value : Nat
  weight : Nat := 1
  digits : Nat := 0
deriving Repr, DecidableEq

/-- The text so far, with the place and the code point from which the next number counts. -/
structure State where
  text : List Char
  place : Nat := 0
  point : Nat := 128
  bias : Nat := 72
  pending : Option Pending := none
deriving Repr, DecidableEq

/-- A digit below the threshold of its place is the last one of its number. -/
def threshold (bias digits : Nat) : Nat :=
  if 36 * (digits + 1) ≤ bias then 1
  else if bias + 26 ≤ 36 * (digits + 1) then 26
  else 36 * (digits + 1) - bias

theorem threshold_pos (bias digits : Nat) : 0 < threshold bias digits := by
  unfold threshold
  split
  · decide
  · split <;> omega

/-- Divides by 35 until at most 455 is left, and counts the divisions. -/
def reduce (n : Nat) : (room : Nat) → Nat × Nat
  | 0 => (n,0)
  | room + 1 =>
    if 455 < n then
      let (left,divisions) := reduce (n / 35) room
      (left,divisions + 1)
    else (n,0)

/-- The bias after a number of a text that then has `length` characters. -/
def adapt (number length : Nat) (isFirst : Bool) : Nat :=
  let n := if isFirst then number / 700 else number / 2
  let n := n + n / length
  let (left,divisions) := reduce n n
  36 * divisions + 36 * left / (left + 38)

/-- Numbers have 32 bits. -/
def limit : Nat := 4294967296

def scalar? (n : Nat) : Option Char :=
  if h : n.isValidChar then some (Char.ofNatAux n h) else none

/-- Inserts the character that a finished number stands for. -/
def State.insert (s : State) (value : Nat) : Option State :=
  let length := s.text.length + 1
  (scalar? (s.point + value / length)).map fun c =>
    { text := s.text.insertIdx (value % length) c
      place := value % length + 1
      point := s.point + value / length
      bias := adapt (value - s.place) length (s.place = 0) }

def step (s : State) (c : Char) : Option State := do
  let n ← digit? c
  let p := s.pending.getD { value := s.place }
  let value := p.value + n * p.weight
  guard (value < limit)
  let t := threshold s.bias p.digits
  if n < t then s.insert value
  else
    let weight := p.weight * (36 - t)
    guard (weight < limit)
    pure { s with pending := some { value, weight, digits := p.digits + 1 } }

/-- The ASCII characters before the last hyphen, and what follows it. A hyphen in front is none of these. -/
def splitBasic (code : List Char) : List Char × List Char :=
  let digits := (code.reverse.takeWhile (· ≠ '-')).reverse
  let basic := (code.take (code.length - digits.length)).dropLast
  if basic.isEmpty then ([],code) else (basic,digits)

def decode? (code : List Char) : Option (List Char) :=
  let (basic,digits) := splitBasic code
  match digits.foldlM step { text := basic } with
  | some s => if s.pending.isNone then some s.text else none
  | none => none

/-! ## Writing -/

/-- The digits of a number from one place on, the least one first. The last one is below the threshold of its place. -/
def digits (bias place n : Nat) : List Char :=
  let t := threshold bias place
  if n < t then [digitOf n]
  else digitOf (t + (n - t) % (36 - t)) :: digits bias (place + 1) ((n - t) / (36 - t))
termination_by n
decreasing_by
  have hpos := threshold_pos bias place
  exact Nat.lt_of_le_of_lt (Nat.div_le_self _ _) (by omega)

/-- What has been written of a text whose characters below a code point are done, and the number that counts from the
last place. -/
structure Writing where
  code : List Char := []
  done : Nat
  number : Nat := 0
  bias : Nat := 72

/-- Passes a character in the round of a code point: one that is done counts, and one of the round is written. -/
def Writing.pass (point : Nat) (w : Writing) (c : Char) : Writing :=
  if c.toNat < point then { w with number := w.number + 1 }
  else if c.toNat = point then
    { code := w.code ++ digits w.bias 0 w.number
      done := w.done + 1
      number := 0
      bias := adapt w.number (w.done + 1) w.code.isEmpty }
  else w

/-- The rounds of code points in their order, from the one after `last` on. -/
def Writing.rounds (text : List Char) (last : Nat) (w : Writing) : List Nat → Writing
  | [] => w
  | point :: points =>
    let skipped : Writing := { w with number := w.number + (point - last) * (w.done + 1) }
    let w := text.foldl (Writing.pass point) skipped
    Writing.rounds text (point + 1) { w with number := w.number + 1 } points

def encode (text : List Char) : List Char :=
  let basic := text.filter isAscii
  let points := ((text.filter (! isAscii ·)).map Char.toNat).eraseDups.mergeSort
  let written := Writing.rounds text 128 { done := basic.length } points
  (if basic.isEmpty then [] else basic ++ ['-']) ++ written.code

end Punycode
end Domain
end Uri
end SchemaBinding
