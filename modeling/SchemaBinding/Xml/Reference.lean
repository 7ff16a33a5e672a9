import SchemaBinding.Uri.Percent

/-! References in character data and attribute values: five names, and code points in decimal or
hexadecimal. -/
namespace SchemaBinding
namespace Xml
namespace Reference

def digits? (base : Nat) (cs : List Char) : Option Nat :=
  cs.foldlM (fun n c => ((Uri.Percent.hexValue? c).filter (· < base)).map (n * base + ·)) 0

/-- A code point other than zero that is a character; more digits than the last code point needs are
not accepted, whatever their value. -/
def character? (base width : Nat) (cs : List Char) : Option Char :=
  if width < cs.length then none
  else match digits? base cs with
    | none => none
    | some n => if n ≠ 0 && n.isValidChar then some (Char.ofNat n) else none

/-- What stands for the text between `&` and `;`. -/
def resolve? (name : List Char) : Option Char :=
  match name with
  | '#' :: 'x' :: cs => character? 16 6 cs
  | '#' :: cs => character? 10 7 cs
  | _ =>
    match String.ofList name with
    | "lt" => some '<'
    | "gt" => some '>'
    | "amp" => some '&'
    | "apos" => some '\''
    | "quot" => some '"'
    | _ => none

/-- Text resolved so far and the characters of a reference that is still open, both newest first. -/
structure State where
  done : List Char := []
  reference : Option (List Char) := none

def feed (s : State) (c : Char) : Option State :=
  match s.reference with
  | none => some (if c = '&' then { s with reference := some [] } else { s with done := c :: s.done })
  | some seen =>
    if c = ';' then (resolve? seen.reverse).map fun r => { done := r :: s.done }
    else if c = '&' then none
    else some { s with reference := some (c :: seen) }

/-- The text with every reference resolved; none if one is unknown or not closed. -/
def expand? (cs : List Char) : Option (List Char) :=
  match cs.foldlM feed {} with
  | some { done, reference := none } => some done.reverse
  | _ => none

def expandBytes? (bytes : Bytes) : Option String :=
  ((Utf8.decode? bytes).bind expand?).map String.ofList

end Reference
end Xml
end SchemaBinding
