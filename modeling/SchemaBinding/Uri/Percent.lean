import SchemaBinding.Text.Utf8

/-! Percent-encoding of text in the parts of a URL. Each part has a set of characters that must be
encoded; controls and characters outside ASCII are in every set. -/
namespace SchemaBinding
namespace Uri
namespace Percent

def isControl (c : Char) : Bool := c.toNat < 0x20 || 0x7E < c.toNat

def inFragment (c : Char) : Bool := isControl c || [' ','"','<','>','`'].contains c

def inPath (c : Char) : Bool := inFragment c || ['#','?','\x7b','\x7d'].contains c

/-- A file name inside a path, where `/` cannot occur. -/
def inFileName (c : Char) : Bool := inPath c || ['/','%','\\'].contains c

def inUserInfo (c : Char) : Bool :=
  inPath c || ['/',':',';','=','@','[','\\',']','^','|'].contains c

def inQuery (c : Char) : Bool := isControl c || [' ','"','#','<','>'].contains c

def inSpecialQuery (c : Char) : Bool := inQuery c || c = '\''

def hexDigit (n : Nat) : Char := (['0','1','2','3','4','5','6','7','8','9','A','B','C','D','E','F'])[n]?.getD '0'

def encodeByte (b : UInt8) : List Char := ['%',hexDigit (b.toNat / 16),hexDigit (b.toNat % 16)]

def encodeChar (set : Char → Bool) (c : Char) : List Char :=
  if set c then (Utf8.encodeChar c).flatMap encodeByte else [c]

def encode (set : Char → Bool) (cs : List Char) : List Char := cs.flatMap (encodeChar set)

theorem encode_append (set : Char → Bool) (s t : List Char) :
    encode set (s ++ t) = encode set s ++ encode set t := by
  simp [encode]

def hexValue? (c : Char) : Option Nat :=
  if c.isDigit then some (c.toNat - '0'.toNat)
  else if 'a' ≤ c && c ≤ 'f' then some (c.toNat - 'a'.toNat + 10)
  else if 'A' ≤ c && c ≤ 'F' then some (c.toNat - 'A'.toNat + 10)
  else none

/-- The bytes of encoded text; a percent sign that no two hex digits follow stands for itself. -/
def decode : List Char → Bytes
  | [] => []
  | '%' :: a :: b :: rest =>
    match hexValue? a, hexValue? b with
    | some x, some y => UInt8.ofNat (x * 16 + y) :: decode rest
    | _, _ => Utf8.encodeChar '%' ++ decode (a :: b :: rest)
  | c :: rest => Utf8.encodeChar c ++ decode rest

end Percent
end Uri
end SchemaBinding
