/-! Double-precision numbers by their bits, read from decimal text. A decimal is rounded to the nearest
double, a tie to the one with an even last bit; nothing here uses floating-point arithmetic. -/
namespace SchemaBinding

/-- A number in the 64-bit binary format: sign, 11 exponent bits, 52 fraction bits. -/
structure Double where
  bits : UInt64
deriving Repr, DecidableEq, Inhabited

namespace Double

def infinityBits : Nat := 0x7FF0000000000000

def nan : Double := ⟨0x7FF8000000000000⟩

def isNegative (x : Double) : Bool := 0x8000000000000000 ≤ x.bits

/-- The bits without the sign, which order the magnitudes. -/
def magnitudeBits (x : Double) : Nat := x.bits.toNat % 0x8000000000000000

def isNan (x : Double) : Bool := infinityBits < x.magnitudeBits

def isInfinite (x : Double) : Bool := x.magnitudeBits = infinityBits

def isFinite (x : Double) : Bool := !x.isNan && !x.isInfinite

/-- The number of fractions between two powers of two. -/
def fractionRange : Nat := 0x10000000000000

/-- The integer `m` and the power `q` with magnitude `m * 2 ^ q`. -/
def significand (x : Double) : Nat × Int :=
  let exponent : Nat := x.magnitudeBits / fractionRange
  let fraction : Nat := x.magnitudeBits % fractionRange
  if exponent = 0 then (fraction,-1074) else (fraction + fractionRange,(exponent : Int) - 1075)

def ofMagnitude (negative : Bool) (bits : Nat) : Double :=
  ⟨UInt64.ofNat (if negative then bits + 0x8000000000000000 else bits)⟩

/-- The quotient rounded to the nearest integer, a half to the even one. -/
def roundDiv (num den : Nat) : Nat :=
  if den < 2 * (num % den) || (2 * (num % den) = den && num / den % 2 = 1) then num / den + 1
  else num / den

/-- The magnitude bits nearest to `num / den`. -/
def bitsOfRatio (num den : Nat) : Nat :=
  let scaled (q : Int) : Nat × Nat :=
    if q < 0 then (num * Nat.pow 2 q.natAbs,den) else (num,den * Nat.pow 2 q.natAbs)
  let guess : Int := max (-1074) ((num.log2 : Int) - den.log2 - 52)
  let (a,b) := scaled guess
  let q : Int := if a < b * fractionRange then max (-1074) (guess - 1) else guess
  let (a,b) := scaled q
  let m := roundDiv a b
  if m < fractionRange then m
  else min infinityBits ((q + 1075).toNat * fractionRange + (m - fractionRange))

/-- The double nearest to `digits * 10 ^ exponent`. Powers far outside the range are decided by the
number of digits alone. -/
def ofDecimal (negative : Bool) (digits : Nat) (exponent : Int) : Double :=
  let size : Int := (Nat.toDigits 10 digits).length
  ofMagnitude negative <|
    if digits = 0 || size + exponent < -330 then 0
    else if 330 < size + exponent then infinityBits
    else if exponent < 0 then bitsOfRatio digits (Nat.pow 10 exponent.natAbs)
    else bitsOfRatio (digits * Nat.pow 10 exponent.natAbs) 1

def digitValue (c : Char) : Nat := c.toNat - '0'.toNat

def natOfDigits (cs : List Char) : Nat :=
  cs.foldl (fun n c => n * 10 + digitValue c) 0

def splitSign : List Char → Bool × List Char
  | '-' :: cs => (true,cs)
  | '+' :: cs => (false,cs)
  | cs => (false,cs)

/-- The power of ten after a number: nothing, or `e`, a sign if any, and digits. -/
def exponentOf? : List Char → Option Int
  | [] => some 0
  | c :: cs =>
    let (negative,digits) := splitSign cs
    if (c = 'e' || c = 'E') && !digits.isEmpty && digits.all Char.isDigit then
      let n : Int := natOfDigits digits
      some (if negative then -n else n)
    else none

def unsigned? (negative : Bool) (cs : List Char) : Option Double :=
  let whole := cs.takeWhile Char.isDigit
  let (fraction,rest) :=
    match cs.dropWhile Char.isDigit with
    | '.' :: cs => (cs.takeWhile Char.isDigit,cs.dropWhile Char.isDigit)
    | rest => ([],rest)
  if whole.isEmpty && fraction.isEmpty then none
  else (exponentOf? rest).map fun e =>
    ofDecimal negative (natOfDigits (whole ++ fraction)) (e - fraction.length)

/-- Reads digits with at most one point among or beside them and an exponent if any, or `inf`,
`infinity` or `nan` in any case, each after a sign if any. -/
def ofChars? (cs : List Char) : Option Double :=
  let (negative,cs) := splitSign cs
  let word := String.ofList (cs.map Char.toLower)
  if word = "inf" || word = "infinity" then some (ofMagnitude negative infinityBits)
  else if word = "nan" then some nan
  else unsigned? negative cs

end Double
end SchemaBinding
