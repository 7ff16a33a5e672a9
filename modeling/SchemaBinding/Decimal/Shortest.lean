import SchemaBinding.Decimal.Double

/-! The shortest decimal that reads back as a given double, and its text. The search takes one digit,
then two, and so on, and looks at the two neighbours of the number on each decimal grid. -/
namespace SchemaBinding

/-- The number `digits * 10 ^ exponent`. -/
structure Decimal where
  digits : Nat
  exponent : Int
deriving Repr, DecidableEq

namespace Decimal

def digitCount (n : Nat) : Nat := (Nat.toDigits 10 n).length

/-- The power of ten at or below `num / den`. -/
def magnitude (num den : Nat) : Int :=
  if den ≤ num then digitCount (num / den) - 1 else -(digitCount ((den + num - 1) / num - 1) : Nat)

/-- A number over a common denominator together with the bounds of the reals that round to it. -/
structure Rounding where
  low : Nat
  value : Nat
  high : Nat
  den : Nat
  closed : Bool

def rounding (x : Double) : Rounding :=
  let (m,q) := x.significand
  let below := if m = Double.fractionRange && q ≠ -1074 then 1 else 2
  let scale := if q < 2 then 1 else Nat.pow 2 (q - 2).natAbs
  { low := (4 * m - below) * scale, value := 4 * m * scale, high := (4 * m + 2) * scale
    den := if q < 2 then Nat.pow 2 (2 - q).natAbs else 1, closed := m % 2 = 0 }

/-- The point of the grid of step `10 ^ exponent` that is nearest to the number among those that
round to it; an even point is taken at equal distance. -/
def Rounding.nearest? (r : Rounding) (exponent : Int) : Option Decimal :=
  let up := if exponent < 0 then Nat.pow 10 exponent.natAbs else 1
  let step := if exponent < 0 then r.den else r.den * Nat.pow 10 exponent.natAbs
  let inside (c : Nat) : Bool :=
    if r.closed then r.low * up ≤ c * step && c * step ≤ r.high * up
    else r.low * up < c * step && c * step < r.high * up
  let floor := r.value * up / step
  let rest := 2 * (r.value * up % step)
  let upward := step < rest || (rest = step && floor % 2 = 1)
  let (first,second) := if upward then (floor + 1,floor) else (floor,floor + 1)
  if inside first then some ⟨first,exponent⟩
  else if inside second then some ⟨second,exponent⟩
  else none

/-- The fewest digits, at most 17, that lie among the numbers rounding to `x`; `x` is finite and not zero. -/
def shortest (x : Double) : Decimal :=
  let r := rounding x
  let top := magnitude r.value r.den
  ((List.range 17).findSome? fun (n : Nat) => r.nearest? (top - n)).getD ⟨r.value / r.den,0⟩

/-- Which powers of ten are written without an exponent. -/
structure Layout where
  leastPlain : Int
  firstExponential : Int

def zeros (n : Nat) : List Char := List.replicate n '0'

/-- Digits with a point and at least one digit on each side of it, or one digit, the others after a
point, and a signed power of ten. -/
def render (layout : Layout) (d : Decimal) : String :=
  let all := Nat.toDigits 10 d.digits
  let kept := (all.reverse.dropWhile (· = '0')).reverse
  let point : Int := all.length + d.exponent
  let power := point - 1
  if layout.leastPlain ≤ power && power < layout.firstExponential then
    if point ≤ 0 then String.ofList ('0' :: '.' :: zeros point.natAbs ++ kept)
    else
      let whole := kept.take point.toNat
      let fraction := kept.drop point.toNat
      String.ofList (whole ++ zeros (point.toNat - whole.length) ++ '.' ::
        (if fraction.isEmpty then ['0'] else fraction))
  else
    let mantissa := kept.take 1 ++ (if kept.length ≤ 1 then [] else '.' :: kept.drop 1)
    String.ofList (mantissa ++ ['e',if power < 0 then '-' else '+'] ++ Nat.toDigits 10 power.natAbs)

end Decimal
end SchemaBinding
