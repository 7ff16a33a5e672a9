import SchemaBinding.Decimal.Double

/-! Natural numbers as they stand in attribute values. -/
namespace SchemaBinding
namespace Natural

/-- The largest number of 64 bits. -/
def largest : Nat := 18446744073709551615

/-- Decimal digits after a plus sign if any, up to `largest`. -/
def ofChars? (cs : List Char) : Option Nat :=
  let digits := match cs with
    | '+' :: cs => cs
    | cs => cs
  if digits.isEmpty || !digits.all Char.isDigit then none
  else
    let n := Double.natOfDigits digits
    if n ≤ largest then some n else none

end Natural
end SchemaBinding
