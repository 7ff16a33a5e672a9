import SchemaBinding.Decimal.Double
import SchemaBinding.Toml.Value
import SchemaBinding.Uri.Percent

/-! Values without quotes: flags, numbers, dates and times. -/
namespace SchemaBinding
namespace Toml
namespace Scalar

/-! ## Numbers -/

/-- Digits with single underscores between them, if any; gives the digits alone. -/
def grouped? (isDigit : Char → Bool) (cs : List Char) : Option (List Char) :=
  let groups := cs.splitOn '_'
  if groups.all fun g => !g.isEmpty && g.all isDigit then some groups.flatten else none

/-- Decimal digits; the first of several is not zero. -/
def decimal? (cs : List Char) : Option (List Char) :=
  match cs with
  | '0' :: _ :: _ => none
  | cs => grouped? Char.isDigit cs

def isSign (c : Char) : Bool := c = '+' || c = '-'

/-- A text without its sign, and whether the sign is minus. -/
def unsigned (cs : List Char) : Bool × List Char :=
  match cs with
  | '+' :: cs => (false,cs)
  | '-' :: cs => (true,cs)
  | cs => (false,cs)

/-- The largest integer. -/
def largest : Nat := 9223372036854775807

def valueOf (base : Nat) (digits : List Char) : Nat :=
  digits.foldl (fun n c => n * base + (Uri.Percent.hexValue? c).getD 0) 0

def based? (base : Nat) (cs : List Char) : Option Int :=
  match grouped? (fun c => (Uri.Percent.hexValue? c).any (· < base)) cs with
  | none => none
  | some digits => if valueOf base digits ≤ largest then some (valueOf base digits) else none

def integer? (cs : List Char) : Option Int :=
  match cs with
  | '0' :: 'x' :: cs => based? 16 cs
  | '0' :: 'o' :: cs => based? 8 cs
  | '0' :: 'b' :: cs => based? 2 cs
  | cs =>
    let (negative,cs) := unsigned cs
    match decimal? cs with
    | none => none
    | some digits =>
      let n := valueOf 10 digits
      if negative then (if n ≤ largest + 1 then some (-n) else none)
      else if n ≤ largest then some n else none

/-- The part of a number from the exponent on, if any. -/
def isExponent (cs : List Char) : Bool :=
  match cs with
  | [] => true
  | c :: cs => (c = 'e' || c = 'E') && (grouped? Char.isDigit (unsigned cs).2).isSome

/-- The part of a number after its whole part: a fraction, an exponent, or both. -/
def isFraction (cs : List Char) : Bool :=
  match cs with
  | '.' :: cs =>
    (grouped? Char.isDigit (cs.takeWhile fun c => c ≠ 'e' && c ≠ 'E')).isSome &&
      isExponent (cs.dropWhile fun c => c ≠ 'e' && c ≠ 'E')
  | [] => false
  | cs => isExponent cs

/-- A number with a fraction or an exponent, or infinity or no number. It may not be too large to be a
double. -/
def isFloat (cs : List Char) : Bool :=
  let (_,rest) := unsigned cs
  if rest = "inf".toList || rest = "nan".toList then true
  else
    let inWhole (c : Char) : Bool := c.isDigit || c = '_'
    (decimal? (rest.takeWhile inWhole)).isSome && isFraction (rest.dropWhile inWhole) &&
      (Double.ofChars? (cs.filter (· ≠ '_'))).all fun x => x.isNegative || x.isFinite

/-! ## Dates and times -/

/-- Reads digits, as many as `count`, for a number from `low` to `high`. -/
def digits? (count low high : Nat) (cs : List Char) : Option (Nat × List Char) :=
  let digits := cs.take count
  let n := valueOf 10 digits
  if digits.length = count && digits.all Char.isDigit && low ≤ n && n ≤ high then some (n,cs.drop count)
  else none

def char? (c : Char) (cs : List Char) : Option (List Char) :=
  match cs with
  | d :: rest => if c = d then some rest else none
  | [] => none

def isLeapYear (year : Nat) : Bool := year % 4 = 0 && (year % 100 ≠ 0 || year % 400 = 0)

def daysIn (year month : Nat) : Nat :=
  if month = 2 then (if isLeapYear year then 29 else 28)
  else if [4,6,9,11].contains month then 30
  else 31

def date? (cs : List Char) : Option (List Char) := do
  let (year,cs) ← digits? 4 0 9999 cs
  let cs ← char? '-' cs
  let (month,cs) ← digits? 2 1 12 cs
  let cs ← char? '-' cs
  let (_,cs) ← digits? 2 1 (daysIn year month) cs
  return cs

/-- The part of a second, if any. -/
def secondPart? (cs : List Char) : Option (List Char) :=
  match cs with
  | '.' :: cs => if (cs.takeWhile Char.isDigit).isEmpty then none else some (cs.dropWhile Char.isDigit)
  | cs => some cs

def time? (cs : List Char) : Option (List Char) := do
  let (_,cs) ← digits? 2 0 23 cs
  let cs ← char? ':' cs
  let (_,cs) ← digits? 2 0 59 cs
  let cs ← char? ':' cs
  let (_,cs) ← digits? 2 0 60 cs
  secondPart? cs

/-- The distance from universal time, if any. -/
def offset? (cs : List Char) : Option (List Char) :=
  match cs with
  | [] => some []
  | c :: rest =>
    if c = 'Z' || c = 'z' then some rest
    else if isSign c then do
      let (_,rest) ← digits? 2 0 23 rest
      let rest ← char? ':' rest
      let (_,rest) ← digits? 2 0 59 rest
      return rest
    else none

def isTimeWithOffset (cs : List Char) : Bool := ((time? cs).bind offset?) = some []

def isDate (cs : List Char) : Bool := date? cs = some []

/-- A date, a time, or both with a `T` between them. -/
def isMoment (cs : List Char) : Bool :=
  time? cs = some [] ||
    match date? cs with
    | none => false
    | some [] => true
    | some (c :: rest) => (c = 'T' || c = 't') && isTimeWithOffset rest

/-! ## Reading -/

/-- Characters of values without quotes. -/
def isPart (c : Char) : Bool := c.isAlphanum || c = '+' || c = '-' || c = '.' || c = '_' || c = ':'

def value? (cs : List Char) : Option Value :=
  if cs = "true".toList then some (.flag true)
  else if cs = "false".toList then some (.flag false)
  else if isMoment cs then some .moment
  else if isFloat cs then some .float
  else (integer? cs).map .integer

/-- Reads a value without quotes. A blank may stand between a date and a time. -/
def read? (cs : List Char) : Option (Value × List Char) :=
  let part := cs.takeWhile isPart
  let rest := cs.dropWhile isPart
  match isDate part, rest with
  | true, ' ' :: d :: more =>
    if d.isDigit then
      if isTimeWithOffset ((d :: more).takeWhile isPart) then some (.moment,(d :: more).dropWhile isPart)
      else none
    else some (.moment,rest)
  | _, _ => (value? part).map fun v => (v,rest)

end Scalar
end Toml
end SchemaBinding
