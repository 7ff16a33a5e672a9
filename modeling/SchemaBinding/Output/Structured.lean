import SchemaBinding.Decimal.Shortest

/-! Structured values and their text: one item on a line, two blanks for a level. The fields of a record
stay in the order in which they are given. -/
namespace SchemaBinding
namespace Output

inductive Value where
  | flag (value : Bool)
  | natural (value : Nat)
  | double (value : Double)
  | text (value : String)
  | list (items : List Value)
  | record (fields : List (String × Value))
deriving Repr, Inhabited

namespace Value

/-- How a character stands in a quoted text. -/
def escape (c : Char) : List Char :=
  match c with
  | '"' => ['\\','"']
  | '\\' => ['\\','\\']
  | '\n' => ['\\','n']
  | '\r' => ['\\','r']
  | '\t' => ['\\','t']
  | '\x08' => ['\\','b']
  | '\x0C' => ['\\','f']
  | c =>
    if c.toNat < 0x20 then
      ['\\','u','0','0',(c.toNat / 16).digitChar,(c.toNat % 16).digitChar]
    else [c]

def quote (s : String) : String :=
  String.ofList ('"' :: s.toList.flatMap escape ++ ['"'])

/-- A number that is no finite one is null. -/
def doubleText (x : Double) : String :=
  if !x.isFinite then "null"
  else if x.magnitudeBits = 0 then (if x.isNegative then "-0.0" else "0.0")
  else (if x.isNegative then "-" else "") ++
    Decimal.render { leastPlain := -5, firstExponential := 16 } (Decimal.shortest x)

def newLine (level : Nat) : String := String.ofList ('\n' :: List.replicate (2 * level) ' ')

mutual

/-- The text of a value whose first line is already indented to `level`. -/
def render (level : Nat) : Value → String
  | .flag value => if value then "true" else "false"
  | .natural value => toString value
  | .double value => doubleText value
  | .text value => quote value
  | .list [] => "[]"
  | .list (item :: rest) =>
    "[" ++ newLine (level + 1) ++ render (level + 1) item ++ renderItems (level + 1) rest ++ newLine level ++ "]"
  | .record [] => "\x7b\x7d"
  | .record ((name,value) :: rest) =>
    "\x7b" ++ newLine (level + 1) ++ quote name ++ ": " ++ render (level + 1) value ++
      renderFields (level + 1) rest ++ newLine level ++ "\x7d"

def renderItems (level : Nat) : List Value → String
  | [] => ""
  | item :: rest => "," ++ newLine level ++ render level item ++ renderItems level rest

def renderFields (level : Nat) : List (String × Value) → String
  | [] => ""
  | (name,value) :: rest =>
    "," ++ newLine level ++ quote name ++ ": " ++ render level value ++ renderFields level rest

end

/-- A field that is left out when there is no value. -/
def optionalText (name : String) (text? : Option String) : List (String × Value) :=
  (text?.map fun text => (name,.text text)).toList

end Value
end Output
end SchemaBinding
