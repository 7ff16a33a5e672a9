import SchemaBinding.Uri.Percent

/-! Texts in quotes: in quotation marks with escapes or in apostrophes without, and in three of them over
several lines. One character is read at a time. -/
namespace SchemaBinding
namespace Toml
namespace Quoted

structure Style where
  quote : Char
  escapes : Bool
  long : Bool
deriving Repr, DecidableEq

inductive Mode where
  | plain
  /-- After a carriage return, which a line feed follows. -/
  | carriage
  /-- After a backslash. -/
  | escape
  /-- In a code point, with the digits left and its value so far. -/
  | digits (left value : Nat)
  /-- In the blanks between a backslash and the end of its line. -/
  | gap
  /-- In the blanks and line ends after that. -/
  | skip
  /-- After a carriage return in them. -/
  | skipCarriage
  /-- After quotes in a text of several lines. -/
  | quotes (count : Nat)
deriving Repr, DecidableEq

inductive Step where
  /-- Reading goes on. What is read is kept newest first. -/
  | more (mode : Mode) (done : List Char)
  /-- The text is over, with the character read. -/
  | over (done : List Char)
  /-- The text was over before the character read. -/
  | overBefore (done : List Char)
  | failed
deriving Repr, DecidableEq

/-- Characters that stand for themselves: no controls but the tab. -/
def isPlain (c : Char) : Bool := c = '\t' || (0x20 ≤ c.toNat && c.toNat ≠ 0x7F)

def isGap (c : Char) : Bool := c = ' ' || c = '\t'

def shortEscape? : Char → Option Char
  | 'b' => some '\x08'
  | 'f' => some '\x0C'
  | 'n' => some '\n'
  | 'r' => some '\r'
  | 't' => some '\t'
  | '"' => some '"'
  | '\\' => some '\\'
  | _ => none

def Style.plainStep (s : Style) (done : List Char) (c : Char) : Step :=
  if c = s.quote then (if s.long then .more (.quotes 1) done else .over done)
  else if s.escapes && c = '\\' then .more .escape done
  else if s.long && c = '\n' then .more .plain ('\n' :: done)
  else if s.long && c = '\r' then .more .carriage done
  else if isPlain c then .more .plain (c :: done)
  else .failed

def Style.escapeStep (s : Style) (done : List Char) (c : Char) : Step :=
  match shortEscape? c with
  | some e => .more .plain (e :: done)
  | none =>
    if c = 'u' then .more (.digits 4 0) done
    else if c = 'U' then .more (.digits 8 0) done
    else if s.long && isGap c then .more .gap done
    else if s.long && c = '\n' then .more .skip done
    else if s.long && c = '\r' then .more .skipCarriage done
    else .failed

def digitStep (left value : Nat) (done : List Char) (c : Char) : Step :=
  match Uri.Percent.hexValue? c with
  | none => .failed
  | some d =>
    let value := value * 16 + d
    if 1 < left then .more (.digits (left - 1) value) done
    else if value.isValidChar then .more .plain (Char.ofNat value :: done)
    else .failed

/-- Three quotes end a text of several lines, and up to two more before them belong to it. -/
def Style.quotesStep (s : Style) (count : Nat) (done : List Char) (c : Char) : Step :=
  if c = s.quote then .more (.quotes (count + 1)) done
  else if count < 3 then s.plainStep (List.replicate count s.quote ++ done) c
  else if count < 6 then .overBefore (List.replicate (count - 3) s.quote ++ done)
  else .failed

def Style.step (s : Style) (done : List Char) (c : Char) : Mode → Step
  | .plain => s.plainStep done c
  | .carriage => if c = '\n' then .more .plain ('\n' :: done) else .failed
  | .escape => s.escapeStep done c
  | .digits left value => digitStep left value done c
  | .gap =>
    if isGap c then .more .gap done
    else if c = '\n' then .more .skip done
    else if c = '\r' then .more .skipCarriage done
    else .failed
  | .skip =>
    if isGap c || c = '\n' then .more .skip done
    else if c = '\r' then .more .skipCarriage done
    else s.plainStep done c
  | .skipCarriage => if c = '\n' then .more .skip done else .failed
  | .quotes count => s.quotesStep count done c

/-- Reads up to the end of the text; gives it with the characters after it. -/
def Style.read (s : Style) (mode : Mode) (done : List Char) : List Char → Option (String × List Char)
  | [] =>
    match mode with
    | .quotes count =>
      if 3 ≤ count && count < 6 then
        some (String.ofList (List.replicate (count - 3) s.quote ++ done).reverse,[])
      else none
    | _ => none
  | c :: cs =>
    match s.step done c mode with
    | .more mode done => s.read mode done cs
    | .over done => some (String.ofList done.reverse,cs)
    | .overBefore done => some (String.ofList done.reverse,c :: cs)
    | .failed => none

/-- A line end right after the opening quotes does not count. -/
def afterOpening : List Char → List Char
  | '\n' :: cs => cs
  | '\r' :: '\n' :: cs => cs
  | cs => cs

/-- Reads a text on one line, from its opening quote on. -/
def short? : List Char → Option (String × List Char)
  | [] => none
  | c :: cs =>
    if c = '"' then Style.read { quote := '"', escapes := true, long := false } .plain [] cs
    else if c = '\'' then Style.read { quote := '\'', escapes := false, long := false } .plain [] cs
    else none

/-- Reads a text on one or more lines, from its opening quotes on. -/
def any? (cs : List Char) : Option (String × List Char) :=
  if ['"','"','"'].isPrefixOf cs then
    Style.read { quote := '"', escapes := true, long := true } .plain [] (afterOpening (cs.drop 3))
  else if ['\'','\'','\''].isPrefixOf cs then
    Style.read { quote := '\'', escapes := false, long := true } .plain [] (afterOpening (cs.drop 3))
  else short? cs

end Quoted
end Toml
end SchemaBinding
