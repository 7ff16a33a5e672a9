import SchemaBinding.Toml.Quoted
import SchemaBinding.Toml.Scalar

/-! Documents of tables: lines with headers, or with keys and values. Values in brackets and braces may be
nested, and only so deep. -/
namespace SchemaBinding
namespace Toml

/-! ## Blanks and comments -/

def skipBlanks (cs : List Char) : List Char := cs.dropWhile Quoted.isGap

def lineEnd? : List Char → Option (List Char)
  | '\n' :: cs => some cs
  | '\r' :: '\n' :: cs => some cs
  | _ => none

/-- What comes after a comment, if one begins here. -/
def skipComment (cs : List Char) : List Char :=
  match cs with
  | '#' :: cs => cs.dropWhile Quoted.isPlain
  | cs => cs

/-- The end of a line: blanks, a comment if any, and a line end or the end of the document. -/
def restOfLine? (cs : List Char) : Option (List Char) :=
  match skipComment (skipBlanks cs) with
  | [] => some []
  | cs => lineEnd? cs

/-- Skips up to `steps` lines that hold blanks and comments only, and the blanks after them. -/
def skipLines : Nat → List Char → List Char
  | 0, cs => skipBlanks cs
  | steps + 1, cs =>
    match lineEnd? (skipComment (skipBlanks cs)) with
    | some cs => skipLines steps cs
    | none => skipBlanks cs

/-! ## Keys -/

/-- The number of levels that a value or a key may have. -/
def mostLevels : Nat := 79

def isBare (c : Char) : Bool := c.isAlphanum || c = '_' || c = '-'

def simpleKey? (cs : List Char) : Option (String × List Char) :=
  match cs.takeWhile isBare with
  | [] => Quoted.short? cs
  | name => some (String.ofList name,cs.dropWhile isBare)

/-- Reads a key of up to `levels` names with dots between them; blanks around the names do not count. -/
def key? : Nat → List Char → Option (Key × List Char)
  | 0, _ => none
  | levels + 1, cs =>
    match simpleKey? (skipBlanks cs) with
    | none => none
    | some (name,cs) =>
      match skipBlanks cs with
      | '.' :: cs => (key? levels cs).map fun (key,cs) => ({ key with path := name :: key.path },cs)
      | cs => some (⟨[],name⟩,cs)

/-- Reads a key and the equals sign after it. -/
def assignedKey? (cs : List Char) : Option (Key × List Char) :=
  (key? mostLevels cs).bind fun (key,cs) =>
    match cs with
    | '=' :: cs => some (key,skipBlanks cs)
    | _ => none

/-! ## Values -/

mutual

/-- Reads a value. Each step takes a character at least, so the length of the text is enough for them;
`levels` is the number of brackets and braces that may still open. -/
def value? : Nat → Nat → List Char → Option (Value × List Char)
  | 0, _, _ => none
  | steps + 1, levels, cs =>
    match cs, levels with
    | '[' :: rest, levels + 1 => items? steps levels [] (skipLines steps rest)
    | '{' :: rest, levels + 1 =>
      match skipBlanks rest with
      | '}' :: rest => some (.table .closed [],rest)
      | rest => pairs? steps levels [] rest
    | '"' :: _, _ | '\'' :: _, _ => (Quoted.any? cs).map fun (s,rest) => (.text s,rest)
    | _, _ => Scalar.read? cs

/-- Reads the items of a list up to its end, one comma after each but the last. -/
def items? : Nat → Nat → List Value → List Char → Option (Value × List Char)
  | 0, _, _, _ => none
  | steps + 1, levels, done, cs =>
    match cs with
    | ']' :: rest => some (.list done.reverse,rest)
    | cs =>
      match value? steps levels cs with
      | none => none
      | some (v,rest) =>
        match skipLines steps rest with
        | ',' :: rest => items? steps levels (v :: done) (skipLines steps rest)
        | ']' :: rest => some (.list (v :: done).reverse,rest)
        | _ => none

/-- Reads the keys and values of a table in braces up to its end. -/
def pairs? : Nat → Nat → Entries → List Char → Option (Value × List Char)
  | 0, _, _, _ => none
  | steps + 1, levels, done, cs =>
    match assignedKey? cs with
    | none => none
    | some (key,rest) =>
      match value? steps levels rest with
      | none => none
      | some (v,rest) =>
        match Entries.put v key.name key.path true done, skipBlanks rest with
        | some done, ',' :: rest => pairs? steps levels done rest
        | some done, '}' :: rest => some (.table .closed done,rest)
        | _, _ => none

end

/-! ## Documents -/

/-- Reads a header after its opening brackets. -/
def header? (d : Draft) (entry : String → Entries → Option Entries) (closing cs : List Char) :
    Option (Draft × List Char) :=
  (key? mostLevels cs).bind fun (key,cs) =>
    if closing.isPrefixOf cs then
      (restOfLine? (cs.drop closing.length)).bind fun cs => (d.header key entry).map fun d => (d,cs)
    else none

/-- Reads a key, its value and the rest of the line. -/
def assignment? (d : Draft) (cs : List Char) : Option (Draft × List Char) :=
  (assignedKey? cs).bind fun (key,cs) =>
    (value? (2 * cs.length + 2) mostLevels cs).bind fun (v,cs) =>
      (restOfLine? cs).bind fun cs => (d.assign key v).map fun d => (d,cs)

/-- Reads a header or an assignment. -/
def line? (d : Draft) (cs : List Char) : Option (Draft × List Char) :=
  match cs with
  | '[' :: '[' :: cs => header? d Entries.openAnother [']',']'] cs
  | '[' :: cs => header? d Entries.openTable [']'] cs
  | cs => assignment? d cs

/-- Reads a document line by line; each line has a character at least. -/
def lines? : Nat → Draft → List Char → Option Draft
  | 0, _, _ => none
  | steps + 1, d, cs =>
    match skipBlanks cs with
    | [] => some d
    | c :: cs =>
      if c = '#' || c = '\n' || c = '\r' then (restOfLine? (c :: cs)).bind (lines? steps d)
      else (line? d (c :: cs)).bind fun (d,cs) => lines? steps d cs

/-- The entries of a document. A byte order mark at the beginning does not count. -/
def parse? (text : String) : Option Entries :=
  let cs := match text.toList with
    | '\uFEFF' :: cs => cs
    | cs => cs
  (lines? (cs.length + 1) {} cs).map Draft.root

end Toml
end SchemaBinding
