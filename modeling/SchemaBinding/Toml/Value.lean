/-! Tables of settings. A table grows line by line; how it came to be decides what may still be added to it. -/
namespace SchemaBinding
namespace Toml

/-- How a table came to be. -/
inductive Origin where
  /-- Written out in braces. -/
  | closed
  /-- By a key with dots. -/
  | dotted
  /-- By a header further in. -/
  | implied
  /-- By its own header. -/
  | opened
deriving Repr, DecidableEq, Inhabited

inductive Value where
  | text (value : String)
  | integer (value : Int)
  | float
  | flag (value : Bool)
  /-- A date or a time or both. -/
  | moment
  | list (items : List Value)
  | table (origin : Origin) (entries : List (String × Value))
  /-- Tables of the same header, in order. -/
  | tables (entries : List (List (String × Value)))
deriving Repr, Inhabited

abbrev Entries := List (String × Value)

namespace Entries

def has (es : Entries) (key : String) : Bool := (es.lookup key).isSome

/-- Changes the value of a key, in place. -/
def replace (es : Entries) (key : String) (value : Value) : Entries :=
  es.map fun e => if e.1 = key then (key,value) else e

/-- Adds a value under a key with dots. Tables on the way are made, or made before in the same manner; a
table that only a header implies is passed through and takes no value itself. -/
def put (value : Value) (key : String) : List String → Bool → Entries → Option Entries
  | [], free, es => if free && !es.has key then some (es ++ [(key,value)]) else none
  | k :: path, _, es =>
    match es.lookup k with
    | none => (put value key path true []).map fun sub => es ++ [(k,.table .dotted sub)]
    | some (.table .dotted sub) => (put value key path true sub).map fun sub => es.replace k (.table .dotted sub)
    | some (.table .implied sub) =>
      (put value key path false sub).map fun sub => es.replace k (.table .implied sub)
    | some (.tables (last :: before)) =>
      (put value key path false last).map fun last => es.replace k (.tables (last :: before))
    | _ => none

/-- Changes the table at a path. Tables on the way are made if need be; of tables of the same header the
newest counts. -/
def modifyAt (f : Entries → Option Entries) : List String → Entries → Option Entries
  | [], es => f es
  | k :: path, es =>
    match es.lookup k with
    | none => (modifyAt f path []).map fun sub => es ++ [(k,.table .implied sub)]
    | some (.table .closed _) => none
    | some (.table origin sub) => (modifyAt f path sub).map fun sub => es.replace k (.table origin sub)
    | some (.tables (last :: before)) =>
      (modifyAt f path last).map fun last => es.replace k (.tables (last :: before))
    | _ => none

/-- The header of a table. A table has one header only. -/
def openTable (key : String) (es : Entries) : Option Entries :=
  match es.lookup key with
  | none => some (es ++ [(key,.table .opened [])])
  | some (.table .implied sub) => some (es.replace key (.table .opened sub))
  | _ => none

/-- The header of one more table among those of the same header, newest first. -/
def openAnother (key : String) (es : Entries) : Option Entries :=
  match es.lookup key with
  | none => some (es ++ [(key,.tables [[]])])
  | some (.tables ts) => some (es.replace key (.tables ([] :: ts)))
  | _ => none

end Entries

/-- A key: the names before the last dot, and the one after it. -/
structure Key where
  path : List String
  name : String
deriving Repr, DecidableEq, Inhabited

/-- The tables read so far, and where the lines that follow belong. -/
structure Draft where
  root : Entries := []
  current : List String := []
deriving Inhabited

namespace Draft

def header (d : Draft) (key : Key) (entry : String → Entries → Option Entries) : Option Draft :=
  (d.root.modifyAt (entry key.name) key.path).map fun root => { root, current := key.path ++ [key.name] }

def assign (d : Draft) (key : Key) (value : Value) : Option Draft :=
  (d.root.modifyAt (Entries.put value key.name key.path true) d.current).map fun root => { d with root }

end Draft
end Toml
end SchemaBinding
