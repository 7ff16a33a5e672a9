/-! File paths as text, with the slash as separator. Empty pieces and pieces `.` say nothing about where
a path leads, except a leading `.`; operations keep the text of the pieces they do not touch. -/
namespace SchemaBinding

structure Path where
  text : String
deriving Repr, DecidableEq, Inhabited

namespace Path

inductive Component where
  | root
  | current
  | parent
  | normal (name : String)
deriving Repr, DecidableEq

def Component.text : Component → String
  | .root => "/"
  | .current => "."
  | .parent => ".."
  | .normal name => name

def isAbsolute (p : Path) : Bool := p.text.toList.head? = some '/'

/-- The pieces between the slashes, without the one before a leading slash. -/
def pieces (p : Path) : List String :=
  match p.text.toList with
  | '/' :: cs => (cs.splitOn '/').map String.ofList
  | cs => (cs.splitOn '/').map String.ofList

def Component.ofPiece (piece : String) : Component :=
  if piece = ".." then .parent else .normal piece

def componentsOfPieces (pieces : List String) : List Component :=
  (pieces.filter fun s => s ≠ "" && s ≠ ".").map Component.ofPiece

/-- What a path leads through, in order. -/
def components (p : Path) : List Component :=
  if p.isAbsolute then .root :: componentsOfPieces p.pieces
  else if p.pieces.head? = some "." then .current :: componentsOfPieces p.pieces
  else componentsOfPieces p.pieces

/-- Puts `q` below `p`; an absolute `q` stands alone. -/
def join (p q : Path) : Path :=
  if q.isAbsolute || p.text = "" then q
  else if p.text.toList.getLast? = some '/' then ⟨p.text ++ q.text⟩
  else ⟨p.text ++ "/" ++ q.text⟩

instance : Div Path := ⟨join⟩

def ofPieces (pieces : List String) : Path :=
  pieces.foldl (fun p s => p / ⟨s⟩) ⟨""⟩

/-- Whether a piece counts as a component, given whether it begins a relative path. -/
def counts (leading : Bool) (piece : String) : Bool :=
  piece ≠ "" && (piece ≠ "." || leading)

/-- Drops empty pieces and pieces `.` from the end, up to a leading `.`. -/
def trimPieces (absolute : Bool) : List String → List String
  | [] => []
  | s :: rest =>
    match trimPieces true rest with
    | [] => if counts (!absolute) s then [s] else []
    | rest => s :: rest

def ofTrimmed (absolute : Bool) (pieces : List String) : Path :=
  ⟨(if absolute then "/" else "") ++ "/".intercalate pieces⟩

/-- The path without its last component; there is none for a root and for the empty path. -/
def parent? (p : Path) : Option Path :=
  match trimPieces p.isAbsolute p.pieces with
  | [] => none
  | pieces => some (ofTrimmed p.isAbsolute (trimPieces p.isAbsolute pieces.dropLast))

def fileName? (p : Path) : Option String :=
  match p.components.getLast? with
  | some (.normal name) => some name
  | _ => none

/-- A name divided at its last dot; a leading dot does not divide. -/
def splitExtension (name : String) : String × Option String :=
  let cs := name.toList.reverse
  match cs.dropWhile (· ≠ '.') with
  | _ :: stem@(_ :: _) => (String.ofList stem.reverse,some (String.ofList (cs.takeWhile (· ≠ '.')).reverse))
  | _ => (name,none)

/-- A name with an extension put after it; an empty one leaves it as it is. -/
def extendName (stem extension : String) : String :=
  if extension = "" then stem else stem ++ "." ++ extension

/-- The path with the extension of its file name set; a path without a file name stays. -/
def withExtension (p : Path) (extension : String) : Path :=
  match p.fileName? with
  | none => p
  | some name =>
    let pieces := trimPieces p.isAbsolute p.pieces
    ofTrimmed p.isAbsolute (pieces.dropLast ++ [extendName (splitExtension name).1 extension])

/-- Whether `p` lies at or below `root`, component by component. -/
def startsWith (p root : Path) : Bool :=
  root.components.isPrefixOf p.components

/-- Reads a component onto the components so far, innermost first. `..` takes back the innermost one,
and stays where there is none to take back. -/
def normalizeStep (stack : List Component) : Component → List Component
  | .root => [.root]
  | .current => stack
  | .parent =>
    match stack with
    | [] => [.parent]
    | .root :: _ => .parent :: stack
    | _ :: rest => rest
  | .normal name => .normal name :: stack

def normalComponents (p : Path) : List Component :=
  (p.components.foldl normalizeStep []).reverse

def ofComponents (cs : List Component) : Path :=
  cs.foldl (fun p c => p / ⟨c.text⟩) ⟨""⟩

def normalize (p : Path) : Path := ofComponents p.normalComponents

end Path
end SchemaBinding
