import SchemaBinding.Uri.Basic
import SchemaBinding.Uri.Drive

/-! The segments of a path. A segment `.` leaves the path as it is and `..` takes the last segment away,
also when their dots are percent-encoded; where one of them ends the path, an empty segment follows. Tabs
and line ends inside a segment do not count, except after a drive letter. -/
namespace SchemaBinding
namespace Uri
namespace Segments

def isBreak (c : Char) : Bool := c = '\t' || c = '\n' || c = '\x0d'

def skipBreaks (cs : List Char) : List Char := cs.dropWhile isBreak

def withoutBreaks (cs : List Char) : List Char := cs.filter (! isBreak ·)

def isSingleDot (segment : List Char) : Bool :=
  String.ofList (segment.map Char.toLower) ∈ [".","%2e"]

def isDoubleDot (segment : List Char) : Bool :=
  String.ofList (segment.map Char.toLower) ∈ ["..","%2e.",".%2e","%2e%2e"]

def isSlash (kind : SchemeKind) (c : Char) : Bool :=
  c = '/' || (kind.isSpecial && c = '\\')

/-! Segments that have been read are held from the last one back. -/

/-- Takes the last segment away, unless it begins with a drive letter. -/
def shorten : List (List Char) → List (List Char)
  | [] => []
  | last :: rest => if Drive.startsWithDrive (last ++ ['/']) then last :: rest else rest

/-- Adds an encoded segment to those before it. -/
def push (done : List (List Char)) (isLast : Bool) (segment : List Char) : List (List Char) :=
  if isDoubleDot segment then
    if isLast then [] :: shorten done else shorten done
  else if isSingleDot segment then
    if isLast then [] :: done else done
  else segment :: done

/-- A text between two slashes, encoded. -/
structure Piece where
  text : List Char
  /-- Whether a tab or line end stands after the first two characters. -/
  isCut : Bool := false
deriving Repr, DecidableEq

def Piece.read (cs : List Char) : Piece where
  text := Percent.encode Percent.inPath (withoutBreaks cs)
  isCut := ((skipBreaks ((skipBreaks cs).drop 1)).drop 1).head?.any isBreak

/-- The first segment of a `file` path may be a drive letter, which is written with a colon. Where a tab
or line end cuts a drive letter off, the rest of the piece becomes a segment of its own, dots or not. -/
def pushFirstOfFile (isLast : Bool) (piece : Piece) : List (List Char) :=
  match piece.text with
  | [a,b] => if Drive.isDrive [a,b] then [[a,':']] else push [] isLast [a,b]
  | a :: b :: rest =>
    if piece.isCut && Drive.isNormalDrive [a,b] then [rest,[a,b]] else push [] isLast piece.text
  | _ => push [] isLast piece.text

def step (kind : SchemeKind) (done : List (List Char)) (isLast : Bool) (piece : Piece) :
    List (List Char) :=
  if done.isEmpty && kind = .file then pushFirstOfFile isLast piece else push done isLast piece.text

def pushAll (kind : SchemeKind) (done : List (List Char)) : List Piece → List (List Char)
  | [] => done
  | piece :: rest => pushAll kind (step kind done rest.isEmpty piece) rest

/-- Whether a drive letter becomes the first segment of a `file` path. -/
def meetsDrive (done : List (List Char)) : List Piece → Bool
  | [] => false
  | piece :: rest =>
    (done.isEmpty && Drive.isDrive piece.text) || meetsDrive (step .file done rest.isEmpty piece) rest

/-- A `file` path has no empty segments in front. -/
def dropLeadingEmpty (segments : List (List Char)) : List (List Char) :=
  match segments.dropWhile List.isEmpty with
  | [] => [[]]
  | rest => rest

def pieces (kind : SchemeKind) (path : List Char) : List Piece :=
  (path.splitOnP (isSlash kind)).map Piece.read

/-- Reads the text of a path below the segments `done`, and gives the segments of the whole path. -/
def read (kind : SchemeKind) (done : List String) (path : List Char) : List String :=
  let all := (pushAll kind (done.reverse.map String.toList) (pieces kind path)).reverse
  (if kind = .file then dropLeadingEmpty all else all).map String.ofList

end Segments
end Uri
end SchemaBinding
