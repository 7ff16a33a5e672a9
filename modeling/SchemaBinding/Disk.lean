import SchemaBinding.Failure
import SchemaBinding.OrderedMap
import SchemaBinding.Path
import SchemaBinding.Text.Utf8

/-! A tree of directories and files, held as the content of each file and the list of directories, both
by their names from the root down. The root always exists. No entry is a link. -/
namespace SchemaBinding

structure Disk where
  files : OrderedMap (List String) Bytes := {}
  directories : List (List String) := []
  workingDirectory : List String := []
deriving Inhabited

namespace Disk

def isDirectoryAt (d : Disk) (here : List String) : Bool :=
  here.isEmpty || d.directories.contains here

def isFileAt (d : Disk) (here : List String) : Bool := d.files.contains here

/-- Follows pieces of a path from a place. Every piece but the last has to lead to a directory, and a
last piece that is empty or made of dots too. -/
def follow (d : Disk) (here : List String) : List String → Option (List String)
  | [] => some here
  | piece :: rest =>
    if !d.isDirectoryAt here then none
    else if piece = "" || piece = "." then d.follow here rest
    else if piece = ".." then d.follow here.dropLast rest
    else if d.isDirectoryAt (here ++ [piece]) || d.isFileAt (here ++ [piece]) then d.follow (here ++ [piece]) rest
    else none

def start (d : Disk) (p : Path) : List String :=
  if p.isAbsolute then [] else d.workingDirectory

/-- A path that is too long or holds a NUL leads nowhere, and nothing can be made along it. -/
def isRefused (p : Path) : Bool := 4096 ≤ p.text.utf8ByteSize || p.text.toList.contains '\x00'

/-- The place an existing path leads to. -/
def locate? (d : Disk) (p : Path) : Option (List String) :=
  if p.text = "" || isRefused p then none else d.follow (d.start p) p.pieces

def fileExists (d : Disk) (p : Path) : Bool := (d.locate? p).isSome

def isFile (d : Disk) (p : Path) : Bool := (d.locate? p).any d.isFileAt

def pathOf (here : List String) : Path := ⟨"/" ++ "/".intercalate here⟩

/-- The path of an existing place from the root, without detours. -/
def canonical? (d : Disk) (p : Path) : Option Path := (d.locate? p).map pathOf

/-- A relative path put below the working directory. -/
def absolute (d : Disk) (p : Path) : Path :=
  if p.isAbsolute then p else pathOf d.workingDirectory / p

def read (d : Disk) (p : Path) : Except ReadFault Bytes :=
  if p.text.toList.contains '\x00' then .error .nullInPath
  else match (d.locate? p).bind d.files.get? with
    | none => .error .unavailable
    | some bytes => .ok bytes

def readText (d : Disk) (p : Path) : Except ReadFault String :=
  (d.read p).bind fun bytes =>
    match Utf8.decodeString? bytes with
    | none => .error .notUtf8
    | some s => .ok s

/-- The names of the files directly in a directory, in order. -/
def fileNames (d : Disk) (here : List String) : List String :=
  let names := d.files.keys.filterMap fun k => if k.dropLast = here then k.getLast? else none
  names.mergeSort fun a b => a ≤ b

/-- A name that an entry can have. -/
def isEntryName (name : String) : Bool :=
  name ≠ "" && name ≠ "." && name ≠ ".." && !name.toList.contains '\x00' && name.utf8ByteSize ≤ 255

/-- Makes the directories that a path needs, from the outside in; gives the disk as it is after the
first step that fails. -/
def makeDirectories (d : Disk) (here : List String) : List String → Disk × Option (List String)
  | [] => (d,some here)
  | piece :: rest =>
    if piece = "" || piece = "." then d.makeDirectories here rest
    else if piece = ".." then d.makeDirectories here.dropLast rest
    else if d.isDirectoryAt (here ++ [piece]) then d.makeDirectories (here ++ [piece]) rest
    else if d.isFileAt (here ++ [piece]) || !isEntryName piece then (d,none)
    else
      let made : Disk := { d with directories := d.directories ++ [here ++ [piece]] }
      made.makeDirectories (here ++ [piece]) rest

def createDirectories (d : Disk) (p : Path) : Disk × Except Failure Unit :=
  if p.text = "" then (d,.ok ())
  else if isRefused p then (d,.error .io)
  else
    let (d,place) := d.makeDirectories (d.start p) p.pieces
    (d,if place.isSome then .ok () else .error .io)

/-- Writes a file in an existing directory, anew or over the file that is there. -/
def write (d : Disk) (p : Path) (content : Bytes) : Disk × Except Failure Unit :=
  match p.pieces.getLast? with
  | none => (d,.error .io)
  | some name =>
    match d.follow (d.start p) p.pieces.dropLast with
    | none => (d,.error .io)
    | some here =>
      if isRefused p || !d.isDirectoryAt here || !isEntryName name || d.isDirectoryAt (here ++ [name]) then (d,.error .io)
      else ({ d with files := d.files.insert (here ++ [name]) content },.ok ())

/-- Writes a file after making the directories above it. -/
def place (d : Disk) (p : Path) (content : Bytes) : Disk × Except Failure Unit :=
  match p.parent? with
  | none => d.write p content
  | some directory =>
    match d.createDirectories directory with
    | (d,.error e) => (d,.error e)
    | (d,.ok ()) => d.write p content

/-- Every file below a directory by its path from there, in the order of the paths. -/
def tree (d : Disk) (p : Path) : List (String × Bytes) :=
  match d.locate? p with
  | none => []
  | some here =>
    let below := d.files.entries.filterMap fun e =>
      if here.isPrefixOf e.1 && here ≠ e.1 then some ("/".intercalate (e.1.drop here.length),e.2) else none
    below.mergeSort fun a b => a.1 ≤ b.1

/-- Puts a file, or a directory if there is no content, where pieces from the root lead, with the
directories above it. -/
def mount (d : Disk) (pieces : List String) (content : Option Bytes) : Disk :=
  match content with
  | none => (d.makeDirectories [] pieces).1
  | some bytes =>
    match d.makeDirectories [] pieces.dropLast with
    | (d,some here) => { d with files := d.files.insert (here ++ pieces.getLast?.toList) bytes }
    | (d,none) => d

end Disk
end SchemaBinding
