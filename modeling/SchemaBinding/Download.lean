import SchemaBinding.Service.Reader
import SchemaBinding.Supply

/-! Downloads. A download keeps documents, with all they refer to, as files below a directory. References by
relative paths keep their layout. A document referred to by a URL goes next to the document that refers to
it, and its reference is changed to lead there. -/
namespace SchemaBinding
namespace Download

/-! ## Changing references -/

def occursIn (pattern : List Char) : List Char → Bool
  | [] => pattern.isEmpty
  | c :: cs => pattern.isPrefixOf (c :: cs) || occursIn pattern cs

/-- Replaces what has not been read yet, where `skip` characters still belong to the last place found.
What is done is kept newest first. -/
def replaceInto (pattern replacement : List Char) (done : List Char) : Nat → List Char → List Char
  | _, [] => done.reverse
  | skip + 1, _ :: cs => replaceInto pattern replacement done skip cs
  | 0, c :: cs =>
    if pattern.isPrefixOf (c :: cs) then
      replaceInto pattern replacement (replacement.reverseAux done) (pattern.length - 1) cs
    else replaceInto pattern replacement (c :: done) 0 cs

/-- Replaces each place of a pattern that is not empty, from left to right. -/
def replaceAll (pattern replacement text : List Char) : List Char :=
  replaceInto pattern replacement [] 0 text

/-- The text of a document that is kept. -/
structure Source where
  text : String
  modified : Bool := false
deriving Repr, DecidableEq, Inhabited

/-- An attribute as it stands in the text of a document. -/
def spelled (name : String) (quote : Char) (value : String) : List Char :=
  name.toList ++ '=' :: quote :: value.toList ++ [quote]

/-- The spellings of an attribute that holds a location. -/
def spellings : List (String × Char) :=
  [("schemaLocation",'"'),("schemaLocation",'\''),("location",'"'),("location",'\'')]

namespace Source

def replaceSpelling (s : Source) (name : String) (quote : Char) (old new : String) : Source :=
  if occursIn (spelled name quote old) s.text.toList then
    { text := String.ofList (replaceAll (spelled name quote old) (spelled name quote new) s.text.toList)
      modified := true }
  else s

/-- Changes a location wherever an attribute holds it. -/
def replaceLocation (s : Source) (old new : String) : Source :=
  if old = new then s
  else spellings.foldl (fun s spelling => s.replaceSpelling spelling.1 spelling.2 old new) s

end Source

/-! ## References -/

/-- A reference in a document, as it is written, and the URI it leads to. -/
structure Link where
  uri : String
  written : String
deriving Repr, DecidableEq

def Link.of? (location written : Option String) : Option Link :=
  match location, written with
  | some uri, some written => some { uri, written }
  | _, _ => none

def schemaLinks (s : Schema) : List Link := s.references.filterMap fun r => Link.of? r.location r.written

/-- Those of the schemas come first. -/
def definitionLinks (d : Definitions) : List Link :=
  d.schemas.flatMap schemaLinks ++ d.imports.filterMap fun i => Link.of? i.location i.written

/-- Whether a document holds service definitions, by the end of its URI. -/
def isService (uri : String) : Bool := "wsdl".toList.isSuffixOf uri.toList

/-- The references of a document; a document that cannot be read has none. -/
def links (r : Resolver) (uri : String) (bytes : Bytes) : List Link :=
  let reading : Reading := { resolver := r, location := some uri }
  if isService uri then
    match Definitions.read reading bytes with
    | .ok d => definitionLinks d
    | .error _ => []
  else
    match Schema.read reading bytes with
    | .ok s => schemaLinks s
    | .error _ => []

def Link.isUrl (disk : Disk) (l : Link) : Bool := Location.classify disk l.written matches .url _

/-- The reference as it stands in the document that is kept. -/
def Link.relative (disk : Disk) (l : Link) : String :=
  if l.isUrl disk then Location.fileName l.uri else l.written

/-- Where the document a reference leads to is kept. What would lie outside the root is put into it. -/
def Link.target (disk : Disk) (root directory : Path) (l : Link) : Path :=
  let target := (directory / ⟨l.relative disk⟩).normalize
  if target.startsWith root then target else root / ⟨Location.fileName l.uri⟩

/-- The text of a document with its references as they stand when it is kept. -/
def relocate (disk : Disk) (text : String) (ls : List Link) : Source :=
  ls.foldl (fun s l => s.replaceLocation l.written (l.relative disk)) { text }

/-! ## Walking -/

/-- The disk as it is, the documents kept with their files, and what ended the walk if something did. -/
structure Progress where
  disk : Disk
  kept : OrderedMap String Path := {}
  failure : Option Failure := none
  /-- The URIs of documents that could not be fetched. -/
  missing : List String := []

/-- The URIs of all documents the walk asked for. -/
def Progress.requested (p : Progress) : List String := p.kept.keys ++ p.missing

def Progress.write (p : Progress) (target : Path) (text : String) : Progress :=
  if p.failure.isSome then p
  else match p.disk.place target (Utf8.encodeString text) with
    | (disk,.ok ()) => { p with disk }
    | (disk,.error e) => { p with disk, failure := some e }

/-- Keeps a document after all it refers to. What cannot be fetched is passed over, and each document is
fetched once. -/
def fetch (supply : Supply) (catalog : Catalog) (root : Path) : Nat → Progress → String → Path → Progress
  | 0, p, _, _ => p
  | levels + 1, p, uri, target =>
    if p.failure.isSome || p.kept.contains uri then p
    else match supply.fetch p.disk uri with
      | .error _ => { p with missing := p.missing ++ [uri] }
      | .ok bytes =>
        let disk := p.disk
        let ls := links { disk, catalog } uri bytes
        let directory := target.parent?.getD root
        let p := ls.foldl
          (fun p l => fetch supply catalog root levels p l.uri (l.target disk root directory))
          { p with kept := p.kept.insert uri target }
        p.write target (relocate disk (Utf8.decodeLossy bytes) ls).text

end Download

structure Download where
  supply : Supply := .disk {} true
  catalog : Catalog := {}
  directory : Path
  /-- Every document kept so far, with its file. -/
  kept : OrderedMap String Path := {}

namespace Download

/-- The directory of a package: one level for each of its parts. -/
def rootOf (d : Download) (package : String) : Path :=
  d.directory / Path.ofPieces ((package.toList.splitOn '.').map String.ofList)

/-- Keeps documents below the directory of a package. -/
def walk (disk : Disk) (d : Download) (uris : List String) (package : String) : Progress :=
  let root := d.rootOf package
  uris.foldl
    (fun p uri => fetch d.supply d.catalog root d.supply.levels p uri (root / ⟨Location.fileName uri⟩))
    { disk, kept := d.kept }

/-- Keeps documents, and gives the files of all documents kept so far. -/
def process (disk : Disk) (d : Download) (uris : List String) (package : String) :
    Download × Disk × Except Failure (List Path) :=
  let p := d.walk disk uris package
  ({ d with kept := p.kept },p.disk,
    match p.failure with
    | some e => .error e
    | none => .ok p.kept.values)

end Download
end SchemaBinding
