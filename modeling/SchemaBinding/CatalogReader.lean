import SchemaBinding.PathNumber
import SchemaBinding.Resolver
import SchemaBinding.Xml.Element

/-! Catalogs read from files. -/
namespace SchemaBinding
namespace Catalog
open Xml (Element)

/-- What a URI can be given for. -/
inductive Identifier where
  | system (text : String)
  | name (text : String)
deriving Repr, DecidableEq

structure Mapping where
  identifier : Identifier
  uri : String
deriving Repr, DecidableEq

def put (c : Catalog) (m : Mapping) : Catalog :=
  match m.identifier with
  | .system text => c.addSystem text m.uri
  | .name text => c.addName text m.uri

/-- What an element of a catalog says. -/
inductive Entry where
  | mapping (m : Mapping)
  /-- Another catalog, relative to the directory of this one. -/
  | next (path : String)
deriving Repr, DecidableEq

/-- The mapping of an element to the URI it has, from what an attribute names. -/
def Entry.ofMapping? (e : Element) (key : String) (identifier : String → Identifier) : Option Entry :=
  match e.attribute? key, e.attribute? "uri" with
  | some text, some uri => some (.mapping { identifier := identifier text, uri })
  | _, _ => none

/-- The entry an element stands for, if it has the attributes for it. -/
def Entry.ofElement? (e : Element) : Option Entry :=
  match e.name with
  | "system" => Entry.ofMapping? e "systemId" .system
  | "uri" => Entry.ofMapping? e "name" .name
  | "nextCatalog" => (e.attribute? "catalog").map .next
  | _ => none

mutual

/-- The entries that a child of a catalog stands for; for a group those in it, in order. -/
def entriesOf : Element → List Entry
  | e@{ children, .. } => if e.name = "group" then entriesAmong children else (Entry.ofElement? e).toList

def entriesAmong : List Element → List Entry
  | [] => []
  | e :: rest => entriesOf e ++ entriesAmong rest

end

/-- Reads the text of the catalog at `path`. -/
def parse (path : Path) (text : String) : Except Failure (List Entry) :=
  let fail (message : String) : Except Failure (List Entry) :=
    .error (.parse { message, location := some path.text })
  match Element.parse (Utf8.encodeString text) with
  | .error e => .error e
  | .ok none => fail "Empty catalog document"
  | .ok (some root) =>
    if root.name ≠ "catalog" then fail ("Expected catalog root element, got " ++ root.name)
    else .ok (entriesAmong root.children)

/-- The entries of the catalog in a file. -/
def contentAt (disk : Disk) (path : Path) : Except Failure (List Entry) :=
  match disk.readText path with
  | .error fault => .error (.resource (.unreadableCatalog path.text fault))
  | .ok text => parse path text

/-- The entries of a catalog; one that cannot be read has none. -/
def entriesAt (disk : Disk) (path : Path) : List Entry := (contentAt disk path).toOption.getD []

theorem not_isRefused_of_contentAt {disk : Disk} {path : Path} {es : List Entry} (h : contentAt disk path = .ok es) :
    ¬ Disk.isRefused path := by
  rw [contentAt] at h
  cases hread : disk.readText path with
  | error fault =>
    rw [hread] at h
    cases h
  | ok text => exact Disk.not_isRefused_of_readText hread

/-- Where the catalog at `path` looks for another one. -/
def beside (path : Path) (other : String) : Path := path.parent?.getD ⟨""⟩ / ⟨other⟩

/-- A catalog as far as it has been read, and what ended the reading if something did. -/
structure Progress where
  catalog : Catalog
  failure : Option Failure := none

/-- The catalog that was read, unless something ended the reading. -/
def Progress.outcome : Progress → Except Failure Catalog
  | { catalog, failure := none } => .ok catalog
  | { failure := some e, .. } => .error e

/-- A mapping as it is found in the catalog at `path`, to the URI it stands for. -/
def Mapping.resolve (disk : Disk) (path : Path) (m : Mapping) : Except Failure Mapping :=
  (Location.resolve disk (some path.text) m.uri).map fun uri => { m with uri }

/-! Going on uses up entries, and going down to another catalog uses up a path that a file can be read at. -/

mutual

/-- Takes up entries up to the first failure. Of another catalog only what has been read of it is taken up,
since a failure there does not matter here. -/
def takeEntries (disk : Disk) (above : List Path) (path : Path) (c : Catalog) : List Entry → Option Progress
  | [] => some { catalog := c }
  | .mapping m :: rest =>
    match m.resolve disk path with
    | .ok m => takeEntries disk above path (c.put m) rest
    | .error e => some { catalog := c, failure := some e }
  | .next other :: rest => do
    let p ← load disk (path :: above) c (beside path other)
    takeEntries disk above path p.catalog rest
termination_by es => (Disk.unused (path :: above),es.length + 1)
decreasing_by all_goals exact .right _ (by simp)

/-- Reads a file on top of a catalog, with all the files it leads to. There is no result if it is one of those
`above`, which are being read already: what leads back to itself is read without an end. -/
def load (disk : Disk) (above : List Path) (c : Catalog) (path : Path) : Option Progress :=
  if _ : path ∈ above then none
  else match _h : contentAt disk path with
    | .error e => some { catalog := c, failure := some e }
    | .ok es => takeEntries disk above path c es
termination_by (Disk.unused above,0)
decreasing_by exact .left _ _ (Disk.unused_lt ‹path ∉ above› (not_isRefused_of_contentAt ‹contentAt disk path = _›))

end

/-- The catalog in a file, if the reading of it has an end. -/
def ofFile (disk : Disk) (path : Path) : ExceptT Failure Option Catalog :=
  (load disk [] {} path).map Progress.outcome

end Catalog
end SchemaBinding
