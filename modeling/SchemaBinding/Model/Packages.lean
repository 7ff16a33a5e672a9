import SchemaBinding.Model.Corpus

/-! Packages. Documents form groups that share directories; the package of a document is a given package,
and below it the directories between those of its group and its own. -/
namespace SchemaBinding
namespace Packages

/-- The pieces of a URI between slashes; empty ones do not count. -/
def segments (uri : String) : List String :=
  ((uri.toList.splitOn '/').map String.ofList).filter (· ≠ "")

def commonPrefix : List String → List String → List String
  | s :: ss, t :: ts => if s = t then s :: commonPrefix ss ts else []
  | _, _ => []

/-- Whether two documents share no more than the scheme of their URIs. -/
def isUnrelated : List String → Bool
  | [] => true
  | [scheme] => scheme.toList.getLast? = some ':'
  | _ => false

/-- The group of the documents in the common directory. -/
def commonGroup : Nat := 0

def isBelow (directory? : Option String) (uri : String) : Bool :=
  directory?.any fun directory => directory.toList.isPrefixOf uri.toList

/-- Groups by number, the number of the newest group, and the document that joined it last. -/
structure Grouping where
  groups : OrderedMap Nat (List String) := {}
  newest : Nat := commonGroup
  previous : Option String := none

namespace Grouping

def join (g : Grouping) (number : Nat) (uri : String) : OrderedMap Nat (List String) :=
  (g.groups.insertNew number []).adjust number (· ++ [uri])

/-- Whether a document opens a group. -/
def opens (g : Grouping) (uri : String) : Bool :=
  g.previous.all fun previous => isUnrelated (commonPrefix (segments previous) (segments uri))

/-- Takes the next document in order. -/
def take (common? : Option String) (g : Grouping) (uri : String) : Grouping :=
  if isBelow common? uri then { g with groups := g.join commonGroup uri }
  else
    let number := if g.opens uri then g.newest + 1 else g.newest
    { groups := g.join number uri, newest := number, previous := some uri }

end Grouping

/-- The groups of documents. Each document joins that of its neighbour in order, or opens one; those in
the common directory have a group of their own. -/
def group (uris : List String) (common? : Option String) : OrderedMap Nat (List String) :=
  ((uris.mergeSort fun a b => a ≤ b).foldl (Grouping.take common?) {}).groups

/-- The segments that all documents of a group share. A single one does not count its file name. -/
def baseOf : List String → List String
  | [] => []
  | [uri] => (segments uri).dropLast
  | uri :: rest => rest.foldl (fun shared u => commonPrefix shared (segments u)) (segments uri)

/-- The part of a list after another that begins it; empty if it does not. -/
def stripPrefix : List String → List String → List String
  | rest, [] => rest
  | s :: ss, t :: ts => if s = t then stripPrefix ss ts else []
  | [], _ :: _ => []

def packageOf (base : List String) (package uri : String) : String :=
  let suffix := ".".intercalate (stripPrefix (segments uri).dropLast base)
  if suffix = "" then package else package ++ "." ++ suffix

/-- Every document with its package. -/
def assignments (uris : List String) (package : String) (common? : Option String) : List (String × String) :=
  (group uris common?).values.flatMap fun members =>
    members.map fun uri => (uri,packageOf (baseOf members) package uri)

end Packages

/-- Puts the classes of every document in its package. -/
def Corpus.assignPackages (c : Corpus) (package : String) (common? : Option String) : Corpus where
  documents :=
    let assigned := Packages.assignments c.uris package common?
    c.documents.map fun uri classes =>
      match assigned.lookup uri with
      | some p => Class.assignPackages p classes
      | none => classes

end SchemaBinding
