import SchemaBinding.Model.Class
import SchemaBinding.OrderedMap

/-! The classes of many documents, by the URI of the document. -/
namespace SchemaBinding

structure Corpus where
  documents : OrderedMap String (List Class) := {}
deriving Inhabited

namespace Corpus

/-- Adds classes to those of a document. A document without classes counts too. -/
def record (c : Corpus) (uri : String) (classes : List Class) : Corpus where
  documents := (c.documents.insertNew uri []).adjust uri (· ++ classes)

def get? (c : Corpus) (uri : String) : Option (List Class) := c.documents.get? uri

def contains (c : Corpus) (uri : String) : Bool := c.documents.contains uri

def uris (c : Corpus) : List String := c.documents.keys

def size (c : Corpus) : Nat := c.documents.size

def isEmpty (c : Corpus) : Bool := c.documents.isEmpty

/-- The classes of all documents, in the order in which the documents came. -/
def allClasses (c : Corpus) : List Class := c.documents.values.flatten

def count (c : Corpus) : Class.Count := Class.count c.allClasses

theorem uris_record (c : Corpus) (uri : String) (classes : List Class) :
    (c.record uri classes).uris = if uri ∈ c.uris then c.uris else c.uris ++ [uri] := by
  simp only [record,uris,OrderedMap.keys_adjust,OrderedMap.keys_insertNew]
  split <;> simp_all

theorem isSome_get? {c : Corpus} {uri : String} : (c.get? uri).isSome ↔ uri ∈ c.uris := OrderedMap.isSome_get?

theorem get?_record (c : Corpus) (uri other : String) (classes : List Class) :
    (c.record uri classes).get? other =
      if other = uri then some ((c.get? uri).getD [] ++ classes) else c.get? other :=
  c.documents.get?_adjust_insertNew uri other classes

end Corpus
end SchemaBinding
