import SchemaBinding.Location

/-! References to documents, looked up in a catalog before they are resolved as locations. -/
namespace SchemaBinding

/-- Identifiers with the URIs that stand for them. System identifiers come before names. -/
structure Catalog where
  systems : OrderedMap String String := {}
  names : OrderedMap String String := {}
deriving DecidableEq, Inhabited

namespace Catalog

def addSystem (c : Catalog) (identifier uri : String) : Catalog :=
  { c with systems := c.systems.insert identifier uri }

def addName (c : Catalog) (name uri : String) : Catalog :=
  { c with names := c.names.insert name uri }

def lookup (c : Catalog) (identifier : String) : Option String :=
  (c.systems.get? identifier).or (c.names.get? identifier)

def size (c : Catalog) : Nat := c.systems.size + c.names.size

def isEmpty (c : Catalog) : Bool := c.systems.isEmpty && c.names.isEmpty

end Catalog

structure Resolver where
  disk : Disk
  catalog : Catalog := {}
deriving Inhabited

/-- The URI of a reference found in the document at `base?`. -/
def Resolver.resolve (r : Resolver) (base? : Option String) (reference : String) : Except Failure String :=
  match r.catalog.lookup reference with
  | some uri => .ok uri
  | none => Location.resolve r.disk base? reference

/-- A document that is read: where it is, the namespace it takes if it declares none, and what resolves
its references. -/
structure Reading where
  resolver : Resolver
  location : Option String := none
  targetNamespace : Option String := none
deriving Inhabited

namespace Reading

def fail {α : Type} (r : Reading) (message : String) : Except Failure α :=
  .error (.parse { message, location := r.location })

/-- The URI of a reference, if it has one. -/
def resolve? (r : Reading) (reference : String) : Option String :=
  (r.resolver.resolve r.location reference).toOption

end Reading
end SchemaBinding
