import SchemaBinding.OrderedMap
import SchemaBinding.Name.Prefixed

/-! Namespaces: qualified names and the declarations in force at a place of a document. -/
namespace SchemaBinding

namespace Namespace

def schema : String := "http://www.w3.org/2001/XMLSchema"
def service : String := "http://schemas.xmlsoap.org/wsdl/"
def soap : String := "http://schemas.xmlsoap.org/wsdl/soap/"
def soap12 : String := "http://schemas.xmlsoap.org/wsdl/soap12/"

end Namespace

/-- A local name with the namespace it belongs to, if any. -/
structure QualifiedName where
  space : Option String
  localName : String
deriving Repr, DecidableEq, Inhabited

namespace QualifiedName

def isBuiltin (q : QualifiedName) : Bool := q.space = some Namespace.schema

/-- The namespace in braces before the local name. -/
def text (q : QualifiedName) : String :=
  match q.space with
  | some uri => "\x7b" ++ uri ++ "\x7d" ++ q.localName
  | none => q.localName

end QualifiedName

/-- The declarations in force: namespaces by prefix, and the default one. -/
structure Scope where
  prefixes : OrderedMap String String := {}
  default : Option String := none
deriving DecidableEq, Inhabited

namespace Scope

def declare (s : Scope) (pre uri : String) : Scope :=
  { s with prefixes := s.prefixes.insert pre uri }

def declareDefault (s : Scope) (uri : String) : Scope :=
  { s with default := some uri }

def lookup (s : Scope) (pre : String) : Option String := s.prefixes.get? pre

/-- Takes over the declarations of an enclosing scope that `s` does not make itself. -/
def inherit (s outer : Scope) : Scope where
  prefixes := outer.prefixes.entries.foldl (fun m e => m.insertNew e.1 e.2) s.prefixes
  default := s.default.or outer.default

/-- A name with an unknown prefix has no namespace; one without a prefix is in the default namespace. -/
def resolve (s : Scope) (name : String) : QualifiedName :=
  match Prefixed.split name with
  | (some pre,localName) => ⟨s.lookup pre,localName⟩
  | (none,localName) => ⟨s.default,localName⟩

/-- The prefix declarations in the order of the prefixes. -/
def declarations (s : Scope) : List (String × String) :=
  s.prefixes.entries.mergeSort fun a b => a.1 ≤ b.1

end Scope
end SchemaBinding
