import SchemaBinding.Decimal.Double
import SchemaBinding.Namespaces
import SchemaBinding.Schema.Occurrence

/-! Schemas as data: the references of a document to others, and what it declares. -/
namespace SchemaBinding

/-- How one schema document takes in another. -/
inductive ReferenceKind where
  | importing
  | including
  | redefining
  | overriding
deriving Repr, DecidableEq, Inhabited

namespace ReferenceKind

def name : ReferenceKind → String
  | .importing => "import"
  | .including => "include"
  | .redefining => "redefine"
  | .overriding => "override"

def ofName? : String → Option ReferenceKind
  | "import" => some .importing
  | "include" => some .including
  | "redefine" => some .redefining
  | "override" => some .overriding
  | _ => none

theorem ofName?_name (k : ReferenceKind) : ofName? k.name = some k := by cases k <;> rfl

/-- Whether the reference holds new versions of components. -/
def redefines : ReferenceKind → Bool
  | .redefining | .overriding => true
  | .importing | .including => false

end ReferenceKind

structure SchemaReference where
  kind : ReferenceKind
  /-- The URI of the other document, if the reference leads anywhere. -/
  location : Option String := none
  /-- The location as it is written. -/
  written : Option String := none
  space : Option String := none
deriving Repr, DecidableEq, Inhabited

structure Facets where
  minExclusive : Option Double := none
  minInclusive : Option Double := none
  maxExclusive : Option Double := none
  maxInclusive : Option Double := none
  minLength : Option Nat := none
  maxLength : Option Nat := none
  length : Option Nat := none
  totalDigits : Option Nat := none
  fractionDigits : Option Nat := none
  whiteSpace : Option String := none
  pattern : Option String := none
deriving Repr, DecidableEq, Inhabited

/-- How a simple type is made from others. -/
inductive Variety where
  | restriction
  | list (item : Option String)
  | union (members : List String)
deriving Repr, DecidableEq, Inhabited

structure SimpleType where
  name : Option String := none
  help : Option String := none
  base : Option String := none
  variety : Variety := .restriction
  enumerations : List String := []
  facets : Facets := {}
deriving Repr, DecidableEq, Inhabited

structure AttributeDeclaration where
  name : Option String := none
  reference : Option String := none
  type : Option String := none
  required : Bool := false
  default : Option String := none
  fixed : Option String := none
  help : Option String := none
  simpleType : Option SimpleType := none
deriving Repr, DecidableEq, Inhabited

mutual

structure ElementDeclaration where
  name : Option String := none
  reference : Option String := none
  type : Option String := none
  occurs : Occurrence := {}
  default : Option String := none
  fixed : Option String := none
  nillable : Bool := false
  isAbstract : Bool := false
  help : Option String := none
  complexType : Option ComplexType := none
  simpleType : Option SimpleType := none
deriving Repr, Inhabited

structure ComplexType where
  name : Option String := none
  help : Option String := none
  mixed : Bool := false
  isAbstract : Bool := false
  base : Option String := none
  simpleContent : Bool := false
  particles : List Particle := []
  attributes : List AttributeDeclaration := []
  /-- The names of attribute groups. -/
  attributeGroups : List String := []
  anyAttribute : Bool := false
deriving Repr, Inhabited

/-- A member of a content model whose compositors are gone. -/
inductive Particle where
  | element (declaration : ElementDeclaration)
  | group (reference : String) (occurs : Occurrence)
  | any (space : Option String) (occurs : Occurrence)
deriving Repr, Inhabited

end

structure Group where
  name : String
  help : Option String := none
  particles : List Particle := []
deriving Repr, Inhabited

structure AttributeGroup where
  name : String
  help : Option String := none
  attributes : List AttributeDeclaration := []
  attributeGroups : List String := []
  anyAttribute : Bool := false
deriving Repr, DecidableEq, Inhabited

structure Schema where
  location : Option String := none
  /-- The namespace of the components, declared or taken over. -/
  targetNamespace : Option String := none
  scope : Scope := {}
  references : List SchemaReference := []
  elements : List ElementDeclaration := []
  attributes : List AttributeDeclaration := []
  complexTypes : List ComplexType := []
  simpleTypes : List SimpleType := []
  groups : List Group := []
  attributeGroups : List AttributeGroup := []
deriving Inhabited

end SchemaBinding
