import SchemaBinding.Schema.Basic

/-! Classes: what a schema says about data, without regard to how the classes are written down. A class
has fields, and inner classes for the types that have no name of their own. -/
namespace SchemaBinding

/-- What a class or a field is made from. -/
inductive Kind where
  | element
  | attribute
  | enumeration
  | extension
  | restriction
  | complexType
  | simpleType
  | group
  | attributeGroup
  | any
  | anyAttribute
  | list
  | union
deriving Repr, DecidableEq, Inhabited

namespace Kind

def name : Kind → String
  | .element => "element"
  | .attribute => "attribute"
  | .enumeration => "enumeration"
  | .extension => "extension"
  | .restriction => "restriction"
  | .complexType => "complexType"
  | .simpleType => "simpleType"
  | .group => "group"
  | .attributeGroup => "attributeGroup"
  | .any => "any"
  | .anyAttribute => "anyAttribute"
  | .list => "list"
  | .union => "union"

def all : List Kind :=
  [.element,.attribute,.enumeration,.extension,.restriction,.complexType,.simpleType,.group,
    .attributeGroup,.any,.anyAttribute,.list,.union]

def ofName? (name : String) : Option Kind := all.find? (·.name = name)

theorem ofName?_name (k : Kind) : ofName? k.name = some k := by cases k <;> decide

/-- Whether the fields of a class of this kind stand for references to it. -/
def isGroup : Kind → Bool
  | .group | .attributeGroup => true
  | _ => false

end Kind

structure Field where
  name : String
  /-- The name in generated code. -/
  localName : String := name
  /-- The name of the type as it is written. -/
  type : String
  kind : Kind
  /-- The name under which the type is imported, if that is another one. -/
  typeAlias : Option String := none
  space : Option String := none
  help : Option String := none
  /-- Whether the type is an inner class of the class of the field. -/
  forward : Bool := false
  default : Option String := none
  required : Option Bool := none
  occurs : Occurrence := {}
  facets : Facets := {}
deriving Repr, DecidableEq, Inhabited

/-- The value of a restriction. -/
inductive RestrictionValue where
  | flag (value : Bool)
  | count (value : Nat)
  | bound (value : Double)
  | text (value : String)
deriving Repr, DecidableEq

namespace Field

def isList (f : Field) : Bool := f.occurs.max.any (1 < ·)

def isEnumeration (f : Field) : Bool := f.kind = .enumeration

/-- The restrictions that are there, with their names. -/
def restrictions (f : Field) : List (String × RestrictionValue) :=
  [("required",f.required.map .flag),
    ("min_occurs",f.occurs.min.map .count),
    ("max_occurs",f.occurs.max.map .count),
    ("min_exclusive",f.facets.minExclusive.map .bound),
    ("max_exclusive",f.facets.maxExclusive.map .bound),
    ("min_inclusive",f.facets.minInclusive.map .bound),
    ("max_inclusive",f.facets.maxInclusive.map .bound),
    ("min_length",f.facets.minLength.map .count),
    ("max_length",f.facets.maxLength.map .count),
    ("length",f.facets.length.map .count),
    ("fraction_digits",f.facets.fractionDigits.map .count),
    ("pattern",f.facets.pattern.map .text),
    ("total_digits",f.facets.totalDigits.map .count),
    ("white_space",f.facets.whiteSpace.map .text)].filterMap fun r => r.2.map fun value => (r.1,value)

end Field

structure Class where
  name : String
  /-- The name in generated code. -/
  localName : String := name
  kind : Kind
  /-- Whether the class stands for something that a document can name. -/
  isRoot : Bool
  space : Option String := none
  help : Option String := none
  /-- The names of the types it extends. -/
  extensions : List String := []
  fields : List Field := []
  inner : List Class := []
  package : Option String := none
deriving Repr, Inhabited

namespace Class

/-- The first field tells an enumeration. -/
def isEnumeration (c : Class) : Bool := c.fields.head?.any Field.isEnumeration

mutual

/-- The number of classes below a class. -/
def innerCount : Class → Nat
  | { inner, .. } => totalCount inner

/-- The number of classes in a list, with all below them. -/
def totalCount : List Class → Nat
  | [] => 0
  | c :: rest => 1 + c.innerCount + totalCount rest

end

/-- The numbers of classes in a list and of those below them. -/
structure Count where
  main : Nat
  inner : Nat
deriving Repr, DecidableEq, Inhabited

def count (cs : List Class) : Count where
  main := cs.length
  inner := cs.foldl (fun n c => n + c.innerCount) 0

mutual

def assignPackage (package : String) : Class → Class
  | c@{ inner, .. } => { c with package := some package, inner := assignPackages package inner }

/-- Puts classes and all below them in one package. -/
def assignPackages (package : String) : List Class → List Class
  | [] => []
  | c :: rest => c.assignPackage package :: assignPackages package rest

end

theorem assignPackages_eq_map (package : String) (cs : List Class) :
    assignPackages package cs = cs.map (assignPackage package) := by
  induction cs with
  | nil => rfl
  | cons c cs ih => rw [assignPackages,ih,List.map_cons]

end Class
end SchemaBinding
