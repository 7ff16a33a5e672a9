import SchemaBinding.Decimal.Natural
import SchemaBinding.Resolver
import SchemaBinding.Schema.Basic
import SchemaBinding.Xml.Element

/-! Schemas read from elements. Elements count by their local names, and what is not known is passed over. -/
namespace SchemaBinding
namespace Xml
namespace Element

/-! ## Values of attributes -/

def flag (e : Element) (name : String) : Bool :=
  match e.attribute? name with
  | some value => value = "true" || value = "1"
  | none => false

def natural? (e : Element) (name : String) : Option Nat :=
  (e.attribute? name).bind fun value => Natural.ofChars? (Blank.trimChars value.toList)

def double? (e : Element) (name : String) : Option Double :=
  (e.attribute? name).bind fun value => Double.ofChars? (Blank.trimChars value.toList)

def maxOccurs? (e : Element) : Option Nat :=
  if e.attribute? "maxOccurs" = some "unbounded" then some unbounded else e.natural? "maxOccurs"

def occurrence (e : Element) : Occurrence := { min := e.natural? "minOccurs", max := e.maxOccurs? }

/-- The texts of the documentation in the annotations, one on a line. -/
def documentation? (e : Element) : Option String :=
  let found := (e.childrenNamed "annotation").flatMap (·.childrenNamed "documentation")
  match (found.map fun d => Blank.trim d.textContent).filter (· ≠ "") with
  | [] => none
  | texts => some ("\n".intercalate texts)

/-! ## Simple types and attributes -/

/-- Takes up a facet other than enumerations and patterns. -/
def takeFacet (f : Facets) (e : Element) : Facets :=
  match e.name with
  | "whiteSpace" => { f with whiteSpace := e.attribute? "value" }
  | "minExclusive" => { f with minExclusive := e.double? "value" }
  | "minInclusive" => { f with minInclusive := e.double? "value" }
  | "maxExclusive" => { f with maxExclusive := e.double? "value" }
  | "maxInclusive" => { f with maxInclusive := e.double? "value" }
  | "minLength" => { f with minLength := e.natural? "value" }
  | "maxLength" => { f with maxLength := e.natural? "value" }
  | "length" => { f with length := e.natural? "value" }
  | "totalDigits" => { f with totalDigits := e.natural? "value" }
  | "fractionDigits" => { f with fractionDigits := e.natural? "value" }
  | _ => f

/-- The values of the children with a local name. -/
def valuesOf (e : Element) (name : String) : List String :=
  (e.childrenNamed name).filterMap (·.attribute? "value")

/-- The facets of a restriction on top of others. Several patterns are alternatives. -/
def facets (e : Element) (f : Facets) : Facets :=
  let f := e.children.foldl takeFacet f
  match e.valuesOf "pattern" with
  | [] => f
  | patterns => { f with pattern := some ("|".intercalate patterns) }

/-- Takes up a child of a simple type. -/
def takeDerivation (t : SimpleType) (e : Element) : SimpleType :=
  match e.name with
  | "restriction" => { t with
      base := e.attribute? "base"
      enumerations := t.enumerations ++ e.valuesOf "enumeration"
      facets := e.facets t.facets }
  | "list" => { t with variety := .list (e.attribute? "itemType") }
  | "union" => { t with variety := .union (((e.attribute? "memberTypes").map Blank.fields).getD []) }
  | _ => t

def simpleType (e : Element) : SimpleType :=
  e.children.foldl takeDerivation { name := e.attribute? "name", help := e.documentation? }

def attributeDeclaration (e : Element) : AttributeDeclaration where
  name := e.attribute? "name"
  reference := e.attribute? "ref"
  type := e.attribute? "type"
  required := e.attribute? "use" = some "required"
  default := e.attribute? "default"
  fixed := e.attribute? "fixed"
  help := e.documentation?
  simpleType := (e.child? "simpleType").map simpleType

/-- Takes up a child of an attribute group. -/
def takeAttributeMember (g : AttributeGroup) (e : Element) : AttributeGroup :=
  match e.name with
  | "attribute" => { g with attributes := g.attributes ++ [e.attributeDeclaration] }
  | "attributeGroup" => { g with attributeGroups := g.attributeGroups ++ (e.attribute? "ref").toList }
  | "anyAttribute" => { g with anyAttribute := true }
  | _ => g

def attributeGroup (e : Element) : AttributeGroup :=
  e.children.foldl takeAttributeMember
    { name := (e.attribute? "name").getD "", help := e.documentation? }

/-! ## Content models -/

def isCompositor (name : String) : Bool := name = "sequence" || name = "choice" || name = "all"

/-- The surroundings of what stands in a compositor. -/
def surroundings (e : Element) (outer : Surroundings) : Surroundings :=
  outer.nest (e.name = "choice") e.occurrence

/-- A reference to a group; a group without one is no particle. -/
def groupParticle? (e : Element) (around : Surroundings) : Option Particle :=
  (e.attribute? "ref").map fun reference => .group reference (around.apply e.occurrence)

def anyParticle (e : Element) (around : Surroundings) : Particle :=
  .any (e.attribute? "namespace") (around.apply e.occurrence)

/-- An element declaration but for its complex type. -/
def plainDeclaration (e : Element) : ElementDeclaration where
  name := e.attribute? "name"
  reference := e.attribute? "ref"
  type := e.attribute? "type"
  occurs := e.occurrence
  default := e.attribute? "default"
  fixed := e.attribute? "fixed"
  nillable := e.flag "nillable"
  isAbstract := e.flag "abstract"
  help := e.documentation?
  simpleType := (e.child? "simpleType").map simpleType

/-- A complex type without content. -/
def bareComplexType (e : Element) : ComplexType where
  name := e.attribute? "name"
  help := e.documentation?
  mixed := e.flag "mixed"
  isAbstract := e.flag "abstract"

/-- Takes up a child that holds no particles of its own. -/
def takePlainMember (t : ComplexType) (e : Element) : ComplexType :=
  match e.name with
  | "group" => { t with particles := t.particles ++ (e.groupParticle? {}).toList }
  | "attribute" => { t with attributes := t.attributes ++ [e.attributeDeclaration] }
  | "attributeGroup" => { t with attributeGroups := t.attributeGroups ++ (e.attribute? "ref").toList }
  | "anyAttribute" => { t with anyAttribute := true }
  | _ => t

/-- Takes up what a complex or simple content says itself. -/
def takeContentKind (t : ComplexType) (e : Element) : ComplexType :=
  { t with simpleContent := e.name = "simpleContent", mixed := t.mixed || e.flag "mixed" }

mutual

def complexType : Element → ComplexType
  | e@{ children, .. } => takeMembers e.bareComplexType children

def firstComplexType : List Element → Option ComplexType
  | [] => none
  | e :: rest => if e.name = "complexType" then some e.complexType else firstComplexType rest

/-- Takes up a child of a complex type or of a derivation in one. -/
def takeMember (t : ComplexType) : Element → ComplexType
  | e@{ children, .. } =>
    if isCompositor e.name then
      { t with particles := t.particles ++ particlesAmong (e.surroundings {}) children }
    else if e.name = "complexContent" || e.name = "simpleContent" then
      takeTypeDerivations (takeContentKind t e) children
    else takePlainMember t e

def takeMembers (t : ComplexType) : List Element → ComplexType
  | [] => t
  | e :: rest => takeMembers (e.takeMember t) rest

/-- Takes up an extension or a restriction in a complex or simple content. -/
def takeTypeDerivation (t : ComplexType) : Element → ComplexType
  | e@{ children, .. } =>
    if e.name = "extension" || e.name = "restriction" then
      takeMembers { t with base := e.attribute? "base" } children
    else t

def takeTypeDerivations (t : ComplexType) : List Element → ComplexType
  | [] => t
  | e :: rest => takeTypeDerivations (e.takeTypeDerivation t) rest

/-- The particles a child of a compositor stands for; for a compositor those in it. -/
def particles (around : Surroundings) : Element → List Particle
  | e@{ children, .. } =>
    if isCompositor e.name then particlesAmong (e.surroundings around) children
    else if e.name = "element" then
      let declaration := e.plainDeclaration
      [.element { declaration with
        occurs := around.apply declaration.occurs
        complexType := firstComplexType children }]
    else if e.name = "group" then (e.groupParticle? around).toList
    else if e.name = "any" then [e.anyParticle around]
    else []

def particlesAmong (around : Surroundings) : List Element → List Particle
  | [] => []
  | e :: rest => e.particles around ++ particlesAmong around rest

end

theorem complexType_eq (e : Element) : e.complexType = takeMembers e.bareComplexType e.children := by
  cases e
  rfl

theorem takeMember_eq (t : ComplexType) (e : Element) : e.takeMember t =
    if isCompositor e.name then
      { t with particles := t.particles ++ particlesAmong (e.surroundings {}) e.children }
    else if e.name = "complexContent" || e.name = "simpleContent" then
      takeTypeDerivations (takeContentKind t e) e.children
    else takePlainMember t e := by
  cases e
  rfl

theorem takeTypeDerivation_eq (t : ComplexType) (e : Element) : e.takeTypeDerivation t =
    if e.name = "extension" || e.name = "restriction" then
      takeMembers { t with base := e.attribute? "base" } e.children
    else t := by
  cases e
  rfl

theorem particles_eq (around : Surroundings) (e : Element) : e.particles around =
    if isCompositor e.name then particlesAmong (e.surroundings around) e.children
    else if e.name = "element" then
      [.element { e.plainDeclaration with
        occurs := around.apply e.plainDeclaration.occurs
        complexType := firstComplexType e.children }]
    else if e.name = "group" then (e.groupParticle? around).toList
    else if e.name = "any" then [e.anyParticle around]
    else [] := by
  cases e
  rfl

theorem firstComplexType_eq (es : List Element) :
    firstComplexType es = (es.find? (·.name = "complexType")).map complexType := by
  induction es with
  | nil => rfl
  | cons e es ih =>
    rw [firstComplexType,List.find?_cons]
    split <;> simp_all

theorem takeMembers_eq_foldl (t : ComplexType) (es : List Element) :
    takeMembers t es = es.foldl takeMember t := by
  induction es generalizing t with
  | nil => rfl
  | cons e es ih => exact ih _

theorem takeTypeDerivations_eq_foldl (t : ComplexType) (es : List Element) :
    takeTypeDerivations t es = es.foldl takeTypeDerivation t := by
  induction es generalizing t with
  | nil => rfl
  | cons e es ih => exact ih _

theorem particlesAmong_eq_flatMap (around : Surroundings) (es : List Element) :
    particlesAmong around es = es.flatMap (particles around) := by
  induction es with
  | nil => rfl
  | cons e es ih => rw [particlesAmong,List.flatMap_cons,ih]

def elementDeclaration (e : Element) : ElementDeclaration :=
  { e.plainDeclaration with complexType := firstComplexType e.children }

def group (e : Element) : Group where
  name := (e.attribute? "name").getD ""
  help := e.documentation?
  particles := (e.children.filter (isCompositor ·.name)).flatMap (particles {})

end Element
end Xml

namespace Schema
open Xml (Element)

/-- Adds what an element declares. -/
def addComponent (s : Schema) (e : Element) : Schema :=
  match e.name with
  | "element" => { s with elements := s.elements ++ [e.elementDeclaration] }
  | "attribute" => { s with attributes := s.attributes ++ [e.attributeDeclaration] }
  | "complexType" => { s with complexTypes := s.complexTypes ++ [e.complexType] }
  | "simpleType" => { s with simpleTypes := s.simpleTypes ++ [e.simpleType] }
  | "group" => { s with groups := s.groups ++ [e.group] }
  | "attributeGroup" => { s with attributeGroups := s.attributeGroups ++ [e.attributeGroup] }
  | _ => s

def readReference (r : Reading) (kind : ReferenceKind) (e : Element) : SchemaReference where
  kind
  location := (e.attribute? "schemaLocation").bind r.resolve?
  written := e.attribute? "schemaLocation"
  space := e.attribute? "namespace"

/-- Adds a child of the schema element. What a redefinition holds is declared by the schema itself. -/
def addChild (r : Reading) (s : Schema) (e : Element) : Schema :=
  match ReferenceKind.ofName? e.name with
  | none => s.addComponent e
  | some kind =>
    let s := { s with references := s.references ++ [readReference r kind e] }
    if kind.redefines then e.children.foldl addComponent s else s

def ofElement (r : Reading) (e : Element) : Except Failure Schema :=
  if e.name ≠ "schema" then r.fail ("Expected xs:schema root element, got " ++ e.name)
  else .ok (e.children.foldl (addChild r)
    { location := r.location
      targetNamespace := (e.attribute? "targetNamespace").or r.targetNamespace
      scope := e.scope })

/-- Reads a schema document. -/
def read (r : Reading) (bytes : Bytes) : Except Failure Schema := do
  match ← Element.parse bytes with
  | none => r.fail "Empty document"
  | some e => ofElement r e

end Schema
end SchemaBinding
