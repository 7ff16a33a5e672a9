import SchemaBinding.Model.Class

/-! The classes of one schema. References to types and groups stay names, since what they refer to may be
declared elsewhere. -/
namespace SchemaBinding
namespace Build

def anyType : String := "xs:anyType"
def anySimpleType : String := "xs:anySimpleType"
def stringType : String := "xs:string"

/-- The type a restriction restricts. -/
def baseOf (t : SimpleType) : String := t.base.getD stringType

/-- What a class gets from a piece of a content model. -/
structure Content where
  fields : List Field := []
  inner : List Class := []
deriving Repr, Inhabited

def Content.append (a b : Content) : Content := ⟨a.fields ++ b.fields,a.inner ++ b.inner⟩

instance : Append Content := ⟨Content.append⟩

/-! ## Fields -/

def valueField (type : String) (kind : Kind) (facets : Facets) : Field :=
  { name := "value", type, kind, facets }

/-- The name of the field for an element: its own, or that of the element it refers to. -/
def elementName? (e : ElementDeclaration) : Option String :=
  e.name.or (e.reference.map Prefixed.localPart)

def elementField (space : Option String) (e : ElementDeclaration) (name type : String) (forward : Bool)
    (facets : Facets) : Field :=
  { name, type, kind := .element, space, forward, facets
    help := e.help
    default := e.default.or e.fixed
    required := if e.occurs.min ≠ some 0 ∧ !e.nillable then some true else none
    occurs := e.occurs }

/-- The field for an element whose type is not an inner class. -/
def plainElementField (space : Option String) (e : ElementDeclaration) (name : String) : Field :=
  match e.type.or e.reference with
  | some type => elementField space e name type false {}
  | none =>
    match e.simpleType with
    | some t => elementField space e name (baseOf t) false t.facets
    | none => elementField space e name anyType false {}

def groupField (kind : Kind) (reference : String) (occurs : Occurrence) : Field :=
  { name := Prefixed.localPart reference, type := reference, kind, occurs }

def anyField (space : Option String) (occurs : Occurrence) : Field :=
  { name := "any_element", type := anyType, kind := .any, space, occurs }

def anyAttributeField : Field :=
  { name := "any_attributes", type := anySimpleType, kind := .anyAttribute }

def attributeType (a : AttributeDeclaration) : String :=
  ((a.type.or (a.simpleType.map baseOf)).or a.reference).getD anySimpleType

/-- The field for an attribute, named like the attribute or the one it refers to. -/
def attributeField? (a : AttributeDeclaration) : Option Field :=
  (a.name.or (a.reference.map Prefixed.localPart)).map fun name =>
    { name, type := attributeType a, kind := .attribute
      help := a.help
      default := a.default.or a.fixed
      required := if a.required then some true else none
      facets := (a.simpleType.map SimpleType.facets).getD {} }

/-- The fields for attributes, references to attribute groups and the wildcard, in this order. -/
def attributeFields (attributes : List AttributeDeclaration) (groups : List String) (any : Bool) : List Field :=
  attributes.filterMap attributeField? ++ groups.map (groupField .attributeGroup · {}) ++
    (if any then [anyAttributeField] else [])

/-! ## Complex types -/

/-- The types a complex type extends. The base of simple content is the type of a field instead. -/
def complexExtensions (t : ComplexType) : List String :=
  if t.simpleContent then [] else t.base.toList

def complexValueFields (t : ComplexType) : List Field :=
  if t.simpleContent then t.base.toList.map (valueField · .extension {}) else []

/-- The class for a complex type without a name. -/
def innerClass (space : Option String) (name : String) (help : Option String) (extensions : List String)
    (content : Content) : Class :=
  { name, kind := .complexType, isRoot := false, space, help, extensions
    fields := content.fields
    inner := content.inner }

mutual

def complexContent (space : Option String) : ComplexType → Content
  | t@{ particles, .. } =>
    { fields := complexValueFields t } ++ particleContents space particles ++
      { fields := attributeFields t.attributes t.attributeGroups t.anyAttribute }

def particleContents (space : Option String) : List Particle → Content
  | [] => {}
  | p :: rest => particleContent space p ++ particleContents space rest

def particleContent (space : Option String) : Particle → Content
  | .element e => elementContent space e
  | .group reference occurs => { fields := [groupField .group reference occurs] }
  | .any any occurs => { fields := [anyField any occurs] }

/-- An element without a name is no field. One with a complex type of its own has an inner class. -/
def elementContent (space : Option String) : ElementDeclaration → Content
  | e@{ complexType, .. } =>
    match elementName? e with
    | none => {}
    | some name =>
      match complexType, (e.type.or e.reference).isNone with
      | some t, true =>
        let content := complexContent space t
        { fields := [elementField space e name name true {}]
          inner := [innerClass space name e.help (complexExtensions t) content] }
      | _, _ => { fields := [plainElementField space e name] }

end

def complexClass (space : Option String) (name : String) (kind : Kind) (help : Option String) (t : ComplexType) :
    Class :=
  let content := complexContent space t
  { name, kind, isRoot := true, space, help
    extensions := complexExtensions t
    fields := content.fields
    inner := content.inner }

/-! ## Declarations -/

def elementClass? (space : Option String) (e : ElementDeclaration) : Option Class :=
  e.name.map fun name =>
    let bare : Class := { name, kind := .element, isRoot := true, space, help := e.help }
    match e.type, e.complexType, e.simpleType with
    | some type, _, _ => { bare with extensions := [type] }
    | none, some t, _ => complexClass space name .element e.help t
    | none, none, some t => { bare with fields := [valueField (baseOf t) .extension t.facets] }
    | none, none, none => { bare with extensions := [anyType] }

def complexTypeClass? (space : Option String) (t : ComplexType) : Option Class :=
  t.name.map fun name => complexClass space name .complexType t.help t

def enumerationField (type value : String) : Field :=
  { name := value, type, kind := .enumeration, default := some value }

/-- The one field of a simple type that is no enumeration. -/
def simpleField (t : SimpleType) : Field :=
  match t.variety with
  | .restriction => valueField (baseOf t) .restriction t.facets
  | .list item =>
    { valueField (item.getD anySimpleType) .list t.facets with occurs := { max := some unbounded } }
  | .union [] => valueField anySimpleType .union t.facets
  | .union members => valueField (" ".intercalate members) .union t.facets

def simpleTypeClass? (space : Option String) (t : SimpleType) : Option Class :=
  t.name.map fun name =>
    let bare : Class := { name, kind := .simpleType, isRoot := false, space, help := t.help }
    match t.enumerations with
    | [] => { bare with fields := [simpleField t] }
    | values => { bare with isRoot := true, fields := values.map (enumerationField (baseOf t)) }

def groupClass (space : Option String) (g : Group) : Class :=
  let content := particleContents space g.particles
  { name := g.name, kind := .group, isRoot := false, space, help := g.help
    fields := content.fields
    inner := content.inner }

def attributeGroupClass (space : Option String) (g : AttributeGroup) : Class :=
  { name := g.name, kind := .attributeGroup, isRoot := false, space, help := g.help
    fields := attributeFields g.attributes g.attributeGroups g.anyAttribute }

def attributeClass? (space : Option String) (a : AttributeDeclaration) : Option Class :=
  a.name.map fun name =>
    { name, kind := .attribute, isRoot := false, space, help := a.help, fields := (attributeField? a).toList }

end Build

/-- The classes of a schema: elements, complex types and simple types, then groups, attribute groups and
attributes. -/
def Schema.classes (s : Schema) : List Class :=
  let space := s.targetNamespace
  s.elements.filterMap (Build.elementClass? space) ++
    s.complexTypes.filterMap (Build.complexTypeClass? space) ++
    s.simpleTypes.filterMap (Build.simpleTypeClass? space) ++
    s.groups.map (Build.groupClass space) ++
    s.attributeGroups.map (Build.attributeGroupClass space) ++
    s.attributes.filterMap (Build.attributeClass? space)

end SchemaBinding
