import SchemaBinding.Model.Class
import SchemaBinding.Name.Words
import SchemaBinding.OrderedMap
import SchemaBinding.Output.Structured
import SchemaBinding.Text.Blank

/-! Modules: the classes of one package, and what they use from others. -/
namespace SchemaBinding
namespace Output

/-- A class of another package that a module uses. -/
structure Imported where
  package : String
  name : String
  alias? : Option String := none
deriving Repr, DecidableEq, Inhabited

structure Module where
  package : String
  imports : List Imported := []
  classes : List Class := []
deriving Repr, Inhabited

/-! ## Imports -/

/-- Where a type is to be found: its package and its name there. -/
structure Place where
  package : String
  name : String
deriving Repr, DecidableEq, Inhabited

/-- The classes in packages by the names of their types; the first of a name counts. -/
def typeIndex (cs : List Class) : OrderedMap String Place :=
  cs.foldl (fun m c =>
    match c.package with
    | some package => m.insertNew c.name ⟨package,c.localName⟩
    | none => m) {}

/-- The types a field uses; a union has several. -/
def typesOfField (f : Field) : List String :=
  if f.forward then [] else (Blank.fields f.type).map Prefixed.localPart

mutual

/-- The types a class and those in it use, by local name. -/
def typesOf : Class → List String
  | { extensions, fields, inner, .. } =>
    extensions.map Prefixed.localPart ++ fields.flatMap typesOfField ++ typesOfAll inner

def typesOfAll : List Class → List String
  | [] => []
  | c :: rest => typesOf c ++ typesOfAll rest

end

theorem typesOfAll_eq_flatMap (cs : List Class) : typesOfAll cs = cs.flatMap typesOf := by
  induction cs with
  | nil => rfl
  | cons c cs ih => rw [typesOfAll,ih,List.flatMap_cons]

/-- Each place once, in the order in which it is used first. -/
def placesUsed (index : OrderedMap String Place) (package : String) (classes : List Class) : List Place :=
  let found := (typesOfAll classes).filterMap index.get?
  (found.filter (·.package ≠ package)).foldl (fun ps p => if p ∈ ps then ps else ps ++ [p]) []

/-- The part of a package name after its last dot. -/
def lastPart (package : String) : String :=
  String.ofList (package.toList.reverse.takeWhile (· ≠ '.')).reverse

/-- An import gets another name if its own one stands for something else in the module. -/
def importOf (places : List Place) (classes : List Class) (p : Place) : Imported :=
  let clashes := 1 < (places.filter (·.name = p.name)).length || classes.any (·.localName = p.name)
  { package := p.package, name := p.name
    alias? := if clashes then some (Words.pascalCase (lastPart p.package) ++ p.name) else none }

def importsOf (index : OrderedMap String Place) (package : String) (classes : List Class) : List Imported :=
  let places := placesUsed index package classes
  places.map (importOf places classes)

/-- The classes of each package; those without one are in the package of the empty name. -/
def byPackage (cs : List Class) : OrderedMap String (List Class) :=
  cs.foldl (fun m c =>
    let package := c.package.getD ""
    (m.insertNew package []).adjust package (· ++ [c])) {}

def modules (cs : List Class) : List Module :=
  let index := typeIndex cs
  (byPackage cs).entries.map fun e =>
    { package := e.1, imports := importsOf index e.1 e.2, classes := e.2 }

/-! ## Structured form -/

def Imported.value (i : Imported) : Value :=
  .record ([("name",.text i.package),("source",.text i.name)] ++ Value.optionalText "alias" i.alias?)

def restrictionValue : RestrictionValue → Value
  | .flag value => .flag value
  | .count value => .natural value
  | .bound value => .double value
  | .text value => .text value

def fieldValue (f : Field) : Value :=
  .record ([("name",.text f.name),("local_name",.text f.localName),
      ("type",.text (f.typeAlias.getD f.type)),("local_type",.text f.kind.name)] ++
    Value.optionalText "namespace" f.space ++ Value.optionalText "default" f.default ++
    (if f.forward then [("forward_ref",.flag true)] else []) ++
    [("is_list",.flag f.isList),
      ("restrictions",.record (f.restrictions.map fun r => (r.1,restrictionValue r.2)))])

mutual

def classValue : Class → Value
  | c@{ inner, .. } =>
    .record ([("name",.text c.localName),("qname",.text (QualifiedName.mk c.space c.name).text),
        ("type",.text c.kind.name),("is_root",.flag c.isRoot),
        ("is_enumeration",.flag c.isEnumeration)] ++
      Value.optionalText "help" c.help ++
      [("extensions",.list (c.extensions.map .text)),("attrs",.list (c.fields.map fieldValue))] ++
      (if c.inner.isEmpty then [] else [("inner",.list (classValues inner))]))

def classValues : List Class → List Value
  | [] => []
  | c :: rest => classValue c :: classValues rest

end

def Module.value (m : Module) : Value :=
  .record [("package",.text m.package),("imports",.list (m.imports.map Imported.value)),
    ("classes",.list (classValues m.classes))]

def Module.text (m : Module) : String := m.value.render 0 ++ "\n"

end Output
end SchemaBinding
