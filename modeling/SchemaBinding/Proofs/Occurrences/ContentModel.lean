import Mathlib.Data.ENat.Basic
import Mathlib.Logic.Relation
import SchemaBinding.Proofs.Reading.Attributes

/-! Content models as a document writes them, before compositors are flattened and references to groups give way,
and the sequences of children that they admit. A child that an element declaration takes is written as the name of
that declaration; one that a wildcard takes has none. Occurrence bounds, names and references are the attributes of
a tag that have no prefix. -/
namespace SchemaBinding
open Xml (Node Tag)

/-! ## Bounds -/

/-- Occurrence bounds as they are written. -/
structure Written where
  min : Option String := none
  max : Option String := none

namespace Written

/-- What a bound says; an absent one is 1. -/
def bound : Option String → ℕ∞
  | none => 1
  | some "unbounded" => ⊤
  | some text => Double.natOfDigits text.toList

/-- A number of 64 bits in digits, or no bound at all. -/
def Plain (text : String) : Prop :=
  text = "unbounded" ∨
    (text.toList ≠ [] ∧ (∀ c ∈ text.toList, c.isDigit) ∧ Double.natOfDigits text.toList ≤ Natural.largest)

/-- Plain bounds in their order. -/
structure Regular (w : Written) : Prop where
  min : ∀ text ∈ w.min, Plain text
  max : ∀ text ∈ w.max, Plain text
  le : bound w.min ≤ bound w.max

end Written

/-! ## Content models -/

inductive Compositor where
  | sequence
  | choice
  | all
deriving DecidableEq

def Compositor.ofName? : String → Option Compositor
  | "sequence" => some .sequence
  | "choice" => some .choice
  | "all" => some .all
  | _ => none

inductive ContentModel where
  | element (written : Written) (name : Option String)
  | wildcard (written : Written)
  /-- A reference to a group, by its local name. -/
  | group (written : Written) (reference : String)
  | compositor (written : Written) (kind : Compositor) (members : List ContentModel)

/-- Names of groups with the members of their content. -/
abbrev GroupDefinitions := List (String × List ContentModel)

namespace ContentModel

def written : ContentModel → Written
  | element written _ | wildcard written | group written _ | compositor written _ _ => written

/-- A content model is found in another at some depth. -/
inductive Part (p : ContentModel) : ContentModel → Prop
  | self : Part p p
  | member {written : Written} {kind : Compositor} {members : List ContentModel} {m : ContentModel} :
      m ∈ members → Part p m → Part p (compositor written kind members)

theorem part_compositor {p : ContentModel} {written : Written} {kind : Compositor} {members : List ContentModel} :
    p.Part (compositor written kind members) ↔ p = compositor written kind members ∨ ∃ m ∈ members, p.Part m := by
  constructor
  · intro h
    cases h with
    | self => exact Or.inl rfl
    | member hm hp => exact Or.inr ⟨_,hm,hp⟩
  · rintro (rfl | ⟨m,hm,hp⟩)
    · exact .self
    · exact .member hm hp

theorem part_element {p : ContentModel} {written : Written} {name : Option String} :
    p.Part (element written name) ↔ p = element written name := by
  constructor
  · intro h
    cases h
    rfl
  · rintro rfl
    exact .self

theorem part_group {p : ContentModel} {written : Written} {reference : String} :
    p.Part (group written reference) ↔ p = group written reference := by
  constructor
  · intro h
    cases h
    rfl
  · rintro rfl
    exact .self

/-- What holds of a content model if it holds of its members holds of every content model. -/
theorem inductionOnMembers {P : ContentModel → Prop} (element : ∀ written name, P (element written name))
    (wildcard : ∀ written, P (wildcard written)) (group : ∀ written reference, P (group written reference))
    (compositor : ∀ written kind members, (∀ m ∈ members, P m) → P (compositor written kind members)) :
    ∀ m, P m
  | .element written name => element written name
  | .wildcard written => wildcard written
  | .group written reference => group written reference
  | .compositor written kind members =>
    compositor written kind members fun m _ => inductionOnMembers element wildcard group compositor m

variable (groups : GroupDefinitions)

mutual

/-- The sequences of children that a content model admits, as often as it is written to occur. -/
inductive Admits : ContentModel → List (Option String) → Prop
  | repeated {m : ContentModel} {ws : List (List (Option String))} :
      Written.bound m.written.min ≤ ws.length → ws.length ≤ Written.bound m.written.max → (∀ w ∈ ws, Once m w) →
      Admits m ws.flatten

/-- The sequences of children that a content model admits for one occurrence. -/
inductive Once : ContentModel → List (Option String) → Prop
  | element {written : Written} {name : Option String} : Once (element written name) [name]
  | wildcard {written : Written} : Once (wildcard written) [none]
  | group {written : Written} {reference : String} {members : List ContentModel} {w : List (Option String)} :
      (reference,members) ∈ groups → InTurn members w → Once (group written reference) w
  | sequence {written : Written} {members : List ContentModel} {w : List (Option String)} :
      InTurn members w → Once (compositor written .sequence members) w
  | choice {written : Written} {members : List ContentModel} {m : ContentModel} {w : List (Option String)} :
      m ∈ members → Admits m w → Once (compositor written .choice members) w
  | all {written : Written} {members : List ContentModel} {v w : List (Option String)} :
      InTurn members v → v.Perm w → Once (compositor written .all members) w

/-- The sequences of children that content models admit one after another. -/
inductive InTurn : List ContentModel → List (Option String) → Prop
  | nil : InTurn [] []
  | cons {m : ContentModel} {ms : List ContentModel} {u v : List (Option String)} :
      Admits m u → InTurn ms v → InTurn (m :: ms) (u ++ v)

end

theorem Admits.single {groups : GroupDefinitions} {m : ContentModel} {w : List (Option String)}
    (hmin : Written.bound m.written.min ≤ 1) (hmax : 1 ≤ Written.bound m.written.max) (h : Once groups m w) :
    Admits groups m w := by
  have hadmits : Admits groups m [w].flatten := .repeated hmin hmax (by simpa using h)
  rwa [List.flatten_singleton] at hadmits

/-- A name is that of an element in a content model, or in a group that the content model refers to. -/
inductive Mentions (name : String) : ContentModel → Prop
  | element {written : Written} : Mentions name (element written (some name))
  | group {written : Written} {reference : String} {members : List ContentModel} {m : ContentModel} :
      (reference,members) ∈ groups → m ∈ members → Mentions name m → Mentions name (group written reference)
  | member {written : Written} {kind : Compositor} {members : List ContentModel} {m : ContentModel} :
      m ∈ members → Mentions name m → Mentions name (compositor written kind members)

/-- A group refers to another. -/
def Refers (reference other : String) : Prop :=
  ∃ members, (reference,members) ∈ groups ∧ ∃ m ∈ members, ∃ written, (group written other).Part m

end ContentModel

/-! ## Documents -/

namespace Xml

/-- The value of an attribute that is written without a prefix. -/
def Tag.own? (tag : Tag) (name : String) : Option String := tag.attributes.lookup name

def Tag.localName (tag : Tag) : String := Prefixed.localPart tag.name

def Tag.written (tag : Tag) : Written := ⟨tag.own? "minOccurs",tag.own? "maxOccurs"⟩

/-- The name of an element declaration, or of the one it refers to. -/
def Tag.elementName? (tag : Tag) : Option String := (tag.own? "name").or ((tag.own? "ref").map Prefixed.localPart)

namespace Node

/-- A node is found in another at some depth. -/
inductive Inside (n : Node) : Node → Prop
  | self : Inside n n
  | child {tag : Tag} {content : List Node} {c : Node} : c ∈ content → Inside n c → Inside n (element tag content)

theorem inside_element {n : Node} {tag : Tag} {content : List Node} :
    n.Inside (element tag content) ↔ n = element tag content ∨ ∃ c ∈ content, n.Inside c := by
  constructor
  · intro h
    cases h with
    | self => exact Or.inl rfl
    | child hc hn => exact Or.inr ⟨_,hc,hn⟩
  · rintro (rfl | ⟨c,hc,hn⟩)
    · exact .self
    · exact .child hc hn

def localName? : Node → Option String
  | element tag _ => some tag.localName
  | _ => none

def content : Node → List Node
  | element _ content => content
  | _ => []

mutual

/-- The content model at a node, if it is one. -/
def contentModel? : Node → Option ContentModel
  | element tag content =>
    match Compositor.ofName? tag.localName with
    | some kind => some (.compositor tag.written kind (contentModels content))
    | none =>
      if tag.localName = "element" then some (.element tag.written tag.elementName?)
      else if tag.localName = "group" then
        (tag.own? "ref").map fun reference => .group tag.written (Prefixed.localPart reference)
      else if tag.localName = "any" then some (.wildcard tag.written)
      else none
  | _ => none

def contentModels : List Node → List ContentModel
  | [] => []
  | n :: rest => n.contentModel?.toList ++ contentModels rest

end

mutual

/-- What a node in a complex type, or in a derivation there, adds to the content of the type. -/
def memberModels : Node → List ContentModel
  | n@(element tag content) =>
    if Element.isCompositor tag.localName then n.contentModel?.toList
    else if tag.localName = "complexContent" || tag.localName = "simpleContent" then derivationsModels content
    else if tag.localName = "group" then n.contentModel?.toList
    else []
  | _ => []

def membersModels : List Node → List ContentModel
  | [] => []
  | n :: rest => memberModels n ++ membersModels rest

def derivationModels : Node → List ContentModel
  | element tag content =>
    if tag.localName = "extension" || tag.localName = "restriction" then membersModels content else []
  | _ => []

def derivationsModels : List Node → List ContentModel
  | [] => []
  | n :: rest => derivationModels n ++ derivationsModels rest

end

/-- The content that is written in a complex type itself. -/
def typeModels (n : Node) : List ContentModel := membersModels n.content

/-- The declarations of a document; those in a redefinition are its own. -/
def declarations (root : Node) : List Node :=
  root.content.flatMap fun n =>
    match n.localName?.map ReferenceKind.ofName? with
    | some none => [n]
    | some (some kind) => if kind.redefines then n.content else []
    | none => []

/-- The compositors in a group. -/
def groupModels (n : Node) : List ContentModel :=
  (n.content.filter fun c => c.localName?.any Element.isCompositor).filterMap contentModel?

def declaredName : Node → String
  | element tag _ => (tag.own? "name").getD ""
  | _ => ""

/-- The groups that a document declares. -/
def groupDefinitions (root : Node) : GroupDefinitions :=
  (root.declarations.filter (·.localName? = some "group")).map fun n => (n.declaredName,n.groupModels)

/-- The content of a complex type or of a group of a document. -/
inductive Contents (root : Node) : List ContentModel → Prop
  | complexType {n : Node} : n.Inside root → n.localName? = some "complexType" → Contents root n.typeModels
  | group {name : String} {members : List ContentModel} :
      (name,members) ∈ root.groupDefinitions → Contents root members

/-- A document whose bounds are plain and in order, and whose references to groups lead to one group each and in no
circle. -/
structure Regular (root : Node) : Prop where
  written : ∀ ms, Contents root ms → ∀ m ∈ ms, ∀ p : ContentModel, p.Part m → p.written.Regular
  resolved : ∀ ms, Contents root ms → ∀ m ∈ ms, ∀ written reference, (ContentModel.group written reference).Part m →
    (root.groupDefinitions.map Prod.fst).count reference = 1
  acyclic : ∀ reference, ¬ Relation.TransGen (ContentModel.Refers root.groupDefinitions) reference reference

end Node
end Xml
end SchemaBinding
