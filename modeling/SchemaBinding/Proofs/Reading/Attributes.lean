import SchemaBinding.Proofs.Reading.Kept

/-! What is looked up on a tag. An attribute counts under its local name, whatever its prefix, and of several with one
local name the last one counts. -/
namespace SchemaBinding
namespace Xml

/-! ## Attributes by local name -/

namespace Element

/-- Takes up attributes one after another. -/
def takeAttributes (e : Element) (as : List (String × String)) : Element :=
  as.foldl (fun e a => takeAttribute e a.1 a.2) e

/-- The value of the last attribute of a local name. -/
def lastOf (localName : String) (as : List (String × String)) : Option String :=
  (as.reverse.find? fun a => AttributeRole.ofName a.1 = .plain localName).map Prod.snd

theorem lastOf_append (localName : String) (as bs : List (String × String)) :
    lastOf localName (as ++ bs) = (lastOf localName bs).or (lastOf localName as) := by
  simp only [lastOf,List.reverse_append,List.find?_append]
  cases bs.reverse.find? fun a => AttributeRole.ofName a.1 = .plain localName <;> rfl

theorem lastOf_singleton (localName : String) (a : String × String) : lastOf localName [a] =
    if AttributeRole.ofName a.1 = .plain localName then some a.2 else none := by
  by_cases ha : AttributeRole.ofName a.1 = .plain localName <;> simp [lastOf,ha]

theorem exists_lastOf {localName : String} {as : List (String × String)}
    (h : ∃ a ∈ as, AttributeRole.ofName a.1 = .plain localName) : ∃ value, lastOf localName as = some value := by
  rw [← Option.isSome_iff_exists,lastOf,Option.isSome_map,List.find?_isSome]
  simpa using h

theorem attribute?_takeAttribute (e : Element) (name value localName : String) :
    (takeAttribute e name value).attribute? localName =
      if AttributeRole.ofName name = .plain localName then some value else e.attribute? localName := by
  unfold takeAttribute
  cases AttributeRole.ofName name with
  | defaultDeclaration => simp [attribute?]
  | declaration pre => simp [attribute?]
  | plain other =>
    simp only [attribute?,setAttribute,OrderedMap.get?_insert,AttributeRole.plain.injEq]
    by_cases h : localName = other
    · simp [h]
    · simp [h,Ne.symm h]

theorem attribute?_takeAttributes (e : Element) (as : List (String × String)) (localName : String) :
    (e.takeAttributes as).attribute? localName = (lastOf localName as).or (e.attribute? localName) := by
  induction as generalizing e with
  | nil => rfl
  | cons a as ih =>
    rw [takeAttributes,List.foldl_cons,← takeAttributes,ih,attribute?_takeAttribute,← List.singleton_append,
      lastOf_append,lastOf_singleton,Option.or_assoc]
    split <;> simp

theorem name_takeAttributes (e : Element) (as : List (String × String)) : (e.takeAttributes as).name = e.name := by
  induction as generalizing e with
  | nil => rfl
  | cons a as ih =>
    rw [takeAttributes,List.foldl_cons,← takeAttributes,ih]
    unfold takeAttribute
    cases AttributeRole.ofName a.1 <;> rfl

theorem prefix?_takeAttributes (e : Element) (as : List (String × String)) :
    (e.takeAttributes as).prefix? = e.prefix? := by
  induction as generalizing e with
  | nil => rfl
  | cons a as ih =>
    rw [takeAttributes,List.foldl_cons,← takeAttributes,ih]
    unfold takeAttribute
    cases AttributeRole.ofName a.1 <;> rfl

/-- Declarations are taken up without a look at other attributes. -/
theorem scope_takeAttribute {e f : Element} (h : e.scope = f.scope) (name value : String) :
    (takeAttribute e name value).scope = (takeAttribute f name value).scope := by
  unfold takeAttribute
  cases AttributeRole.ofName name with
  | defaultDeclaration => exact congrArg (Scope.declareDefault · value) h
  | declaration pre => exact congrArg (Scope.declare · pre value) h
  | plain localName => exact h

theorem scope_takeAttributes {e f : Element} (h : e.scope = f.scope) (as : List (String × String)) :
    (e.takeAttributes as).scope = (f.takeAttributes as).scope := by
  induction as generalizing e f with
  | nil => exact h
  | cons a as ih => exact ih (scope_takeAttribute h a.1 a.2)

theorem takeAttributes_append (e : Element) (as bs : List (String × String)) :
    e.takeAttributes (as ++ bs) = (e.takeAttributes as).takeAttributes bs := List.foldl_append

/-! ## Elements of tags -/

/-- The element of a tag before declarations from outside are taken over. -/
def bare (tag : Tag) : Element :=
  takeAttributes { name := (Prefixed.split tag.name).2, prefix? := (Prefixed.split tag.name).1 } tag.attributes

theorem ofTag_eq (outer : Scope) (tag : Tag) :
    ofTag outer tag = { bare tag with scope := (bare tag).scope.inherit outer } := rfl

theorem name_bare (tag : Tag) : (bare tag).name = Prefixed.localPart tag.name := name_takeAttributes _ _

theorem attribute?_bare (tag : Tag) (localName : String) :
    (bare tag).attribute? localName = lastOf localName tag.attributes :=
  (attribute?_takeAttributes _ _ _).trans (Option.or_none)

end Element
end Xml

namespace Schema
open Xml

theorem read_eq_of_parse (r : Reading) {bytes : Bytes} {node : Node} (hnode : Node.parse bytes = .ok (some node)) :
    read r bytes = ((Element.ofNode {} node).map (ofElement r)).getD (r.fail "Empty document") := by
  unfold read Element.parse
  simp only [hnode]
  cases Element.ofNode {} node <;> rfl

end Schema
end SchemaBinding
