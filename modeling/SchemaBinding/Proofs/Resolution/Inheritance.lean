import SchemaBinding.Proofs.Reading.Preserved
import SchemaBinding.Proofs.Resolution.Reach
import SchemaBinding.Session

/-! What a document takes from the one that refers to it. The namespace handed on becomes the namespace of a
document that declares none, and nothing else of the document changes; so whether a document can be read and
where it leads is the same on every way to it. -/
namespace SchemaBinding

namespace Schema
open Xml (Element)

/-- Takes a namespace if there is none. -/
def adopt (space : Option String) (s : Schema) : Schema :=
  { s with targetNamespace := s.targetNamespace.or space }

/-- What an element declares, as a document at a location and in a namespace. -/
def placed (location space : Option String) (s : Schema) : Schema :=
  { s with location, targetNamespace := space }

theorem addComponent_placed (location space : Option String) (s : Schema) (e : Element) :
    (s.placed location space).addComponent e = (s.addComponent e).placed location space := by
  unfold addComponent
  split <;> rfl

theorem addChild_placed (r : Reading) (location space : Option String) (s : Schema) (e : Element) :
    addChild r (s.placed location space) e = (addChild r s e).placed location space :=
  addChild_hom (addComponent_placed location space) (fun _ => rfl) (fun _ _ => rfl) r s e

/-- Location and namespace of a document do not come from what is in its element. -/
theorem ofElement_eq (r : Reading) (e : Element) : ofElement r e =
    if e.name ≠ "schema" then r.fail ("Expected xs:schema root element, got " ++ e.name)
    else .ok ((e.children.foldl (addChild r) { scope := e.scope }).placed r.location
      ((e.attribute? "targetNamespace").or r.targetNamespace)) := by
  unfold ofElement
  split
  · rfl
  · let bare : Schema := { scope := e.scope }
    let space := (e.attribute? "targetNamespace").or r.targetNamespace
    have hchildren : e.children.foldl (addChild r) (bare.placed r.location space) =
        (e.children.foldl (addChild r) bare).placed r.location space :=
      List.foldl_hom (placed r.location space) (addChild_placed r r.location space)
    exact congrArg Except.ok hchildren

theorem ofElement_adopt (r : Reading) (space : Option String) (e : Element) :
    ofElement { r with targetNamespace := space } e =
      (ofElement { r with targetNamespace := none } e).map (adopt space) := by
  simp only [ofElement_eq]
  split
  · rfl
  · simp only [Except.map,adopt,placed,Option.or_none]
    rfl

theorem location_ofElement {r : Reading} {e : Element} {s : Schema} (h : ofElement r e = .ok s) :
    s.location = r.location := by
  rw [ofElement_eq] at h
  split at h
  · cases h
  · cases h
    rfl

theorem read_adopt (r : Reading) (space : Option String) (bytes : Bytes) :
    read { r with targetNamespace := space } bytes =
      (read { r with targetNamespace := none } bytes).map (adopt space) := by
  unfold read
  cases Element.parse bytes with
  | error fault => rfl
  | ok found =>
    cases found with
    | none => rfl
    | some e => exact ofElement_adopt r space e

/-- A schema is read from the element of its document. -/
theorem exists_element_of_read {r : Reading} {bytes : Bytes} {s : Schema} (h : read r bytes = .ok s) :
    ∃ e, Element.parse bytes = .ok (some e) ∧ ofElement r e = .ok s := by
  unfold read at h
  cases hparse : Element.parse bytes with
  | error fault =>
    rw [hparse] at h
    cases h
  | ok found =>
    rw [hparse] at h
    cases found with
    | none => cases h
    | some e => exact ⟨e,rfl,h⟩

theorem location_read {r : Reading} {bytes : Bytes} {s : Schema} (h : read r bytes = .ok s) :
    s.location = r.location := by
  obtain ⟨e,_,hread⟩ := exists_element_of_read h
  exact location_ofElement hread

end Schema

namespace Definitions
open Xml (Element)

/-- Takes a namespace if there is none. -/
def adopt (space : Option String) (d : Definitions) : Definitions :=
  { d with targetNamespace := d.targetNamespace.or space }

/-- Definitions put into a namespace. -/
def within (space : Option String) (d : Definitions) : Definitions := { d with targetNamespace := space }

theorem addChild_within (r : Reading) (handed space : Option String) (d : Definitions) (e : Element) :
    addChild { r with targetNamespace := handed } (d.within space) e = (addChild r d e).map (within space) := by
  unfold addChild
  split
  · rfl
  · split
    · change (readSchemas r e).map _ = ((readSchemas r e).map _).map _
      cases readSchemas r e with
      | error failure => rfl
      | ok schemas => rfl
    all_goals rfl

theorem foldlM_addChild_within (r : Reading) (handed space : Option String) (d : Definitions) (es : List Element) :
    es.foldlM (addChild { r with targetNamespace := handed }) (d.within space) =
      (es.foldlM (addChild r) d).map (within space) := by
  induction es generalizing d with
  | nil => rfl
  | cons e es ih =>
    rw [List.foldlM_cons,List.foldlM_cons,addChild_within]
    cases addChild r d e with
    | error failure => rfl
    | ok d => exact ih d

theorem ofElement_adopt (r : Reading) (space : Option String) (e : Element) :
    ofElement { r with targetNamespace := space } e =
      (ofElement { r with targetNamespace := none } e).map (adopt space) := by
  unfold ofElement
  split
  · rfl
  · let own := e.attribute? "targetNamespace"
    let bare : Definitions := { location := r.location, name := e.attribute? "name" }
    have hspace := foldlM_addChild_within r space (own.or space) bare e.children
    have hnone := foldlM_addChild_within r none (own.or none) bare e.children
    refine hspace.trans ?_
    refine Eq.trans ?_ (congrArg (Except.map (adopt space)) hnone.symm)
    cases e.children.foldlM (addChild r) bare with
    | error failure => rfl
    | ok d => simp only [Except.map,adopt,within,Option.or_none]

theorem read_adopt (r : Reading) (space : Option String) (bytes : Bytes) :
    read { r with targetNamespace := space } bytes =
      (read { r with targetNamespace := none } bytes).map (adopt space) := by
  unfold read
  cases Element.parse bytes with
  | error fault => rfl
  | ok found =>
    cases found with
    | none => rfl
    | some e => exact ofElement_adopt r space e

end Definitions

namespace Session
open Resolution

variable (disk : Disk) (s : Session)

theorem toOption_map {α β : Type} (f : α → β) (outcome : Except Failure α) :
    (outcome.map f).toOption = outcome.toOption.map f := by
  cases outcome <;> rfl

theorem readSchema?_adopt (uri : String) (space : Option String) :
    s.readSchema? disk uri space = (s.readSchema? disk uri none).map (Schema.adopt space) := by
  unfold readSchema?
  cases s.supply.fetch disk uri with
  | error failure => rfl
  | ok bytes =>
    have h := Schema.read_adopt (s.reading disk uri none) space bytes
    exact (congrArg Except.toOption h).trans (toOption_map _ _)

theorem readDefinitions?_adopt (uri : String) (space : Option String) :
    s.readDefinitions? disk uri space = (s.readDefinitions? disk uri none).map (Definitions.adopt space) := by
  unfold readDefinitions?
  cases s.supply.fetch disk uri with
  | error failure => rfl
  | ok bytes =>
    have h := Definitions.read_adopt (s.reading disk uri none) space bytes
    exact (congrArg Except.toOption h).trans (toOption_map _ _)

theorem steady_readSchema? : Steady (s.readSchema? disk) := by
  intro uri space
  rw [readSchema?_adopt,Option.map_map]
  rfl

theorem steady_readDefinitions? : Steady (s.readDefinitions? disk) := by
  intro uri space
  rw [readDefinitions?_adopt,Option.map_map]
  rfl

/-- A schema that is read for a URI has that URI for its location. -/
theorem location_readSchema? {uri : String} {space : Option String} {schema : Schema}
    (h : s.readSchema? disk uri space = some schema) : schema.location = some uri := by
  unfold readSchema? at h
  cases hfetch : s.supply.fetch disk uri with
  | error failure =>
    rw [hfetch] at h
    cases h
  | ok bytes =>
    rw [hfetch] at h
    change (Schema.read (s.reading disk uri space) bytes).toOption = some schema at h
    cases hread : Schema.read (s.reading disk uri space) bytes with
    | error failure =>
      rw [hread] at h
      cases h
    | ok found =>
      rw [hread] at h
      cases h
      exact Schema.location_read hread

end Session
end SchemaBinding
