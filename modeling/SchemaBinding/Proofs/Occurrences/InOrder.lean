import SchemaBinding.Proofs.Classes.Bounded
import SchemaBinding.Proofs.Occurrences.Declared

/-! Bounds in their order. What is around a particle opens its bounds or multiplies the upper one, so a lower bound that
is no larger than the upper one stays so; and the bounds in a schema are those of particles in the document with what is
around them.
Main statement: no field that is required can be left out; and where all bounds in schemas are in order, so are those of
all fields, at every depth and after simplification too. -/
namespace SchemaBinding
open SchemaBinding.Class (Everywhere everywhere_flatMap)

/-! ## Order -/

/-- The lower bound is no larger than the upper one, which is no larger than any. Absent ones are 1. -/
def Occurrence.InOrder (o : Occurrence) : Prop := o.min.getD 1 ≤ o.max.getD 1 ∧ o.max.getD 1 ≤ unbounded

instance : DecidablePred Occurrence.InOrder := fun o =>
  inferInstanceAs (Decidable (o.min.getD 1 ≤ o.max.getD 1 ∧ o.max.getD 1 ≤ unbounded))

theorem Occurrence.open_inOrder : Occurrence.Open Occurrence.InOrder where
  none := by decide
  optional _ h := ⟨Nat.zero_le _,h.2⟩
  repeated _ h := ⟨h.1.trans h.2,le_rfl⟩

theorem multiplyBounds_le (a b : Nat) : multiplyBounds a b ≤ unbounded := by
  unfold multiplyBounds
  split
  · exact le_rfl
  · exact min_le_right _ _

theorem le_multiplyBounds {a b : Nat} (ha : a ≤ unbounded) (hb : 1 ≤ b) : a ≤ multiplyBounds a b := by
  unfold multiplyBounds
  split
  · exact ha
  · exact le_min (Nat.le_mul_of_pos_right a hb) ha

/-- What is around a particle keeps its bounds in order. -/
theorem Surroundings.inOrder_apply (around : Surroundings) {o : Occurrence} (h : o.InOrder) :
    (around.apply o).InOrder := by
  have hupper : o.max.getD 1 ≤ (around.apply o).max.getD 1 ∧ (around.apply o).max.getD 1 ≤ unbounded := by
    by_cases hmany : 1 < around.max
    · simp only [apply,if_pos hmany,Option.getD_some]
      exact ⟨le_multiplyBounds h.2 hmany.le,multiplyBounds_le _ _⟩
    · simp only [apply,if_neg hmany]
      exact ⟨le_rfl,h.2⟩
  have hlower : (around.apply o).min.getD 1 ≤ o.min.getD 1 := by
    simp only [apply]
    split
    · exact Nat.zero_le _
    · exact le_rfl
  exact ⟨hlower.trans (h.1.trans hupper.1),hupper.2⟩

/-! ## Reading -/

namespace Xml
namespace Element

theorem below_mk {c : Element} {name : String} {prefix? text : Option String} {attributes : OrderedMap String String}
    {children : List Element} {scope : Scope} :
    c.Below ⟨name,prefix?,attributes,text,children,scope⟩ ↔
      c = ⟨name,prefix?,attributes,text,children,scope⟩ ∨ ∃ d ∈ children, c.Below d := by
  constructor
  · intro h
    cases h with
    | self => exact .inl rfl
    | child hd hc => exact .inr ⟨_,hd,hc⟩
  · rintro (rfl | ⟨d,hd,hc⟩)
    · exact .self
    · exact .child hd hc

/-- An element that stands for a particle with bounds of its own. -/
def isParticle (e : Element) : Bool := e.name = "element" || e.name = "group" || e.name = "any"

/-- The bounds of what is read from an element, in each of the places where it may stand, are of some kind. -/
structure ReadsBounds (Q : Occurrence → Prop) (e : Element) : Prop where
  particles : ∀ around, ∀ o ∈ (e.particles around).flatMap Particle.bounds, Q o
  member : ∀ t, (∀ o ∈ t.bounds, Q o) → ∀ o ∈ (e.takeMember t).bounds, Q o
  derivation : ∀ t, (∀ o ∈ t.bounds, Q o) → ∀ o ∈ (e.takeTypeDerivation t).bounds, Q o
  complexType : ∀ o ∈ e.complexType.bounds, Q o

namespace ReadsBounds
variable {Q : Occurrence → Prop} {es : List Element} (h : ∀ e ∈ es, e.ReadsBounds Q)
include h

theorem particlesAmong (around : Surroundings) : ∀ o ∈ (particlesAmong around es).flatMap Particle.bounds, Q o := by
  rw [particlesAmong_eq_flatMap,List.flatMap_assoc,List.forall_mem_flatMap]
  exact fun e he => (h e he).particles around

theorem takeMembers (t : ComplexType) (ht : ∀ o ∈ t.bounds, Q o) : ∀ o ∈ (takeMembers t es).bounds, Q o := by
  rw [takeMembers_eq_foldl]
  exact List.foldlRecOn es takeMember ht fun t ht e he => (h e he).member t ht

theorem takeTypeDerivations (t : ComplexType) (ht : ∀ o ∈ t.bounds, Q o) :
    ∀ o ∈ (takeTypeDerivations t es).bounds, Q o := by
  rw [takeTypeDerivations_eq_foldl]
  exact List.foldlRecOn es takeTypeDerivation ht fun t ht e he => (h e he).derivation t ht

theorem firstComplexType : ∀ t ∈ firstComplexType es, ∀ o ∈ t.bounds, Q o := by
  intro t ht
  rw [firstComplexType_eq] at ht
  obtain ⟨e,he,rfl⟩ := Option.map_eq_some_iff.mp ht
  exact (h e (List.mem_of_find?_eq_some he)).complexType

end ReadsBounds

section
variable {Q : Occurrence → Prop} (hQ : ∀ (around : Surroundings) o, Q o → Q (around.apply o))
include hQ

theorem bounds_groupParticle? {e : Element} (he : Q e.occurrence) (around : Surroundings) :
    ∀ o ∈ (e.groupParticle? around).toList.flatMap Particle.bounds, Q o := by
  rw [List.forall_mem_flatMap]
  intro p hp
  obtain ⟨reference,_,rfl⟩ := Option.map_eq_some_iff.mp (Option.mem_toList.mp hp)
  simpa [Particle.bounds] using hQ around _ he

/-- Bounds of a kind that stays in any surroundings are read as bounds of that kind. -/
theorem readsBounds (e : Element) (h : ∀ c : Element, c.Below e → c.isParticle → Q c.occurrence) :
    e.ReadsBounds Q := by
  induction e using inductionOnChildren with
  | step e ih =>
    have hchildren : ∀ c ∈ e.children, c.ReadsBounds Q := fun c hc => ih c hc fun b hb => h b (.child hc hb)
    have hown := h e .self
    constructor
    · intro around
      rw [particles_eq]
      split
      · exact ReadsBounds.particlesAmong hchildren _
      · split
        · rw [List.flatMap_singleton,Particle.bounds]
          exact ElementDeclaration.forall_mem_bounds (hQ around _ (hown (by simp [isParticle,‹e.name = "element"›])))
            (ReadsBounds.firstComplexType hchildren)
        · split
          · exact bounds_groupParticle? hQ (hown (by simp [isParticle,‹e.name = "group"›])) around
          · split
            · simpa [anyParticle,Particle.bounds] using hQ around _ (hown (by simp [isParticle,‹e.name = "any"›]))
            · simp
    · intro t ht
      rw [takeMember_eq]
      split
      · rw [ComplexType.bounds_eq,List.flatMap_append,List.forall_mem_append,← ComplexType.bounds_eq]
        exact ⟨ht,ReadsBounds.particlesAmong hchildren _⟩
      · split
        · refine ReadsBounds.takeTypeDerivations hchildren _ ?_
          rwa [ComplexType.bounds_eq] at ht ⊢
        · rw [ComplexType.bounds_eq] at ht ⊢
          by_cases hgroup : e.name = "group"
          · simp only [takePlainMember,hgroup]
            rw [List.flatMap_append,List.forall_mem_append]
            exact ⟨ht,bounds_groupParticle? hQ (hown (by simp [isParticle,hgroup])) {}⟩
          · rwa [Node.particles_takePlainMember hgroup]
    · intro t ht
      rw [takeTypeDerivation_eq]
      split
      · refine ReadsBounds.takeMembers hchildren _ ?_
        rwa [ComplexType.bounds_eq] at ht ⊢
      · exact ht
    · rw [complexType_eq]
      exact ReadsBounds.takeMembers hchildren _ (by simp [ComplexType.bounds_eq,bareComplexType])

end

end Element
end Xml

namespace Schema
open Xml (Element)

/-- The bounds in a schema are those of particles in the document, with what is around them. -/
theorem bounds_ofElement {Q : Occurrence → Prop} (hQ : ∀ (around : Surroundings) o, Q o → Q (around.apply o))
    {r : Reading} {e : Element} {s : Schema} (hs : ofElement r e = .ok s)
    (h : ∀ c : Element, c.Below e → c.isParticle → Q c.occurrence) : ∀ o ∈ s.bounds, Q o := by
  have hreads : ∀ c : Element, c.Below e → c.ReadsBounds Q :=
    fun c hc => c.readsBounds hQ fun b hb => h b (hb.trans hc)
  simp only [bounds,List.forall_mem_append,List.forall_mem_flatMap]
  refine ⟨⟨?_,?_⟩,?_⟩
  · intro d hd
    obtain ⟨c,hc,hname,rfl⟩ := (mem_elements hs).mp hd
    have hbelow := below_of_mem_declaredIn hc
    exact ElementDeclaration.forall_mem_bounds (h c hbelow (by simp [Element.isParticle,hname]))
      (Element.ReadsBounds.firstComplexType fun b hb => hreads b (.trans (.child hb .self) hbelow))
  · intro t ht
    obtain ⟨c,hc,_,rfl⟩ := (mem_complexTypes hs).mp ht
    exact (hreads c (below_of_mem_declaredIn hc)).complexType
  · intro g hg
    obtain ⟨c,hc,_,rfl⟩ := (mem_groups hs).mp hg
    rw [Particle.boundsAmong_eq_flatMap,Element.group,List.flatMap_assoc,List.forall_mem_flatMap]
    intro b hb
    have hbelow : b.Below e := .trans (.child (List.mem_filter.mp hb).1 .self) (below_of_mem_declaredIn hc)
    exact (hreads b hbelow).particles {}

end Schema

/-! ## Fields -/

namespace Class

/-- No field that is required can be left out. -/
def Present (c : Class) : Prop := ∀ f ∈ c.fields, f.required = some true → f.occurs.min ≠ some 0

/-- The bounds of all fields are in order. -/
def InOrder (c : Class) : Prop := ∀ f ∈ c.fields, f.occurs.InOrder

end Class

/-- No field that is required can be left out, and where the bounds in schemas are in order, so are those of their classes,
at every depth, before and after simplification. Where those of all particles in a document are in order, so are those in its
schema. -/
theorem Schema.inOrder_classes (ss : List Schema) :
    (Everywhere Class.Present (ss.flatMap classes) ∧ Everywhere Class.Present (Simplify.classes (ss.flatMap classes))) ∧
    ((∀ s ∈ ss, ∀ o ∈ s.bounds, o.InOrder) → Everywhere Class.InOrder (ss.flatMap classes) ∧
      Everywhere Class.InOrder (Simplify.classes (ss.flatMap classes))) ∧
    ∀ s r e, ofElement r e = .ok s → (∀ c : Xml.Element, c.Below e → c.isParticle → c.occurrence.InOrder) →
      ∀ o ∈ s.bounds, o.InOrder := by
  refine ⟨?_,?_,?_⟩
  · have hany : Everywhere (Class.Bounded fun _ => True) (ss.flatMap classes) :=
      everywhere_flatMap.mpr fun _ _ => bounded_classes trivial trivial (by simp)
    exact ⟨hany.mono fun _ hd f hf => (hd f hf).required,
      (Simplify.bounded_classes ⟨trivial,fun _ _ => trivial,fun _ _ => trivial⟩ hany).mono fun _ hd f hf => (hd f hf).required⟩
  · intro h
    have hbounded : Everywhere (Class.Bounded Occurrence.InOrder) (ss.flatMap classes) :=
      everywhere_flatMap.mpr fun s hs => bounded_classes (by decide) (by decide) (h s hs)
    exact ⟨hbounded.mono fun _ hd f hf => (hd f hf).occurs,
      (Simplify.bounded_classes Occurrence.open_inOrder hbounded).mono fun _ hd f hf => (hd f hf).occurs⟩
  · exact fun s r e hs h => bounds_ofElement Surroundings.inOrder_apply hs h

/-- A type that refers to a group, in a choice without an upper bound. -/
def repeatedRoot : Xml.Element :=
  let bounded (name : String) (attributes : List (String × String)) (children : List Xml.Element) : Xml.Element :=
    { name, attributes := .ofList attributes, children }
  bounded "schema" [] [
    bounded "complexType" [("name","T")] [bounded "choice" [("maxOccurs","unbounded")] [
      bounded "element" [("name","a"),("minOccurs","2"),("maxOccurs","3")] [],
      bounded "group" [("ref","G"),("minOccurs","0")] []]],
    bounded "group" [("name","G")] [bounded "sequence" [] [bounded "element" [("name","b")] []]]]

def repeatedSchema : Schema := repeatedRoot.children.foldl (Schema.addChild default) { scope := repeatedRoot.scope }

theorem inOrder_classes_repeated :
    Schema.ofElement default repeatedRoot = .ok repeatedSchema ∧
    (∀ c : Xml.Element, c.Below repeatedRoot → c.isParticle → c.occurrence.InOrder) ∧
    repeatedSchema.bounds ≠ [] ∧ (∀ o ∈ repeatedSchema.bounds, o.InOrder) ∧
    Everywhere Class.Present (Simplify.classes ([repeatedSchema].flatMap Schema.classes)) ∧
    Everywhere Class.InOrder (Simplify.classes ([repeatedSchema].flatMap Schema.classes)) := by
  have hread : Schema.ofElement default repeatedRoot = .ok repeatedSchema := by
    rw [Schema.ofElement,if_neg (by decide +kernel)]
    rfl
  have hparticles : ∀ c : Xml.Element, c.Below repeatedRoot → c.isParticle → c.occurrence.InOrder := by
    intro c hc
    simp only [repeatedRoot,Xml.Element.below_mk,List.mem_cons,List.not_mem_nil,or_false,exists_eq_or_imp,exists_eq_left,
      false_and,exists_false] at hc
    rcases hc with rfl | (rfl | rfl | rfl | rfl) | rfl | rfl | rfl <;> decide +kernel
  obtain ⟨hpresent,horder,hdocument⟩ := Schema.inOrder_classes [repeatedSchema]
  have hbounds := hdocument repeatedSchema default repeatedRoot hread hparticles
  exact ⟨hread,hparticles,by decide +kernel,hbounds,hpresent.2,(horder (by simpa using hbounds)).2⟩

end SchemaBinding
