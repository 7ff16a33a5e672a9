import SchemaBinding.Proofs.Occurrences.Flattened

/-! What a schema is read from. Its components are read from the declarations of the document, and each complex type
that belongs to a particle is read from an element below. -/
namespace SchemaBinding
namespace Xml

/-! ## Elements below elements -/

namespace Element

/-- An element is found in another at some depth. -/
inductive Below (c : Element) : Element → Prop
  | self : Below c c
  | child {e d : Element} : d ∈ e.children → Below c d → Below c e

theorem Below.trans {b c e : Element} (h : Below b c) (hc : Below c e) : Below b e := by
  induction hc with
  | self => exact h
  | child hd _ ih => exact .child hd ih

/-- A complex type is read from some element below. -/
def HoldsType (e : Element) (t : ComplexType) : Prop :=
  ∃ c : Element, c.Below e ∧ c.name = "complexType" ∧ c.complexType = t

theorem HoldsType.child {e d : Element} {t : ComplexType} (h : d.HoldsType t) (hd : d ∈ e.children) :
    e.HoldsType t := by
  obtain ⟨c,hc,hname,ht⟩ := h
  exact ⟨c,.child hd hc,hname,ht⟩

/-- If a particle is an element with a type of its own, the type is read from some element below. -/
def HoldsParticle (e : Element) (p : Particle) : Prop :=
  ∀ d t, p = .element d → d.complexType = some t → e.HoldsType t

theorem holdsType_of_firstComplexType {e : Element} {t : ComplexType} (h : firstComplexType e.children = some t) :
    e.HoldsType t := by
  rw [firstComplexType_eq] at h
  obtain ⟨c,hc,rfl⟩ := Option.map_eq_some_iff.mp h
  exact ⟨c,.child (List.mem_of_find?_eq_some hc) .self,by simpa using List.find?_some hc,rfl⟩

/-- What a type has after elements are taken into it was there before or is from one of them. -/
theorem exists_of_mem_foldl {α : Type} {parts : ComplexType → List α} {take : ComplexType → Element → ComplexType}
    {From : Element → α → Prop} {es : List Element}
    (htake : ∀ t, ∀ c ∈ es, ∀ a ∈ parts (take t c), a ∈ parts t ∨ From c a) (t : ComplexType) :
    ∀ a ∈ parts (es.foldl take t), a ∈ parts t ∨ ∃ c ∈ es, From c a := by
  induction es generalizing t with
  | nil => exact fun _ ha => .inl ha
  | cons c es ih =>
    intro a ha
    rcases ih (fun t d hd => htake t d (List.mem_cons_of_mem _ hd)) (take t c) a ha with ha | ⟨d,hd,hfrom⟩
    · exact (htake t c List.mem_cons_self a ha).imp_right fun hfrom => ⟨c,List.mem_cons_self,hfrom⟩
    · exact .inr ⟨d,List.mem_cons_of_mem _ hd,hfrom⟩

/-- What the particles in an element hold, in each of the places where it may stand, is read from below. -/
structure HoldsTypes (e : Element) : Prop where
  particles : ∀ around, ∀ p ∈ e.particles around, e.HoldsParticle p
  member : ∀ t, ∀ p ∈ (e.takeMember t).particles, p ∈ t.particles ∨ e.HoldsParticle p
  derivation : ∀ t, ∀ p ∈ (e.takeTypeDerivation t).particles, p ∈ t.particles ∨ e.HoldsParticle p

namespace HoldsTypes
variable {e : Element}

theorem foldl {take : ComplexType → Element → ComplexType}
    (htake : ∀ t, ∀ c ∈ e.children, ∀ p ∈ (take t c).particles, p ∈ t.particles ∨ c.HoldsParticle p) (t : ComplexType) :
    ∀ p ∈ (e.children.foldl take t).particles, p ∈ t.particles ∨ e.HoldsParticle p := by
  intro p hp
  refine (exists_of_mem_foldl htake t p hp).imp_right ?_
  rintro ⟨c,hc,hheld⟩ d u hd hu
  exact (hheld d u hd hu).child hc

variable (h : ∀ c ∈ e.children, c.HoldsTypes)
include h

theorem particlesAmong (around : Surroundings) : ∀ p ∈ particlesAmong around e.children, e.HoldsParticle p := by
  rw [particlesAmong_eq_flatMap]
  intro p hp d t hd ht
  obtain ⟨c,hc,hp⟩ := List.mem_flatMap.mp hp
  exact ((h c hc).particles around p hp d t hd ht).child hc

theorem takeMembers (t : ComplexType) :
    ∀ p ∈ (takeMembers t e.children).particles, p ∈ t.particles ∨ e.HoldsParticle p := by
  rw [takeMembers_eq_foldl]
  exact foldl (fun t c hc => (h c hc).member t) t

theorem takeTypeDerivations (t : ComplexType) :
    ∀ p ∈ (takeTypeDerivations t e.children).particles, p ∈ t.particles ∨ e.HoldsParticle p := by
  rw [takeTypeDerivations_eq_foldl]
  exact foldl (fun t c hc => (h c hc).derivation t) t

end HoldsTypes

theorem holdsParticle_groupParticle? (e : Element) (around : Surroundings) :
    ∀ p ∈ (e.groupParticle? around).toList, e.HoldsParticle p := by
  intro p hp d t hd
  obtain ⟨reference,_,rfl⟩ := Option.map_eq_some_iff.mp (Option.mem_toList.mp hp)
  cases hd

theorem holdsTypes (e : Element) : e.HoldsTypes := by
  induction e using inductionOnChildren with
  | step e ih =>
    constructor
    · intro around
      rw [particles_eq]
      split
      · exact HoldsTypes.particlesAmong ih _
      · split
        · intro p hp d t hd ht
          obtain rfl := List.mem_singleton.mp hp
          obtain rfl := Particle.element.inj hd
          exact holdsType_of_firstComplexType ht
        · split
          · exact holdsParticle_groupParticle? e around
          · split
            · intro p hp d t hd
              obtain rfl := List.mem_singleton.mp hp
              cases hd
            · simp
    · intro t p
      rw [takeMember_eq]
      split
      · intro hp
        exact (List.mem_append.mp hp).imp_right (HoldsTypes.particlesAmong ih _ p)
      · split
        · exact HoldsTypes.takeTypeDerivations ih _ p
        · intro hp
          by_cases hgroup : e.name = "group"
          · simp only [takePlainMember,hgroup] at hp
            exact (List.mem_append.mp hp).imp_right (holdsParticle_groupParticle? e {} p)
          · rw [Node.particles_takePlainMember hgroup] at hp
            exact Or.inl hp
    · intro t p
      rw [takeTypeDerivation_eq]
      split
      · exact HoldsTypes.takeMembers ih _ p
      · exact Or.inl

/-- A type that belongs to a particle of a type is read from below what that type is read from. -/
theorem HoldsType.particle {e : Element} {t u : ComplexType} (h : e.HoldsType t) {d : ElementDeclaration}
    (hd : Particle.element d ∈ t.particles) (hu : d.complexType = some u) : e.HoldsType u := by
  obtain ⟨c,hc,_,rfl⟩ := h
  rw [complexType_eq] at hd
  rcases HoldsTypes.takeMembers (fun b _ => b.holdsTypes) c.bareComplexType _ hd with hbare | hheld
  · cases hbare
  · obtain ⟨b,hb,hname,hb'⟩ := hheld d u rfl hu
    exact ⟨b,hb.trans hc,hname,hb'⟩

end Element

/-! ## Nodes -/

namespace Node

theorem Inside.trans {m n root : Node} (h : m.Inside n) (hn : n.Inside root) : m.Inside root := by
  induction hn with
  | self => exact h
  | child hc _ ih => exact .child hc ih

theorem Own.inside {n root : Node} (h : root.Own) (hn : n.Inside root) : n.Own :=
  fun tag content hinside => h tag content (hinside.trans hn)

theorem mem_ofNodes {outer : Scope} {ns : List Node} {c : Element} :
    c ∈ Element.ofNodes outer ns ↔ ∃ n ∈ ns, Element.ofNode outer n = some c := by
  induction ns with
  | nil => simp [Element.ofNodes]
  | cons n ns ih => simp [Element.ofNodes,ih]

theorem exists_ofNode {n : Node} {name : String} (h : n.localName? = some name) (outer : Scope) :
    ∃ e, Element.ofNode outer n = some e ∧ e.name = name := by
  match n,h with
  | element tag content,h =>
    obtain ⟨e,he,hname,_⟩ := ofNode_element outer tag content
    exact ⟨e,he,hname.trans (Option.some.inj h)⟩

theorem child_inside {n c : Node} (h : c ∈ n.content) : c.Inside n := by
  match n,h with
  | element tag content,h => exact .child h .self

/-- What is below an element is read from inside its node. -/
theorem exists_node_of_below {c e : Element} (h : c.Below e) :
    ∀ {outer : Scope} {root : Node}, Element.ofNode outer root = some e →
      ∃ n, n.Inside root ∧ ∃ outer, Element.ofNode outer n = some c := by
  induction h with
  | self => exact fun {outer root} he => ⟨root,.self,outer,he⟩
  | child hd _ ih =>
    intro outer root he
    rw [children_ofNode he] at hd
    obtain ⟨m,hm,hread⟩ := mem_ofNodes.mp hd
    obtain ⟨n,hn,hfound⟩ := ih hread
    exact ⟨n,hn.trans (child_inside hm),hfound⟩

end Node
end Xml

/-! ## Declarations -/

namespace Schema
open Xml (Node Element)

/-- What a child of the schema element declares. -/
def declaredIn (c : Element) : List Element :=
  match ReferenceKind.ofName? c.name with
  | none => [c]
  | some kind => if kind.redefines then c.children else []

section Folds
variable {α : Type} {part : Schema → List α} {read : Element → List α}
  (hcomponent : ∀ s e, part (addComponent s e) = part s ++ read e)
  (hreferences : ∀ (s : Schema) references, part { s with references } = part s)
include hcomponent

theorem part_foldl_addComponent (es : List Element) (s : Schema) :
    part (es.foldl addComponent s) = part s ++ es.flatMap read := by
  induction es generalizing s with
  | nil => simp
  | cons e es ih => rw [List.foldl_cons,ih,hcomponent,List.flatMap_cons,List.append_assoc]

include hreferences

/-- The components of one kind are those that are read from declarations. -/
theorem part_foldl_addChild (r : Reading) (es : List Element) (s : Schema) :
    part (es.foldl (addChild r) s) = part s ++ (es.flatMap declaredIn).flatMap read := by
  have hchild : ∀ s e, part (addChild r s e) = part s ++ (declaredIn e).flatMap read := by
    intro s e
    unfold addChild declaredIn
    cases ReferenceKind.ofName? e.name with
    | none => simpa using hcomponent s e
    | some kind =>
      cases hredefines : kind.redefines with
      | true => simp [hredefines,part_foldl_addComponent hcomponent,hreferences]
      | false => simp [hredefines,hreferences]
  induction es generalizing s with
  | nil => simp
  | cons e es ih =>
    rw [List.foldl_cons,ih,hchild,List.flatMap_cons,List.flatMap_append,List.append_assoc]

end Folds

/-- Where each declaration of a local name adds what is read from it, the components are those that are read from the
declarations of that name. -/
theorem mem_part {α : Type} {part : Schema → List α} {name : String} {read : Element → α} {r : Reading} {e : Element}
    {s : Schema} (h : ofElement r e = .ok s)
    (hcomponent : ∀ s e, part (addComponent s e) = part s ++ if e.name = name then [read e] else [])
    (hreferences : ∀ (s : Schema) references, part { s with references } = part s)
    (hempty : ∀ location targetNamespace scope, part { location, targetNamespace, scope } = []) {x : α} :
    x ∈ part s ↔ ∃ c ∈ e.children.flatMap declaredIn, c.name = name ∧ read c = x := by
  unfold ofElement at h
  split at h
  · cases h
  · obtain rfl := Except.ok.inj h
    rw [part_foldl_addChild hcomponent hreferences,hempty,List.nil_append,List.mem_flatMap]
    refine exists_congr fun c => and_congr_right fun _ => ?_
    by_cases hname : c.name = name <;> simp [hname,eq_comm]

section Declared
variable {r : Reading} {e : Element} {s : Schema} (h : ofElement r e = .ok s)
include h

theorem mem_groups {g : Group} :
    g ∈ s.groups ↔ ∃ c ∈ e.children.flatMap declaredIn, c.name = "group" ∧ c.group = g := by
  refine mem_part h (fun s c => ?_) (fun _ _ => rfl) fun _ _ _ => rfl
  unfold addComponent
  split <;> simp_all

theorem mem_elements {d : ElementDeclaration} :
    d ∈ s.elements ↔ ∃ c ∈ e.children.flatMap declaredIn, c.name = "element" ∧ c.elementDeclaration = d := by
  refine mem_part h (fun s c => ?_) (fun _ _ => rfl) fun _ _ _ => rfl
  unfold addComponent
  split <;> simp_all

theorem mem_complexTypes {t : ComplexType} :
    t ∈ s.complexTypes ↔ ∃ c ∈ e.children.flatMap declaredIn, c.name = "complexType" ∧ c.complexType = t := by
  refine mem_part h (fun s c => ?_) (fun _ _ => rfl) fun _ _ _ => rfl
  unfold addComponent
  split <;> simp_all

theorem mem_attributeGroups {g : AttributeGroup} :
    g ∈ s.attributeGroups ↔ ∃ c ∈ e.children.flatMap declaredIn, c.name = "attributeGroup" ∧ c.attributeGroup = g := by
  refine mem_part h (fun s c => ?_) (fun _ _ => rfl) fun _ _ _ => rfl
  unfold addComponent
  split <;> simp_all

end Declared

theorem below_of_mem_declaredIn {e c : Element} (h : c ∈ e.children.flatMap declaredIn) : c.Below e := by
  obtain ⟨d,hd,hc⟩ := List.mem_flatMap.mp h
  unfold declaredIn at hc
  split at hc
  · obtain rfl := List.mem_singleton.mp hc
    exact .child hd .self
  · split at hc
    · exact .child hd (.child hc .self)
    · cases hc

/-- What is declared is read from the declarations of the document. -/
theorem exists_declaration {outer : Scope} {root : Node} {e c : Element} (he : Element.ofNode outer root = some e)
    (hc : c ∈ e.children.flatMap declaredIn) :
    ∃ n ∈ root.declarations, ∃ outer, Element.ofNode outer n = some c := by
  obtain ⟨d,hd,hc⟩ := List.mem_flatMap.mp hc
  rw [Node.children_ofNode he] at hd
  obtain ⟨m,hm,hread⟩ := Node.mem_ofNodes.mp hd
  have hname := Node.localName?_of_ofNode hread
  unfold declaredIn at hc
  cases hkind : ReferenceKind.ofName? d.name with
  | none =>
    rw [hkind] at hc
    obtain rfl := List.mem_singleton.mp hc
    exact ⟨m,List.mem_flatMap.mpr ⟨m,hm,by simp [hname,hkind]⟩,_,hread⟩
  | some kind =>
    rw [hkind] at hc
    cases hredefines : kind.redefines with
    | false => simp [hredefines] at hc
    | true =>
      simp only [hredefines,if_true,Node.children_ofNode hread] at hc
      obtain ⟨n,hn,hread⟩ := Node.mem_ofNodes.mp hc
      exact ⟨n,List.mem_flatMap.mpr ⟨m,hm,by simp [hname,hkind,hredefines,hn]⟩,_,hread⟩

/-- Each declaration of the document is read. -/
theorem exists_declared {outer : Scope} {root n : Node} {e : Element} {name : String}
    (he : Element.ofNode outer root = some e) (hn : n ∈ root.declarations) (hname : n.localName? = some name) :
    ∃ c ∈ e.children.flatMap declaredIn, ∃ outer, Element.ofNode outer n = some c := by
  obtain ⟨m,hm,hn⟩ := List.mem_flatMap.mp hn
  have helement : ∃ local?, m.localName? = some local? := by
    cases hlocal : m.localName? with
    | none => simp [hlocal] at hn
    | some found => exact ⟨found,rfl⟩
  obtain ⟨found,hlocal⟩ := helement
  obtain ⟨d,hread,hdname⟩ := Node.exists_ofNode hlocal e.scope
  have hd : d ∈ e.children := by
    rw [Node.children_ofNode he]
    exact Node.mem_ofNodes.mpr ⟨m,hm,hread⟩
  rw [hlocal] at hn
  cases hkind : ReferenceKind.ofName? found with
  | none =>
    simp only [Option.map_some,hkind,List.mem_singleton] at hn
    subst hn
    exact ⟨d,List.mem_flatMap.mpr ⟨d,hd,by simp [declaredIn,hdname,hkind]⟩,_,hread⟩
  | some kind =>
    simp only [Option.map_some,hkind] at hn
    cases hredefines : kind.redefines with
    | false => simp [hredefines] at hn
    | true =>
      simp only [hredefines,if_true] at hn
      obtain ⟨c,hc,_⟩ := Node.exists_ofNode hname d.scope
      have hchild : c ∈ d.children := by
        rw [Node.children_ofNode hread]
        exact Node.mem_ofNodes.mpr ⟨n,hn,hc⟩
      exact ⟨c,List.mem_flatMap.mpr ⟨d,hd,by simp [declaredIn,hdname,hkind,hredefines,hchild]⟩,_,hc⟩

end Schema

end SchemaBinding
