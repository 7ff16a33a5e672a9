import SchemaBinding.Proofs.Occurrences.Expanded

/-! Where references to groups in classes come from. Main statement: each class that is built from a schema, at any depth, is
in the namespace of the schema, and its fields for references are read from elements of the document. -/
namespace SchemaBinding

/-- The group that a particle refers to. -/
def Particle.reference? : Particle → Option (Kind × String)
  | .group reference _ => some (.group,reference)
  | _ => none

/-- The groups that a complex type refers to itself. -/
def ComplexType.references (t : ComplexType) : List (Kind × String) :=
  t.particles.filterMap Particle.reference? ++ t.attributeGroups.map (.attributeGroup,·)

namespace Xml
namespace Element

/-- An element that refers to a group. -/
def RefersTo (x : Element) (kind : Kind) (reference : String) : Prop :=
  x.name = kind.name ∧ x.attribute? "ref" = some reference

/-- A reference is read from some element below. -/
def HoldsReference (e : Element) (q : Kind × String) : Prop := ∃ x : Element, x.Below e ∧ x.RefersTo q.1 q.2

theorem HoldsReference.trans {e d : Element} {q : Kind × String} (h : d.HoldsReference q) (hd : d.Below e) :
    e.HoldsReference q := by
  obtain ⟨x,hx,hrefers⟩ := h
  exact ⟨x,hx.trans hd,hrefers⟩

/-- The references in what is read from an element, in each of the places where it may stand, are read from below. -/
structure ReadsReferences (e : Element) : Prop where
  particles : ∀ around, ∀ q ∈ (e.particles around).filterMap Particle.reference?, e.HoldsReference q
  member : ∀ t, ∀ q ∈ (e.takeMember t).references, q ∈ t.references ∨ e.HoldsReference q
  derivation : ∀ t, ∀ q ∈ (e.takeTypeDerivation t).references, q ∈ t.references ∨ e.HoldsReference q

theorem holdsReference_groupParticle? {e : Element} (hname : e.name = "group") (around : Surroundings) :
    ∀ q ∈ (e.groupParticle? around).toList.filterMap Particle.reference?, e.HoldsReference q := by
  intro q hq
  obtain ⟨p,hp,hq⟩ := List.mem_filterMap.mp hq
  obtain ⟨reference,hreference,rfl⟩ := Option.map_eq_some_iff.mp (Option.mem_toList.mp hp)
  obtain rfl := Option.some.inj hq
  exact ⟨e,.self,hname,hreference⟩

theorem holdsReference_takePlainMember (e : Element) (t : ComplexType) :
    ∀ q ∈ (takePlainMember t e).references, q ∈ t.references ∨ e.HoldsReference q := by
  intro q hq
  unfold takePlainMember at hq
  split at hq
  · rename_i hname
    simp only [ComplexType.references,List.filterMap_append,List.mem_append] at hq ⊢
    rcases hq with (hq | hq) | hq
    · exact .inl (.inl hq)
    · exact .inr (holdsReference_groupParticle? hname {} q hq)
    · exact .inl (.inr hq)
  · exact .inl hq
  · rename_i hname
    simp only [ComplexType.references,List.map_append,List.mem_append] at hq ⊢
    rcases hq with hq | hq | hq
    · exact .inl (.inl hq)
    · exact .inl (.inr hq)
    · obtain ⟨reference,hreference,rfl⟩ := List.mem_map.mp hq
      exact .inr ⟨e,.self,hname,Option.mem_toList.mp hreference⟩
  · exact .inl hq
  · exact .inl hq

namespace ReadsReferences
variable {e : Element}

theorem foldl {take : ComplexType → Element → ComplexType}
    (htake : ∀ t, ∀ c ∈ e.children, ∀ q ∈ (take t c).references, q ∈ t.references ∨ c.HoldsReference q) (t : ComplexType) :
    ∀ q ∈ (e.children.foldl take t).references, q ∈ t.references ∨ e.HoldsReference q := by
  intro q hq
  refine (exists_of_mem_foldl htake t q hq).imp_right ?_
  rintro ⟨c,hc,hheld⟩
  exact hheld.trans (.child hc .self)

variable (h : ∀ c ∈ e.children, c.ReadsReferences)
include h

theorem particlesAmong (around : Surroundings) :
    ∀ q ∈ (particlesAmong around e.children).filterMap Particle.reference?, e.HoldsReference q := by
  rw [particlesAmong_eq_flatMap]
  intro q hq
  obtain ⟨p,hp,hq⟩ := List.mem_filterMap.mp hq
  obtain ⟨c,hc,hp⟩ := List.mem_flatMap.mp hp
  exact ((h c hc).particles around q (List.mem_filterMap.mpr ⟨p,hp,hq⟩)).trans (.child hc .self)

theorem takeMembers (t : ComplexType) :
    ∀ q ∈ (takeMembers t e.children).references, q ∈ t.references ∨ e.HoldsReference q := by
  rw [takeMembers_eq_foldl]
  exact foldl (fun t c hc => (h c hc).member t) t

theorem takeTypeDerivations (t : ComplexType) :
    ∀ q ∈ (takeTypeDerivations t e.children).references, q ∈ t.references ∨ e.HoldsReference q := by
  rw [takeTypeDerivations_eq_foldl]
  exact foldl (fun t c hc => (h c hc).derivation t) t

end ReadsReferences

theorem readsReferences (e : Element) : e.ReadsReferences := by
  induction e using inductionOnChildren with
  | step e ih =>
    constructor
    · intro around
      rw [particles_eq]
      split
      · exact ReadsReferences.particlesAmong ih _
      · split
        · simp [Particle.reference?]
        · split
          · exact holdsReference_groupParticle? ‹e.name = "group"› around
          · split
            · simp [anyParticle,Particle.reference?]
            · simp
    · intro t q hq
      rw [takeMember_eq] at hq
      split at hq
      · simp only [ComplexType.references,List.filterMap_append,List.mem_append] at hq ⊢
        rcases hq with (hq | hq) | hq
        · exact .inl (.inl hq)
        · exact .inr (ReadsReferences.particlesAmong ih _ q hq)
        · exact .inl (.inr hq)
      · split at hq
        · exact ReadsReferences.takeTypeDerivations ih (takeContentKind t e) q hq
        · exact holdsReference_takePlainMember e t q hq
    · intro t q hq
      rw [takeTypeDerivation_eq] at hq
      split at hq
      · exact ReadsReferences.takeMembers ih { t with base := e.attribute? "base" } q hq
      · exact .inl hq

/-- The references of a type are read from below what the type is read from. -/
theorem HoldsType.references {e : Element} {t : ComplexType} (h : e.HoldsType t) :
    ∀ q ∈ t.references, e.HoldsReference q := by
  obtain ⟨c,hc,_,rfl⟩ := h
  intro q hq
  rw [complexType_eq] at hq
  rcases ReadsReferences.takeMembers (fun b _ => b.readsReferences) c.bareComplexType q hq with hbare | hheld
  · cases hbare
  · exact hheld.trans hc

theorem references_group (e : Element) : ∀ q ∈ e.group.particles.filterMap Particle.reference?, e.HoldsReference q := by
  intro q hq
  obtain ⟨p,hp,hq⟩ := List.mem_filterMap.mp hq
  obtain ⟨c,hc,hp⟩ := List.mem_flatMap.mp hp
  exact (c.readsReferences.particles {} q (List.mem_filterMap.mpr ⟨p,hp,hq⟩)).trans
    (.child (List.mem_filter.mp hc).1 .self)

theorem references_attributeGroup (e : Element) :
    ∀ reference ∈ e.attributeGroup.attributeGroups, e.HoldsReference (.attributeGroup,reference) := by
  unfold attributeGroup
  refine List.foldlRecOn e.children takeAttributeMember
    (motive := fun g => ∀ reference ∈ g.attributeGroups, e.HoldsReference (.attributeGroup,reference)) ?_ ?_
  · intro reference hnone
    cases hnone
  · intro g hg c hc reference hreference
    unfold takeAttributeMember at hreference
    split at hreference
    · exact hg reference hreference
    · rename_i hname
      rcases List.mem_append.mp hreference with hreference | hreference
      · exact hg reference hreference
      · exact ⟨c,.child hc .self,hname,Option.mem_toList.mp hreference⟩
    · exact hg reference hreference
    · exact hg reference hreference

end Element
end Xml

namespace Class
open Xml (Element)

/-- A class in a namespace whose references to groups are read from an element. -/
structure ReadFrom (e : Element) (space : Option String) (c : Class) : Prop where
  inSpace : c.space = space
  references : ∀ f ∈ c.fields, f.kind.isGroup → e.HoldsReference (f.kind,f.type)

end Class

namespace Build
open Xml (Element)
open SchemaBinding.Class (Everywhere everywhere_singleton ReadFrom)

variable {e : Element} {space : Option String}

/-- The fields for references in particles are those for groups that the particles refer to. -/
theorem reference_particleContents {ps : List Particle} {f : Field} (hf : f ∈ (particleContents space ps).fields)
    (hgroup : f.kind.isGroup) : (f.kind,f.type) ∈ ps.filterMap Particle.reference? := by
  induction ps with
  | nil => simp [particleContents] at hf
  | cons p ps ih =>
    rw [particleContents] at hf
    rcases List.mem_append.mp hf with hf | hf
    · cases p with
      | group reference occurs =>
        rw [particleContent,List.mem_singleton] at hf
        rw [hf]
        exact List.mem_cons_self
      | any any occurs =>
        rw [particleContent,List.mem_singleton] at hf
        rw [hf] at hgroup
        cases hgroup
      | element d =>
        rw [particleContent] at hf
        rcases fields_elementContent space d with ⟨_,hfields⟩ | ⟨_,_,_,_,_,hfields⟩
        · rw [hfields] at hf
          cases hf
        · rw [hfields,List.mem_singleton] at hf
          rw [hf] at hgroup
          cases hgroup
    · rw [List.filterMap_cons]
      split
      · exact ih hf
      · exact List.mem_cons_of_mem _ (ih hf)

theorem reference_attributeFields {attributes : List AttributeDeclaration} {groups : List String} {any : Bool} {f : Field}
    (hf : f ∈ attributeFields attributes groups any) (hgroup : f.kind.isGroup) :
    (f.kind,f.type) ∈ groups.map (Kind.attributeGroup,·) := by
  simp only [attributeFields,List.mem_append,List.mem_filterMap,List.mem_map] at hf
  rcases hf with (⟨a,_,ha⟩ | ⟨group,hmem,rfl⟩) | hany
  · obtain ⟨name,_,rfl⟩ := Option.map_eq_some_iff.mp ha
    cases hgroup
  · exact List.mem_map_of_mem hmem
  · cases any with
    | false => cases hany
    | true =>
      rw [List.mem_singleton.mp hany] at hgroup
      cases hgroup

theorem MadeFrom.readFrom {t : ComplexType} {c : Class} (h : MadeFrom space t c) (ht : e.HoldsType t) :
    c.ReadFrom e space := by
  refine ⟨h.inSpace,fun f hf hgroup => ht.references _ ?_⟩
  rw [h.fields,fields_complexContent,List.mem_append,List.mem_append] at hf
  rw [ComplexType.references,List.mem_append]
  rcases hf with (hf | hf) | hf
  · rw [kind_complexValueFields t f hf] at hgroup
    cases hgroup
  · exact .inl (reference_particleContents hf hgroup)
  · exact .inr (reference_attributeFields hf hgroup)

theorem MadeFrom.everywhere_readFrom {t : ComplexType} {c : Class} (h : MadeFrom space t c) (ht : e.HoldsType t) :
    Everywhere (ReadFrom e space) [c] := by
  intro b hb d hd
  obtain rfl := List.mem_singleton.mp hb
  obtain ⟨u,hu,hmade⟩ := h.within hd ht
  exact hmade.readFrom hu

/-- A class without inner classes and without references to groups. -/
theorem everywhere_readFrom_plain {c : Class} (hspace : c.space = space) (hfields : ∀ f ∈ c.fields, f.kind.isGroup = false)
    (hinner : c.inner = []) : Everywhere (ReadFrom e space) [c] := by
  rw [everywhere_singleton,hinner]
  refine ⟨⟨hspace,fun f hf hgroup => ?_⟩,Class.everywhere_nil⟩
  rw [hfields f hf] at hgroup
  cases hgroup

theorem everywhere_readFrom_elementClass? {d : ElementDeclaration} {c : Class} (h : elementClass? space d = some c)
    (ht : ∀ t, d.complexType = some t → e.HoldsType t) : Everywhere (ReadFrom e space) [c] := by
  obtain ⟨name,_,rfl⟩ := Option.map_eq_some_iff.mp h
  dsimp only
  split
  · exact everywhere_readFrom_plain rfl (by simp) rfl
  · exact (madeFrom_complexClass _ _ _ _ _).everywhere_readFrom (ht _ ‹_›)
  · exact everywhere_readFrom_plain rfl (by simp [valueField,Kind.isGroup]) rfl
  · exact everywhere_readFrom_plain rfl (by simp) rfl

theorem isGroup_simpleField (t : SimpleType) : (simpleField t).kind.isGroup = false := by
  unfold simpleField
  split <;> rfl

theorem everywhere_readFrom_simpleTypeClass? {t : SimpleType} {c : Class} (h : simpleTypeClass? space t = some c) :
    Everywhere (ReadFrom e space) [c] := by
  obtain ⟨name,_,rfl⟩ := Option.map_eq_some_iff.mp h
  dsimp only
  split
  · exact everywhere_readFrom_plain rfl (by simp [isGroup_simpleField]) rfl
  · exact everywhere_readFrom_plain rfl (by simp [enumerationField,Kind.isGroup]) rfl

theorem everywhere_readFrom_attributeClass? {a : AttributeDeclaration} {c : Class} (h : attributeClass? space a = some c) :
    Everywhere (ReadFrom e space) [c] := by
  obtain ⟨name,_,rfl⟩ := Option.map_eq_some_iff.mp h
  refine everywhere_readFrom_plain rfl (fun f hf => ?_) rfl
  obtain ⟨_,_,rfl⟩ := Option.map_eq_some_iff.mp (Option.mem_toList.mp hf)
  rfl

theorem everywhere_readFrom_group {g : Group}
    (hreferences : ∀ q ∈ g.particles.filterMap Particle.reference?, e.HoldsReference q)
    (htypes : ∀ p ∈ g.particles, e.HoldsParticle p) : Everywhere (ReadFrom e space) [groupClass space g] := by
  rw [everywhere_singleton]
  refine ⟨⟨rfl,fun f hf hgroup => hreferences _ (reference_particleContents hf hgroup)⟩,fun i hi => ?_⟩
  obtain ⟨d,t,hd,ht,hmade⟩ := madeFrom_of_mem_inner hi
  exact hmade.everywhere_readFrom (htypes _ hd d t rfl ht) i (List.mem_singleton_self i)

end Build
namespace Schema
open Xml (Element)
open SchemaBinding.Class (Everywhere ReadFrom)

variable {r : Reading} {e : Element} {s : Schema}

theorem holdsParticle_of_mem_groups (h : ofElement r e = .ok s) {g : Group} (hg : g ∈ s.groups) :
    (∀ p ∈ g.particles, e.HoldsParticle p) ∧ ∀ q ∈ g.particles.filterMap Particle.reference?, e.HoldsReference q := by
  obtain ⟨c,hc,_,rfl⟩ := (mem_groups h).mp hg
  have hbelow := below_of_mem_declaredIn hc
  refine ⟨fun p hp d t hd ht => ?_,fun q hq => (c.references_group q hq).trans hbelow⟩
  obtain ⟨b,hb,hp⟩ := List.mem_flatMap.mp hp
  obtain ⟨x,hx,hname,hread⟩ := b.holdsTypes.particles {} p hp d t hd ht
  exact ⟨x,hx.trans (.trans (.child (List.mem_filter.mp hb).1 .self) hbelow),hname,hread⟩

/-- Every class of a schema, at any depth, is in its namespace, and its references to groups stand in the document. -/
theorem everywhere_readFrom_classes (h : ofElement r e = .ok s) : Everywhere (ReadFrom e s.targetNamespace) s.classes := by
  intro c hc
  suffices hsingle : Everywhere (ReadFrom e s.targetNamespace) [c] from hsingle c (List.mem_singleton_self c)
  simp only [Schema.classes,List.mem_append,List.mem_filterMap,List.mem_map] at hc
  rcases hc with ((((⟨a,ha,hclass⟩ | ⟨t,ht,hclass⟩) | ⟨t,_,hclass⟩) | ⟨g,hg,rfl⟩) | ⟨g,hg,rfl⟩) | ⟨a,_,hclass⟩
  · exact Build.everywhere_readFrom_elementClass? hclass fun t ht => holdsType_of_mem_elements h ha ht
  · obtain ⟨name,_,rfl⟩ := Option.map_eq_some_iff.mp hclass
    exact (Build.madeFrom_complexClass _ _ _ _ t).everywhere_readFrom (holdsType_of_mem_complexTypes h ht)
  · exact Build.everywhere_readFrom_simpleTypeClass? hclass
  · obtain ⟨htypes,hreferences⟩ := holdsParticle_of_mem_groups h hg
    exact Build.everywhere_readFrom_group hreferences htypes
  · obtain ⟨c,hc,_,rfl⟩ := (mem_attributeGroups h).mp hg
    rw [Class.everywhere_singleton]
    refine ⟨⟨rfl,fun f hf hgroup => ?_⟩,Class.everywhere_nil⟩
    obtain ⟨reference,hreference,heq⟩ := List.mem_map.mp (Build.reference_attributeFields hf hgroup)
    rw [← heq]
    exact (c.references_attributeGroup reference hreference).trans (below_of_mem_declaredIn hc)
  · exact Build.everywhere_readFrom_attributeClass? hclass

end Schema
end SchemaBinding
