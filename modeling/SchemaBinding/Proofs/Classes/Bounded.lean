import SchemaBinding.Proofs.Classes.Built
import SchemaBinding.Proofs.Classes.Simplified

/-! Bounds of fields. The fields of classes, at every depth, have no other bounds than the particles of the schema, but for
those that have none and the values of a list; and what has to be there cannot be left out.
Main statements: where the bounds of all particles are of some kind, so are those of all fields; and they stay so when
classes are simplified, if the kind is that of bounds that may be opened. -/
namespace SchemaBinding
open SchemaBinding.Class (Everywhere everywhere_nil everywhere_append everywhere_singleton)

/-! ## Bounds in a schema -/

mutual

def ElementDeclaration.bounds : ElementDeclaration → List Occurrence
  | { occurs, complexType, .. } =>
    match complexType with
    | none => [occurs]
    | some t => occurs :: t.bounds

def ComplexType.bounds : ComplexType → List Occurrence
  | { particles, .. } => Particle.boundsAmong particles

def Particle.bounds : Particle → List Occurrence
  | .element e => e.bounds
  | .group _ occurs => [occurs]
  | .any _ occurs => [occurs]

def Particle.boundsAmong : List Particle → List Occurrence
  | [] => []
  | p :: rest => p.bounds ++ Particle.boundsAmong rest

end

theorem Particle.boundsAmong_eq_flatMap (ps : List Particle) : boundsAmong ps = ps.flatMap bounds := by
  induction ps with
  | nil => rfl
  | cons p ps ih => rw [boundsAmong,List.flatMap_cons,ih]

theorem ComplexType.bounds_eq (t : ComplexType) : t.bounds = t.particles.flatMap Particle.bounds := by
  cases t
  rw [ComplexType.bounds,Particle.boundsAmong_eq_flatMap]

theorem ElementDeclaration.bounds_eq (e : ElementDeclaration) :
    e.bounds = e.occurs :: (e.complexType.map ComplexType.bounds).getD [] := by
  obtain ⟨name,reference,type,occurs,default,fixed,nillable,isAbstract,help,complexType,simpleType⟩ := e
  cases complexType <;> rfl

theorem ElementDeclaration.forall_mem_bounds {Q : Occurrence → Prop} {e : ElementDeclaration} (hown : Q e.occurs)
    (htype : ∀ t ∈ e.complexType, ∀ o ∈ t.bounds, Q o) : ∀ o ∈ e.bounds, Q o := by
  rw [bounds_eq,List.forall_mem_cons]
  refine ⟨hown,?_⟩
  cases ht : e.complexType with
  | none => simp
  | some t => exact htype t ht

/-- The bounds of all elements, references to groups and wildcards in a schema, at every depth. -/
def Schema.bounds (s : Schema) : List Occurrence :=
  s.elements.flatMap ElementDeclaration.bounds ++ s.complexTypes.flatMap ComplexType.bounds ++
    s.groups.flatMap fun g => Particle.boundsAmong g.particles

/-! ## Bounds of fields -/

/-- A field with bounds of some kind, that allow no absence where the field is required. -/
structure Field.Bounded (Q : Occurrence → Prop) (f : Field) : Prop where
  required : f.required = some true → f.occurs.min ≠ some 0
  occurs : Q f.occurs

theorem Field.Bounded.of_required {Q : Occurrence → Prop} {f : Field} (hrequired : f.required = none)
    (h : Q f.occurs) : f.Bounded Q where
  required := by
    rw [hrequired]
    intro hsome
    cases hsome
  occurs := h

theorem Field.Bounded.of_min {Q : Occurrence → Prop} {f : Field} (hmin : f.occurs.min = none) (h : Q f.occurs) :
    f.Bounded Q where
  required := by
    rw [hmin]
    intro _ hsome
    cases hsome
  occurs := h

def Class.Bounded (Q : Occurrence → Prop) (c : Class) : Prop := ∀ f ∈ c.fields, f.Bounded Q

namespace Build

variable {Q : Occurrence → Prop}

structure Content.Bounded (Q : Occurrence → Prop) (k : Content) : Prop where
  own : ∀ f ∈ k.fields, f.Bounded Q
  below : Everywhere (Class.Bounded Q) k.inner

namespace Content.Bounded

theorem plain {fs : List Field} (h : ∀ f ∈ fs, f.Bounded Q) : Content.Bounded Q { fields := fs } := ⟨h,everywhere_nil⟩

theorem append {a b : Content} (ha : a.Bounded Q) (hb : b.Bounded Q) : (a ++ b).Bounded Q where
  own := List.forall_mem_append.mpr ⟨ha.own,hb.own⟩
  below := everywhere_append.mpr ⟨ha.below,hb.below⟩

theorem everywhere {c : Class} (h : Content.Bounded Q ⟨c.fields,c.inner⟩) : Everywhere (Class.Bounded Q) [c] :=
  everywhere_singleton.mpr ⟨h.own,h.below⟩

end Content.Bounded

theorem bounded_elementField {e : ElementDeclaration} (h : Q e.occurs) (space : Option String) (name type : String)
    (forward : Bool) (facets : Facets) : (elementField space e name type forward facets).Bounded Q := by
  refine ⟨?_,h⟩
  unfold elementField
  dsimp only
  split
  · rename_i hmin
    exact fun _ => hmin.1
  · intro hrequired
    cases hrequired

theorem bounded_plainElementField {e : ElementDeclaration} (h : Q e.occurs) (space : Option String) (name : String) :
    (plainElementField space e name).Bounded Q := by
  unfold plainElementField
  split
  · exact bounded_elementField h ..
  · split <;> exact bounded_elementField h ..

section
variable (hnone : Q {})
include hnone

theorem bounded_complexValueFields (t : ComplexType) : ∀ f ∈ complexValueFields t, f.Bounded Q := by
  unfold complexValueFields
  split
  · intro f hf
    obtain ⟨base,_,rfl⟩ := List.mem_map.mp hf
    exact .of_min rfl hnone
  · simp

theorem bounded_attributeField? {a : AttributeDeclaration} {f : Field} (h : attributeField? a = some f) :
    f.Bounded Q := by
  obtain ⟨name,_,rfl⟩ := Option.map_eq_some_iff.mp h
  exact .of_min rfl hnone

theorem bounded_attributeFields (attributes : List AttributeDeclaration) (groups : List String) (any : Bool) :
    ∀ f ∈ attributeFields attributes groups any, f.Bounded Q := by
  intro f hf
  simp only [attributeFields,List.mem_append,List.mem_filterMap,List.mem_map] at hf
  rcases hf with (⟨a,_,ha⟩ | ⟨group,_,rfl⟩) | hany
  · exact bounded_attributeField? hnone ha
  · exact .of_min rfl hnone
  · cases any with
    | false => cases hany
    | true =>
      rw [List.mem_singleton.mp hany]
      exact .of_min rfl hnone

end

/-! ## Content models -/

mutual

theorem bounded_complexContent (hnone : Q {}) (space : Option String) :
    ∀ t : ComplexType, (∀ o ∈ t.bounds, Q o) → (complexContent space t).Bounded Q
  | { particles, .. }, h => by
    rw [ComplexType.bounds] at h
    have hparticles := bounded_particleContents hnone space particles h
    rw [complexContent]
    exact (Content.Bounded.plain (bounded_complexValueFields hnone _)).append hparticles
      |>.append (.plain (bounded_attributeFields hnone _ _ _))

theorem bounded_particleContents (hnone : Q {}) (space : Option String) :
    ∀ ps : List Particle, (∀ o ∈ Particle.boundsAmong ps, Q o) → (particleContents space ps).Bounded Q
  | [], _ => .plain (by simp)
  | p :: ps, h => by
    rw [Particle.boundsAmong] at h
    obtain ⟨hp,hps⟩ := List.forall_mem_append.mp h
    rw [particleContents]
    exact (bounded_particleContent hnone space p hp).append (bounded_particleContents hnone space ps hps)

theorem bounded_particleContent (hnone : Q {}) (space : Option String) :
    ∀ p : Particle, (∀ o ∈ p.bounds, Q o) → (particleContent space p).Bounded Q
  | .element e, h => by
    rw [Particle.bounds] at h
    rw [particleContent]
    exact bounded_elementContent hnone space e h
  | .group reference occurs, h => by
    rw [particleContent]
    rw [Particle.bounds] at h
    have hfield : (groupField .group reference occurs).Bounded Q := .of_required rfl (h occurs (List.mem_singleton_self occurs))
    exact .plain (by simpa using hfield)
  | .any any occurs, h => by
    rw [particleContent]
    rw [Particle.bounds] at h
    have hfield : (anyField any occurs).Bounded Q := .of_required rfl (h occurs (List.mem_singleton_self occurs))
    exact .plain (by simpa using hfield)

theorem bounded_elementContent (hnone : Q {}) (space : Option String) :
    ∀ e : ElementDeclaration, (∀ o ∈ e.bounds, Q o) → (elementContent space e).Bounded Q
  | { complexType := none, .. }, h => by
    rw [elementContent]
    split
    · exact .plain (by simp)
    · exact .plain (by simpa using bounded_plainElementField (h _ (by simp [ElementDeclaration.bounds])) _ _)
  | { occurs, complexType := some t, .. }, h => by
    rw [ElementDeclaration.bounds] at h
    obtain ⟨hown,hbelow⟩ := List.forall_mem_cons.mp h
    have ht := bounded_complexContent hnone space t hbelow
    rw [elementContent]
    split
    · exact .plain (by simp)
    · split
      · obtain rfl := Option.some.inj ‹some t = some _›
        exact ⟨by simpa using bounded_elementField hown _ _ _ _ _,Content.Bounded.everywhere ht⟩
      · exact .plain (by simpa using bounded_plainElementField hown _ _)

end

/-! ## Declarations -/

theorem bounded_plainClass {c : Class} (hfields : ∀ f ∈ c.fields, f.Bounded Q) (hinner : c.inner = []) :
    Everywhere (Class.Bounded Q) [c] := by
  apply Content.Bounded.everywhere
  rw [hinner]
  exact .plain hfields

section
variable (hnone : Q {})
include hnone

theorem bounded_complexClass (space : Option String) (name : String) (kind : Kind) (help : Option String) {t : ComplexType}
    (h : ∀ o ∈ t.bounds, Q o) : Everywhere (Class.Bounded Q) [complexClass space name kind help t] :=
  Content.Bounded.everywhere (bounded_complexContent hnone space t h)

theorem bounded_elementClass? {space : Option String} {e : ElementDeclaration} {c : Class}
    (h : elementClass? space e = some c) (he : ∀ o ∈ e.bounds, Q o) : Everywhere (Class.Bounded Q) [c] := by
  obtain ⟨name,_,rfl⟩ := Option.map_eq_some_iff.mp h
  dsimp only
  split
  · exact bounded_plainClass (by simp) rfl
  · rename_i t _ ht
    refine bounded_complexClass hnone space name .element e.help fun o ho => he o ?_
    rw [e.bounds_eq,ht]
    exact List.mem_cons_of_mem _ ho
  · exact bounded_plainClass (by simpa using .of_min rfl hnone) rfl
  · exact bounded_plainClass (by simp) rfl

theorem bounded_simpleField (hlist : Q { max := some unbounded }) (t : SimpleType) : (simpleField t).Bounded Q := by
  unfold simpleField
  split
  · exact .of_min rfl hnone
  · exact .of_min rfl hlist
  · exact .of_min rfl hnone
  · exact .of_min rfl hnone

theorem bounded_simpleTypeClass? (hlist : Q { max := some unbounded }) {space : Option String} {t : SimpleType} {c : Class}
    (h : simpleTypeClass? space t = some c) : Everywhere (Class.Bounded Q) [c] := by
  obtain ⟨name,_,rfl⟩ := Option.map_eq_some_iff.mp h
  dsimp only
  split
  · exact bounded_plainClass (by simpa using bounded_simpleField hnone hlist t) rfl
  · refine bounded_plainClass (fun f hf => ?_) rfl
    obtain ⟨value,_,rfl⟩ := List.mem_map.mp hf
    exact .of_min rfl hnone

theorem bounded_groupClass (space : Option String) {g : Group} (h : ∀ o ∈ Particle.boundsAmong g.particles, Q o) :
    Everywhere (Class.Bounded Q) [groupClass space g] :=
  Content.Bounded.everywhere (bounded_particleContents hnone space g.particles h)

theorem bounded_attributeGroupClass (space : Option String) (g : AttributeGroup) :
    Everywhere (Class.Bounded Q) [attributeGroupClass space g] :=
  bounded_plainClass (bounded_attributeFields hnone g.attributes g.attributeGroups g.anyAttribute) rfl

theorem bounded_attributeClass? {space : Option String} {a : AttributeDeclaration} {c : Class}
    (h : attributeClass? space a = some c) : Everywhere (Class.Bounded Q) [c] := by
  obtain ⟨name,_,rfl⟩ := Option.map_eq_some_iff.mp h
  exact bounded_plainClass (fun f hf => bounded_attributeField? hnone (Option.mem_toList.mp hf)) rfl

end
end Build

namespace Schema

/-- Where the bounds of all particles are of some kind, so are those of all fields. -/
theorem bounded_classes {Q : Occurrence → Prop} (hnone : Q {}) (hlist : Q { max := some unbounded }) {s : Schema}
    (h : ∀ o ∈ s.bounds, Q o) : Everywhere (Class.Bounded Q) s.classes := by
  simp only [Schema.bounds,List.forall_mem_append,List.forall_mem_flatMap] at h
  obtain ⟨⟨helements,htypes⟩,hgroups⟩ := h
  intro c hc d hd
  have hsingle : Everywhere (Class.Bounded Q) [c] := by
    simp only [Schema.classes,List.mem_append,List.mem_filterMap,List.mem_map] at hc
    rcases hc with ((((⟨e,hmem,he⟩ | ⟨t,hmem,ht⟩) | ⟨t,_,ht⟩) | ⟨g,hmem,rfl⟩) | ⟨g,_,rfl⟩) | ⟨a,_,ha⟩
    · exact Build.bounded_elementClass? hnone he (helements e hmem)
    · obtain ⟨name,_,rfl⟩ := Option.map_eq_some_iff.mp ht
      exact Build.bounded_complexClass hnone _ name .complexType t.help (htypes t hmem)
    · exact Build.bounded_simpleTypeClass? hnone hlist ht
    · exact Build.bounded_groupClass hnone _ (hgroups g hmem)
    · exact Build.bounded_attributeGroupClass hnone _ g
    · exact Build.bounded_attributeClass? hnone ha
  exact hsingle c (by simp) d hd

end Schema

/-! ## Simplification -/

/-- Bounds of a kind that takes in those that are absent, and stays when bounds are opened on either side. -/
structure Occurrence.Open (Q : Occurrence → Prop) : Prop where
  none : Q {}
  optional : ∀ o, Q o → Q { o with min := some 0 }
  repeated : ∀ o, Q o → Q { o with max := some unbounded }

namespace Simplify

variable {Q : Occurrence → Prop} (hQ : Occurrence.Open Q)
include hQ

theorem bounded_takePlace (reference f : Field) (h : f.Bounded Q) : (takePlace reference f).Bounded Q := by
  unfold takePlace
  split <;> split
  · exact .of_required rfl (hQ.repeated _ (hQ.optional _ h.occurs))
  · exact .of_required rfl (hQ.optional _ h.occurs)
  · exact ⟨h.required,hQ.repeated _ h.occurs⟩
  · exact h

theorem bounded_repeated (f again : Field) (h : f.Bounded Q) : (repeated f again).Bounded Q := by
  unfold repeated
  split
  · exact .of_required rfl (hQ.optional _ (hQ.repeated _ h.occurs))
  · exact ⟨h.required,hQ.repeated _ h.occurs⟩

/-- Simplification opens bounds and does nothing else to them. -/
theorem bounded_classes {cs : List Class} (h : Everywhere (Class.Bounded Q) cs) :
    Everywhere (Class.Bounded Q) (classes cs) :=
  everywhere_fields_classes (bounded_takePlace hQ) (bounded_repeated hQ) h

end Simplify
end SchemaBinding
