import SchemaBinding.Model.Build
import SchemaBinding.Proofs.Classes.Within

/-! The inner classes of the classes that are built from a schema. At every depth they are those that the
fields of their class refer to, one for each such field and in the order of the fields: a piece of a content
model adds a field that refers to an inner class together with that class, and no other. -/
namespace SchemaBinding

/-- The types of those fields whose type is an inner class. -/
def forwardTypes (fs : List Field) : List String := (fs.filter Field.forward).map Field.type

@[simp] theorem forwardTypes_append (fs gs : List Field) :
    forwardTypes (fs ++ gs) = forwardTypes fs ++ forwardTypes gs := by simp [forwardTypes]

theorem forwardTypes_eq_nil {fs : List Field} (h : ∀ f ∈ fs, f.forward = false) : forwardTypes fs = [] := by
  simpa [forwardTypes] using h

namespace Class

/-- The inner classes are those that the fields refer to, in their order. -/
def Paired (c : Class) : Prop := c.inner.map Class.name = forwardTypes c.fields

/-- Beside each field whose type is an inner class, there is an inner class of that name. -/
def Anchored (c : Class) : Prop := ∀ f ∈ c.fields, f.forward → ∃ i ∈ c.inner, i.name = f.type

theorem Paired.anchored {c : Class} (h : c.Paired) : c.Anchored := by
  intro f hf hforward
  have htype : f.type ∈ c.inner.map Class.name := by
    rw [show c.inner.map Class.name = forwardTypes c.fields from h]
    exact List.mem_map_of_mem (List.mem_filter.mpr ⟨hf,hforward⟩)
  exact List.mem_map.mp htype

end Class

namespace Build
open SchemaBinding.Class (Everywhere everywhere_nil everywhere_append everywhere_singleton)

/-- What a class gets from a piece of a content model pairs fields and inner classes, at every depth. -/
structure Content.Paired (k : Content) : Prop where
  own : k.inner.map Class.name = forwardTypes k.fields
  below : Everywhere Class.Paired k.inner

namespace Content.Paired

theorem plain {fs : List Field} (h : ∀ f ∈ fs, f.forward = false) : Content.Paired { fields := fs } :=
  ⟨(forwardTypes_eq_nil h).symm,everywhere_nil⟩

theorem append {a b : Content} (ha : a.Paired) (hb : b.Paired) : (a ++ b).Paired where
  own := by
    change (a.inner ++ b.inner).map Class.name = forwardTypes (a.fields ++ b.fields)
    rw [List.map_append,forwardTypes_append,ha.own,hb.own]
  below := everywhere_append.mpr ⟨ha.below,hb.below⟩

theorem everywhere {c : Class} (h : Content.Paired ⟨c.fields,c.inner⟩) : Everywhere Class.Paired [c] :=
  everywhere_singleton.mpr ⟨h.own,h.below⟩

end Content.Paired

/-! ## Fields without inner classes -/

theorem forward_plainElementField (space : Option String) (e : ElementDeclaration) (name : String) :
    (plainElementField space e name).forward = false := by
  unfold plainElementField
  split
  · rfl
  · split <;> rfl

theorem forward_complexValueFields (t : ComplexType) : ∀ f ∈ complexValueFields t, f.forward = false := by
  unfold complexValueFields
  split
  · intro f hf
    obtain ⟨base,_,rfl⟩ := List.mem_map.mp hf
    rfl
  · simp

theorem forward_attributeField? {a : AttributeDeclaration} {f : Field} (h : attributeField? a = some f) :
    f.forward = false := by
  obtain ⟨name,_,rfl⟩ := Option.map_eq_some_iff.mp h
  rfl

theorem forward_attributeFields (attributes : List AttributeDeclaration) (groups : List String) (any : Bool) :
    ∀ f ∈ attributeFields attributes groups any, f.forward = false := by
  intro f hf
  simp only [attributeFields,List.mem_append,List.mem_filterMap,List.mem_map] at hf
  rcases hf with (⟨a,_,ha⟩ | ⟨group,_,rfl⟩) | hany
  · exact forward_attributeField? ha
  · rfl
  · cases any with
    | false => cases hany
    | true =>
      rw [List.mem_singleton.mp hany]
      rfl

/-! ## Content models -/

mutual

theorem paired_complexContent (space : Option String) : ∀ t : ComplexType, (complexContent space t).Paired
  | { particles, .. } => by
    have hparticles := paired_particleContents space particles
    rw [complexContent]
    exact (Content.Paired.plain (forward_complexValueFields _)).append hparticles
      |>.append (.plain (forward_attributeFields _ _ _))

theorem paired_particleContents (space : Option String) :
    ∀ ps : List Particle, (particleContents space ps).Paired
  | [] => .plain (by simp)
  | p :: ps => by
    rw [particleContents]
    exact (paired_particleContent space p).append (paired_particleContents space ps)

theorem paired_particleContent (space : Option String) : ∀ p : Particle, (particleContent space p).Paired
  | .element e => by
    rw [particleContent]
    exact paired_elementContent space e
  | .group reference occurs => by
    rw [particleContent]
    exact .plain (by simp [groupField])
  | .any any occurs => by
    rw [particleContent]
    exact .plain (by simp [anyField])

theorem paired_elementContent (space : Option String) : ∀ e : ElementDeclaration, (elementContent space e).Paired
  | { complexType := none, .. } => by
    rw [elementContent]
    split
    · exact .plain (by simp)
    · exact .plain (by simp [forward_plainElementField])
  | { complexType := some t, .. } => by
    have ht := paired_complexContent space t
    rw [elementContent]
    split
    · exact .plain (by simp)
    · split
      · obtain rfl := Option.some.inj ‹some t = some _›
        exact ⟨rfl,Content.Paired.everywhere ht⟩
      · exact .plain (by simp [forward_plainElementField])

end

theorem complexContent_eq (space : Option String) (t : ComplexType) : complexContent space t =
    { fields := complexValueFields t } ++ particleContents space t.particles ++
      { fields := attributeFields t.attributes t.attributeGroups t.anyAttribute } := by
  cases t
  rw [complexContent]

theorem fields_complexContent (space : Option String) (t : ComplexType) : (complexContent space t).fields =
    complexValueFields t ++ (particleContents space t.particles).fields ++
      attributeFields t.attributes t.attributeGroups t.anyAttribute := by
  rw [complexContent_eq]
  rfl

theorem inner_complexContent (space : Option String) (t : ComplexType) :
    (complexContent space t).inner = (particleContents space t.particles).inner := by
  rw [complexContent_eq]
  change [] ++ (particleContents space t.particles).inner ++ [] = _
  rw [List.nil_append,List.append_nil]

/-- An inner class comes from an element with a type of its own. -/
theorem exists_of_mem_inner {space : Option String} {ps : List Particle} {i : Class}
    (hi : i ∈ (particleContents space ps).inner) :
    ∃ d t, Particle.element d ∈ ps ∧ d.complexType = some t ∧
      ∃ name, i = innerClass space name d.help (complexExtensions t) (complexContent space t) := by
  induction ps with
  | nil => simp [particleContents] at hi
  | cons p ps ih =>
    rw [particleContents] at hi
    rcases List.mem_append.mp hi with hi | hi
    · cases p with
      | group reference occurs => simp [particleContent] at hi
      | any any occurs => simp [particleContent] at hi
      | element d =>
        rw [particleContent] at hi
        obtain ⟨name,reference,type,occurs,default,fixed,nillable,isAbstract,help,complexType,simpleType⟩ := d
        rw [elementContent] at hi
        split at hi
        · cases hi
        · split at hi
          · obtain rfl := List.mem_singleton.mp hi
            exact ⟨_,_,List.mem_cons_self,rfl,_,rfl⟩
          · cases hi
    · obtain ⟨d,t,hd,ht,hname⟩ := ih hi
      exact ⟨d,t,List.mem_cons_of_mem p hd,ht,hname⟩

/-! ## Declarations -/

theorem paired_complexClass (space : Option String) (name : String) (kind : Kind) (help : Option String)
    (t : ComplexType) : Everywhere Class.Paired [complexClass space name kind help t] :=
  Content.Paired.everywhere (paired_complexContent space t)

theorem paired_plainClass {c : Class} (hfields : ∀ f ∈ c.fields, f.forward = false) (hinner : c.inner = []) :
    Everywhere Class.Paired [c] := by
  apply Content.Paired.everywhere
  rw [hinner]
  exact .plain hfields

theorem paired_elementClass? {space : Option String} {e : ElementDeclaration} {c : Class}
    (h : elementClass? space e = some c) : Everywhere Class.Paired [c] := by
  obtain ⟨name,_,rfl⟩ := Option.map_eq_some_iff.mp h
  dsimp only
  split
  · exact paired_plainClass (by simp) rfl
  · exact paired_complexClass space name .element e.help _
  · exact paired_plainClass (by simp [valueField]) rfl
  · exact paired_plainClass (by simp) rfl

theorem forward_simpleField (t : SimpleType) : (simpleField t).forward = false := by
  unfold simpleField
  split <;> rfl

theorem paired_simpleTypeClass? {space : Option String} {t : SimpleType} {c : Class}
    (h : simpleTypeClass? space t = some c) : Everywhere Class.Paired [c] := by
  obtain ⟨name,_,rfl⟩ := Option.map_eq_some_iff.mp h
  dsimp only
  split
  · exact paired_plainClass (by simp [forward_simpleField]) rfl
  · exact paired_plainClass (by simp [enumerationField]) rfl

theorem paired_groupClass (space : Option String) (g : Group) : Everywhere Class.Paired [groupClass space g] :=
  Content.Paired.everywhere (paired_particleContents space g.particles)

theorem paired_attributeGroupClass (space : Option String) (g : AttributeGroup) :
    Everywhere Class.Paired [attributeGroupClass space g] :=
  paired_plainClass (forward_attributeFields g.attributes g.attributeGroups g.anyAttribute) rfl

theorem paired_attributeClass? {space : Option String} {a : AttributeDeclaration} {c : Class}
    (h : attributeClass? space a = some c) : Everywhere Class.Paired [c] := by
  obtain ⟨name,_,rfl⟩ := Option.map_eq_some_iff.mp h
  exact paired_plainClass (fun f hf => forward_attributeField? (Option.mem_toList.mp hf)) rfl

/-! ## Kinds -/

theorem isGroup_elementClass? {space : Option String} {e : ElementDeclaration} {c : Class}
    (h : elementClass? space e = some c) : c.kind.isGroup = false := by
  obtain ⟨name,_,rfl⟩ := Option.map_eq_some_iff.mp h
  dsimp only
  split <;> rfl

theorem isGroup_complexTypeClass? {space : Option String} {t : ComplexType} {c : Class}
    (h : complexTypeClass? space t = some c) : c.kind.isGroup = false := by
  obtain ⟨name,_,rfl⟩ := Option.map_eq_some_iff.mp h
  rfl

theorem isGroup_simpleTypeClass? {space : Option String} {t : SimpleType} {c : Class}
    (h : simpleTypeClass? space t = some c) : c.kind.isGroup = false := by
  obtain ⟨name,_,rfl⟩ := Option.map_eq_some_iff.mp h
  dsimp only
  split <;> rfl

theorem isGroup_attributeClass? {space : Option String} {a : AttributeDeclaration} {c : Class}
    (h : attributeClass? space a = some c) : c.kind.isGroup = false := by
  obtain ⟨name,_,rfl⟩ := Option.map_eq_some_iff.mp h
  rfl

end Build

/-- The groups among the classes of a schema come from its groups and attribute groups. -/
theorem Schema.isGroup_of_mem_classes (s : Schema) {c : Class} (hc : c ∈ s.classes) (hkind : c.kind.isGroup) :
    (∃ g ∈ s.groups, Build.groupClass s.targetNamespace g = c) ∨
      ∃ g ∈ s.attributeGroups, Build.attributeGroupClass s.targetNamespace g = c := by
  simp only [Schema.classes,List.mem_append,List.mem_filterMap,List.mem_map] at hc
  rcases hc with ((((⟨e,_,he⟩ | ⟨t,_,ht⟩) | ⟨t,_,ht⟩) | hg) | hg) | ⟨a,_,ha⟩
  · simp [Build.isGroup_elementClass? he] at hkind
  · simp [Build.isGroup_complexTypeClass? ht] at hkind
  · simp [Build.isGroup_simpleTypeClass? ht] at hkind
  · exact Or.inl hg
  · exact Or.inr hg
  · simp [Build.isGroup_attributeClass? ha] at hkind

/-- At every depth of the classes of a schema, the inner classes are those that the fields refer to. -/
theorem Schema.paired_classes (s : Schema) : Class.Everywhere Class.Paired s.classes := by
  intro c hc d hd
  have hsingle : Class.Everywhere Class.Paired [c] := by
    simp only [Schema.classes,List.mem_append,List.mem_filterMap,List.mem_map] at hc
    rcases hc with ((((⟨e,_,he⟩ | ⟨t,_,ht⟩) | ⟨t,_,ht⟩) | ⟨g,_,rfl⟩) | ⟨g,_,rfl⟩) | ⟨a,_,ha⟩
    · exact Build.paired_elementClass? he
    · obtain ⟨name,_,rfl⟩ := Option.map_eq_some_iff.mp ht
      exact Build.paired_complexClass _ name .complexType t.help t
    · exact Build.paired_simpleTypeClass? ht
    · exact Build.paired_groupClass _ g
    · exact Build.paired_attributeGroupClass _ g
    · exact Build.paired_attributeClass? ha
  exact hsingle c (by simp) d hd

end SchemaBinding
