import SchemaBinding.Proofs.Occurrences.Inlined
import SchemaBinding.Proofs.Occurrences.Origins

/-! The fields of a class that is built from a complex type, when references to groups have given way. Main statement:
they stand for the content that is written in the type. -/
namespace SchemaBinding
open Xml (Node Element Tag)
open ContentModel (Represents FieldsOf slotsAll)

/-! ## Fields -/

namespace Build

/-- The fields for particles: elements in the namespace of the schema, references and wildcards. -/
theorem field_particleContents {space : Option String} {ps : List Particle} {f : Field}
    (hf : f ∈ (particleContents space ps).fields) :
    (f.kind = .element ∧ f.space = space) ∨ (f.kind = .group ∧ Prefixed.localPart f.type = f.name) ∨ f.kind = .any := by
  induction ps with
  | nil => simp [particleContents] at hf
  | cons p ps ih =>
    rw [particleContents] at hf
    rcases List.mem_append.mp hf with hf | hf
    · cases p with
      | group reference occurs =>
        rw [particleContent,List.mem_singleton] at hf
        exact Or.inr (Or.inl (hf ▸ ⟨rfl,rfl⟩))
      | any any occurs =>
        rw [particleContent,List.mem_singleton] at hf
        exact Or.inr (Or.inr (hf ▸ rfl))
      | element d =>
        rw [particleContent] at hf
        rcases fields_elementContent space d with ⟨_,hfields⟩ | ⟨_,_,_,_,_,hfields⟩
        · rw [hfields] at hf
          cases hf
        · rw [hfields,List.mem_singleton] at hf
          exact Or.inl (hf ▸ ⟨rfl,rfl⟩)
    · exact ih hf

theorem space_of_mem_particleContents {space : Option String} {ps : List Particle} {f : Field}
    (hf : f ∈ (particleContents space ps).fields) (hkind : f.kind = .element) : f.space = space := by
  rcases field_particleContents hf with ⟨_,hspace⟩ | ⟨hother,_⟩ | hother
  · exact hspace
  · simp [hother] at hkind
  · simp [hother] at hkind

theorem fieldsOf_particleContents (space : Option String) (ps : List Particle) :
    FieldsOf (ps.filterMap Particle.slot?) (particleContents space ps).fields where
  slots := slots_particleContents space ps
  referring := by
    intro f hf hkind
    rcases field_particleContents hf with ⟨helement,_⟩ | ⟨_,hname⟩ | hany
    · rw [helement] at hkind
      cases hkind
    · exact hname
    · rw [hany] at hkind
      cases hkind

theorem kind_complexValueFields (t : ComplexType) : ∀ f ∈ complexValueFields t, f.kind = .extension := by
  unfold complexValueFields
  split
  · intro f hf
    obtain ⟨base,_,rfl⟩ := List.mem_map.mp hf
    rfl
  · simp

theorem kind_attributeFields {attributes : List AttributeDeclaration} {groups : List String} {any : Bool} {f : Field}
    (hf : f ∈ attributeFields attributes groups any) :
    f.kind = .attributeGroup ∨ (f.kind.isGroup = false ∧ f.kind ≠ .element) := by
  simp only [attributeFields,List.mem_append,List.mem_filterMap,List.mem_map] at hf
  rcases hf with (⟨a,_,ha⟩ | ⟨group,_,rfl⟩) | hany
  · obtain ⟨name,_,rfl⟩ := Option.map_eq_some_iff.mp ha
    exact Or.inr ⟨rfl,by simp⟩
  · exact Or.inl rfl
  · cases any with
    | false => cases hany
    | true =>
      rw [List.mem_singleton.mp hany]
      exact Or.inr ⟨rfl,by simp [anyAttributeField]⟩

end Build

/-! ## Groups -/

namespace Xml.Node

theorem Regular.groups {root : Node} (h : root.Regular) : root.groupDefinitions.Regular where
  written := fun _ members hmembers => h.written members (.group hmembers)
  resolved := fun _ members hmembers => h.resolved members (.group hmembers)
  acyclic := h.acyclic

theorem name_group {n : Node} (h : n.Own) {outer : Scope} {c : Element} (hc : Element.ofNode outer n = some c)
    (hname : c.name = "group") : c.group.name = n.declaredName := by
  match n,h,hc with
  | element tag content,h,hc =>
    obtain ⟨found,hfound,htag,_,hattribute⟩ := ofNode_element outer tag content
    obtain rfl := Option.some.inj (hfound.symm.trans hc)
    have hown := h tag content .self (by simp [← htag,hname]) "name" (by simp)
    rw [Element.group,hattribute,hown]
    rfl

theorem declarations_inside {root n : Node} (h : n ∈ root.declarations) : n.Inside root := by
  obtain ⟨m,hm,hn⟩ := List.mem_flatMap.mp h
  split at hn
  · rw [List.mem_singleton.mp hn]
    exact child_inside hm
  · split at hn
    · exact (child_inside hn).trans (child_inside hm)
    · cases hn
  · cases hn

end Xml.Node

namespace Schema
open Simplify (definitions simplified expand expanded Declares keyOf)

variable {r : Reading} {outer : Scope} {root : Node} {e : Element} {s : Schema}

/-- A group of a document is found by its name. -/
theorem exists_get?_group (hread : Element.ofNode outer root = some e) (h : ofElement r e = .ok s) (hown : root.Own)
    {n : Node} (hn : n ∈ root.declarations) (hname : n.localName? = some "group") :
    ∃ d, (definitions s.classes).get? ⟨.group,s.targetNamespace,n.declaredName⟩ = some d := by
  obtain ⟨c,hc,_,hcread⟩ := exists_declared hread hn hname
  have hcname : c.name = "group" := Option.some.inj ((Node.localName?_of_ofNode hcread).symm.trans hname)
  have hclass : Build.groupClass s.targetNamespace c.group ∈ s.classes := by
    have hmem : c.group ∈ s.groups := (mem_groups h).mpr ⟨c,hc,hcname,rfl⟩
    simp only [classes,List.mem_append,List.mem_map]
    exact Or.inl (Or.inl (Or.inr ⟨_,hmem,rfl⟩))
  rw [Simplify.get?_definitions rfl,← Option.isSome_iff_exists,List.find?_isSome]
  refine ⟨_,hclass,decide_eq_true ?_⟩
  rw [← Node.name_group (hown.inside (Node.declarations_inside hn)) hcread hcname]
  rfl

/-- What is found by the name of a group has the fields for a group of that name. -/
theorem fieldsOf_get?_group (hread : Element.ofNode outer root = some e) (h : ofElement r e = .ok s) (hown : root.Own)
    {name : String} {d : Class} (hd : (definitions s.classes).get? ⟨.group,s.targetNamespace,name⟩ = some d) :
    keyOf d = ⟨.group,s.targetNamespace,name⟩ ∧
      ∃ members, (name,members) ∈ root.groupDefinitions ∧ FieldsOf (slotsAll {} members) d.fields := by
  rw [Simplify.get?_definitions rfl] at hd
  have hkey : keyOf d = ⟨.group,s.targetNamespace,name⟩ := by simpa using List.find?_some hd
  have hkind : d.kind = .group := congrArg Simplify.GroupKey.kind hkey
  refine ⟨hkey,?_⟩
  rcases s.isGroup_of_mem_classes (List.mem_of_find?_eq_some hd) (by rw [hkind]; rfl) with ⟨g,hg,rfl⟩ | ⟨g,_,rfl⟩
  · obtain ⟨c,hc,hcname,rfl⟩ := (mem_groups h).mp hg
    obtain ⟨n,hn,_,hcread⟩ := exists_declaration hread hc
    have hnown := hown.inside (Node.declarations_inside hn)
    have hname : n.declaredName = name :=
      (Node.name_group hnown hcread hcname).symm.trans (congrArg Simplify.GroupKey.name hkey)
    refine ⟨n.groupModels,List.mem_map.mpr ⟨n,List.mem_filter.mpr ⟨hn,?_⟩,by rw [hname]⟩,?_⟩
    · simp [Node.localName?_of_ofNode hcread,hcname]
    · rw [← Node.slots_group hnown hcread]
      exact Build.fieldsOf_particleContents _ _
  · cases hkind

theorem declares (hread : Element.ofNode outer root = some e) (h : ofElement r e = .ok s) (hown : root.Own) :
    Declares (definitions s.classes) s.targetNamespace root.groupDefinitions := by
  intro reference members honce hmembers
  obtain ⟨n,hn,hpair⟩ := List.mem_map.mp hmembers
  obtain ⟨hdeclared,hgroup⟩ := List.mem_filter.mp hn
  obtain ⟨d,hd⟩ := exists_get?_group hread h hown hdeclared (of_decide_eq_true hgroup)
  rw [show n.declaredName = reference from congrArg Prod.fst hpair] at hd
  obtain ⟨hkey,others,hothers,hfields⟩ := fieldsOf_get?_group hread h hown hd
  rw [GroupDefinitions.members_eq honce hmembers hothers]
  exact ⟨d,hd,hkey,hfields⟩

/-- What references to attribute groups stand for are no elements. -/
theorem kind_expand_attributeGroup {levels : Nat} {seen : List Simplify.GroupKey} {space : Option String} {f : Field}
    (hf : f.kind = .attributeGroup) : ∀ g ∈ expand (definitions s.classes) levels seen space f, g.kind ≠ .element := by
  refine Simplify.forall_mem_expand (K:=(· = .attributeGroup)) ?_ ?_ ?_ (by rw [hf]; rfl) hf
  · exact fun reference f h => by rwa [Simplify.kind_takePlace]
  · intro d hd hkind f hf
    obtain ⟨hmem,hgroup⟩ := List.mem_filter.mp (OrderedMap.mem_of_mem_values_firsts hd)
    rcases s.isGroup_of_mem_classes hmem hgroup with ⟨g,_,rfl⟩ | ⟨g,_,rfl⟩
    · cases hkind
    · rcases Build.kind_attributeFields hf with hkind | ⟨hplain,hkind⟩
      · rwa [if_pos (by rw [hkind]; rfl)]
      · rwa [if_neg (by simp [hplain])]
  · exact fun space f d hkind hlookup => (Simplify.kind_lookup hlookup).trans hkind

theorem kind_expand_attributeFields {t : ComplexType} {levels : Nat} {seen : List Simplify.GroupKey}
    {space : Option String} :
    ∀ g ∈ (Build.attributeFields t.attributes t.attributeGroups t.anyAttribute).flatMap
      (expand (definitions s.classes) levels seen space), g.kind ≠ .element := by
  rw [List.forall_mem_flatMap]
  intro f hf
  rcases Build.kind_attributeFields hf with hkind | ⟨hplain,hkind⟩
  · exact kind_expand_attributeGroup hkind
  · rw [Simplify.expand_of_not_isGroup hplain]
    simpa using hkind

theorem kind_expand_complexValueFields {t : ComplexType} {levels : Nat} {seen : List Simplify.GroupKey}
    {space : Option String} : ∀ g ∈ (Build.complexValueFields t).flatMap
      (expand (definitions s.classes) levels seen space), g.kind ≠ .element := by
  rw [List.forall_mem_flatMap]
  intro f hf
  have hkind := Build.kind_complexValueFields t f hf
  rw [Simplify.expand_of_not_isGroup (by rw [hkind]; rfl)]
  simp [hkind]

/-- The elements that references stand for are in the namespace of the schema. -/
theorem space_expand {levels : Nat} {seen : List Simplify.GroupKey} {space : Option String} {f : Field}
    (hf : f.kind.isGroup) : ∀ g ∈ expand (definitions s.classes) levels seen space f,
      g.kind = .element → g.space = s.targetNamespace := by
  refine Simplify.forall_mem_expand (P:=fun g => g.kind = .element → g.space = s.targetNamespace) (K:=fun _ => True)
    ?_ ?_ (fun _ _ _ _ _ => trivial) hf trivial
  · intro reference f h hkind
    rw [Simplify.kind_takePlace] at hkind
    rw [Simplify.space_takePlace]
    exact h hkind
  · intro d hd _ f hf
    split
    · trivial
    · intro hkind
      obtain ⟨hmem,hgroup⟩ := List.mem_filter.mp (OrderedMap.mem_of_mem_values_firsts hd)
      rcases s.isGroup_of_mem_classes hmem hgroup with ⟨g,_,rfl⟩ | ⟨g,_,rfl⟩
      · exact Build.space_of_mem_particleContents hf hkind
      · rcases Build.kind_attributeFields hf with hother | ⟨_,hother⟩
        · simp [hother] at hkind
        · exact absurd hkind hother

theorem space_expanded {t : ComplexType} {c : Class} (hc : Build.MadeFrom s.targetNamespace t c) :
    ∀ f ∈ expanded (definitions s.classes) c, f.kind = .element → f.space = s.targetNamespace := by
  rw [expanded,hc.fields,Build.fields_complexContent,List.flatMap_append,List.flatMap_append]
  refine List.forall_mem_append.mpr ⟨List.forall_mem_append.mpr ⟨?_,?_⟩,?_⟩
  · exact fun f hf hkind => absurd hkind (kind_expand_complexValueFields f hf)
  · rw [List.forall_mem_flatMap]
    intro g hg
    cases hgroup : g.kind.isGroup with
    | true => exact space_expand hgroup
    | false =>
      rw [Simplify.expand_of_not_isGroup hgroup]
      intro f hf hkind
      rw [List.mem_singleton.mp hf] at hkind ⊢
      exact Build.space_of_mem_particleContents hg hkind
  · exact fun f hf hkind => absurd hkind (kind_expand_attributeFields f hf)

/-- The fields of a class that is made from a type stand for the content of the type. -/
theorem represents_expanded (hread : Element.ofNode outer root = some e) (h : ofElement r e = .ok s)
    (hregular : root.Regular) (hown : root.Own) {t : Node} (ht : t.Inside root)
    (htype : t.localName? = some "complexType") {scope : Scope} {d : Element} (hd : Element.ofNode scope t = some d)
    {c : Class} (hc : Build.MadeFrom s.targetNamespace d.complexType c) :
    Represents root.groupDefinitions (expanded (definitions s.classes) c) t.typeModels := by
  have hslots : d.complexType.particles.filterMap Particle.slot? = slotsAll {} t.typeModels :=
    Node.slots_complexType (hown.inside ht) hd
  have hfields := Build.fieldsOf_particleContents s.targetNamespace d.complexType.particles
  rw [hslots] at hfields
  have hcontent := Simplify.represents_expand (declares hread h hown) hregular.groups hfields
    (hregular.written _ (.complexType ht htype)) (hregular.resolved _ (.complexType ht htype))
  rw [expanded,hc.fields,hc.inSpace,Build.fields_complexContent,List.flatMap_append,List.flatMap_append]
  exact hcontent.surrounded kind_expand_complexValueFields kind_expand_attributeFields

end Schema
end SchemaBinding
