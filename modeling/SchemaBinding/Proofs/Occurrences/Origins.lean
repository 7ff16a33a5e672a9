import SchemaBinding.Proofs.Classes.Built
import SchemaBinding.Proofs.Classes.Simplified
import SchemaBinding.Proofs.Occurrences.Declared

/-! Where classes come from. Main statement: each class in the result, at any depth, is built from a complex type that
stands in the document or from a declaration that holds none. -/
namespace SchemaBinding

namespace Build

/-- A class has the content of a complex type. -/
structure MadeFrom (space : Option String) (t : ComplexType) (c : Class) : Prop where
  inSpace : c.space = space
  extensions : c.extensions = complexExtensions t
  fields : c.fields = (complexContent space t).fields
  inner : c.inner = (complexContent space t).inner

theorem madeFrom_complexClass (space : Option String) (name : String) (kind : Kind) (help : Option String)
    (t : ComplexType) : MadeFrom space t (complexClass space name kind help t) := ⟨rfl,rfl,rfl,rfl⟩

/-- An inner class is made from the type of an element. -/
theorem madeFrom_of_mem_inner {space : Option String} {ps : List Particle} {i : Class}
    (hi : i ∈ (particleContents space ps).inner) :
    ∃ d t, Particle.element d ∈ ps ∧ d.complexType = some t ∧ MadeFrom space t i := by
  obtain ⟨d,t,hd,ht,name,rfl⟩ := exists_of_mem_inner hi
  exact ⟨d,t,hd,ht,⟨rfl,rfl,rfl,rfl⟩⟩

/-- What is in a class made from a type below is itself made from a type below. -/
theorem MadeFrom.within {space : Option String} {e : Xml.Element} {c d : Class} (h : d.Within c) :
    ∀ {t : ComplexType}, MadeFrom space t c → e.HoldsType t → ∃ u, e.HoldsType u ∧ MadeFrom space u d := by
  induction h with
  | self => exact fun {t} hmade ht => ⟨t,ht,hmade⟩
  | inner hi _ ih =>
    intro t hmade ht
    rw [hmade.inner,inner_complexContent] at hi
    obtain ⟨b,u,hb,hu,hinner⟩ := madeFrom_of_mem_inner hi
    exact ih hinner (ht.particle hb hu)

end Build

namespace Schema
open Xml (Node Element)
open Simplify (definitions simplified)

/-- A class is built from the complex type at a node. -/
structure BuiltFrom (s : Schema) (root t : Node) (c : Class) : Prop where
  inside : t.Inside root
  complexType : t.localName? = some "complexType"
  built : ∃ outer e made, Element.ofNode outer t = some e ∧ Build.MadeFrom s.targetNamespace e.complexType made ∧
    c = simplified (definitions s.classes) made

/-- A class is built from a declaration that holds no complex type: from an element declaration without one or with
a reference to a type, from a simple type or from an attribute. -/
def BuiltWithoutType (s : Schema) (c : Class) : Prop :=
  ∃ made, ((∃ d ∈ s.elements, (d.type.isSome ∨ d.complexType = none) ∧
      Build.elementClass? s.targetNamespace d = some made) ∨
    (∃ t ∈ s.simpleTypes, Build.simpleTypeClass? s.targetNamespace t = some made) ∨
    ∃ a ∈ s.attributes, Build.attributeClass? s.targetNamespace a = some made) ∧
    c = simplified (definitions s.classes) made

variable {r : Reading} {e : Element} {s : Schema}

theorem holdsType_of_mem_elements (h : ofElement r e = .ok s) {d : ElementDeclaration} (hd : d ∈ s.elements)
    {t : ComplexType} (ht : d.complexType = some t) : e.HoldsType t := by
  obtain ⟨c,hc,_,rfl⟩ := (mem_elements h).mp hd
  obtain ⟨b,hb,hname,hread⟩ := Element.holdsType_of_firstComplexType ht
  exact ⟨b,hb.trans (below_of_mem_declaredIn hc),hname,hread⟩

theorem holdsType_of_mem_complexTypes (h : ofElement r e = .ok s) {t : ComplexType} (ht : t ∈ s.complexTypes) :
    e.HoldsType t := by
  obtain ⟨c,hc,hname,hread⟩ := (mem_complexTypes h).mp ht
  exact ⟨c,below_of_mem_declaredIn hc,hname,hread⟩

theorem inner_simpleTypeClass? {space : Option String} {t : SimpleType} {c : Class}
    (h : Build.simpleTypeClass? space t = some c) : c.inner = [] := by
  obtain ⟨name,_,rfl⟩ := Option.map_eq_some_iff.mp h
  dsimp only
  split <;> rfl

theorem inner_attributeClass? {space : Option String} {a : AttributeDeclaration} {c : Class}
    (h : Build.attributeClass? space a = some c) : c.inner = [] := by
  obtain ⟨name,_,rfl⟩ := Option.map_eq_some_iff.mp h
  rfl

/-- The class of an element declaration has the content of the type in the declaration, or no inner classes. -/
theorem elementClass?_cases {space : Option String} {d : ElementDeclaration} {c : Class}
    (h : Build.elementClass? space d = some c) :
    (∃ t, d.complexType = some t ∧ Build.MadeFrom space t c) ∨
      ((d.type.isSome ∨ d.complexType = none) ∧ c.inner = []) := by
  obtain ⟨name,_,hclass⟩ := Option.map_eq_some_iff.mp h
  cases htype : d.type with
  | some type =>
    simp only [htype] at hclass
    exact Or.inr ⟨Or.inl rfl,by rw [← hclass]⟩
  | none =>
    cases ht : d.complexType with
    | some t =>
      simp only [htype,ht] at hclass
      exact Or.inl ⟨t,rfl,hclass ▸ Build.madeFrom_complexClass _ _ _ _ t⟩
    | none =>
      simp only [htype,ht] at hclass
      refine Or.inr ⟨Or.inr rfl,?_⟩
      rw [← hclass]
      cases d.simpleType <;> rfl

theorem eq_of_within {c d : Class} (h : d.Within c) (hinner : c.inner = []) : d = c := by
  cases h with
  | self => rfl
  | inner hi _ =>
    rw [hinner] at hi
    cases hi

/-- Every class in the result, at any depth, is built from a complex type in the document or from a declaration that
holds none. -/
theorem builtFrom_or_builtWithoutType {outer : Scope} {root : Node} (hread : Element.ofNode outer root = some e)
    (h : ofElement r e = .ok s) {k c : Class} (hk : k ∈ Simplify.classes s.classes) (hc : c.Within k) :
    (∃ t, s.BuiltFrom root t c) ∨ s.BuiltWithoutType c := by
  rw [Simplify.classes_eq_map] at hk
  obtain ⟨made,hmade,rfl⟩ := List.mem_map.mp hk
  obtain ⟨d,hd,rfl⟩ := (Class.within_map (Simplify.inner_simplified _)).mp hc
  obtain ⟨hmem,hplain⟩ := List.mem_filter.mp (Simplify.mem_of_mem_distinct hmade)
  have hbuilt : ∀ t, e.HoldsType t → Build.MadeFrom s.targetNamespace t made →
      ∃ t, s.BuiltFrom root t (simplified (definitions s.classes) d) := by
    intro t ht hfrom
    obtain ⟨u,⟨b,hb,hname,rfl⟩,hfrom⟩ := hfrom.within hd ht
    obtain ⟨n,hn,outer,hfound⟩ := Node.exists_node_of_below hb hread
    exact ⟨n,hn,(Node.localName?_of_ofNode hfound).trans (congrArg some hname),outer,b,d,hfound,hfrom,rfl⟩
  simp only [Schema.classes,List.mem_append,List.mem_filterMap,List.mem_map] at hmem
  rcases hmem with ((((⟨a,ha,hclass⟩ | ⟨t,ht,hclass⟩) | ⟨t,ht,hclass⟩) | ⟨g,_,rfl⟩) | ⟨g,_,rfl⟩) | ⟨a,ha,hclass⟩
  · rcases elementClass?_cases hclass with ⟨t,ht,hfrom⟩ | ⟨hnone,hinner⟩
    · exact Or.inl (hbuilt t (holdsType_of_mem_elements h ha ht) hfrom)
    · exact Or.inr ⟨d,Or.inl ⟨a,ha,hnone,eq_of_within hd hinner ▸ hclass⟩,rfl⟩
  · obtain ⟨name,_,rfl⟩ := Option.map_eq_some_iff.mp hclass
    exact Or.inl (hbuilt t (holdsType_of_mem_complexTypes h ht) (Build.madeFrom_complexClass _ _ _ _ t))
  · exact Or.inr ⟨d,Or.inr (Or.inl ⟨t,ht,eq_of_within hd (inner_simpleTypeClass? hclass) ▸ hclass⟩),rfl⟩
  · simp [Build.groupClass,Kind.isGroup] at hplain
  · simp [Build.attributeGroupClass,Kind.isGroup] at hplain
  · exact Or.inr ⟨d,Or.inr (Or.inr ⟨a,ha,eq_of_within hd (inner_attributeClass? hclass) ▸ hclass⟩),rfl⟩

end Schema
end SchemaBinding
