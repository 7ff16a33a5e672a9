import SchemaBinding.Proofs.Classes.Built

/-! Classes within the classes of a schema. A class is made from a declaration, and the classes within it from the types
of elements in its content model, so a class has the namespace of the schema at every depth.
Main statement: at every depth of the classes of a schema, the inner classes are those the fields refer to, made from
types that no document can name, in the namespace of the schema. -/
namespace SchemaBinding

namespace Class

/-- A class of a namespace whose inner classes are made from types without a name, one for each field that refers to
one and in the order of the fields. -/
structure Nested (space : Option String) (c : Class) : Prop where
  names : c.inner.map Class.name = forwardTypes c.fields
  types : ∀ i ∈ c.inner, i.kind = .complexType ∧ i.isRoot = false
  inSpace : c.space = space

end Class

namespace Build

/-- A class of a namespace that has the inner classes of a content model. -/
structure HoldsContent (space : Option String) (c : Class) : Prop where
  inSpace : c.space = space
  inner : ∃ ps, c.inner = (particleContents space ps).inner

variable {space : Option String} {c d i : Class}

theorem HoldsContent.plain (hspace : c.space = space) (hinner : c.inner = []) : HoldsContent space c :=
  ⟨hspace,[],hinner⟩

theorem HoldsContent.type_of_mem_inner (h : HoldsContent space c) (hi : i ∈ c.inner) :
    i.kind = .complexType ∧ i.isRoot = false := by
  obtain ⟨ps,hps⟩ := h.inner
  obtain ⟨_,_,_,_,_,rfl⟩ := exists_of_mem_inner (hps ▸ hi)
  exact ⟨rfl,rfl⟩

theorem HoldsContent.of_mem_inner (h : HoldsContent space c) (hi : i ∈ c.inner) : HoldsContent space i := by
  obtain ⟨ps,hps⟩ := h.inner
  obtain ⟨_,t,_,_,_,rfl⟩ := exists_of_mem_inner (hps ▸ hi)
  exact ⟨rfl,t.particles,inner_complexContent space t⟩

theorem HoldsContent.within (hd : d.Within c) (h : HoldsContent space c) : HoldsContent space d := by
  induction hd with
  | self => exact h
  | inner hi _ ih => exact ih (h.of_mem_inner hi)

/-! ## Declarations -/

theorem holdsContent_complexClass (space : Option String) (name : String) (kind : Kind) (help : Option String)
    (t : ComplexType) : HoldsContent space (complexClass space name kind help t) :=
  ⟨rfl,t.particles,inner_complexContent space t⟩

theorem holdsContent_elementClass? {e : ElementDeclaration} (h : elementClass? space e = some c) :
    HoldsContent space c := by
  obtain ⟨name,_,rfl⟩ := Option.map_eq_some_iff.mp h
  dsimp only
  split
  · exact .plain rfl rfl
  · exact holdsContent_complexClass space name .element e.help _
  · exact .plain rfl rfl
  · exact .plain rfl rfl

theorem holdsContent_complexTypeClass? {t : ComplexType} (h : complexTypeClass? space t = some c) :
    HoldsContent space c := by
  obtain ⟨name,_,rfl⟩ := Option.map_eq_some_iff.mp h
  exact holdsContent_complexClass space name .complexType t.help t

theorem holdsContent_simpleTypeClass? {t : SimpleType} (h : simpleTypeClass? space t = some c) :
    HoldsContent space c := by
  obtain ⟨name,_,rfl⟩ := Option.map_eq_some_iff.mp h
  dsimp only
  split <;> exact .plain rfl rfl

theorem holdsContent_attributeClass? {a : AttributeDeclaration} (h : attributeClass? space a = some c) :
    HoldsContent space c := by
  obtain ⟨name,_,rfl⟩ := Option.map_eq_some_iff.mp h
  exact .plain rfl rfl

end Build

namespace Schema
open SchemaBinding.Class (Everywhere)

theorem holdsContent_of_mem_classes {s : Schema} {c : Class} (hc : c ∈ s.classes) :
    Build.HoldsContent s.targetNamespace c := by
  simp only [classes,List.mem_append,List.mem_filterMap,List.mem_map] at hc
  rcases hc with ((((⟨e,_,he⟩ | ⟨t,_,ht⟩) | ⟨t,_,ht⟩) | ⟨g,_,rfl⟩) | ⟨g,_,rfl⟩) | ⟨a,_,ha⟩
  · exact Build.holdsContent_elementClass? he
  · exact Build.holdsContent_complexTypeClass? ht
  · exact Build.holdsContent_simpleTypeClass? ht
  · exact ⟨rfl,g.particles,rfl⟩
  · exact .plain rfl rfl
  · exact Build.holdsContent_attributeClass? ha

/-- At every depth, the inner classes of a class are those its fields refer to, in the order of the fields; they are
made from types without a name; and the class is in the namespace of the schema. -/
theorem nested_classes (s : Schema) : Everywhere (Class.Nested s.targetNamespace) s.classes := by
  intro c hc d hd
  have hcontent := (holdsContent_of_mem_classes hc).within hd
  exact ⟨s.paired_classes c hc d hd,fun _ => hcontent.type_of_mem_inner,hcontent.inSpace⟩

end Schema
end SchemaBinding
