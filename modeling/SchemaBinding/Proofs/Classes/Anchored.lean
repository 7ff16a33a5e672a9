import SchemaBinding.Proofs.Classes.Built
import SchemaBinding.Proofs.Classes.Simplified

/-! Fields and inner classes after simplification. A field that a class has of its own keeps its inner class
beside it. A field that comes from a group does not bring its inner class along, and refers to none unless the
class happens to have one of that name. -/
namespace SchemaBinding
open SchemaBinding.Class (Everywhere Anchored everywhere_map)

namespace Simplify

variable {ds : Definitions} {d : Class}

/-- Among the fields that are not merged into others, each that is borrowed and refers to an inner class finds one
of that name in the class that borrows it. -/
def Settles (ds : Definitions) (d : Class) : Prop :=
  ∀ f ∈ borrowed ds d, f ∈ leading (expanded ds d) → f.forward → ∃ i ∈ d.inner, i.name = f.type

/-- The names of inner classes are as before. -/
theorem exists_mem_inner_simplified {type : String} :
    (∃ i ∈ (simplified ds d).inner, i.name = type) ↔ ∃ i ∈ d.inner, i.name = type := by
  rw [inner_simplified]
  constructor
  · rintro ⟨_,himage,rfl⟩
    obtain ⟨i,hi,rfl⟩ := List.mem_map.mp himage
    exact ⟨i,hi,(name_simplified ds i).symm⟩
  · rintro ⟨i,hi,rfl⟩
    exact ⟨simplified ds i,List.mem_map_of_mem hi,name_simplified ds i⟩

theorem anchored_simplified_iff (h : d.Anchored) : (simplified ds d).Anchored ↔ Settles ds d := by
  let part (f : Field) : Bool × String := (f.forward,f.type)
  have hpart : ∀ f again, part (repeated f again) = part f := by
    intro f again
    unfold repeated
    split <;> rfl
  have hmerged := forall_mem_mergeFields hpart (P:=fun p => p.1 → ∃ i ∈ d.inner, i.name = p.2) (expanded ds d)
  simp only [Anchored,exists_mem_inner_simplified,fields_simplified]
  rw [hmerged]
  constructor
  · exact fun hall f _ hf => hall f hf
  · intro hsettles f hf hforward
    rcases mem_expanded.mp (mem_of_mem_leading hf) with ⟨hown,_⟩ | hborrowed
    · exact h f hown hforward
    · exact hsettles f hborrowed hf hforward

theorem everywhere_anchored_classes_iff {cs : List Class} (hcs : Everywhere Anchored cs) :
    Everywhere Anchored (classes cs) ↔
      Everywhere (Settles (definitions cs)) (distinct (cs.filter fun c => !c.kind.isGroup)) := by
  rw [classes_eq_map,everywhere_map (inner_simplified _)]
  have hkept : Everywhere Anchored (distinct (cs.filter fun c => !c.kind.isGroup)) :=
    hcs.subset fun c hc => (List.mem_filter.mp (mem_of_mem_distinct hc)).1
  constructor
  · exact fun h c hc d hd => (anchored_simplified_iff (hkept c hc d hd)).mp (h c hc d hd)
  · exact fun h c hc d hd => (anchored_simplified_iff (hkept c hc d hd)).mpr (h c hc d hd)

end Simplify

namespace Schema
open Simplify (Settles definitions distinct)

theorem anchored_classes (s : Schema) : Everywhere Anchored s.classes :=
  s.paired_classes.mono fun _ hd => hd.anchored

/-- Every field that refers to an inner class has it beside it, exactly where no class that is kept borrows such a
field without an inner class for it. -/
theorem anchored_simplified_classes_iff (s : Schema) :
    Everywhere Anchored (Simplify.classes s.classes) ↔
      Everywhere (Settles (definitions s.classes)) (distinct (s.classes.filter fun c => !c.kind.isGroup)) :=
  Simplify.everywhere_anchored_classes_iff s.anchored_classes

/-- A type that refers to a group with an element whose type has no name. -/
def orderWithLines : Schema where
  complexTypes := [{ name := some "Order", particles := [.group "Lines" {}] }]
  groups := [{ name := "Lines", particles := [.element { name := some "line", complexType := some {} }] }]

/-- The class of the type has the field of the group, and the class for that field is gone. -/
theorem orderWithLines_not_anchored : ¬ Everywhere Anchored (Simplify.classes orderWithLines.classes) := by
  intro h
  have hview : (Simplify.classes orderWithLines.classes).map (fun c =>
      (c.fields.map fun f => (f.forward,f.type),c.inner.map Class.name)) = [([(true,"line")],[])] := by
    decide +kernel
  obtain ⟨c,hc,hparts⟩ := List.mem_map.mp (hview ▸ List.mem_singleton_self _)
  obtain ⟨hfields,hinner⟩ := Prod.mk.inj hparts
  obtain ⟨f,hf,hfield⟩ := List.mem_map.mp (hfields ▸ List.mem_singleton_self _)
  obtain ⟨hforward,_⟩ := Prod.mk.inj hfield
  obtain ⟨i,hi,_⟩ := h c hc c (.self c) f hf hforward
  rw [List.map_eq_nil_iff.mp hinner] at hi
  cases hi

end Schema
end SchemaBinding
