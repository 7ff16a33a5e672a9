import SchemaBinding.Proofs.Classes.Retained

/-! Classes that simplification leaves as they are: none is a group, no two mean the same, and at every depth no field
refers to a group and no two fields count as one. Each of the passes does nothing to such classes.
Main statement: the classes that simplification gives are of this kind, so to simplify them again changes nothing. -/
namespace SchemaBinding
open SchemaBinding.Class (Everywhere everywhere_map everywhere_singleton)

namespace Simplify

/-! ## Fields -/

theorem mergeField_of_not_mem {m : OrderedMap FieldKey Field} {f : Field} (hf : fieldKey f ∉ m.keys) :
    mergeField m f = m.insertNew (fieldKey f) f := by
  rw [mergeField,if_pos (by simpa [OrderedMap.contains] using hf)]

/-- Fields of which no two count as one are not merged. -/
theorem mergeFields_of_nodup {fs : List Field} (h : (fs.map fieldKey).Nodup) : mergeFields fs = fs :=
  OrderedMap.values_foldl_of_nodup (fun _ _ => mergeField_of_not_mem) h

theorem nodup_mergeFields (fs : List Field) : ((mergeFields fs).map fieldKey).Nodup := by
  rw [map_mergeFields fieldKey_repeated,leading,OrderedMap.map_values_firsts]
  exact OrderedMap.keys_nodup _

theorem expanded_of_plain (ds : Definitions) {c : Class} (h : ∀ f ∈ c.fields, f.kind.isGroup = false) :
    expanded ds c = c.fields := by
  have hself : ∀ f ∈ c.fields, expand ds ds.size [] c.space f = [f] :=
    fun f hf => expand_of_not_isGroup (h f hf) ds.size [] c.space
  rw [expanded,List.flatMap_def,List.map_congr_left hself,← List.flatMap_def,List.flatMap_singleton']

/-- What references to groups stand for refers to no groups. -/
theorem isGroup_expanded {ds : Definitions} {c : Class} : ∀ f ∈ expanded ds c, f.kind.isGroup = false :=
  mem_expanded_induction (fun reference f h => by rwa [kind_takePlace]) (fun _ _ _ _ h => h) fun _ _ h => h

/-! ## Classes -/

/-- A class whose fields stand for themselves. -/
structure Simple (c : Class) : Prop where
  plain : ∀ f ∈ c.fields, f.kind.isGroup = false
  apart : (c.fields.map fieldKey).Nodup

theorem simple_simplified (ds : Definitions) (c : Class) : Simple (simplified ds c) where
  plain := by
    rw [fields_simplified]
    have hkind : ∀ f again, (repeated f again).kind = f.kind :=
      fun f again => congrArg FieldKey.kind (fieldKey_repeated f again)
    exact (forall_mem_mergeFields hkind (P:=fun k => k.isGroup = false) _).mpr
      fun f hf => isGroup_expanded f (mem_of_mem_leading hf)
  apart := by
    rw [fields_simplified]
    exact nodup_mergeFields _

theorem simplified_of_simple (ds : Definitions) {c : Class} (h : Everywhere Simple [c]) : simplified ds c = c := by
  induction c using Class.inductionOnInner with
  | step c ih =>
    obtain ⟨hc,hinner⟩ := everywhere_singleton.mp h
    have hbelow : c.inner.map (simplified ds) = c.inner :=
      List.map_congr_left (fun i hi => ih i hi (hinner.subset (by simpa using hi))) |>.trans (List.map_id _)
    rw [simplified_eq,expanded_of_plain ds hc.plain,mergeFields_of_nodup hc.apart,hbelow]
    cases c
    rfl

/-- Classes with nothing to simplify. -/
structure Reduced (cs : List Class) : Prop where
  plain : ∀ c ∈ cs, c.kind.isGroup = false
  apart : (cs.map classKey).Nodup
  simple : Everywhere Simple cs

theorem reduced_classes (cs : List Class) : Reduced (classes cs) where
  plain := by
    intro c hc
    have hkey : classKey c ∈ (classes cs).map classKey := List.mem_map_of_mem hc
    rw [map_classKey_classes,OrderedMap.mem_keys_firsts] at hkey
    obtain ⟨d,hd,hkey⟩ := hkey
    have hkind : d.kind = c.kind := congrArg ClassKey.kind hkey
    rw [← hkind]
    simpa using (List.mem_filter.mp hd).2
  apart := by
    rw [map_classKey_classes]
    exact OrderedMap.keys_nodup _
  simple := by
    rw [classes_eq_map,everywhere_map (inner_simplified _)]
    exact fun _ _ d _ => simple_simplified _ d

/-- Simplification leaves classes as they are if there is nothing to simplify, and only then. -/
theorem classes_eq_self_iff {cs : List Class} : classes cs = cs ↔ Reduced cs := by
  constructor
  · exact fun h => h ▸ reduced_classes cs
  · intro h
    have hplain : (cs.filter fun c => !c.kind.isGroup) = cs :=
      List.filter_eq_self.mpr fun c hc => by simp [h.plain c hc]
    have hsimple : cs.map (simplified (definitions cs)) = cs := by
      refine List.map_congr_left (fun c hc => simplified_of_simple _ ?_) |>.trans (List.map_id _)
      exact h.simple.subset (by simpa using hc)
    rw [classes_eq_map,hplain,distinct,OrderedMap.values_firsts_of_nodup h.apart,hsimple]

/-- What simplification gives has nothing more to simplify, and it is the same when it is simplified again. -/
theorem classes_classes (cs : List Class) : Reduced (classes cs) ∧ classes (classes cs) = classes cs :=
  ⟨reduced_classes cs,classes_eq_self_iff.mpr (reduced_classes cs)⟩

end Simplify
end SchemaBinding
