import SchemaBinding.Model.Simplify
import SchemaBinding.Proofs.Classes.Within

/-! What simplification does to one class. Of the classes that mean the same it keeps the first, and which they
are can be told before references to groups give way; so simplification is a map on the classes that are kept,
and goes down into their inner classes. What repetition does not touch of a merged field is as in the first of
the fields that it stands for. -/
namespace SchemaBinding
namespace Simplify

/-! ## Fields -/

/-- Of the fields that count as one, the first. -/
def leading (fs : List Field) : List Field := (OrderedMap.firsts fieldKey fs).values

theorem mem_of_mem_leading {fs : List Field} {f : Field} (hf : f ∈ leading fs) : f ∈ fs :=
  OrderedMap.mem_of_mem_values_firsts hf

theorem fieldKey_repeated (f again : Field) : fieldKey (repeated f again) = fieldKey f := by
  unfold repeated
  split <;> rfl

section Merging
variable {β : Type} {part : Field → β} (hpart : ∀ f again, part (repeated f again) = part f)
include hpart

theorem map_mergeField (m : OrderedMap FieldKey Field) (f : Field) :
    (mergeField m f).map (fun _ => part) = (m.map fun _ => part).insertNew (fieldKey f) (part f) := by
  unfold mergeField
  by_cases hf : fieldKey f ∈ m.keys
  · have hmap : fieldKey f ∈ (m.map fun _ => part).keys := by simpa using hf
    have hcontains : m.contains (fieldKey f) = true := by simpa [OrderedMap.contains] using hf
    rw [OrderedMap.insertNew_of_mem hmap]
    simp only [hcontains,Bool.not_true,Bool.false_eq_true,if_false]
    split
    · rfl
    · apply OrderedMap.ext
      simp only [OrderedMap.map,OrderedMap.adjust,List.map_map]
      refine List.map_congr_left fun e _ => ?_
      by_cases he : e.1 = fieldKey f
      · simp [he,hpart]
      · simp [he]
  · have hcontains : m.contains (fieldKey f) = false := by simpa [OrderedMap.contains] using hf
    simp only [hcontains,Bool.not_false,if_true]
    exact OrderedMap.map_insertNew _ m (fieldKey f) f

/-- What repetition does not touch is as in the first of the fields that count as one. -/
theorem map_mergeFields (fs : List Field) : (mergeFields fs).map part = (leading fs).map part := by
  have hfold : (fs.foldl mergeField {}).map (fun _ => part) = (OrderedMap.firsts fieldKey fs).map fun _ => part := by
    rw [OrderedMap.map_firsts]
    exact (List.foldl_hom (fun m : OrderedMap FieldKey Field => m.map fun _ => part) fun m f =>
      (map_mergeField hpart m f).symm).symm
  rw [mergeFields,leading,← OrderedMap.values_map,hfold,OrderedMap.values_map]

theorem forall_mem_mergeFields {P : β → Prop} (fs : List Field) :
    (∀ f ∈ mergeFields fs, P (part f)) ↔ ∀ f ∈ leading fs, P (part f) := by
  rw [← List.forall_mem_map,map_mergeFields hpart,List.forall_mem_map]

end Merging

/-- What holds of fields and is kept in those that occur once more holds of what they are merged to. -/
theorem mem_mergeFields_induction {P : Field → Prop} (hrepeated : ∀ f again, P f → P (repeated f again)) {fs : List Field}
    (h : ∀ f ∈ fs, P f) : ∀ f ∈ mergeFields fs, P f := by
  have hfold (m : OrderedMap FieldKey Field) (hm : ∀ f ∈ m.values, P f) : ∀ f ∈ (fs.foldl mergeField m).values, P f := by
    induction fs generalizing m with
    | nil => exact hm
    | cons f fs ih =>
      obtain ⟨hf,hfs⟩ := List.forall_mem_cons.mp h
      refine ih hfs _ ?_
      unfold mergeField
      split
      · rename_i hnew
        rw [OrderedMap.values_insertNew_of_not_mem (by simpa [OrderedMap.contains] using hnew)]
        exact List.forall_mem_append.mpr ⟨hm,by simpa using hf⟩
      · split
        · exact hm
        · intro g hg
          obtain ⟨e,he,rfl⟩ := List.mem_map.mp hg
          obtain ⟨old,hold,rfl⟩ := List.mem_map.mp he
          have holdField : P old.2 := hm old.2 (List.mem_map_of_mem hold)
          dsimp only
          split
          · exact hrepeated old.2 f holdField
          · exact holdField
  exact hfold {} (by simp [OrderedMap.values,EmptyCollection.emptyCollection,OrderedMap.empty])

/-! ## References to groups -/

variable {ds : Definitions}

theorem expand_of_not_isGroup {f : Field} (hf : f.kind.isGroup = false) (levels : Nat) (seen : List GroupKey)
    (space : Option String) : expand ds levels seen space f = [f] := by
  cases levels <;> simp [expand,hf]

/-- What the references to groups in a class stand for. -/
def borrowed (ds : Definitions) (c : Class) : List Field :=
  (c.fields.filter (·.kind.isGroup)).flatMap (expand ds ds.size [] c.space)

/-- The fields of a class stand for themselves and for what it borrows. -/
theorem mem_expanded {c : Class} {f : Field} :
    f ∈ expanded ds c ↔ (f ∈ c.fields ∧ f.kind.isGroup = false) ∨ f ∈ borrowed ds c := by
  simp only [expanded,borrowed,List.mem_flatMap,List.mem_filter]
  constructor
  · rintro ⟨g,hg,hf⟩
    cases hkind : g.kind.isGroup with
    | true => exact Or.inr ⟨g,⟨hg,hkind⟩,hf⟩
    | false =>
      rw [expand_of_not_isGroup hkind,List.mem_singleton] at hf
      exact Or.inl (hf ▸ ⟨hg,hkind⟩)
  · rintro (⟨hf,hkind⟩ | ⟨g,⟨hg,_⟩,hf⟩)
    · exact ⟨f,hf,by rw [expand_of_not_isGroup hkind]; exact List.mem_singleton_self f⟩
    · exact ⟨g,hg,hf⟩

theorem lookup_mem_values {space : Option String} {f : Field} {d : Class} (h : lookup ds space f = some d) :
    d ∈ ds.values := by
  rcases Option.or_eq_some_iff.mp h with hget | ⟨_,hfind⟩
  · exact OrderedMap.mem_values.mpr ⟨_,hget⟩
  · obtain ⟨e,he,rfl⟩ := Option.map_eq_some_iff.mp hfind
    exact List.mem_map_of_mem (List.mem_of_find?_eq_some he)

theorem kind_takePlace (reference f : Field) : (takePlace reference f).kind = f.kind := by
  unfold takePlace
  split <;> split <;> rfl

theorem name_takePlace (reference f : Field) : (takePlace reference f).name = f.name := by
  unfold takePlace
  split <;> split <;> rfl

theorem space_takePlace (reference f : Field) : (takePlace reference f).space = f.space := by
  unfold takePlace
  split <;> split <;> rfl

theorem occurs_takePlace (reference f : Field) : (takePlace reference f).occurs =
    ⟨if reference.occurs.min = some 0 then some 0 else f.occurs.min,
      if reference.isList then some unbounded else f.occurs.max⟩ := by
  unfold takePlace
  split <;> split <;> rfl

/-- What holds of the fields of groups and is kept in the place of a reference holds of what references stand for.
Only groups of some kinds have to be looked at, if these refer to no others. -/
theorem forall_mem_expand {P : Field → Prop} {K : Kind → Prop} (hplace : ∀ reference f, P f → P (takePlace reference f))
    (hds : ∀ d ∈ ds.values, K d.kind → ∀ f ∈ d.fields, if f.kind.isGroup then K f.kind else P f)
    (hlookup : ∀ space f d, K f.kind → lookup ds space f = some d → K d.kind) {levels : Nat} {seen : List GroupKey}
    {space : Option String} {reference : Field} (hgroup : reference.kind.isGroup) (hreference : K reference.kind) :
    ∀ f ∈ expand ds levels seen space reference, P f := by
  induction levels generalizing seen space reference with
  | zero => simp [expand,hgroup]
  | succ levels ih =>
    simp only [expand,hgroup,Bool.not_true,Bool.false_eq_true,if_false]
    cases hfound : lookup ds space reference with
    | none => simp
    | some d =>
      by_cases hseen : keyOf d ∈ seen
      · simp [hseen]
      · simp only [hseen,if_false,List.forall_mem_map,List.forall_mem_flatMap]
        intro f hf g hg
        apply hplace
        have hfield := hds d (lookup_mem_values hfound) (hlookup space reference d hreference hfound) f hf
        cases hkind : f.kind.isGroup with
        | true => exact ih hkind (by rwa [if_pos hkind] at hfield) g hg
        | false =>
          rw [expand_of_not_isGroup hkind,List.mem_singleton] at hg
          rw [if_neg (by simp [hkind])] at hfield
          exact hg ▸ hfield

/-- What holds of the fields of a class and of groups, and is kept in the place of a reference, holds of what they stand
for. -/
theorem mem_expanded_induction {P : Field → Prop} (hplace : ∀ reference f, P f → P (takePlace reference f))
    (hds : ∀ d ∈ ds.values, ∀ f ∈ d.fields, f.kind.isGroup = false → P f) {c : Class}
    (hc : ∀ f ∈ c.fields, f.kind.isGroup = false → P f) : ∀ f ∈ expanded ds c, P f := by
  intro f hf
  rcases mem_expanded.mp hf with ⟨hown,hplain⟩ | hborrowed
  · exact hc f hown hplain
  · obtain ⟨reference,hreference,hf⟩ := List.mem_flatMap.mp hborrowed
    refine forall_mem_expand (K:=fun _ => True) hplace ?_ (fun _ _ _ _ _ => trivial) (List.mem_filter.mp hreference).2
      trivial f hf
    intro d hd _ f hf
    split
    · trivial
    · exact hds d hd f hf (by simpa using ‹¬ f.kind.isGroup›)

/-! ## Groups -/

variable {cs : List Class}

theorem find?_filter_of_imp {p q : Class → Bool} (h : ∀ c, q c → p c) (cs : List Class) :
    (cs.filter p).find? q = cs.find? q := by
  have hboth : (fun c => decide (p c = true ∧ q c = true)) = q := by
    funext c
    by_cases hc : q c = true
    · simp [hc,h c hc]
    · simp [hc]
  rw [List.find?_filter,hboth]

theorem get?_definitions {k : GroupKey} (hk : k.kind.isGroup) (cs : List Class) :
    (definitions cs).get? k = cs.find? (keyOf · = k) := by
  have hgroup : ∀ c : Class, decide (keyOf c = k) → c.kind.isGroup := by
    intro c hc
    have hkind : c.kind = k.kind := congrArg GroupKey.kind (of_decide_eq_true hc)
    simpa [hkind] using hk
  rw [definitions,OrderedMap.get?_firsts,find?_filter_of_imp hgroup]

/-- A reference is to a group of its own kind. -/
theorem kind_lookup {space : Option String} {f : Field} {d : Class} (h : lookup (definitions cs) space f = some d) :
    d.kind = f.kind := by
  have hkey : ∀ e ∈ (definitions cs).entries, e.2.kind = e.1.kind :=
    fun e he => congrArg GroupKey.kind (OrderedMap.key_of_mem_firsts he)
  rcases Option.or_eq_some_iff.mp h with hget | ⟨_,hfind⟩
  · exact hkey _ (OrderedMap.get?_eq_some_iff.mp hget)
  · obtain ⟨e,he,rfl⟩ := Option.map_eq_some_iff.mp hfind
    have htest := List.find?_some he
    simp only [Bool.and_eq_true,decide_eq_true_eq] at htest
    exact (hkey e (List.mem_of_find?_eq_some he)).trans htest.1

/-! ## Classes -/

/-- Telling classes apart is not affected by a change that keeps what they are told apart by. -/
theorem distinct_map {g : Class → Class} (hg : ∀ c, classKey (g c) = classKey c) (cs : List Class) :
    distinct (cs.map g) = (distinct cs).map g := by
  have hfirsts : OrderedMap.firsts classKey (cs.map g) = (OrderedMap.firsts classKey cs).map fun _ => g := by
    rw [OrderedMap.map_firsts,OrderedMap.firsts,List.foldl_map]
    simp only [hg]
  rw [distinct,hfirsts,OrderedMap.values_map]
  rfl

theorem mem_of_mem_distinct {c : Class} (hc : c ∈ distinct cs) : c ∈ cs := OrderedMap.mem_of_mem_values_firsts hc

theorem inlineGroups_eq (ds : Definitions) (c : Class) :
    inlineGroups ds c = { c with fields := expanded ds c, inner := c.inner.map (inlineGroups ds) } := by
  cases c
  rw [inlineGroups,inlineAll_eq_map]

theorem mergeRepeated_eq (c : Class) :
    mergeRepeated c = { c with fields := mergeFields c.fields, inner := c.inner.map mergeRepeated } := by
  cases c
  rw [mergeRepeated,mergeAll_eq_map]

/-- What simplification makes of a class that it keeps. -/
def simplified (ds : Definitions) (c : Class) : Class := mergeRepeated (inlineGroups ds c)

theorem simplified_eq (ds : Definitions) (c : Class) :
    simplified ds c = { c with fields := mergeFields (expanded ds c), inner := c.inner.map (simplified ds) } := by
  rw [simplified,mergeRepeated_eq,inlineGroups_eq,List.map_map]
  rfl

theorem name_simplified (ds : Definitions) (c : Class) : (simplified ds c).name = c.name := by
  rw [simplified_eq]

theorem fields_simplified (ds : Definitions) (c : Class) :
    (simplified ds c).fields = mergeFields (expanded ds c) := by
  rw [simplified_eq]

theorem inner_simplified (ds : Definitions) (c : Class) :
    (simplified ds c).inner = c.inner.map (simplified ds) := by
  rw [simplified_eq]

theorem classes_eq_map (cs : List Class) :
    classes cs = (distinct (cs.filter fun c => !c.kind.isGroup)).map (simplified (definitions cs)) := by
  have hkey : ∀ c, classKey (inlineGroups (definitions cs) c) = classKey c := by
    intro c
    rw [inlineGroups_eq]
    rfl
  rw [classes,distinct_map hkey,List.map_map]
  rfl

/-- What holds of all fields, at every depth, and is kept in the place of a reference and in fields that occur once more,
holds of all fields after simplification. -/
theorem everywhere_fields_classes {P : Field → Prop} (hplace : ∀ reference f, P f → P (takePlace reference f))
    (hrepeated : ∀ f again, P f → P (repeated f again)) (h : Class.Everywhere (fun c => ∀ f ∈ c.fields, P f) cs) :
    Class.Everywhere (fun c => ∀ f ∈ c.fields, P f) (classes cs) := by
  rw [classes_eq_map,Class.everywhere_map (inner_simplified _)]
  intro c hc d hd
  rw [fields_simplified]
  refine mem_mergeFields_induction hrepeated (mem_expanded_induction hplace ?_ ?_)
  · intro g hg f hf _
    have hgroup : g ∈ cs := (List.mem_filter.mp (OrderedMap.mem_of_mem_values_firsts hg)).1
    exact h g hgroup g (.self g) f hf
  · intro f hf _
    exact h c (List.mem_filter.mp (mem_of_mem_distinct hc)).1 d hd f hf

end Simplify
end SchemaBinding
