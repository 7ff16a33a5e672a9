import Mathlib.Data.List.Induction
import Mathlib.Data.List.Nodup
import SchemaBinding.Proofs.Classes.Reduced
import SchemaBinding.Proofs.Occurrences.Merged

/-! Lists of fields that are joined. A field that comes once more is put into the first of its key, whatever else comes
between them, so it does not matter when the fields of a part are merged.
Main statement: to merge parts before they are joined or after comes to the same, and no two fields of what is merged have
the same name, kind and namespace. -/
namespace SchemaBinding
namespace OrderedMap

variable {κ α : Type} [DecidableEq κ]

theorem adjust_adjust (m : OrderedMap κ α) (k : κ) (f g : α → α) :
    (m.adjust k f).adjust k g = m.adjust k fun v => g (f v) := by
  apply ext
  simp only [adjust,List.map_map]
  refine List.map_congr_left fun e _ => ?_
  by_cases hk : e.1 = k <;> simp [hk]

theorem adjust_comm (m : OrderedMap κ α) {k j : κ} (h : k ≠ j) (f g : α → α) :
    (m.adjust k f).adjust j g = (m.adjust j g).adjust k f := by
  apply ext
  simp only [adjust,List.map_map]
  refine List.map_congr_left fun e _ => ?_
  by_cases hk : e.1 = k
  · simp [hk,h]
  · simp [hk]

/-- What is new is changed before it is added. -/
theorem adjust_insertNew_self {m : OrderedMap κ α} {k : κ} (hk : k ∉ m.keys) (v : α) (f : α → α) :
    (m.insertNew k v).adjust k f = m.insertNew k (f v) := by
  have hothers : (m.entries.map fun e => (e.1,if e.1 = k then f e.2 else e.2)) = m.entries := by
    refine (List.map_congr_left fun e he => ?_).trans (List.map_id _)
    have hne : e.1 ≠ k := fun h => hk (h ▸ List.mem_map_of_mem he)
    simp [hne]
  apply ext
  simp [adjust,entries_insertNew_of_not_mem hk,hothers]

theorem adjust_insertNew_comm (m : OrderedMap κ α) {k j : κ} (h : k ≠ j) (v : α) (f : α → α) :
    (m.adjust k f).insertNew j v = (m.insertNew j v).adjust k f := by
  by_cases hj : j ∈ m.keys
  · rw [insertNew_of_mem hj,insertNew_of_mem (by simpa using hj)]
  · apply ext
    rw [entries_insertNew_of_not_mem (by simpa using hj)]
    simp [adjust,entries_insertNew_of_not_mem hj,h.symm]

/-- The value of a key stands in one place. -/
theorem exists_values_adjust {m : OrderedMap κ α} {k : κ} (hk : k ∈ m.keys) (f : α → α) :
    ∃ before v after, m.entries = before ++ (k,v) :: after ∧ (∀ e ∈ after, e.1 ≠ k) ∧
      m.values = before.map Prod.snd ++ v :: after.map Prod.snd ∧
      (m.adjust k f).values = before.map Prod.snd ++ f v :: after.map Prod.snd := by
  obtain ⟨⟨j,v⟩,he,rfl⟩ := List.mem_map.mp hk
  obtain ⟨before,after,hentries⟩ := List.append_of_mem he
  have hnodup := m.nodup
  rw [hentries,List.map_append,List.map_cons,List.nodup_middle,List.nodup_cons,← List.map_append] at hnodup
  have hothers : ∀ e ∈ before ++ after, e.1 ≠ j := by
    intro e he h
    exact hnodup.1 (List.mem_map.mpr ⟨e,he,h⟩)
  have hsame (es : List (κ × α)) (hes : ∀ e ∈ es, e.1 ≠ j) :
      (es.map fun e => (e.1,if e.1 = j then f e.2 else e.2)).map Prod.snd = es.map Prod.snd := by
    rw [List.map_map]
    exact List.map_congr_left fun e he => by simp [hes e he]
  obtain ⟨hbefore,hafter⟩ := List.forall_mem_append.mp hothers
  refine ⟨before,v,after,hentries,hafter,by simp [values,hentries],?_⟩
  change (m.entries.map fun e => (e.1,if e.1 = j then f e.2 else e.2)).map Prod.snd = _
  rw [hentries,List.map_append,List.map_append,hsame before hbefore,List.map_cons,List.map_cons,hsame after hafter,
    if_pos rfl]

end OrderedMap

namespace Simplify

/-! ## One field more -/

/-- It does not matter to a field whether what comes again was merged before. -/
theorem repeated_repeated (f g h : Field) : repeated f (repeated g h) = repeated (repeated f g) h := by
  by_cases hh : h.occurs.min = some 0
  · by_cases hg : g.occurs.min = some 0 <;> simp [repeated,hg,hh]
  · by_cases hg : g.occurs.min = some 0 <;> simp [repeated,hg,hh]

theorem mergeField_of_isEnumeration {m : OrderedMap FieldKey Field} {f : Field} (hf : fieldKey f ∈ m.keys)
    (henumeration : f.isEnumeration) : mergeField m f = m := by
  simp [mergeField,OrderedMap.contains,hf,henumeration]

theorem mergeField_of_mem {m : OrderedMap FieldKey Field} {f : Field} (hf : fieldKey f ∈ m.keys)
    (hplain : ¬ f.isEnumeration) : mergeField m f = m.adjust (fieldKey f) (repeated · f) := by
  simp [mergeField,OrderedMap.contains,hf,hplain]

theorem mem_keys_mergeField {m : OrderedMap FieldKey Field} {f : Field} {k : FieldKey} :
    k ∈ (mergeField m f).keys ↔ k ∈ m.keys ∨ fieldKey f = k := by
  by_cases hf : fieldKey f ∈ m.keys
  · have hkeys : (mergeField m f).keys = m.keys := by
      by_cases henumeration : f.isEnumeration
      · rw [mergeField_of_isEnumeration hf henumeration]
      · rw [mergeField_of_mem hf henumeration,OrderedMap.keys_adjust]
    rw [hkeys]
    exact ⟨.inl,fun h => h.elim id fun h => h ▸ hf⟩
  · rw [mergeField_of_not_mem hf,OrderedMap.keys_insertNew,if_neg hf,List.mem_append,List.mem_singleton,eq_comm (a := k)]

theorem mem_keys_foldl_mergeField {fs : List Field} {m : OrderedMap FieldKey Field} {k : FieldKey} :
    k ∈ (fs.foldl mergeField m).keys ↔ k ∈ m.keys ∨ ∃ f ∈ fs, fieldKey f = k := by
  induction fs generalizing m with
  | nil => simp
  | cons f fs ih => simp [ih,mem_keys_mergeField,or_assoc]

/-- Two fields that count as one can be merged first. -/
theorem mergeField_repeated (m : OrderedMap FieldKey Field) {f g : Field} (hkey : fieldKey f = fieldKey g)
    (hplain : ¬ g.isEnumeration) : mergeField m (repeated f g) = mergeField (mergeField m f) g := by
  have hkind : f.kind = g.kind := congrArg FieldKey.kind hkey
  have hplain' : ¬ f.isEnumeration := by rwa [Field.isEnumeration,hkind]
  have hrepeated : ¬ (repeated f g).isEnumeration := by
    have hsame : (repeated f g).kind = f.kind := congrArg FieldKey.kind (fieldKey_repeated f g)
    rwa [Field.isEnumeration,hsame]
  have hthere : fieldKey g ∈ (mergeField m f).keys := mem_keys_mergeField.mpr (.inr hkey)
  rw [mergeField_of_mem hthere hplain]
  by_cases hf : fieldKey f ∈ m.keys
  · rw [mergeField_of_mem (by rwa [fieldKey_repeated]) hrepeated,mergeField_of_mem hf hplain',fieldKey_repeated,← hkey,
      OrderedMap.adjust_adjust]
    simp only [repeated_repeated]
  · rw [mergeField_of_not_mem (by rwa [fieldKey_repeated]),mergeField_of_not_mem hf,fieldKey_repeated,← hkey,
      OrderedMap.adjust_insertNew_self hf]

/-- What is put into a field that is there already can be put into it later. -/
theorem mergeField_comm {m : OrderedMap FieldKey Field} {f g : Field} (hf : fieldKey f ∈ m.keys)
    (hne : fieldKey f ≠ fieldKey g) : mergeField (mergeField m f) g = mergeField (mergeField m g) f := by
  have hf' : fieldKey f ∈ (mergeField m g).keys := mem_keys_mergeField.mpr (.inl hf)
  by_cases hplain : f.isEnumeration
  · rw [mergeField_of_isEnumeration hf hplain,mergeField_of_isEnumeration hf' hplain]
  rw [mergeField_of_mem hf hplain,mergeField_of_mem hf' hplain]
  by_cases hg : fieldKey g ∈ m.keys
  · have hadjusted : fieldKey g ∈ (m.adjust (fieldKey f) (repeated · f)).keys := by simpa using hg
    by_cases hplain' : g.isEnumeration
    · rw [mergeField_of_isEnumeration hadjusted hplain',mergeField_of_isEnumeration hg hplain']
    · rw [mergeField_of_mem hadjusted hplain',mergeField_of_mem hg hplain',OrderedMap.adjust_comm _ hne]
  · rw [mergeField_of_not_mem (by simpa using hg),mergeField_of_not_mem hg,OrderedMap.adjust_insertNew_comm _ hne]

theorem foldl_mergeField_comm {fs : List Field} {m : OrderedMap FieldKey Field} {f : Field} (hf : fieldKey f ∈ m.keys)
    (hne : ∀ g ∈ fs, fieldKey g ≠ fieldKey f) :
    fs.foldl mergeField (mergeField m f) = mergeField (fs.foldl mergeField m) f := by
  induction fs generalizing m with
  | nil => rfl
  | cons g fs ih =>
    obtain ⟨hg,hfs⟩ := List.forall_mem_cons.mp hne
    rw [List.foldl_cons,List.foldl_cons,mergeField_comm hf hg.symm,ih (mem_keys_mergeField.mpr (.inl hf)) hfs]

/-! ## Parts -/

/-- What was merged with one field more is merged as what was merged, and then the field. -/
theorem foldl_values_mergeField {n : OrderedMap FieldKey Field} (hn : ∀ e ∈ n.entries, fieldKey e.2 = e.1) (g : Field)
    (m : OrderedMap FieldKey Field) :
    (mergeField n g).values.foldl mergeField m = mergeField (n.values.foldl mergeField m) g := by
  by_cases hg : fieldKey g ∈ n.keys
  · by_cases hplain : g.isEnumeration
    · obtain ⟨e,he,hkey⟩ := List.mem_map.mp hg
      have hthere : fieldKey g ∈ (n.values.foldl mergeField m).keys :=
        mem_keys_foldl_mergeField.mpr (.inr ⟨e.2,List.mem_map_of_mem he,(hn e he).trans hkey⟩)
      rw [mergeField_of_isEnumeration hg hplain,mergeField_of_isEnumeration hthere hplain]
    · obtain ⟨before,f,after,hentries,hafter,hvalues,hadjusted⟩ := OrderedMap.exists_values_adjust hg (repeated · g)
      have hkey : fieldKey f = fieldKey g := hn (fieldKey g,f) (by simp [hentries])
      have hothers : ∀ h ∈ after.map Prod.snd, fieldKey h ≠ fieldKey g := by
        rw [List.forall_mem_map]
        exact fun e he h => hafter e he ((hn e (by simp [hentries,he])).symm.trans h)
      rw [mergeField_of_mem hg hplain,hadjusted,hvalues,List.foldl_append,List.foldl_append,List.foldl_cons,List.foldl_cons,
        mergeField_repeated _ hkey hplain,foldl_mergeField_comm (mem_keys_mergeField.mpr (.inr hkey)) hothers]
  · rw [mergeField_of_not_mem hg,OrderedMap.values_insertNew_of_not_mem hg,List.foldl_append]
    rfl

/-- Fields come to the same when those that count as one among them are merged before. -/
theorem foldl_mergeFields (fs : List Field) (m : OrderedMap FieldKey Field) :
    (mergeFields fs).foldl mergeField m = fs.foldl mergeField m := by
  induction fs using List.reverseRecOn with
  | nil => rfl
  | append_singleton fs f ih =>
    have hkeyed := fieldKey_of_mem_foldl fs {} (fun e he => by cases he)
    rw [List.foldl_append,← ih,mergeFields,List.foldl_append]
    exact foldl_values_mergeField hkeyed f m

/-- Parts may be merged before they are joined. And of what is merged no two fields have the same name and kind, and the
same namespace or, in an enumeration, the same value. -/
theorem mergeFields_append (fs gs : List Field) :
    mergeFields (fs ++ gs) = mergeFields (mergeFields fs ++ mergeFields gs) ∧
      (mergeFields fs).Pairwise fun f g =>
        ¬ (f.name = g.name ∧ f.kind = g.kind ∧ if f.isEnumeration then f.default = g.default else f.space = g.space) := by
  refine ⟨?_,(List.pairwise_map.mp (nodup_mergeFields fs)).imp fun {f g} hne hsame => hne ?_⟩
  · rw [mergeFields,mergeFields.eq_def (mergeFields fs ++ mergeFields gs),List.foldl_append,List.foldl_append,
      foldl_mergeFields,foldl_mergeFields]
  · obtain ⟨hname,hkind,hdetail⟩ := hsame
    have henumeration : f.isEnumeration = g.isEnumeration := by rw [Field.isEnumeration,hkind,Field.isEnumeration]
    rw [fieldKey,fieldKey,hname,hkind,← henumeration]
    congr 1
    split <;> simp_all

/-- An element that comes twice has no upper bound, and may be absent where one of the two may; a value that comes twice
is one value. -/
example :
    let element (least : Nat) : Field :=
      { name := "a", type := "T", kind := .element, occurs := { min := some least, max := some 1 } }
    let value : Field := { name := "v", type := "string", kind := .enumeration, default := some "1" }
    (mergeFields [element 1,value,element 0,value]).map (fun f => (f.name,f.occurs.min,f.occurs.max)) =
      [("a",some 0,some unbounded),("v",none,none)] := by
  decide +kernel

end Simplify
end SchemaBinding
