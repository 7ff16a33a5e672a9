import SchemaBinding.Proofs.Occurrences.Represents

/-! What becomes of bounds when fields that count as one are merged. The bounds of the merged field ask for no more
than those of each field that it stands for, and allow no less than all of them together. -/
namespace SchemaBinding
namespace Simplify

/-! ## One key -/

/-- What is kept for a key that is none of an enumeration: the first field of that key, repeated for each other. -/
theorem get?_foldl_mergeField {k : FieldKey} (hk : k.kind ≠ .enumeration) (fs : List Field)
    (m : OrderedMap FieldKey Field) : (fs.foldl mergeField m).get? k =
      match (m.get? k).toList ++ fs.filter (fieldKey · = k) with
      | [] => none
      | f :: others => some (others.foldl repeated f) := by
  induction fs generalizing m with
  | nil => cases hm : m.get? k <;> simp [hm]
  | cons f fs ih =>
    rw [List.foldl_cons,ih]
    by_cases hf : fieldKey f = k
    · subst hf
      have hplain : f.isEnumeration = false := by simpa [Field.isEnumeration,fieldKey] using hk
      rw [List.filter_cons_of_pos (by simp)]
      cases hm : m.get? (fieldKey f) with
      | none =>
        have hnew : m.contains (fieldKey f) = false := by
          simpa [OrderedMap.contains] using OrderedMap.get?_eq_none_iff.mp hm
        have hmerged : (mergeField m f).get? (fieldKey f) = some f := by
          rw [mergeField,hnew]
          simp [OrderedMap.get?_insertNew,hm]
        simp [hmerged]
      | some g =>
        have hold : m.contains (fieldKey f) = true := by
          simpa [OrderedMap.contains] using OrderedMap.isSome_get?.mp (by rw [hm]; rfl)
        have hmerged : (mergeField m f).get? (fieldKey f) = some (repeated g f) := by
          rw [mergeField,hold,hplain]
          simp [OrderedMap.get?_adjust,hm]
        simp [hmerged]
    · have hmerged : (mergeField m f).get? k = m.get? k := by
        unfold mergeField
        split
        · simp [OrderedMap.get?_insertNew,Ne.symm hf]
        · split
          · rfl
          · simp [OrderedMap.get?_adjust,Ne.symm hf]
      rw [hmerged,List.filter_cons_of_neg (by simpa using hf)]

/-- Every field is kept under its own key. -/
theorem fieldKey_of_mem_foldl (fs : List Field) (m : OrderedMap FieldKey Field)
    (hm : ∀ e ∈ m.entries, fieldKey e.2 = e.1) : ∀ e ∈ (fs.foldl mergeField m).entries, fieldKey e.2 = e.1 := by
  induction fs generalizing m with
  | nil => exact hm
  | cons f fs ih =>
    apply ih
    unfold mergeField
    split
    · rename_i hnew
      rw [OrderedMap.entries_insertNew_of_not_mem (by simpa [OrderedMap.contains] using hnew)]
      exact List.forall_mem_append.mpr ⟨hm,by simp⟩
    · split
      · exact hm
      · intro e he
        obtain ⟨old,hold,rfl⟩ := List.mem_map.mp he
        have hkey := hm old hold
        dsimp only
        split
        · rw [fieldKey_repeated,hkey]
        · exact hkey

/-- The one field of a key. -/
theorem filter_values_eq_toList {m : OrderedMap FieldKey Field} (hm : ∀ e ∈ m.entries, fieldKey e.2 = e.1)
    (k : FieldKey) : m.values.filter (fieldKey · = k) = (m.get? k).toList := by
  obtain ⟨es,hnodup⟩ := m
  change (es.map Prod.snd).filter (fieldKey · = k) = (es.lookup k).toList
  induction es with
  | nil => rfl
  | cons e es ih =>
    obtain ⟨key,f⟩ := e
    obtain ⟨hkey,hes⟩ := List.forall_mem_cons.mp hm
    change fieldKey f = key at hkey
    subst hkey
    rw [List.map_cons,List.nodup_cons] at hnodup
    rw [List.map_cons,List.filter_cons,ih hnodup.2 hes,List.lookup_cons]
    by_cases hk : fieldKey f = k
    · subst hk
      have hnone : es.lookup (fieldKey f) = none := by
        rw [List.lookup_eq_none_iff]
        intro e he
        have hne : e.1 ≠ fieldKey f := fun heq => hnodup.1 (List.mem_map.mpr ⟨e,he,heq⟩)
        simpa using hne.symm
      simp [hnone]
    · simp [hk,beq_eq_false_iff_ne.mpr (Ne.symm hk)]

/-! ## Bounds -/

theorem least_repeated {f again : Field} {n : Nat} (h : f.occurs.least ≤ n) : (repeated f again).occurs.least ≤ n := by
  unfold repeated
  split
  · exact Nat.zero_le n
  · exact h

theorem most_repeated (f again : Field) : (repeated f again).occurs.most = ⊤ := by
  unfold repeated
  split <;> exact allowance_unbounded

theorem least_foldl_repeated {fs : List Field} {f : Field} {n : Nat} (h : f.occurs.least ≤ n) :
    (fs.foldl repeated f).occurs.least ≤ n := by
  induction fs generalizing f with
  | nil => exact h
  | cons again fs ih => exact ih (least_repeated h)

theorem sum_most_le (f : Field) (fs : List Field) :
    ((f :: fs).map fun f => f.occurs.most).sum ≤ (fs.foldl repeated f).occurs.most := by
  cases fs with
  | nil => simp
  | cons again fs =>
    have hrepeated : ∀ (fs : List Field) (f : Field), f.occurs.most = ⊤ → (fs.foldl repeated f).occurs.most = ⊤ := by
      intro fs
      induction fs with
      | nil => exact fun _ h => h
      | cons again fs ih => exact fun f _ => ih _ (most_repeated f again)
    rw [List.foldl_cons,hrepeated fs _ (most_repeated f again)]
    exact le_top

/-- Of element fields in one namespace, those of a name become one field with bounds for all of them. -/
theorem exists_mergeFields {fs : List Field} {space : Option String} {name : String}
    (hspace : ∀ f ∈ fs, f.kind = .element → f.space = space) (hname : ∃ f ∈ fs, f.kind = .element ∧ f.name = name) :
    ∃ f, (mergeFields fs).filter (fun f => f.kind = .element ∧ f.name = name) = [f] ∧
      (∀ n, (∀ g ∈ fs, g.kind = .element → g.name = name → g.occurs.least ≤ n) → f.occurs.least ≤ n) ∧
      together fs name ≤ f.occurs.most := by
  let k : FieldKey := ⟨name,.element,space⟩
  have hkey : ∀ f : Field, f.kind = .element → f.space = space → (fieldKey f = k ↔ f.name = name) := by
    intro f hkind hf
    have hplain : f.isEnumeration = false := by simp [Field.isEnumeration,hkind]
    simp [fieldKey,k,hkind,hplain,hf]
  have hiff : ∀ f : Field, (f.kind = .element → f.space = space) →
      (decide (f.kind = .element ∧ f.name = name) = decide (fieldKey f = k)) := by
    intro f hf
    refine decide_eq_decide.mpr ⟨fun h => (hkey f h.1 (hf h.1)).mpr h.2,fun h => ?_⟩
    have hkind : f.kind = .element := congrArg FieldKey.kind h
    exact ⟨hkind,(hkey f hkind (hf hkind)).mp h⟩
  have hbefore : fs.filter (fun f => f.kind = .element ∧ f.name = name) = fs.filter (fieldKey · = k) :=
    List.filter_congr fun f hf => hiff f (hspace f hf)
  have hmerged : ∀ f ∈ mergeFields fs, f.kind = .element → f.space = space := by
    let part (f : Field) : Kind × Option String := (f.kind,f.space)
    have hpart : ∀ f again, part (repeated f again) = part f := by
      intro f again
      unfold repeated
      split <;> rfl
    have hall := forall_mem_mergeFields hpart (P:=fun p => p.1 = .element → p.2 = space) fs
    exact hall.mpr fun f hf => hspace f (mem_of_mem_leading hf)
  have hafter : (mergeFields fs).filter (fun f => f.kind = .element ∧ f.name = name) =
      (mergeFields fs).filter (fieldKey · = k) := List.filter_congr fun f hf => hiff f (hmerged f hf)
  have hvalue := get?_foldl_mergeField (k:=k) (by simp [k]) fs {}
  have hone := filter_values_eq_toList (fieldKey_of_mem_foldl fs {} (fun e he => by cases he)) k
  have hempty : ({} : OrderedMap FieldKey Field).get? k = none := rfl
  rw [hempty,Option.toList_none,List.nil_append,← hbefore] at hvalue
  cases hnamed : fs.filter fun f => f.kind = .element ∧ f.name = name with
  | nil =>
    obtain ⟨f,hf,hfound⟩ := hname
    rw [List.filter_eq_nil_iff] at hnamed
    exact absurd (by simpa using hfound) (hnamed f hf)
  | cons f others =>
    rw [hnamed] at hvalue
    refine ⟨others.foldl repeated f,?_,fun n hn => ?_,?_⟩
    · rw [hafter,mergeFields,hone,hvalue]
      rfl
    · have hf : f ∈ fs.filter fun f => f.kind = .element ∧ f.name = name := hnamed ▸ List.mem_cons_self
      obtain ⟨hmem,hfound⟩ := List.mem_filter.mp hf
      obtain ⟨hkind,hfname⟩ := of_decide_eq_true hfound
      exact least_foldl_repeated (hn f hmem hkind hfname)
    · rw [together,hnamed]
      exact sum_most_le f others

end Simplify
end SchemaBinding
