import SchemaBinding.Proofs.Classes.Simplified
import SchemaBinding.Proofs.Occurrences.Bounds

/-! Fields that fit a sequence of children: each asks for no more than there are, and those of a name together allow
as many as there are. Fields that fit several sequences fit all of them together in the place of a reference that
allows so many. -/
namespace SchemaBinding

/-- What the fields of a name allow together. -/
def together (fs : List Field) (name : String) : ℕ∞ :=
  ((fs.filter fun f => f.kind = .element ∧ f.name = name).map fun f => f.occurs.most).sum

/-- The bounds of fields hold of a sequence of children. -/
structure Fits (fs : List Field) (w : List (Option String)) : Prop where
  least : ∀ f ∈ fs, f.kind = .element → f.occurs.least ≤ w.count (some f.name)
  most : ∀ name, (w.count (some name) : ℕ∞) ≤ together fs name

variable {fs gs : List Field} {v w : List (Option String)}

theorem together_append (fs gs : List Field) (name : String) :
    together (fs ++ gs) name = together fs name + together gs name := by
  simp [together]

theorem together_map {g : Field → Field} (hkind : ∀ f, (g f).kind = f.kind) (hname : ∀ f, (g f).name = f.name)
    (fs : List Field) (name : String) : together (fs.map g) name =
      ((fs.filter fun f => f.kind = .element ∧ f.name = name).map fun f => (g f).occurs.most).sum := by
  simp only [together,List.filter_map,List.map_map,Function.comp_def,hkind,hname]

namespace Fits

/-- The order of the children does not count. -/
theorem perm (h : Fits fs v) (hperm : v.Perm w) : Fits fs w :=
  ⟨fun f hf hkind => hperm.count_eq (some f.name) ▸ h.least f hf hkind,
    fun name => hperm.count_eq (some name) ▸ h.most name⟩

theorem append (h : Fits fs v) (h' : Fits gs w) : Fits (fs ++ gs) (v ++ w) where
  least := by
    intro f hf hkind
    rw [List.count_append]
    rcases List.mem_append.mp hf with hf | hf
    · exact (h.least f hf hkind).trans (Nat.le_add_right _ _)
    · exact (h'.least f hf hkind).trans (Nat.le_add_left _ _)
  most := by
    intro name
    rw [List.count_append,Nat.cast_add,together_append]
    exact add_le_add (h.most name) (h'.most name)

/-- Children that wildcards take do not count. -/
theorem of_forall_eq_none (hfs : ∀ f ∈ fs, f.kind ≠ .element) (hw : ∀ x ∈ w, x = none) : Fits fs w where
  least := fun f hf hkind => absurd hkind (hfs f hf)
  most := by
    intro name
    have hcount : w.count (some name) = 0 := by
      refine List.count_eq_zero.mpr fun hmem => ?_
      cases hw _ hmem
    rw [hcount]
    exact zero_le

theorem singleton {f : Field} (hkind : f.kind = .element) (hw : ∀ x ∈ w, x = some f.name)
    (h : f.occurs.Allows w.length) : Fits [f] w := by
  have hown : w.count (some f.name) = w.length := List.count_eq_length.mpr fun x hx => (hw x hx).symm
  constructor
  · intro g hg _
    rw [List.mem_singleton.mp hg,hown]
    exact h.least
  · intro name
    by_cases hname : f.name = name
    · subst hname
      rw [hown]
      simpa [together,hkind] using h.most
    · have hcount : w.count (some name) = 0 := by
        refine List.count_eq_zero.mpr fun hmem => hname ?_
        exact (Option.some.inj (hw _ hmem)).symm
      rw [hcount]
      exact zero_le

end Fits

/-! ## References to groups -/

namespace Simplify

theorem most_le_one {reference : Field} (h : ¬ reference.isList) : reference.occurs.most ≤ 1 := by
  unfold Occurrence.most
  cases hmax : reference.occurs.max with
  | none => exact (allowance_of_lt (by decide)).le
  | some bound =>
    have hbound : bound ≤ 1 := by simpa [Field.isList,hmax] using h
    rw [Option.getD_some,allowance_of_lt (by unfold unbounded; omega)]
    exact_mod_cast hbound

/-- Fields that fit each of the sequences fit all of them in the place of a reference that allows their number. -/
theorem fits_takePlace {reference : Field} {cs : List (List (Option String))} (h : ∀ c ∈ cs, Fits fs c)
    (hcount : reference.occurs.Allows cs.length) : Fits (fs.map (takePlace reference)) cs.flatten := by
  constructor
  · intro f hf hkind
    obtain ⟨g,hg,rfl⟩ := List.mem_map.mp hf
    rw [kind_takePlace] at hkind
    rw [name_takePlace,Occurrence.least,occurs_takePlace]
    by_cases hmin : reference.occurs.min = some 0
    · simp [hmin]
    · have hpositive : 1 ≤ cs.length := by
        refine le_trans ?_ hcount.least
        unfold Occurrence.least
        cases hfound : reference.occurs.min with
        | none => exact le_rfl
        | some bound =>
          have hne : bound ≠ 0 := fun hzero => hmin (hfound.trans (congrArg some hzero))
          exact Nat.one_le_iff_ne_zero.mpr hne
      obtain ⟨c,cs,rfl⟩ := List.exists_cons_of_length_pos hpositive
      rw [if_neg hmin,List.flatten_cons,List.count_append]
      exact ((h c List.mem_cons_self).least g hg hkind).trans (Nat.le_add_right _ _)
  · intro name
    rw [together_map (kind_takePlace reference) (name_takePlace reference)]
    by_cases hlist : reference.isList
    · have hunlimited : ∀ f : Field, (takePlace reference f).occurs.most = ⊤ := by
        intro f
        rw [Occurrence.most,occurs_takePlace,if_pos hlist]
        exact allowance_unbounded
      cases hnamed : fs.filter fun f => f.kind = .element ∧ f.name = name with
      | nil =>
        have hnone : cs.flatten.count (some name) = 0 := by
          refine List.count_eq_zero.mpr fun hmem => ?_
          obtain ⟨c,hc,hname⟩ := List.mem_flatten.mp hmem
          have hmost := (h c hc).most name
          rw [together,hnamed] at hmost
          have hzero : c.count (some name) = 0 := by exact_mod_cast nonpos_iff_eq_zero.mp hmost
          exact List.count_eq_zero.mp hzero hname
        rw [hnone]
        exact zero_le
      | cons f rest =>
        rw [List.map_cons,List.sum_cons,hunlimited,top_add]
        exact le_top
    · have hkept : ∀ f : Field, (takePlace reference f).occurs.most = f.occurs.most := by
        intro f
        rw [Occurrence.most,occurs_takePlace,if_neg hlist,Occurrence.most]
      have hone : cs.length ≤ 1 := by exact_mod_cast hcount.most.trans (most_le_one hlist)
      simp only [hkept]
      rcases cs with _ | ⟨c,_ | ⟨_,_⟩⟩
      · exact zero_le
      · rw [List.flatten_singleton]
        exact (h c List.mem_cons_self).most name
      · simp at hone

end Simplify

end SchemaBinding
