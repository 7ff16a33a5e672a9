import SchemaBinding.Proofs.Classes.Simplified

/-! Which classes simplification keeps. References to groups and repeated fields only matter to the fields of a class, so
all else of it, with all below it, can be told from the class before.
Main statement: but for fields, the classes that are kept are the first of each key, in order, of those that are no groups,
and there are no more of them, and no more below them, than before. -/
namespace SchemaBinding
namespace Class

mutual

/-- A class without its fields and those of the classes below it. -/
def skeleton : Class → Class
  | c@{ inner, .. } => { c with fields := [], inner := skeletons inner }

def skeletons : List Class → List Class
  | [] => []
  | c :: rest => skeleton c :: skeletons rest

end

theorem skeletons_eq_map (cs : List Class) : skeletons cs = cs.map skeleton := by
  induction cs with
  | nil => rfl
  | cons c cs ih => rw [skeletons,ih,List.map_cons]

theorem skeleton_eq (c : Class) : skeleton c = { c with fields := [], inner := c.inner.map skeleton } := by
  cases c
  rw [skeleton,skeletons_eq_map]

/-- What holds of a class if it holds of its inner classes holds of every class. -/
theorem inductionOnInner {P : Class → Prop} (step : ∀ c, (∀ d ∈ c.inner, P d) → P c) (c : Class) : P c :=
  step c fun d _ => inductionOnInner step d
termination_by c
decreasing_by
  have hinner : sizeOf c.inner < sizeOf c := by
    cases c
    simp only [Class.mk.sizeOf_spec]
    omega
  exact Nat.lt_trans (List.sizeOf_lt_of_mem ‹d ∈ c.inner›) hinner

theorem innerCount_eq (c : Class) : c.innerCount = totalCount c.inner := by
  cases c
  rw [innerCount]

theorem innerCount_skeleton (c : Class) : c.skeleton.innerCount = c.innerCount := by
  induction c using inductionOnInner with
  | step c ih =>
    have htotal (cs : List Class) (h : ∀ d ∈ cs, d.skeleton.innerCount = d.innerCount) :
        totalCount (cs.map skeleton) = totalCount cs := by
      induction cs with
      | nil => rfl
      | cons d cs ih =>
        obtain ⟨hd,hcs⟩ := List.forall_mem_cons.mp h
        rw [List.map_cons,totalCount,totalCount,hd,ih hcs]
    rw [innerCount_eq,innerCount_eq c,skeleton_eq,htotal c.inner ih]

theorem count_cons (c : Class) (cs : List Class) :
    count (c :: cs) = { main := (count cs).main + 1, inner := c.innerCount + (count cs).inner } := by
  have hfrom (n : Nat) (cs : List Class) : cs.foldl (fun n c => n + c.innerCount) n =
      n + cs.foldl (fun n c => n + c.innerCount) 0 := by
    induction cs generalizing n with
    | nil => rfl
    | cons d cs ih =>
      rw [List.foldl_cons,List.foldl_cons,ih,ih (0 + d.innerCount)]
      omega
  rw [count,List.foldl_cons,hfrom,Nat.zero_add]
  rfl

theorem count_map_skeleton (cs : List Class) : count (cs.map skeleton) = count cs := by
  induction cs with
  | nil => rfl
  | cons c cs ih => rw [List.map_cons,count_cons,count_cons,ih,innerCount_skeleton]

/-- There are no more classes in a part of a list, and no more below them. -/
theorem count_le_of_sublist {bs cs : List Class} (h : bs.Sublist cs) :
    (count bs).main ≤ (count cs).main ∧ (count bs).inner ≤ (count cs).inner := by
  induction h with
  | slnil => exact ⟨Nat.le_refl _,Nat.le_refl _⟩
  | cons c _ ih =>
    rw [count_cons]
    exact ⟨Nat.le_succ_of_le ih.1,Nat.le_add_left_of_le ih.2⟩
  | cons_cons c _ ih =>
    rw [count_cons,count_cons]
    exact ⟨Nat.succ_le_succ ih.1,Nat.add_le_add_left ih.2 _⟩

end Class

namespace Simplify

theorem skeleton_simplified (ds : Definitions) (c : Class) : Class.skeleton (simplified ds c) = Class.skeleton c := by
  induction c using Class.inductionOnInner with
  | step c ih =>
    have hinner : (simplified ds c).inner.map Class.skeleton = c.inner.map Class.skeleton := by
      rw [inner_simplified,List.map_map]
      exact List.map_congr_left ih
    rw [Class.skeleton_eq,Class.skeleton_eq c,hinner,simplified_eq]

theorem classKey_simplified (ds : Definitions) (c : Class) : classKey (simplified ds c) = classKey c := by
  rw [simplified_eq]
  rfl

/-- Without groups, the first class of each key. -/
def kept (cs : List Class) : List Class :=
  (cs.filter fun c => !c.kind.isGroup).eraseDupsBy fun b c => classKey b = classKey c

theorem distinct_eq_kept (cs : List Class) : distinct (cs.filter fun c => !c.kind.isGroup) = kept cs :=
  OrderedMap.values_firsts classKey _

theorem map_skeleton_classes (cs : List Class) : (classes cs).map Class.skeleton = (kept cs).map Class.skeleton := by
  rw [classes_eq_map,distinct_eq_kept,List.map_map]
  exact List.map_congr_left fun c _ => skeleton_simplified (definitions cs) c

/-- The keys of what simplification gives, as they are found. -/
theorem map_classKey_classes (cs : List Class) :
    (classes cs).map classKey = (OrderedMap.firsts classKey (cs.filter fun c => !c.kind.isGroup)).keys := by
  rw [classes_eq_map,List.map_map,← OrderedMap.map_values_firsts]
  exact List.map_congr_left fun c _ => classKey_simplified (definitions cs) c

theorem mem_kept {cs : List Class} {c : Class} :
    c ∈ kept cs ↔ cs.find? (fun b => !b.kind.isGroup && classKey b = classKey c) = some c := by
  rw [← distinct_eq_kept,distinct,OrderedMap.mem_values_firsts,List.find?_filter]
  simp

theorem kept_sublist (cs : List Class) : (kept cs).Sublist cs := by
  rw [← distinct_eq_kept]
  exact (OrderedMap.values_firsts_sublist classKey _).trans List.filter_sublist

theorem count_classes (cs : List Class) : Class.count (classes cs) = Class.count (kept cs) := by
  rw [← Class.count_map_skeleton,map_skeleton_classes,Class.count_map_skeleton]

/-- But for fields, at every depth, simplification gives the classes that it keeps as they were and in their order: of
those that are no groups, the first of each key. So there are no more classes than before, and no more below them. -/
theorem classes_retains (cs : List Class) :
    (classes cs).map Class.skeleton = (kept cs).map Class.skeleton ∧
    (kept cs).Sublist cs ∧
    (∀ c, c ∈ kept cs ↔ cs.find? (fun b => !b.kind.isGroup && classKey b = classKey c) = some c) ∧
    ((classes cs).map classKey).Nodup ∧
    (∀ k, k ∈ (classes cs).map classKey ↔ ∃ c ∈ cs, ¬ c.kind.isGroup ∧ classKey c = k) ∧
    (Class.count (classes cs)).main ≤ (Class.count cs).main ∧ (Class.count (classes cs)).inner ≤ (Class.count cs).inner := by
  have hkeys (k : ClassKey) : k ∈ (classes cs).map classKey ↔ ∃ c ∈ cs, ¬ c.kind.isGroup ∧ classKey c = k := by
    rw [map_classKey_classes,OrderedMap.mem_keys_firsts]
    simp [and_assoc]
  have hnodup : ((classes cs).map classKey).Nodup := by
    rw [map_classKey_classes]
    exact OrderedMap.keys_nodup _
  refine ⟨map_skeleton_classes cs,kept_sublist cs,fun c => mem_kept,hnodup,hkeys,?_⟩
  rw [count_classes]
  exact Class.count_le_of_sublist (kept_sublist cs)

end Simplify
end SchemaBinding
