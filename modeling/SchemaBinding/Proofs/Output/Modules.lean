import Mathlib.Data.List.Induction
import SchemaBinding.Output.Writer

/-! The modules of classes. There is one for each package that a class is in, with the classes of the package in their
order; so a class is in the module of its package and in no other. -/
namespace SchemaBinding
namespace Output

/-- The package of a class; the empty name stands for none. -/
def packageName (c : Class) : String := c.package.getD ""

theorem get?_byPackage (cs : List Class) (package : String) : (byPackage cs).get? package =
    if cs.filter (packageName · = package) = [] then none else some (cs.filter (packageName · = package)) := by
  induction cs using List.reverseRecOn with
  | nil => rfl
  | append_singleton cs c ih =>
    have hstep : byPackage (cs ++ [c]) =
        ((byPackage cs).insertNew (packageName c) []).adjust (packageName c) (· ++ [c]) := by
      simp [byPackage,packageName]
    rw [hstep,OrderedMap.get?_adjust_insertNew,List.filter_append]
    by_cases hc : packageName c = package
    · rw [if_pos hc.symm,hc,ih]
      by_cases hnone : cs.filter (packageName · = package) = [] <;> simp [hc,hnone]
    · rw [if_neg (Ne.symm hc),ih]
      simp [hc]

section
variable {cs : List Class} {c : Class} {m n : Module}

theorem modules_spec (hm : m ∈ modules cs) : m.classes ≠ [] ∧ m.classes = cs.filter (packageName · = m.package) ∧
    m.imports = importsOf (typeIndex cs) m.package m.classes := by
  obtain ⟨e,he,rfl⟩ := List.mem_map.mp hm
  have hget := OrderedMap.get?_eq_some_iff.mpr he
  rw [get?_byPackage] at hget
  split at hget
  · cases hget
  · have hclasses := Option.some.inj hget
    exact ⟨hclasses ▸ ‹_›,hclasses.symm,rfl⟩

theorem mem_classes_iff (hm : m ∈ modules cs) : c ∈ m.classes ↔ c ∈ cs ∧ packageName c = m.package := by
  rw [(modules_spec hm).2.1,List.mem_filter,decide_eq_true_iff]

/-- Modules are told apart by their packages. -/
theorem eq_of_package_eq (hm : m ∈ modules cs) (hn : n ∈ modules cs) (h : m.package = n.package) : m = n := by
  obtain ⟨_,hmclasses,hmimports⟩ := modules_spec hm
  obtain ⟨_,hnclasses,hnimports⟩ := modules_spec hn
  have hclasses : m.classes = n.classes := by rw [hmclasses,hnclasses,h]
  have himports : m.imports = n.imports := by rw [hmimports,hnimports,h,hclasses]
  cases m
  cases n
  simp_all

theorem existsUnique_module (hc : c ∈ cs) : ∃! m, m ∈ modules cs ∧ c ∈ m.classes := by
  have hmem : c ∈ cs.filter (packageName · = packageName c) := List.mem_filter.mpr ⟨hc,by simp⟩
  have hget := get?_byPackage cs (packageName c)
  rw [if_neg (List.ne_nil_of_mem hmem)] at hget
  have hentry := OrderedMap.get?_eq_some_iff.mp hget
  refine ⟨_,⟨List.mem_map_of_mem hentry,hmem⟩,?_⟩
  rintro n ⟨hn,hcn⟩
  exact eq_of_package_eq hn (List.mem_map_of_mem hentry) ((mem_classes_iff hn).mp hcn).2.symm

end

theorem render_eq {w : Writer} {name : String} {format : Format} (h : w.format name = .ok format) (cs : List Class) :
    w.render cs name = .ok ((modules cs).map format.file) := by
  rw [Writer.render,h]
  rfl

end Output
end SchemaBinding
