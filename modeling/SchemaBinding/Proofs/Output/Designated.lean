import Mathlib.Data.List.Nodup
import Mathlib.Data.List.Perm.Subperm
import SchemaBinding.Output.Writer

/-! Names of generated code. Numbers put after a name tell its variants apart, so among more variants than there are taken
names one is free. Main statement: the classes of one package get names of their own. -/
namespace SchemaBinding
namespace Output

theorem numbered_injective (name : String) : Function.Injective (numbered name) := by
  have hlonger (n : Nat) : name ≠ name ++ "_" ++ toString n := by
    intro h
    have hlength := congrArg (List.length ∘ String.toList) h
    simp at hlength
  intro m n h
  unfold numbered at h
  split at h <;> split at h
  · simp_all
  · exact absurd h (hlonger n)
  · exact absurd h.symm (hlonger m)
  · have hdigits : Nat.toDigits 10 m = Nat.toDigits 10 n := by
      rw [← Nat.toList_repr,← Nat.toList_repr]
      simpa [← String.toList_inj] using h
    rw [← Nat.ofDigitChars_ten_toDigits (n:=m),hdigits,Nat.ofDigitChars_ten_toDigits]

theorem freeName_not_mem (name : String) (taken : List String) : freeName name taken ∉ taken := by
  obtain ⟨n,hn,hfree⟩ : ∃ n ∈ List.range (taken.length + 1), numbered name n ∉ taken := by
    by_contra hall
    push Not at hall
    have hsubset : (List.range (taken.length + 1)).map (numbered name) ⊆ taken := by
      intro variant hvariant
      obtain ⟨n,hn,rfl⟩ := List.mem_map.mp hvariant
      exact hall n hn
    have hnodup : ((List.range (taken.length + 1)).map (numbered name)).Nodup :=
      List.nodup_range.map (numbered_injective name)
    have hlength := (List.subperm_of_subset hnodup hsubset).length_le
    rw [List.length_map,List.length_range] at hlength
    omega
  have hfound : ((List.range (taken.length + 1)).find? fun n => !taken.contains (numbered name n)).isSome :=
    List.find?_isSome.mpr ⟨n,hn,by simpa using hfree⟩
  obtain ⟨k,hk⟩ := Option.isSome_iff_exists.mp hfound
  rw [freeName,hk]
  simpa using List.find?_some hk

namespace Format
variable (format : Format)

@[simp] theorem package_designateClass (name : String) (c : Class) : (format.designateClass name c).package = c.package := by
  cases c
  rfl

@[simp] theorem name_designateClass (name : String) (c : Class) : (format.designateClass name c).name = c.name := by
  cases c
  rfl

@[simp] theorem localName_designateClass (name : String) (c : Class) : (format.designateClass name c).localName = name := by
  cases c
  rfl

theorem map_package_designateClasses (taken : List (Option String × String)) (cs : List Class) :
    (format.designateClasses taken cs).map Class.package = cs.map Class.package := by
  induction cs generalizing taken with
  | nil => rfl
  | cons c cs ih => simp [designateClasses,ih]

theorem package_isSome_designateClasses {cs : List Class} (hpackages : ∀ c ∈ cs, c.package.isSome)
    (taken : List (Option String × String)) : ∀ d ∈ format.designateClasses taken cs, d.package.isSome := by
  intro d hd
  have hpackage : d.package ∈ (format.designateClasses taken cs).map Class.package := List.mem_map_of_mem hd
  rw [map_package_designateClasses] at hpackage
  obtain ⟨c,hc,heq⟩ := List.mem_map.mp hpackage
  exact heq ▸ hpackages c hc

/-- Of the classes in one package, no two have the same name, and none has one that was taken before. -/
theorem nodup_designateClasses (taken : List (Option String × String)) (cs : List Class) :
    ((format.designateClasses taken cs).map fun c => (c.package,c.localName)).Nodup ∧
      ∀ c ∈ format.designateClasses taken cs, (c.package,c.localName) ∉ taken := by
  induction cs generalizing taken with
  | nil => simp [designateClasses]
  | cons c cs ih =>
    let names := (taken.filter (·.1 = c.package)).map Prod.snd
    let name := freeName (format.className c.name) names
    have hfree : (c.package,name) ∉ taken := by
      intro htaken
      refine freeName_not_mem (format.className c.name) names ?_
      exact List.mem_map.mpr ⟨_,List.mem_filter.mpr ⟨htaken,by simp⟩,rfl⟩
    obtain ⟨hnodup,hfresh⟩ := ih ((c.package,name) :: taken)
    have hrest : ∀ d ∈ format.designateClasses ((c.package,name) :: taken) cs,
        (d.package,d.localName) ≠ (c.package,name) ∧ (d.package,d.localName) ∉ taken :=
      fun d hd => by simpa using hfresh d hd
    rw [designateClasses,List.map_cons,List.nodup_cons,List.forall_mem_cons,package_designateClass,
      localName_designateClass]
    refine ⟨⟨fun hmem => ?_,hnodup⟩,hfree,fun d hd => (hrest d hd).2⟩
    obtain ⟨d,hd,heq⟩ := List.mem_map.mp hmem
    exact (hrest d hd).1 heq

end Format

theorem designate_eq {w : Writer} {name : String} {format : Format} (h : w.format name = .ok format) (cs : List Class) :
    w.designate cs name = .ok (format.designateClasses [] cs) := by
  rw [Writer.designate,h]
  rfl

end Output
end SchemaBinding
