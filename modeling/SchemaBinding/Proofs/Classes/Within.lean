import SchemaBinding.Model.Class

/-! Classes at any depth. A class is within another if it is that class, or within one of its inner classes; a
map that goes down into inner classes takes what is within a class to what is within its image. -/
namespace SchemaBinding
namespace Class

/-- A class is found in another at some depth. -/
inductive Within : Class → Class → Prop
  | self (c : Class) : Within c c
  | inner {d i c : Class} : i ∈ c.inner → Within d i → Within d c

/-- What holds of classes and of all inner classes below them. -/
def Everywhere (P : Class → Prop) (cs : List Class) : Prop := ∀ c ∈ cs, ∀ d, d.Within c → P d

variable {P Q : Class → Prop} {cs ds : List Class} {g : Class → Class}

theorem everywhere_nil : Everywhere P [] := by
  intro c hc
  cases hc

theorem everywhere_append : Everywhere P (cs ++ ds) ↔ Everywhere P cs ∧ Everywhere P ds := by
  simp only [Everywhere,List.mem_append,or_imp,forall_and]

theorem everywhere_flatMap {α : Type} {xs : List α} {f : α → List Class} :
    Everywhere P (xs.flatMap f) ↔ ∀ x ∈ xs, Everywhere P (f x) :=
  List.forall_mem_flatMap

theorem Everywhere.mono (h : Everywhere P cs) (hPQ : ∀ d, P d → Q d) : Everywhere Q cs :=
  fun c hc d hd => hPQ d (h c hc d hd)

theorem Everywhere.subset (h : Everywhere P cs) (hds : ∀ c ∈ ds, c ∈ cs) : Everywhere P ds :=
  fun c hc => h c (hds c hc)

/-- A class stands for itself and for its inner classes. -/
theorem everywhere_singleton {c : Class} : Everywhere P [c] ↔ P c ∧ Everywhere P c.inner := by
  constructor
  · intro h
    exact ⟨h c (by simp) c (.self c),fun i hi d hd => h c (by simp) d (.inner hi hd)⟩
  · rintro ⟨hc,hinner⟩ b hb d hd
    obtain rfl := List.mem_singleton.mp hb
    cases hd with
    | self => exact hc
    | inner hi hd => exact hinner _ hi _ hd

theorem within_map (hg : ∀ c, (g c).inner = c.inner.map g) {c d : Class} :
    d.Within (g c) ↔ ∃ e, e.Within c ∧ d = g e := by
  constructor
  · intro h
    generalize hc : g c = b at h
    induction h generalizing c with
    | self => exact ⟨c,.self c,hc.symm⟩
    | inner hi _ ih =>
      rw [← hc,hg] at hi
      obtain ⟨i,hmem,rfl⟩ := List.mem_map.mp hi
      obtain ⟨e,he,rfl⟩ := ih rfl
      exact ⟨e,.inner hmem he,rfl⟩
  · rintro ⟨e,he,rfl⟩
    induction he with
    | self => exact .self (g e)
    | @inner i c hi _ ih =>
      have hmap : g i ∈ (g c).inner := by
        rw [hg]
        exact List.mem_map_of_mem hi
      exact .inner hmap ih

theorem everywhere_map (hg : ∀ c, (g c).inner = c.inner.map g) :
    Everywhere P (cs.map g) ↔ Everywhere (fun d => P (g d)) cs := by
  constructor
  · intro h c hc d hd
    exact h (g c) (List.mem_map_of_mem hc) (g d) ((within_map hg).mpr ⟨d,hd,rfl⟩)
  · intro h b hb d hd
    obtain ⟨c,hc,rfl⟩ := List.mem_map.mp hb
    obtain ⟨e,he,rfl⟩ := (within_map hg).mp hd
    exact h c hc e he

end Class
end SchemaBinding
