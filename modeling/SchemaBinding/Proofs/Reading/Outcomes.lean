import Mathlib.Data.List.Forall2

/-! Computations that can fail: what holds of their results, and when two of them agree. Both are kept by doing one thing
after another, by folding over a list and by computing each element of one. -/
namespace SchemaBinding

/-! ## One computation -/

/-- What holds of a result, if there is one. -/
def Gives {ε α : Type} (P : α → Prop) (x : Except ε α) : Prop := ∀ a, x = .ok a → P a

namespace Gives
variable {ε α β : Type} {P : α → Prop} {Q : β → Prop}

theorem error (e : ε) : Gives P (.error e) := fun _ h => nomatch h

theorem ok {a : α} (h : P a) : Gives P (.ok a : Except ε α) := by
  intro b hb
  cases hb
  exact h

theorem any (x : Except ε α) : Gives (fun _ => True) x := fun _ _ => trivial

theorem bind {x : Except ε α} (h : Gives P x) {f : α → Except ε β} (hf : ∀ a, P a → Gives Q (f a)) :
    Gives Q (x >>= f) := by
  cases x with
  | error e => exact error e
  | ok a => exact hf a (h a rfl)

theorem map {x : Except ε α} (h : Gives P x) {f : α → β} (hf : ∀ a, P a → Q (f a)) : Gives Q (x.map f) := by
  cases x with
  | error e => exact error e
  | ok a => exact ok (hf a (h a rfl))

theorem foldlM {f : α → β → Except ε α} (hf : ∀ a b, P a → Gives P (f a b)) (bs : List β) {a : α} (ha : P a) :
    Gives P (bs.foldlM f a) := by
  induction bs generalizing a with
  | nil => exact ok ha
  | cons b bs ih =>
    rw [List.foldlM_cons]
    exact (hf a b ha).bind fun _ => ih

theorem mapM {f : β → Except ε α} (hf : ∀ b, Gives P (f b)) (bs : List β) : Gives (fun as => ∀ a ∈ as, P a) (bs.mapM f) := by
  induction bs with
  | nil => exact ok (by simp)
  | cons b bs ih =>
    rw [List.mapM_cons]
    exact (hf b).bind fun a ha => ih.bind fun as has => ok (List.forall_mem_cons.mpr ⟨ha,has⟩)

theorem of_toOption {x : Except ε α} (h : Gives P x) {a : α} (ha : x.toOption = some a) : P a := by
  cases x with
  | error e => cases ha
  | ok b =>
    cases ha
    exact h a rfl

end Gives

/-! ## Two computations -/

/-- Two computations fail in the same way or give related results. -/
inductive Agree {ε α β : Type} (R : α → β → Prop) : Except ε α → Except ε β → Prop where
  | error (e : ε) : Agree R (.error e) (.error e)
  | ok {a : α} {b : β} : R a b → Agree R (.ok a) (.ok b)

namespace Agree
variable {ε α β γ δ : Type} {R : α → β → Prop} {S : γ → δ → Prop}

theorem bind {x : Except ε α} {y : Except ε β} (h : Agree R x y) {f : α → Except ε γ} {g : β → Except ε δ}
    (hfg : ∀ a b, R a b → Agree S (f a) (g b)) :
    Agree S (x >>= f) (y >>= g) := by
  cases h with
  | error e => exact .error e
  | ok hab => exact hfg _ _ hab

theorem map {x : Except ε α} {y : Except ε β} (h : Agree R x y) {f : α → γ} {g : β → δ}
    (hfg : ∀ a b, R a b → S (f a) (g b)) : Agree S (x.map f) (y.map g) := by
  cases h with
  | error e => exact .error e
  | ok hab => exact .ok (hfg _ _ hab)

theorem imp {R' : α → β → Prop} {x : Except ε α} {y : Except ε β} (h : Agree R x y) (hR : ∀ a b, R a b → R' a b) :
    Agree R' x y := by
  cases h with
  | error e => exact .error e
  | ok hab => exact .ok (hR _ _ hab)

theorem foldlM {f : α → γ → Except ε α} {g : β → δ → Except ε β}
    (hstep : ∀ a b c d, R a b → S c d → Agree R (f a c) (g b d)) {cs : List γ} {ds : List δ} (h : List.Forall₂ S cs ds)
    {a : α} {b : β} (hab : R a b) : Agree R (cs.foldlM f a) (ds.foldlM g b) := by
  induction h generalizing a b with
  | nil => exact .ok hab
  | cons hcd _ ih =>
    rw [List.foldlM_cons,List.foldlM_cons]
    exact (hstep _ _ _ _ hab hcd).bind fun _ _ => ih

theorem mapM {f : γ → Except ε α} {g : δ → Except ε β} (hfg : ∀ c d, S c d → Agree R (f c) (g d)) {cs : List γ}
    {ds : List δ} (h : List.Forall₂ S cs ds) : Agree (List.Forall₂ R) (cs.mapM f) (ds.mapM g) := by
  induction h with
  | nil => exact .ok .nil
  | cons hcd _ ih =>
    rw [List.mapM_cons,List.mapM_cons]
    exact (hfg _ _ hcd).bind fun _ _ hab => ih.bind fun _ _ habs => .ok (.cons hab habs)

theorem trans {T : β → γ → Prop} {U : α → γ → Prop} {x : Except ε α} {y : Except ε β} {z : Except ε γ} (h : Agree R x y)
    (h' : Agree T y z) (hU : ∀ a b c, R a b → T b c → U a c) : Agree U x z := by
  cases h with
  | error e =>
    cases h' with
    | error => exact .error e
  | ok hab =>
    cases h' with
    | ok hbc => exact .ok (hU _ _ _ hab hbc)

theorem symm {x : Except ε α} {y : Except ε β} (h : Agree R x y) : Agree (fun b a => R a b) y x := by
  cases h with
  | error e => exact .error e
  | ok hab => exact .ok hab

theorem refl {R : α → α → Prop} (h : ∀ a, R a a) (x : Except ε α) : Agree R x x := by
  cases x with
  | error e => exact .error e
  | ok a => exact .ok (h a)

theorem of_map_eq {x : Except ε α} {y : Except ε β} {f : α → γ} {g : β → γ} (h : x.map f = y.map g) :
    Agree (fun a b => f a = g b) x y := by
  cases x with
  | error e =>
    cases y with
    | error e' =>
      obtain rfl := Except.error.inj h
      exact .error e
    | ok b => cases h
  | ok a =>
    cases y with
    | error e' => cases h
    | ok b => exact .ok (Except.ok.inj h)

theorem ite {c : Prop} [Decidable c] {x x' : Except ε α} {y y' : Except ε β}
    (h : Agree R x y) (h' : Agree R x' y') : Agree R (if c then x else x') (if c then y else y') := by
  split
  · exact h
  · exact h'

end Agree

end SchemaBinding
