import SchemaBinding.Proofs.Occurrences.Flattened

/-! Bounds of what is repeated. The bounds that are read say no less than those that are written, and if something
is repeated as often as its surroundings allow, and each time as often as its own bounds allow, then it occurs in
all as often as the flattened bounds allow. -/
namespace SchemaBinding

/-- How often an upper bound allows something; the largest bound stands for none. -/
def allowance (bound : Nat) : ℕ∞ := if bound = unbounded then ⊤ else bound

theorem allowance_unbounded : allowance unbounded = ⊤ := if_pos rfl

theorem le_allowance (bound : Nat) : (bound : ℕ∞) ≤ allowance bound := by
  unfold allowance
  split
  · exact le_top
  · exact le_rfl

theorem allowance_of_lt {bound : Nat} (h : bound < unbounded) : allowance bound = bound := if_neg h.ne

/-- Saturation loses nothing. -/
theorem allowance_mul_le (a b : Nat) : allowance a * allowance b ≤ allowance (multiplyBounds a b) := by
  unfold multiplyBounds
  by_cases hlarge : unbounded ≤ a ∨ unbounded ≤ b
  · rw [if_pos hlarge]
    exact le_top.trans_eq allowance_unbounded.symm
  · rw [if_neg hlarge]
    rw [not_or,not_le,not_le] at hlarge
    rw [allowance_of_lt hlarge.1,allowance_of_lt hlarge.2]
    by_cases hproduct : unbounded ≤ a*b
    · rw [min_eq_right hproduct]
      exact le_top.trans_eq allowance_unbounded.symm
    · rw [min_eq_left (not_le.mp hproduct).le,← Nat.cast_mul]
      exact le_allowance _

namespace Occurrence

/-- An absent bound is 1. -/
def least (o : Occurrence) : Nat := o.min.getD 1

def most (o : Occurrence) : ℕ∞ := allowance (o.max.getD 1)

/-- A number of times is within bounds. -/
structure Allows (o : Occurrence) (count : Nat) : Prop where
  least : o.least ≤ count
  most : (count : ℕ∞) ≤ o.most

end Occurrence

/-! ## What is read -/

namespace Written

theorem isBlank_of_isDigit {c : Char} (h : c.isDigit) : Blank.isBlank c = false := by
  obtain ⟨hlow,hhigh⟩ : 48 ≤ c.toNat ∧ c.toNat ≤ 57 := Char.isDigit_iff_toNat.mp h
  simp only [Blank.isBlank,Bool.or_eq_false_iff,Bool.and_eq_false_iff,decide_eq_false_iff_not]
  omega

theorem trimChars_of_digits {cs : List Char} (h : ∀ c ∈ cs, c.isDigit) : Blank.trimChars cs = cs := by
  have hdrop : ∀ cs : List Char, (∀ c ∈ cs, c.isDigit) → cs.dropWhile Blank.isBlank = cs := by
    intro cs hcs
    cases cs with
    | nil => rfl
    | cons c cs =>
      rw [List.dropWhile_cons,isBlank_of_isDigit (hcs c List.mem_cons_self),if_neg Bool.false_ne_true]
  rw [Blank.trimChars,hdrop cs h,hdrop cs.reverse (by simpa using h),List.reverse_reverse]

theorem ofChars?_of_digits {cs : List Char} (hne : cs ≠ []) (h : ∀ c ∈ cs, c.isDigit)
    (hsize : Double.natOfDigits cs ≤ Natural.largest) : Natural.ofChars? cs = some (Double.natOfDigits cs) := by
  have hempty : cs.isEmpty = false := by simpa using hne
  have hall : cs.all Char.isDigit = true := List.all_eq_true.mpr h
  unfold Natural.ofChars?
  split
  · have hplus := h '+' List.mem_cons_self
    cases hplus
  · simp [hempty,hall,hsize]

variable {w : Written}

theorem bound_eq {text : String} (h : text ≠ "unbounded") : bound (some text) = Double.natOfDigits text.toList := by
  unfold bound
  split
  · simp_all
  · simp_all
  · simp_all

/-- What is read of a plain bound is what it says, or it says that there is none. -/
theorem natural?_of_plain {text : String} (h : Plain text) :
    (text = "unbounded" ∧ natural? text = none) ∨
      ∃ n, natural? text = some n ∧ bound (some text) = n ∧ text ≠ "unbounded" := by
  rcases h with rfl | ⟨hne,hdigits,hsize⟩
  · exact Or.inl ⟨rfl,by decide⟩
  · have hnumber : text ≠ "unbounded" := by
      rintro rfl
      exact absurd (hdigits 'u' (by decide)) (by decide)
    refine Or.inr ⟨_,?_,bound_eq hnumber,hnumber⟩
    rw [natural?,trimChars_of_digits hdigits,ofChars?_of_digits hne hdigits hsize]

theorem least_le_bound (hmin : ∀ text ∈ w.min, Plain text) : (w.occurrence.least : ℕ∞) ≤ bound w.min := by
  unfold Occurrence.least occurrence
  cases hw : w.min with
  | none => exact le_rfl
  | some text =>
    rcases natural?_of_plain (hmin text hw) with ⟨rfl,_⟩ | ⟨n,hn,hbound,_⟩
    · exact le_top
    · simp [hn,hbound]

theorem bound_le_most (hmax : ∀ text ∈ w.max, Plain text) : bound w.max ≤ w.occurrence.most := by
  unfold Occurrence.most occurrence
  cases hw : w.max with
  | none => exact le_allowance 1
  | some text =>
    rcases natural?_of_plain (hmax text hw) with ⟨rfl,_⟩ | ⟨n,hn,hbound,hnumber⟩
    · rw [if_pos rfl,Option.getD_some,allowance_unbounded]
      exact le_top
    · rw [if_neg (by simpa using hnumber),hbound]
      simpa [hn] using le_allowance n

theorem one_le_bound (hmin : ∀ text ∈ w.min, Plain text) (h : w.occurrence.min ≠ some 0) : 1 ≤ bound w.min := by
  cases hw : w.min with
  | none => exact le_rfl
  | some text =>
    rcases natural?_of_plain (hmin text hw) with ⟨rfl,_⟩ | ⟨n,hn,hbound,_⟩
    · exact le_top
    · have hpositive : n ≠ 0 := by
        rintro rfl
        exact h (by simp [occurrence,hw,hn])
      rw [hbound]
      exact_mod_cast Nat.one_le_iff_ne_zero.mpr hpositive

end Written

/-! ## Repetition -/

theorem sum_le_length_mul {counts : List Nat} {b : ℕ∞} (h : ∀ k ∈ counts, (k : ℕ∞) ≤ b) :
    (counts.sum : ℕ∞) ≤ counts.length * b := by
  induction counts with
  | nil => simp
  | cons k counts ih =>
    obtain ⟨hk,hrest⟩ := List.forall_mem_cons.mp h
    rw [List.sum_cons,List.length_cons,Nat.cast_add,Nat.cast_succ,add_mul,one_mul,add_comm]
    exact add_le_add (ih hrest) hk

theorem le_sum_of_ne_nil {counts : List Nat} {b : ℕ∞} (hne : counts ≠ []) (h : ∀ k ∈ counts, b ≤ (k : ℕ∞)) :
    b ≤ (counts.sum : ℕ∞) := by
  obtain ⟨k,counts,rfl⟩ := List.exists_cons_of_ne_nil hne
  have hk := h k List.mem_cons_self
  rw [List.sum_cons,Nat.cast_add]
  exact hk.trans le_self_add

namespace Surroundings

/-- What is surrounded is repeated a number of times. -/
structure Allows (a : Surroundings) (count : Nat) : Prop where
  least : a.optional = false → 1 ≤ count
  most : (count : ℕ∞) ≤ allowance a.max

theorem allows_one : ({} : Surroundings).Allows 1 := ⟨fun _ => le_rfl,le_allowance 1⟩

variable {a : Surroundings} {w : Written} {counts : List Nat}

/-- Inside one more compositor, it is repeated as often as the compositor is in all. -/
theorem Allows.nest (h : a.Allows counts.length) (hw : w.Regular)
    (hleast : ∀ k ∈ counts, Written.bound w.min ≤ (k : ℕ∞)) (hmost : ∀ k ∈ counts, (k : ℕ∞) ≤ Written.bound w.max)
    (choice : Bool) : (a.nest choice w.occurrence).Allows counts.sum := by
  constructor
  · intro hoptional
    simp only [Surroundings.nest,Bool.or_eq_false_iff,decide_eq_false_iff_not] at hoptional
    obtain ⟨⟨ha,_⟩,hmin⟩ := hoptional
    have hne : counts ≠ [] := List.ne_nil_of_length_pos (h.least ha)
    exact_mod_cast (Written.one_le_bound hw.min hmin).trans (le_sum_of_ne_nil hne hleast)
  · calc (counts.sum : ℕ∞) ≤ counts.length*Written.bound w.max := sum_le_length_mul hmost
      _ ≤ allowance a.max*w.occurrence.most := mul_le_mul' h.most (Written.bound_le_most hw.max)
      _ ≤ allowance (multiplyBounds a.max (w.occurrence.max.getD 1)) := allowance_mul_le _ _

/-- A particle occurs in all as often as its bounds and its surroundings allow. -/
theorem Allows.apply (h : a.Allows counts.length) (hw : w.Regular)
    (hleast : ∀ k ∈ counts, Written.bound w.min ≤ (k : ℕ∞)) (hmost : ∀ k ∈ counts, (k : ℕ∞) ≤ Written.bound w.max) :
    (a.apply w.occurrence).Allows counts.sum := by
  constructor
  · cases hoptional : a.optional with
    | true => simp [Occurrence.least,Surroundings.apply,hoptional]
    | false =>
      have hne : counts ≠ [] := List.ne_nil_of_length_pos (h.least hoptional)
      have hsum := (Written.least_le_bound hw.min).trans (le_sum_of_ne_nil hne hleast)
      simp only [Occurrence.least,Surroundings.apply,hoptional,Bool.false_eq_true,if_false]
      exact_mod_cast hsum
  · have hsum := sum_le_length_mul hmost
    by_cases hmany : 1 < a.max
    · simp only [Occurrence.most,Surroundings.apply,if_pos hmany,Option.getD_some]
      calc (counts.sum : ℕ∞) ≤ Written.bound w.max*counts.length := by rwa [mul_comm]
        _ ≤ w.occurrence.most*allowance a.max := mul_le_mul' (Written.bound_le_most hw.max) h.most
        _ ≤ allowance (multiplyBounds (w.occurrence.max.getD 1) a.max) := allowance_mul_le _ _
    · have honce : (counts.length : ℕ∞) ≤ 1 := by
        refine h.most.trans ?_
        rw [allowance_of_lt (by unfold unbounded; omega)]
        exact_mod_cast not_lt.mp hmany
      simp only [Occurrence.most,Surroundings.apply,if_neg hmany]
      calc (counts.sum : ℕ∞) ≤ counts.length*Written.bound w.max := hsum
        _ ≤ 1*w.occurrence.most := mul_le_mul' honce (Written.bound_le_most hw.max)
        _ = allowance (w.occurrence.max.getD 1) := one_mul _

end Surroundings
end SchemaBinding
