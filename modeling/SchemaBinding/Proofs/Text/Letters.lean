/-! Letters and their cases. A kind of letter is a range of numbers, and the other case of a letter stands 32 numbers away.
Main statement: a character is its lower case or the upper case of that. -/
namespace SchemaBinding
namespace Letter

variable {c : Char}

theorem isUpper_iff : c.isUpper ↔ 65 ≤ c.toNat ∧ c.toNat ≤ 90 := decide_eq_true_iff

theorem isLower_iff : c.isLower ↔ 97 ≤ c.toNat ∧ c.toNat ≤ 122 :=
  Bool.and_eq_true_iff.trans (and_congr decide_eq_true_iff decide_eq_true_iff)

theorem isAlpha_iff : c.isAlpha ↔ c.isUpper ∨ c.isLower := Bool.or_eq_true_iff

theorem isAlphanum_iff : c.isAlphanum ↔ c.isUpper ∨ c.isLower ∨ c.isDigit :=
  Bool.or_eq_true_iff.trans ((or_congr_left isAlpha_iff).trans or_assoc)

theorem toNat_toLower (c : Char) : c.toLower.toNat = if c.isUpper then c.toNat + 32 else c.toNat := by
  split
  case isTrue h =>
    have hlower : c.toLower = _ := dif_pos (of_decide_eq_true h)
    have hstep : ('a'.val - 'A'.val).toNat = 32 := by decide
    have hrange := isUpper_iff.mp h
    rw [hlower,← Char.toNat_val,UInt32.toNat_add,hstep,Char.toNat_val]
    omega
  case isFalse h => exact congrArg Char.toNat (dif_neg (of_decide_eq_false (Bool.eq_false_iff.mpr h)))

theorem toNat_toUpper (c : Char) : c.toUpper.toNat = if c.isLower then c.toNat - 32 else c.toNat := by
  have hiff : c.isLower ↔ 'a'.val ≤ c.val ∧ c.val ≤ 'z'.val :=
    Bool.and_eq_true_iff.trans (and_congr decide_eq_true_iff decide_eq_true_iff)
  split
  case isTrue h =>
    have hupper : c.toUpper = _ := dif_pos (hiff.mp h)
    have hstep : ('A'.val - 'a'.val).toNat = 2 ^ 32 - 32 := by decide
    have hrange := isLower_iff.mp h
    rw [hupper,← Char.toNat_val,UInt32.toNat_add,hstep,Char.toNat_val]
    omega
  case isFalse h => exact congrArg Char.toNat (dif_neg fun hrange => h (hiff.mpr hrange))

theorem isAlphanum_toLower (c : Char) : c.toLower.isAlphanum = c.isAlphanum := by
  rw [Bool.eq_iff_iff]
  grind [isUpper_iff,isLower_iff,isAlphanum_iff,Char.isDigit_iff_toNat,toNat_toLower]

theorem isAlphanum_toUpper (c : Char) : c.toUpper.isAlphanum = c.isAlphanum := by
  rw [Bool.eq_iff_iff]
  grind [isUpper_iff,isLower_iff,isAlphanum_iff,Char.isDigit_iff_toNat,toNat_toUpper]

/-- No letter is a digit, so a name in upper case begins with one as the name does. -/
theorem isDigit_toUpper (c : Char) : c.toUpper.isDigit = c.isDigit := by
  rw [Bool.eq_iff_iff]
  grind [isLower_iff,Char.isDigit_iff_toNat,toNat_toUpper]

theorem toUpper_of_isUpper (h : c.isUpper) : c.toUpper = c := by
  rw [← Char.toNat_inj]
  grind [isUpper_iff,isLower_iff,toNat_toUpper]

/-- A character is its lower case or the upper case of that. -/
theorem eq_toLower_or (c : Char) : c = c.toLower ∨ c = c.toLower.toUpper := by
  rw [← Char.toNat_inj,← Char.toNat_inj]
  grind [isUpper_iff,isLower_iff,toNat_toLower,toNat_toUpper]

end Letter
end SchemaBinding
