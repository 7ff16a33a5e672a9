/-! White space. Text values are trimmed and split by the Unicode property `White_Space`; markup is
divided by the four ASCII blanks only. -/
namespace SchemaBinding
namespace Blank

/-- The 25 characters with the Unicode property `White_Space`. -/
def isBlank (c : Char) : Bool :=
  let v := c.toNat
  (0x9 ≤ v && v ≤ 0xD) || v = 0x20 || v = 0x85 || v = 0xA0 || v = 0x1680 ||
    (0x2000 ≤ v && v ≤ 0x200A) || v = 0x2028 || v = 0x2029 || v = 0x202F || v = 0x205F || v = 0x3000

/-- Space, tab, line feed and carriage return. -/
def isMarkupBlank (b : UInt8) : Bool :=
  b = 0x20 || b = 0x9 || b = 0xA || b = 0xD

def trimChars (cs : List Char) : List Char :=
  ((cs.dropWhile isBlank).reverse.dropWhile isBlank).reverse

def trim (s : String) : String :=
  String.ofList (trimChars s.toList)

/-- The pieces between separating characters have none of these, and no characters but those of the whole. -/
theorem mem_splitOnP_spec {p : Char → Bool} {cs piece : List Char} (h : piece ∈ cs.splitOnP p) :
    (∀ c ∈ piece, p c = false) ∧ piece ⊆ cs := by
  induction cs generalizing piece with
  | nil => simp_all
  | cons c cs ih =>
    rw [List.splitOnP_cons_eq_if_modifyHead] at h
    by_cases hc : p c
    · rw [if_pos hc] at h
      rcases List.mem_cons.mp h with rfl | h
      · simp
      · exact ⟨(ih h).1,List.subset_cons_of_subset c (ih h).2⟩
    · rw [if_neg hc] at h
      cases hrest : cs.splitOnP p with
      | nil => simp [hrest] at h
      | cons first rest =>
        rw [hrest,List.modifyHead_cons] at h
        rcases List.mem_cons.mp h with rfl | h
        · obtain ⟨hfirst,hsubset⟩ := @ih first (by simp [hrest])
          exact ⟨by simpa [hc] using hfirst,List.cons_subset_cons c hsubset⟩
        · obtain ⟨hpiece,hsubset⟩ := @ih piece (by simp [hrest,h])
          exact ⟨hpiece,List.subset_cons_of_subset c hsubset⟩

/-- The non-empty pieces between blanks. -/
def fields (s : String) : List String :=
  ((s.toList.splitOnP isBlank).filter (! ·.isEmpty)).map String.ofList

end Blank
end SchemaBinding
