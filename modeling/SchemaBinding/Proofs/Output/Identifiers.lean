import SchemaBinding.Proofs.Output.Designated
import SchemaBinding.Proofs.Text.Letters

/-! Identifiers. Names are made of the letters and digits of words, of underscores between and before them, and of the
numbers put after them. Main statement: whatever a class or a field is called, the name for it in generated code is an
identifier. -/
namespace SchemaBinding

/-- ASCII letters and digits, and the underscore. -/
def IsNameChar (c : Char) : Prop := c.isAlphanum ∨ c = '_'

structure IsIdentifier (name : String) : Prop where
  nonempty : name ≠ ""
  chars : ∀ c ∈ name.toList, IsNameChar c
  first : ∀ c ∈ name.toList.head?, ¬ c.isDigit

namespace Words

theorem isNameChar_toLower {c : Char} (h : IsNameChar c) : IsNameChar c.toLower := by
  rcases h with h | rfl
  · exact .inl ((Letter.isAlphanum_toLower c).trans h)
  · exact .inr rfl

theorem isNameChar_toUpper {c : Char} (h : IsNameChar c) : IsNameChar c.toUpper := by
  rcases h with h | rfl
  · exact .inl ((Letter.isAlphanum_toUpper c).trans h)
  · exact .inr rfl

theorem isNameChar_of_mem_words {name : String} {word : List Char} (h : word ∈ words name) : ∀ c ∈ word, IsNameChar c := by
  intro c hc
  have hword := (Blank.mem_splitOnP_spec (List.mem_of_mem_filter h)).1 c hc
  exact .inl (by simpa [isWordChar] using hword)

theorem isIdentifier_guardFirst {cs : List Char} (h : ∀ c ∈ cs, IsNameChar c) : IsIdentifier (guardFirst cs) := by
  cases cs with
  | nil => exact ⟨by decide,by simp [guardFirst,IsNameChar],by simp [guardFirst]⟩
  | cons c cs =>
    rw [guardFirst]
    split
    · refine ⟨by simp,?_,by simp⟩
      rw [String.toList_ofList]
      exact List.forall_mem_cons.mpr ⟨.inr rfl,h⟩
    · rename_i hdigit
      exact ⟨by simp,by rwa [String.toList_ofList],by simpa using hdigit⟩

theorem isIdentifier_pascalCase (name : String) : IsIdentifier (pascalCase name) := by
  refine isIdentifier_guardFirst fun c hc => ?_
  obtain ⟨word,hword,hc⟩ := List.mem_flatMap.mp hc
  have hchars := isNameChar_of_mem_words hword
  cases word with
  | nil => cases hc
  | cons first rest =>
    rcases List.mem_cons.mp hc with rfl | hc
    · exact isNameChar_toUpper (hchars first List.mem_cons_self)
    · obtain ⟨d,hd,rfl⟩ := List.mem_map.mp hc
      exact isNameChar_toLower (hchars d (List.mem_cons_of_mem _ hd))

theorem mem_intercalate_singleton {a c : Char} {pieces : List (List Char)} (h : c ∈ [a].intercalate pieces) :
    c = a ∨ ∃ piece ∈ pieces, c ∈ piece := by
  induction pieces with
  | nil => simp at h
  | cons first rest ih =>
    cases rest with
    | nil => exact .inr ⟨first,by simpa using h⟩
    | cons second rest =>
      rw [List.intercalate_cons_cons] at h
      rcases List.mem_append.mp h with h | h
      · rcases List.mem_append.mp h with h | h
        · exact .inr ⟨first,List.mem_cons_self,h⟩
        · exact .inl (List.mem_singleton.mp h)
      · exact (ih h).imp_right fun ⟨piece,hpiece,hc⟩ => ⟨piece,List.mem_cons_of_mem _ hpiece,hc⟩

theorem isIdentifier_snakeCase (name : String) : IsIdentifier (snakeCase name) := by
  refine isIdentifier_guardFirst fun c hc => ?_
  rcases mem_intercalate_singleton hc with rfl | ⟨piece,hpiece,hc⟩
  · exact .inr rfl
  · obtain ⟨word,hword,rfl⟩ := List.mem_map.mp hpiece
    obtain ⟨d,hd,rfl⟩ := List.mem_map.mp hc
    exact isNameChar_toLower (isNameChar_of_mem_words hword d hd)

theorem isIdentifier_upperCase {name : String} (h : IsIdentifier name) : IsIdentifier (upperCase name) := by
  refine ⟨?_,?_,?_⟩
  · simpa [upperCase] using h.nonempty
  · rw [upperCase,String.toList_ofList]
    intro c hc
    obtain ⟨d,hd,rfl⟩ := List.mem_map.mp hc
    exact isNameChar_toUpper (h.chars d hd)
  · rw [upperCase,String.toList_ofList,List.head?_map]
    intro c hc
    obtain ⟨d,hd,rfl⟩ := Option.map_eq_some_iff.mp hc
    rw [Letter.isDigit_toUpper]
    exact h.first d hd

end Words

namespace Output

theorem isIdentifier_numbered {name : String} (h : IsIdentifier name) (n : Nat) : IsIdentifier (numbered name n) := by
  rw [numbered]
  split
  · exact h
  have htext : (name ++ "_" ++ toString n).toList = name.toList ++ '_' :: Nat.toDigits 10 n := by
    simp [Nat.toList_repr]
  have hchars : ∀ c ∈ '_' :: Nat.toDigits 10 n, IsNameChar c := by
    refine List.forall_mem_cons.mpr ⟨.inr rfl,fun c hc => .inl ?_⟩
    exact Letter.isAlphanum_iff.mpr (.inr (.inr (Nat.isDigit_of_mem_toDigits (by decide) (by decide) hc)))
  refine ⟨fun hempty => by rw [hempty] at htext; simp at htext,?_,?_⟩
  · rw [htext]
    exact List.forall_mem_append.mpr ⟨h.chars,hchars⟩
  · have hne : name.toList ≠ [] := mt String.toList_eq_nil_iff.mp h.nonempty
    rw [htext,List.head?_append_of_ne_nil _ hne]
    exact h.first

theorem isIdentifier_freeName {name : String} (h : IsIdentifier name) (taken : List String) :
    IsIdentifier (freeName name taken) :=
  isIdentifier_numbered h _

/-- A format whose names are identifiers. -/
structure Format.Sound (format : Format) : Prop where
  className : ∀ name, IsIdentifier (format.className name)
  fieldName : ∀ name, IsIdentifier (format.fieldName name)

theorem Format.sound_json : Format.json.Sound := ⟨Words.isIdentifier_pascalCase,Words.isIdentifier_snakeCase⟩

theorem Format.Sound.memberName {format : Format} (h : format.Sound) (f : Field) : IsIdentifier (format.memberName f) := by
  rw [Format.memberName]
  split
  · exact Words.isIdentifier_upperCase (h.fieldName f.name)
  · exact h.fieldName f.name

end Output
end SchemaBinding
