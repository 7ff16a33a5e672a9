import Mathlib.Data.List.Induction
import SchemaBinding.Proofs.Output.Boundaries

/-! Characters in different words. Snake case puts an underscore between words and Pascal case begins each with a capital, and
both keep the letters and digits of the name in their order, so two neighbours of a name are found again by what stands
before and after them.
Main statement: a capital after a lower-case letter or digit begins a word, unless that is used up by a boundary before it. -/
namespace SchemaBinding
namespace Words

/-! ## Words of a text -/

/-- The words of a text in which blanks were set. -/
def wordsOf (cs : List Char) : List (List Char) := (cs.splitOnP (! isWordChar ·)).filter (! ·.isEmpty)

theorem words_eq (name : String) : words name = wordsOf (spaceOut name.toList.length name.toList) := rfl

theorem wordsOf_append_cons {c : Char} (h : isWordChar c = false) (cs ds : List Char) :
    wordsOf (cs ++ c :: ds) = wordsOf cs ++ wordsOf ds := by
  rw [wordsOf,List.splitOnP_append_cons cs ds (by simpa using h),List.filter_append]
  rfl

theorem wordsOf_of_word {word : List Char} (hne : word ≠ []) (h : ∀ c ∈ word, isWordChar c) : wordsOf word = [word] := by
  rw [wordsOf,List.splitOnP_eq_singleton (by simpa using h)]
  simpa using hne

theorem flatten_wordsOf (cs : List Char) : (wordsOf cs).flatten = cs.filter isWordChar := by
  induction cs with
  | nil => rfl
  | cons c cs ih =>
    rw [wordsOf] at ih ⊢
    rw [List.splitOnP_cons_eq_if_modifyHead]
    cases hc : isWordChar c with
    | false => simpa [hc] using ih
    | true =>
      cases hsplit : cs.splitOnP (! isWordChar ·) with
      | nil => exact absurd hsplit (List.splitOnP_ne_nil _ _)
      | cons first rest =>
        rw [hsplit] at ih
        cases first with
        | nil => simpa [hc] using ih
        | cons d first => simpa [hc] using ih

/-- A text comes to whole words, and the beginning of one that may go on. -/
theorem exists_wordsOf_append (cs : List Char) : ∃ left u, (∀ c ∈ u, isWordChar c) ∧
    left.flatten ++ u = cs.filter isWordChar ∧ ∀ more, wordsOf (cs ++ more) = left ++ wordsOf (u ++ more) := by
  induction cs using List.reverseRecOn with
  | nil => exact ⟨[],[],by simp,rfl,fun _ => rfl⟩
  | append_singleton cs c ih =>
    obtain ⟨left,u,hu,hchars,hwords⟩ := ih
    cases hc : isWordChar c with
    | false =>
      refine ⟨left ++ wordsOf u,[],by simp,?_,fun more => ?_⟩
      · rw [List.flatten_append,flatten_wordsOf,List.filter_eq_self.mpr hu,hchars]
        simp [hc]
      · rw [List.append_assoc,hwords,List.singleton_append,wordsOf_append_cons hc,List.append_assoc,List.nil_append]
    | true =>
      refine ⟨left,u ++ [c],?_,?_,fun more => ?_⟩
      · exact List.forall_mem_append.mpr ⟨hu,by simpa using hc⟩
      · rw [← List.append_assoc,hchars]
        simp [hc]
      · rw [List.append_assoc,hwords,List.append_assoc]

/-- A text goes on with the word before it, and then comes to whole words. -/
theorem exists_wordsOf_word (ds : List Char) : ∃ v right, v ++ right.flatten = ds.filter isWordChar ∧
    ∀ word, word ≠ [] → (∀ c ∈ word, isWordChar c) → wordsOf (word ++ ds) = (word ++ v) :: right := by
  induction ds with
  | nil => exact ⟨[],[],rfl,fun word hne hword => by rw [List.append_nil,wordsOf_of_word hne hword]⟩
  | cons d ds ih =>
    obtain ⟨v,right,hchars,hwords⟩ := ih
    cases hd : isWordChar d with
    | false =>
      refine ⟨[],wordsOf ds,?_,fun word hne hword => ?_⟩
      · rw [List.nil_append,flatten_wordsOf,List.filter_cons_of_neg (by simp [hd])]
      · rw [wordsOf_append_cons hd,wordsOf_of_word hne hword,List.append_nil]
        rfl
    | true =>
      refine ⟨d :: v,right,?_,fun word hne hword => ?_⟩
      · rw [List.cons_append,hchars,List.filter_cons_of_pos hd]
      · have hlonger : ∀ c ∈ word ++ [d], isWordChar c := List.forall_mem_append.mpr ⟨hword,by simpa using hd⟩
        simpa using hwords (word ++ [d]) (by simp) hlonger

/-! ## Identifiers of words -/

theorem intercalate_around (left : List (List Char)) (word : List Char) (right : List (List Char)) :
    ['_'].intercalate (left ++ word :: right) =
      left.flatMap (· ++ ['_']) ++ (word ++ right.flatMap ('_' :: ·)) := by
  have hright : ['_'].intercalate (word :: right) = word ++ right.flatMap ('_' :: ·) := by
    induction right generalizing word with
    | nil => simp
    | cons second right ih => simp [List.intercalate_cons_cons,ih]
  induction left with
  | nil => exact hright
  | cons first left ih =>
    have hcons : ['_'].intercalate (first :: (left ++ word :: right)) =
        first ++ ['_'] ++ ['_'].intercalate (left ++ word :: right) := by
      cases left <;> exact List.intercalate_cons_cons
    rw [List.cons_append,hcons,ih]
    simp

theorem filter_map_toLower (cs : List Char) :
    (cs.map Char.toLower).filter isWordChar = (cs.filter isWordChar).map Char.toLower := by
  rw [List.filter_map]
  congr 1
  exact List.filter_congr fun c _ => Letter.isAlphanum_toLower c

theorem length_capitalize (word : List Char) : (capitalize word).length = word.length := by
  cases word <;> simp [capitalize]

theorem length_flatMap_capitalize (ws : List (List Char)) : (ws.flatMap capitalize).length = ws.flatten.length := by
  simp [List.length_flatMap,length_capitalize,List.length_flatten]

/-- In the place of a character inside a word there is that character in lower case. -/
theorem capitalize_inside {u : List Char} (hu : u ≠ []) (b : Char) (v : List Char) :
    ∃ front, capitalize (u ++ b :: v) = front ++ b.toLower :: v.map Char.toLower ∧ front.length = u.length := by
  cases u with
  | nil => exact absurd rfl hu
  | cons c u => exact ⟨c.toUpper :: u.map Char.toLower,by simp [capitalize],by simp⟩

/-- The words up to the beginning of one, joined by underscores in lower case. -/
def snakeFront (left : List (List Char)) (u : List Char) : List Char :=
  (left.map (·.map Char.toLower)).flatMap (· ++ ['_']) ++ u.map Char.toLower

/-- The words from the end of one on, joined by underscores in lower case. -/
def snakeBack (v : List Char) (right : List (List Char)) : List Char :=
  v.map Char.toLower ++ (right.map (·.map Char.toLower)).flatMap ('_' :: ·)

theorem filter_snakeFront {left : List (List Char)} {u before : List Char} (h : left.flatten ++ u = before.filter isWordChar) :
    (snakeFront left u).filter isWordChar = (before.filter isWordChar).map Char.toLower := by
  have hunderscore : isWordChar '_' = false := by decide
  have hwords (ws : List (List Char)) : ((ws.map (·.map Char.toLower)).flatMap (· ++ ['_'])).filter isWordChar =
      (ws.flatten.map Char.toLower).filter isWordChar := by
    induction ws with
    | nil => rfl
    | cons word ws ih => simp [hunderscore,ih]
  rw [snakeFront,List.filter_append,hwords,← List.filter_append,← List.map_append,h,filter_map_toLower,List.filter_filter]
  simp

theorem filter_snakeBack {v after : List Char} {right : List (List Char)} (h : v ++ right.flatten = after.filter isWordChar) :
    (snakeBack v right).filter isWordChar = (after.filter isWordChar).map Char.toLower := by
  have hunderscore : isWordChar '_' = false := by decide
  have hwords (ws : List (List Char)) : ((ws.map (·.map Char.toLower)).flatMap ('_' :: ·)).filter isWordChar =
      (ws.flatten.map Char.toLower).filter isWordChar := by
    induction ws with
    | nil => rfl
    | cons word ws ih => simp [hunderscore,ih]
  rw [snakeBack,List.filter_append,hwords,← List.filter_append,← List.map_append,h,filter_map_toLower,List.filter_filter]
  simp

/-! ## Two characters of a name -/

/-- Two characters of a name, between what comes before and after them, are in different words: in snake case an underscore
stands between them, and the second begins a word in Pascal case. -/
structure Separated (name : String) (before : List Char) (a b : Char) (after : List Char) : Prop where
  twoWords : ∃ left u v right, words name = left ++ (u ++ [a]) :: (b :: v) :: right ∧
    left.flatten ++ u = before.filter isWordChar ∧ v ++ right.flatten = after.filter isWordChar
  snake : ∃ left right, snakeCase name = guardFirst (left ++ a.toLower :: '_' :: b.toLower :: right) ∧
    left.filter isWordChar = (before.filter isWordChar).map Char.toLower ∧
    right.filter isWordChar = (after.filter isWordChar).map Char.toLower
  pascal : ∃ left right, pascalCase name = guardFirst (left ++ b :: right) ∧
    left.length = (before.filter isWordChar).length + 1 ∧ right.length = (after.filter isWordChar).length

/-- Two characters of a name are in one word: nothing stands between them in snake case, and the second is in lower case in
Pascal case. -/
structure Joined (name : String) (before : List Char) (a b : Char) (after : List Char) : Prop where
  oneWord : ∃ left u v right, words name = left ++ (u ++ a :: b :: v) :: right ∧
    left.flatten ++ u = before.filter isWordChar ∧ v ++ right.flatten = after.filter isWordChar
  snake : ∃ left right, snakeCase name = guardFirst (left ++ a.toLower :: b.toLower :: right) ∧
    left.filter isWordChar = (before.filter isWordChar).map Char.toLower ∧
    right.filter isWordChar = (after.filter isWordChar).map Char.toLower
  pascal : ∃ left right, pascalCase name = guardFirst (left ++ b.toLower :: right) ∧
    left.length = (before.filter isWordChar).length + 1 ∧ right.length = (after.filter isWordChar).length

section
variable {name : String} {before after : List Char} {a b : Char}

theorem Separated.of_words (left : List (List Char)) (u v : List Char) (right : List (List Char)) (hb : b.isUpper)
    (hwords : words name = left ++ (u ++ [a]) :: (b :: v) :: right) (hleft : left.flatten ++ u = before.filter isWordChar)
    (hright : v ++ right.flatten = after.filter isWordChar) : Separated name before a b after where
  twoWords := ⟨left,u,v,right,hwords,hleft,hright⟩
  snake := by
    refine ⟨snakeFront left u,snakeBack v right,?_,filter_snakeFront hleft,filter_snakeBack hright⟩
    rw [snakeCase,hwords,List.map_append,List.map_cons,intercalate_around]
    simp [snakeFront,snakeBack]
  pascal := by
    refine ⟨left.flatMap capitalize ++ capitalize (u ++ [a]),v.map Char.toLower ++ right.flatMap capitalize,?_,?_,?_⟩
    · rw [pascalCase,hwords]
      simp [capitalize,Letter.toUpper_of_isUpper hb]
    · rw [List.length_append,length_flatMap_capitalize,length_capitalize,← hleft]
      simp [Nat.add_assoc]
    · rw [List.length_append,length_flatMap_capitalize,← hright]
      simp

theorem Joined.of_words (left : List (List Char)) (u v : List Char) (right : List (List Char))
    (hwords : words name = left ++ (u ++ a :: b :: v) :: right) (hleft : left.flatten ++ u = before.filter isWordChar)
    (hright : v ++ right.flatten = after.filter isWordChar) : Joined name before a b after where
  oneWord := ⟨left,u,v,right,hwords,hleft,hright⟩
  snake := by
    refine ⟨snakeFront left u,snakeBack v right,?_,filter_snakeFront hleft,filter_snakeBack hright⟩
    rw [snakeCase,hwords,List.map_append,List.map_cons,intercalate_around]
    simp [snakeFront,snakeBack]
  pascal := by
    obtain ⟨front,hinside,hlength⟩ := capitalize_inside (List.concat_ne_nil a u) b v
    refine ⟨left.flatMap capitalize ++ front,v.map Char.toLower ++ right.flatMap capitalize,?_,?_,?_⟩
    · have hword : u ++ a :: b :: v = u ++ [a] ++ b :: v := by simp
      rw [pascalCase,hwords,hword,List.flatMap_append,List.flatMap_cons,hinside]
      simp
    · rw [List.length_append,length_flatMap_capitalize,hlength,← hleft]
      simp [Nat.add_assoc]
    · rw [List.length_append,length_flatMap_capitalize,← hright]
      simp

/-- As many characters stand before the two in either case, so the first cannot end a word and not end it. -/
theorem Joined.not_separated (h : Joined name before a b after) : ¬ Separated name before a b after := by
  intro hseparated
  obtain ⟨left,u,v,right,hwords,hleft,_⟩ := h.oneWord
  obtain ⟨left',u',v',right',hwords',hleft',_⟩ := hseparated.twoWords
  have hlength := congrArg List.length hleft
  have hlength' := congrArg List.length hleft'
  rw [hwords] at hwords'
  rw [List.length_append] at hlength hlength'
  rcases List.append_eq_append_iff.mp hwords' with ⟨more,rfl,hrest⟩ | ⟨more,rfl,hrest⟩
  · cases more with
    | nil =>
      have hword := congrArg List.length (List.cons.inj hrest).1
      simp only [List.append_nil] at hlength'
      simp only [List.length_append,List.length_cons,List.length_nil] at hword
      omega
    | cons word more =>
      obtain ⟨rfl,_⟩ := List.cons.inj hrest
      simp only [List.flatten_append,List.flatten_cons,List.length_append,List.length_cons] at hlength'
      omega
  · cases more with
    | nil =>
      have hword := congrArg List.length (List.cons.inj hrest).1
      simp only [List.append_nil] at hlength
      simp only [List.length_append,List.length_cons,List.length_nil] at hword
      omega
    | cons word more =>
      obtain ⟨rfl,_⟩ := List.cons.inj hrest
      simp only [List.flatten_append,List.flatten_cons,List.length_append,List.length_cons] at hlength
      omega

/-- Of a lower-case letter or digit and the capital after it, the second begins a word unless the first is used up; then both
are in one word. -/
theorem separated_iff (hname : name.toList = before ++ a :: b :: after) (ha : a.isLower ∨ a.isDigit) (hb : b.isUpper) :
    (Separated name before a b after ↔ ¬ isUsedUp (a :: before.reverse)) ∧
      (isUsedUp (a :: before.reverse) → Joined name before a b after) := by
  have hends : endsWord a := by simpa [endsWord] using ha
  have haword : isWordChar a := by
    exact Letter.isAlphanum_iff.mpr (.inr ha)
  have hbword : isWordChar b := Letter.isAlphanum_iff.mpr (.inl hb)
  obtain ⟨cs,ds,hspaced,hcs,hds⟩ := spacedAround_spaceOut hends hb (Nat.le_refl _) (ready_nil (before ++ a :: b :: after))
  rw [List.append_nil,← hname] at hspaced
  obtain ⟨left,u,hu,hleft,hwordsLeft⟩ := exists_wordsOf_append cs
  obtain ⟨v,right,hright,hwordsRight⟩ := exists_wordsOf_word ds
  have hua : ∀ c ∈ u ++ [a], isWordChar c := List.forall_mem_append.mpr ⟨hu,by simpa using haword⟩
  have hb' : ∀ c ∈ [b], isWordChar c := by simpa using hbword
  have hjoined : isUsedUp (a :: before.reverse) → Joined name before a b after := by
    intro hused
    rw [if_pos hused] at hspaced
    refine .of_words left u v right ?_ (hleft.trans hcs) (hright.trans hds)
    have hboth := hwordsRight (u ++ [a] ++ [b]) (by simp) (List.forall_mem_append.mpr ⟨hua,hb'⟩)
    rw [words_eq,hspaced,hwordsLeft]
    simpa using hboth
  refine ⟨⟨fun hseparated hused => (hjoined hused).not_separated hseparated,fun hfree => ?_⟩,hjoined⟩
  rw [if_neg hfree] at hspaced
  refine .of_words left u v right hb ?_ (hleft.trans hcs) (hright.trans hds)
  have hfirst : wordsOf (u ++ [a]) = [u ++ [a]] := wordsOf_of_word (by simp) hua
  have hsecond : wordsOf (b :: ds) = (b :: v) :: right := hwordsRight [b] (by simp) hb'
  have hboth : u ++ a :: ([' '] ++ b :: ds) = u ++ [a] ++ ' ' :: (b :: ds) := by simp
  rw [words_eq,hspaced,hwordsLeft,hboth,wordsOf_append_cons (by decide),hfirst,hsecond]
  rfl

theorem separated_iff_xyza :
    ("XYzA".toList = ['X','Y'] ++ 'z' :: 'A' :: [] ∧ ('z'.isLower ∨ 'z'.isDigit) ∧ 'A'.isUpper) ∧
      (Separated "XYzA" ['X','Y'] 'z' 'A' [] ↔ ¬ isUsedUp ['z','Y','X']) ∧
      (isUsedUp ['z','Y','X'] → Joined "XYzA" ['X','Y'] 'z' 'A' []) :=
  ⟨by decide,separated_iff (by decide) (by decide) (by decide)⟩

/-- The boundary before the second letter of a name uses up the third, so that the capital after it begins no word. -/
theorem not_separated_xyza : ¬ Separated "XYzA" ['X','Y'] 'z' 'A' [] ∧ snakeCase "XYzA" = "x_yza" ∧
    pascalCase "XYzA" = "XYza" := by
  have hjoined : Joined "XYzA" ['X','Y'] 'z' 'A' [] :=
    .of_words [['X']] ['Y'] [] [] (by decide) (by decide) (by decide)
  exact ⟨hjoined.not_separated,by decide,by decide⟩

end

end Words
end SchemaBinding
