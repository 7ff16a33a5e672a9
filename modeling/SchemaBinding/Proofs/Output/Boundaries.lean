import Mathlib.Data.List.TakeWhile
import SchemaBinding.Proofs.Output.Identifiers

/-! Boundaries between the words of a name. One pass over a name sets a blank before a capital after a lower-case letter or
digit, and before the last of some capitals that a lower-case letter follows. The characters of a boundary are used up, so no
other boundary begins with them: after the lower-case letter at its end no blank is set, even if a capital comes next. Which
characters are used up is told by what stands before them.
Main statement: a blank is set before a capital after a lower-case letter or digit, unless that is used up. -/
namespace SchemaBinding
namespace Words

/-! ## Letters -/

/-- After a character of this kind a capital begins a word. -/
def endsWord (c : Char) : Bool := c.isLower || c.isDigit

theorem endsWord_eq_false_of_isUpper {c : Char} (h : c.isUpper) : endsWord c = false := by
  have hrange := Letter.isUpper_iff.mp h
  rw [endsWord,Bool.or_eq_false_iff,Bool.eq_false_iff,Bool.eq_false_iff,ne_eq,ne_eq,Letter.isLower_iff,
    Char.isDigit_iff_toNat]
  exact ⟨by omega,fun hdigit => absurd (hrange.1.trans hdigit.2) (by decide)⟩

theorem isUpper_eq_false_of_endsWord {c : Char} (h : endsWord c) : c.isUpper = false := by
  by_contra hupper
  rw [endsWord_eq_false_of_isUpper (by simpa using hupper)] at h
  cases h

/-! ## Boundaries -/

theorem boundary?_eq_none {c : Char} {cs : List Char} (h : boundary? (c :: cs) = none) :
    (endsWord c → ∀ d ∈ cs.head?, d.isUpper = false) ∧
      ∀ run a tail, c :: cs = run ++ a :: tail → (∀ x ∈ run, x.isUpper) → a.isLower → run.length ≤ 1 := by
  rcases cs with _ | ⟨d,cs⟩
  · refine ⟨by simp,fun run a tail hcs _ _ => ?_⟩
    have hlength := congrArg List.length hcs
    simp at hlength
    omega
  rw [boundary?] at h
  split at h
  · cases h
  rename_i hfirst
  refine ⟨fun hc => ?_,fun run a tail hcs hrun ha => ?_⟩
  · rintro d' ⟨⟩
    have hboth : (c.isLower || c.isDigit) = true := hc
    simpa [hboth] using hfirst
  · by_contra hlong
    have hstop : a.isUpper = false := isUpper_eq_false_of_endsWord (by simp [endsWord,ha])
    have htake : (c :: d :: cs).takeWhile Char.isUpper = run := by
      rw [hcs,List.takeWhile_append_of_pos hrun,List.takeWhile_cons_of_neg (by simp [hstop]),List.append_nil]
    have hdrop : (c :: d :: cs).dropWhile Char.isUpper = a :: tail := by
      rw [hcs,List.dropWhile_append_of_pos hrun,List.dropWhile_cons_of_neg (by simp [hstop])]
    obtain ⟨last,second,before,hreverse⟩ : ∃ last second before, run.reverse = last :: second :: before := by
      rcases hreverse : run.reverse with _ | ⟨last,_ | ⟨second,before⟩⟩
      · simp_all
      · have hlength := congrArg List.length hreverse
        simp at hlength
        omega
      · exact ⟨last,second,before,rfl⟩
    simp [htake,hdrop,hreverse,ha] at h

theorem boundary?_eq_some {c : Char} {cs found rest : List Char} (h : boundary? (c :: cs) = some (found,rest)) :
    (endsWord c ∧ ∃ d, d.isUpper ∧ cs = d :: rest ∧ found = [c,' ',d]) ∨
      ∃ run last next, run ≠ [] ∧ (∀ x ∈ run ++ [last], x.isUpper) ∧ next.isLower ∧
        c :: cs = run ++ [last] ++ next :: rest ∧ found = run ++ [' ',last,next] := by
  rcases cs with _ | ⟨d,cs⟩
  · cases h
  rw [boundary?] at h
  split at h
  · rename_i hfirst
    simp only [Bool.and_eq_true] at hfirst
    cases h
    exact .inl ⟨hfirst.1,d,hfirst.2,rfl,rfl⟩
  dsimp only at h
  split at h
  · rename_i last second before next after hreverse hdrop
    split at h
    · rename_i hnext
      cases h
      have hrun : (c :: d :: cs).takeWhile Char.isUpper = (second :: before).reverse ++ [last] := by
        rw [← List.reverse_reverse ((c :: d :: cs).takeWhile Char.isUpper),hreverse,List.reverse_cons]
      refine .inr ⟨(second :: before).reverse,last,next,by simp,?_,hnext,?_,rfl⟩
      · rw [← hrun]
        exact fun x hx => List.mem_takeWhile_imp hx
      · rw [← hrun,← hdrop,List.takeWhile_append_dropWhile]
    · cases h
  · cases h

/-! ## Characters that are used up -/

/-- Whether the last character of a text, which is given from its end, is the end of a boundary: a lower-case letter after
capitals, if there are three of them, or two of which the first is no end of a boundary. -/
def isUsedUp : List Char → Bool
  | a :: c :: b :: front =>
    a.isLower && c.isUpper && b.isUpper && ((front.head?.all fun d => !endsWord d) || isUsedUp front)
  | _ => false

theorem isUsedUp_two {a c b : Char} (ha : a.isLower) (hc : c.isUpper) (hb : b.isUpper) (front : List Char) :
    isUsedUp (a :: c :: b :: front) = ((front.head?.all fun d => !endsWord d) || isUsedUp front) := by
  rw [isUsedUp,ha,hc,hb]
  rfl

theorem isLower_of_isUsedUp {a : Char} {front : List Char} (h : isUsedUp (a :: front)) : a.isLower := by
  rcases front with _ | ⟨c,_ | ⟨b,front⟩⟩
  · cases h
  · cases h
  · simp only [isUsedUp,Bool.and_eq_true] at h
    exact h.1.1.1

/-- Two capitals stand before a character that is used up. -/
theorem exists_of_isUsedUp {a : Char} {front : List Char} (h : isUsedUp (a :: front)) :
    ∃ c b rest, front = c :: b :: rest ∧ c.isUpper ∧ b.isUpper := by
  rcases front with _ | ⟨c,_ | ⟨b,front⟩⟩
  · cases h
  · cases h
  · simp only [isUsedUp,Bool.and_eq_true] at h
    exact ⟨c,b,front,rfl,h.1.1.2,h.1.2⟩

theorem isUsedUp_of_three {a : Char} {run : List Char} (ha : a.isLower) (hrun : ∀ c ∈ run, c.isUpper)
    (hlong : 3 ≤ run.length) (done : List Char) : isUsedUp (a :: (run.reverse ++ done)) := by
  have hreverse : ∀ c ∈ run.reverse, c.isUpper := fun c hc => hrun c (List.mem_reverse.mp hc)
  rw [← List.length_reverse] at hlong
  rcases hcs : run.reverse with _ | ⟨d,_ | ⟨c,_ | ⟨b,front⟩⟩⟩
  · simp [hcs] at hlong
  · simp [hcs] at hlong
  · simp [hcs] at hlong
  · rw [hcs] at hreverse
    have hb := endsWord_eq_false_of_isUpper (hreverse b (by simp))
    rw [List.cons_append,List.cons_append,isUsedUp_two ha (hreverse d (by simp)) (hreverse c (by simp))]
    simp [hb]

/-- What was read leaves the rest to be read by itself: of the capitals that come next, if a lower-case letter follows them,
that letter is used up if there are two at least. -/
def Ready (done rest : List Char) : Prop :=
  ∀ run a tail, rest = run ++ a :: tail → (∀ c ∈ run, c.isUpper) → a.isLower →
    (isUsedUp (a :: (run.reverse ++ done)) ↔ 2 ≤ run.length)

theorem ready_of_fresh {done : List Char} (hhead : ∀ c ∈ done.head?, c.isUpper = false)
    (hused : ∀ c ∈ done.head?, endsWord c → isUsedUp done) (rest : List Char) : Ready done rest := by
  intro run a tail _ hrun ha
  have hnone (front : List Char) (h : isUsedUp (a :: front)) (hfront : front.length ≤ 1 ∨ done.head? = front[0]? ∨
      done.head? = front[1]?) : False := by
    obtain ⟨c,b,rest,rfl,hc,hb⟩ := exists_of_isUsedUp h
    rcases hfront with hlength | hfirst | hsecond
    · simp at hlength
    · simpa [hc] using hhead c (by simp [hfirst])
    · simpa [hb] using hhead b (by simp [hsecond])
  -- no capital or one are too few, three are enough, and of two the first has to come after no end of a word or a used up one
  rcases run with _ | ⟨b,_ | ⟨c,run⟩⟩
  · refine iff_of_false (fun h => hnone _ h (.inr (.inl ?_))) (by simp)
    simp [List.head?_eq_getElem?]
  · refine iff_of_false (fun h => hnone _ h (.inr (.inr ?_))) (by simp)
    simp [List.head?_eq_getElem?]
  · refine iff_of_true ?_ (by simp)
    rcases run with _ | ⟨d,run⟩
    · change isUsedUp (a :: c :: b :: done)
      rw [isUsedUp_two ha (hrun c (by simp)) (hrun b (by simp))]
      cases hdone : done.head? with
      | none => simp
      | some e =>
        cases he : endsWord e with
        | false => simp [he]
        | true => simp [hused e hdone he]
    · exact isUsedUp_of_three ha hrun (by simp) done

theorem ready_nil (rest : List Char) : Ready [] rest := ready_of_fresh (by simp) (by simp) rest

/-- Where no boundary begins, one character is read. -/
theorem Ready.of_none {done rest : List Char} {c : Char} (h : Ready done (c :: rest)) (hnone : boundary? (c :: rest) = none) :
    Ready (c :: done) rest := by
  obtain ⟨hnext,hshort⟩ := boundary?_eq_none hnone
  cases hupper : c.isUpper with
  | false =>
    cases hends : endsWord c with
    | false => exact ready_of_fresh (by simpa using hupper) (by simp [hends]) rest
    | true =>
      intro run a tail hrest hrun _
      obtain rfl : run = [] := by
        rcases run with _ | ⟨d,run⟩
        · rfl
        · have hd := hnext hends d (by simp [hrest])
          rw [hrun d (by simp)] at hd
          cases hd
      refine iff_of_false (fun hused => ?_) (by simp)
      obtain ⟨d,_,_,hfront,hd,_⟩ := exists_of_isUsedUp hused
      cases hfront
      rw [hupper] at hd
      cases hd
  | true =>
    intro run a tail hrest hrun ha
    have hlonger : ∀ x ∈ c :: run, x.isUpper := List.forall_mem_cons.mpr ⟨hupper,hrun⟩
    have hwhole : c :: rest = (c :: run) ++ a :: tail := by rw [hrest,List.cons_append]
    have hready := h (c :: run) a tail hwhole hlonger ha
    have hone := hshort (c :: run) a tail hwhole hlonger ha
    rw [List.reverse_cons,List.append_assoc] at hready
    rw [List.length_cons] at hready hone
    exact hready.trans ⟨fun h => by omega,fun h => by omega⟩

/-- What comes next is not used up. -/
theorem Ready.not_isUsedUp {done rest : List Char} {c : Char} (h : Ready done (c :: rest)) : ¬ isUsedUp (c :: done) := by
  intro hused
  have hnone := (h [] c rest rfl (by simp) (isLower_of_isUsedUp hused)).mp hused
  simp at hnone

/-- A boundary before a capital uses up the capital. -/
theorem Ready.of_capital {done rest : List Char} {c d : Char} (h : Ready done (c :: d :: rest)) (hc : endsWord c)
    (hd : d.isUpper) : Ready (d :: c :: done) rest := by
  have hfree : isUsedUp (c :: done) = false := by simpa using h.not_isUsedUp
  have hupper := isUpper_eq_false_of_endsWord hc
  intro run a tail _ hrun ha
  rcases run with _ | ⟨b,run⟩
  · refine iff_of_false (fun hused => ?_) (by simp)
    obtain ⟨_,b,_,hfront,_,hb⟩ := exists_of_isUsedUp hused
    cases hfront
    rw [hupper] at hb
    cases hb
  · have hb := hrun b (by simp)
    rcases run with _ | ⟨e,run⟩
    · change isUsedUp (a :: b :: d :: c :: done) ↔ _
      rw [isUsedUp_two ha hb hd]
      simp [hc,hfree]
    · refine iff_of_true ?_ (by simp)
      have hlonger : ∀ x ∈ d :: b :: e :: run, x.isUpper := List.forall_mem_cons.mpr ⟨hd,hrun⟩
      simpa using isUsedUp_of_three ha hlonger (by simp) (c :: done)

/-- A boundary inside capitals uses up the letter after them. -/
theorem Ready.of_run {done run rest : List Char} {a : Char} (h : Ready done (run ++ a :: rest))
    (hrun : ∀ c ∈ run, c.isUpper) (ha : a.isLower) (hlong : 2 ≤ run.length) : Ready (a :: (run.reverse ++ done)) rest := by
  have hused := (h run a rest rfl hrun ha).mpr hlong
  have hupper : a.isUpper = false := isUpper_eq_false_of_endsWord (by simp [endsWord,ha])
  exact ready_of_fresh (by simpa using hupper) (fun _ _ _ => hused) rest

/-! ## Blanks between characters -/

theorem spaceOut_nil (steps : ℕ) : spaceOut steps [] = [] := by
  cases steps <;> simp [spaceOut]

theorem filter_spaceOut (steps : ℕ) (cs : List Char) : (spaceOut steps cs).filter isWordChar = cs.filter isWordChar := by
  induction steps generalizing cs with
  | zero => rw [spaceOut]
  | succ steps ih =>
    cases cs with
    | nil => rw [spaceOut_nil]
    | cons c cs =>
      rw [spaceOut]
      cases hboundary : boundary? (c :: cs) with
      | none => simp only [List.filter_cons,ih]
      | some found =>
        obtain ⟨found,rest⟩ := found
        have hblank : isWordChar ' ' = false := by decide
        rcases boundary?_eq_some hboundary with ⟨_,d,_,rfl,rfl⟩ | ⟨run,last,next,_,_,_,hcs,rfl⟩
        · simp [List.filter_cons,hblank,ih]
        · rw [hcs]
          simp [List.filter_append,List.filter_cons,hblank,ih]

theorem head?_spaceOut (steps : ℕ) (cs : List Char) : (spaceOut steps cs).head? = cs.head? := by
  cases steps with
  | zero => rw [spaceOut]
  | succ steps =>
    cases cs with
    | nil => rw [spaceOut_nil]
    | cons c cs =>
      rw [spaceOut]
      cases hboundary : boundary? (c :: cs) with
      | none => rfl
      | some found =>
        obtain ⟨found,rest⟩ := found
        rcases boundary?_eq_some hboundary with ⟨_,d,_,rfl,rfl⟩ | ⟨run,last,next,hrun,_,_,hcs,rfl⟩
        · rfl
        · rw [hcs]
          cases run with
          | nil => exact absurd rfl hrun
          | cons => rfl

variable {a b : Char} {after : List Char}

/-- Where capitals and what follows them stand in a text: before a character that is no capital, or up to it. -/
theorem capitals_before (ha : endsWord a) {before rest : List Char} (run : List Char) {next : Char}
    (h : before ++ a :: b :: after = run ++ next :: rest) (hrun : ∀ c ∈ run, c.isUpper) :
    (∃ front, before = run ++ next :: front ∧ rest = front ++ a :: b :: after) ∨
      (before = run ∧ next = a ∧ rest = b :: after) := by
  rcases List.append_eq_append_iff.mp h with ⟨more,hmore,hrest⟩ | ⟨front,hbefore,hrest⟩
  · cases more with
    | nil =>
      rw [List.append_nil] at hmore
      cases hrest
      exact .inr ⟨hmore.symm,rfl,rfl⟩
    | cons c more =>
      obtain ⟨rfl,_⟩ := List.cons.inj hrest
      have hupper := hrun a (by simp [hmore])
      rw [isUpper_eq_false_of_endsWord ha] at hupper
      cases hupper
  · cases front with
    | nil =>
      rw [List.append_nil] at hbefore
      cases hrest
      exact .inr ⟨hbefore,rfl,rfl⟩
    | cons c front =>
      cases hrest
      exact .inl ⟨front,hbefore,rfl⟩

/-- What stands around two characters of a text when blanks were set in it, with one between them or none. -/
def SpacedAround (a b : Char) (between spaced before after : List Char) : Prop :=
  ∃ left right, spaced = left ++ a :: (between ++ b :: right) ∧ left.filter isWordChar = before.filter isWordChar ∧
    right.filter isWordChar = after.filter isWordChar

theorem SpacedAround.append {between spaced before : List Char} (h : SpacedAround a b between spaced before after)
    (more front : List Char) (hmore : more.filter isWordChar = front.filter isWordChar) :
    SpacedAround a b between (more ++ spaced) (front ++ before) after := by
  obtain ⟨left,right,rfl,hleft,hright⟩ := h
  refine ⟨more ++ left,right,by simp,?_,hright⟩
  rw [List.filter_append,List.filter_append,hmore,hleft]

theorem filter_blank (cs : List Char) : (' ' :: cs).filter isWordChar = cs.filter isWordChar :=
  List.filter_cons_of_neg (by decide)

/-- A blank is set before a capital after a lower-case letter or digit, unless that is used up. -/
theorem spacedAround_spaceOut (ha : endsWord a) (hb : b.isUpper) {steps : ℕ} {before done : List Char}
    (hsteps : (before ++ a :: b :: after).length ≤ steps) (hready : Ready done (before ++ a :: b :: after)) :
    SpacedAround a b (if isUsedUp (a :: (before.reverse ++ done)) then [] else [' '])
      (spaceOut steps (before ++ a :: b :: after)) before after := by
  -- on the steps: each reads a character or a boundary from the front, and leaves the rest ready to be read by itself; a
  -- boundary cannot end at the capital, so it ends before the first of the two or at it
  induction steps generalizing before done with
  | zero => simp at hsteps
  | succ steps ih =>
    cases before with
    | nil =>
      have hfirst : ((a.isLower || a.isDigit) && b.isUpper) = true := by
        rw [hb,Bool.and_true]
        exact ha
      refine ⟨[],spaceOut steps after,?_,rfl,filter_spaceOut steps after⟩
      have hfree : ¬ isUsedUp (a :: ([].reverse ++ done)) := hready.not_isUsedUp
      rw [List.nil_append,spaceOut,boundary?,if_pos hfirst,if_neg hfree]
      rfl
    | cons c before =>
      rw [List.cons_append] at hready hsteps ⊢
      rw [spaceOut]
      cases hboundary : boundary? (c :: (before ++ a :: b :: after)) with
      | none =>
        have hrest := ih (by simpa using hsteps) (hready.of_none hboundary)
        simpa using hrest.append [c] [c] rfl
      | some found =>
        obtain ⟨found,rest⟩ := found
        rcases boundary?_eq_some hboundary with ⟨hc,d,hd,hrest,rfl⟩ | ⟨run,last,next,hne,hrun,hnext,hcs,rfl⟩
        · rcases capitals_before ha [] hrest (by simp) with ⟨front,rfl,rfl⟩ | ⟨_,rfl,_⟩
          · have hshort : (front ++ a :: b :: after).length ≤ steps := by
              simp only [List.nil_append,List.cons_append,List.length_cons] at hsteps
              omega
            have hafter := ih hshort (Ready.of_capital (hrest ▸ hready) hc hd)
            simpa using hafter.append ([c] ++ [' ',d]) ([c] ++ [d]) (by simp only [List.filter_append,filter_blank])
          · rw [endsWord_eq_false_of_isUpper hd] at ha
            cases ha
        · have hlong : 2 ≤ (run ++ [last]).length := by
            have hpositive := List.length_pos_iff.mpr hne
            rw [List.length_append,List.length_singleton]
            omega
          rw [← List.cons_append] at hcs hready hsteps
          have hread := hready
          rw [hcs] at hread
          rcases capitals_before ha _ hcs hrun with ⟨front,hfront,rfl⟩ | ⟨hall,rfl,rfl⟩
          · have hshort : (front ++ a :: b :: after).length ≤ steps := by
              rw [hfront] at hsteps
              simp only [List.append_assoc,List.length_append,List.length_cons] at hsteps ⊢
              omega
            have hafter := ih hshort (hread.of_run hrun hnext hlong)
            rw [hfront]
            simpa using hafter.append (run ++ [' ',last,next]) (run ++ [last,next])
              (by simp only [List.filter_append,filter_blank])
          · have hused := (hread _ _ _ rfl hrun hnext).mpr hlong
            obtain ⟨right,hright⟩ : ∃ right, spaceOut steps (b :: after) = b :: right :=
              List.head?_eq_some_iff.mp (head?_spaceOut steps (b :: after))
            have hfilter := filter_spaceOut steps (b :: after)
            have hword : isWordChar b := Letter.isAlphanum_iff.mpr (.inl hb)
            rw [hright,List.filter_cons_of_pos hword,List.filter_cons_of_pos hword] at hfilter
            rw [hall,if_pos hused]
            refine ⟨run ++ [' ',last],right,?_,?_,by simpa using hfilter⟩
            · simp [hright]
            · simp only [List.filter_append,filter_blank]

end Words
end SchemaBinding
