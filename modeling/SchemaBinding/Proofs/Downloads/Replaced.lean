import SchemaBinding.Download
import SchemaBinding.Proofs.Reading.Respelled

/-! Replacing how an attribute is spelled in a text. Where nothing but attributes is found, each of them gets the other
value, and nothing else changes.
Main statement: after that no attribute is spelled with the old value, and one that is spelled with any third value was
so before. -/
namespace SchemaBinding
namespace Download

open Xml (Spelling)
open Xml.Token (Scan TextRespelled)

/-! ## Places of a pattern -/

section Places
variable {pattern replacement : List Char}

theorem replaceInto_done (done : List Char) (skip : Nat) (cs : List Char) :
    replaceInto pattern replacement done skip cs = done.reverse ++ replaceInto pattern replacement [] skip cs := by
  induction cs generalizing done skip with
  | nil => simp [replaceInto]
  | cons c cs ih =>
    cases skip with
    | succ skip => rw [replaceInto,replaceInto,ih]
    | zero =>
      rw [replaceInto,replaceInto]
      split
      · rw [ih,ih (replacement.reverseAux [])]
        simp
      · rw [ih,ih [c]]
        simp

theorem replaceInto_skip (skip : Nat) (cs : List Char) :
    replaceInto pattern replacement [] skip cs = replaceAll pattern replacement (cs.drop skip) := by
  induction skip generalizing cs with
  | zero => rfl
  | succ skip ih =>
    cases cs with
    | nil => rfl
    | cons c cs => rw [replaceInto,List.drop_succ_cons,ih]

@[simp] theorem replaceAll_nil : replaceAll pattern replacement [] = [] := rfl

theorem replaceAll_append (hne : pattern ≠ []) (after : List Char) :
    replaceAll pattern replacement (pattern ++ after) = replacement ++ replaceAll pattern replacement after := by
  obtain ⟨c,cs,rfl⟩ := List.exists_cons_of_ne_nil hne
  have hfound : (c :: cs).isPrefixOf (c :: (cs ++ after)) := List.isPrefixOf_iff_prefix.mpr ⟨after,rfl⟩
  have hrest : (cs ++ after).drop ((c :: cs).length - 1) = after := by simp
  rw [List.cons_append,replaceAll,replaceInto,if_pos hfound,replaceInto_done,replaceInto_skip,hrest]
  simp

theorem replaceAll_cons {c : Char} {cs : List Char} (h : ¬ pattern <+: c :: cs) :
    replaceAll pattern replacement (c :: cs) = c :: replaceAll pattern replacement cs := by
  have hkeep : ¬ pattern.isPrefixOf (c :: cs) := by rwa [List.isPrefixOf_iff_prefix]
  rw [replaceAll,replaceInto,if_neg hkeep,replaceInto_done]
  rfl

theorem replaceAll_of_not_occursIn {cs : List Char} (h : ¬ occursIn pattern cs) :
    replaceAll pattern replacement cs = cs := by
  induction cs with
  | nil => rfl
  | cons c cs ih =>
    simp only [occursIn,Bool.or_eq_true,not_or,List.isPrefixOf_iff_prefix] at h
    rw [replaceAll_cons h.1,ih h.2]

theorem occursIn_iff {cs : List Char} : occursIn pattern cs ↔ pattern <:+: cs := by
  induction cs with
  | nil => simp [occursIn]
  | cons c cs ih => rw [occursIn,Bool.or_eq_true,List.isPrefixOf_iff_prefix,ih,List.infix_cons_iff]

/-- A text goes on with a place of the pattern or with a character before the next one. -/
@[elab_as_elim]
theorem place_induction {motive : List Char → Prop} (hne : pattern ≠ []) (nil : motive [])
    (place : ∀ after, motive after → motive (pattern ++ after))
    (cons : ∀ c cs, ¬ pattern <+: c :: cs → motive cs → motive (c :: cs)) (text : List Char) : motive text := by
  induction hn : text.length using Nat.strongRecOn generalizing text with
  | _ n ih =>
    cases text with
    | nil => exact nil
    | cons c cs =>
      by_cases h : pattern <+: c :: cs
      · obtain ⟨after,hafter⟩ := h
        have hpositive := List.length_pos_iff.mpr hne
        have hlength := congrArg List.length hafter
        rw [List.length_append] at hlength
        rw [← hafter]
        exact place after (ih after.length (by omega) after rfl)
      · exact cons c cs h (ih cs.length (by simp [← hn]) cs rfl)

theorem replaceAll_of_forall_ne (hne : pattern ≠ []) {cs : List Char} (h : ∀ front back, cs ≠ front ++ (pattern ++ back)) :
    replaceAll pattern replacement cs = cs := by
  induction cs using place_induction hne with
  | nil => rfl
  | place after _ => exact absurd rfl (h [] after)
  | cons c cs hkeep ih =>
    rw [replaceAll_cons hkeep,ih fun front back hcs => h (c :: front) back (by rw [hcs,List.cons_append])]

/-- Two texts are replaced each by itself if no place of the pattern runs from one into the other. -/
theorem replaceAll_append_of_apart (hne : pattern ≠ []) {cs : List Char} (ds : List Char)
    (h : ∀ front back, pattern = front ++ back → front ≠ [] → back ≠ [] → front <:+ cs → ¬ back <+: ds) :
    replaceAll pattern replacement (cs ++ ds) = replaceAll pattern replacement cs ++ replaceAll pattern replacement ds := by
  induction cs using place_induction hne with
  | nil => rfl
  | place after ih =>
    have hrest := ih fun front back hparts hfront hback hend =>
      h front back hparts hfront hback (hend.trans (List.suffix_append _ _))
    rw [List.append_assoc,replaceAll_append hne,hrest,replaceAll_append hne,List.append_assoc]
  | cons c cs hkeep ih =>
    have hrest := ih fun front back hparts hfront hback hend =>
      h front back hparts hfront hback (hend.trans (List.suffix_cons _ _))
    have hkeep' : ¬ pattern <+: (c :: cs) ++ ds := by
      intro hplace
      rcases List.prefix_or_prefix_of_prefix hplace (List.prefix_append (c :: cs) ds) with hwithin | ⟨back,hback⟩
      · exact hkeep hwithin
      · have hnonempty : back ≠ [] := by
          rintro rfl
          exact hkeep ⟨[],by simpa using hback.symm⟩
        rw [← hback,List.prefix_append_right_inj] at hplace
        exact h (c :: cs) back hback.symm (by simp) hnonempty List.suffix_rfl hplace
    rw [List.cons_append] at hkeep'
    rw [List.cons_append,replaceAll_cons hkeep',hrest,replaceAll_cons hkeep,List.cons_append]

end Places

theorem Source.replaceSpelling_of_not_occursIn {s : Source} {name old : String} {quote : Char}
    (h : ¬ occursIn (spelled name quote old) s.text.toList) (new : String) : s.replaceSpelling name quote old new = s :=
  if_neg h

theorem Source.text_replaceSpelling (s : Source) (name : String) (quote : Char) (old new : String) :
    (s.replaceSpelling name quote old new).text.toList =
      replaceAll (spelled name quote old) (spelled name quote new) s.text.toList := by
  unfold replaceSpelling
  split
  · simp
  · rw [replaceAll_of_not_occursIn ‹_›]

/-! ## Attributes -/

/-- Whether an attribute may begin after a text. -/
def AttributeNext (before : List Char) : Prop := ((Utf8.encode before).foldl Scan.feed {}).awaitsAttribute

/-- An attribute of a text is spelled in a way. -/
def HasAttribute (text pattern : List Char) : Prop :=
  ∃ before after, text = before ++ pattern ++ after ∧ AttributeNext before

/-- Nothing but attributes is spelled in a way. -/
def OnlyAttribute (text pattern : List Char) : Prop :=
  ∀ before after, text = before ++ pattern ++ after → AttributeNext before

instance (before : List Char) : Decidable (AttributeNext before) :=
  inferInstanceAs (Decidable (Scan.awaitsAttribute _ = true))

theorem HasAttribute.occurs {text pattern : List Char} (h : HasAttribute text pattern) : occursIn pattern text := by
  obtain ⟨before,after,rfl,-⟩ := h
  exact occursIn_iff.mpr ⟨before,after,rfl⟩

theorem onlyAttribute_iff {text pattern : List Char} : OnlyAttribute text pattern ↔
    ∀ n ≤ text.length, pattern <+: text.drop n → AttributeNext (text.take n) := by
  constructor
  · rintro h n - ⟨after,hafter⟩
    exact h _ after (by rw [List.append_assoc,hafter,List.take_append_drop])
  · rintro h before after rfl
    simpa using h before.length (by simp) (by simp)

instance (text pattern : List Char) : Decidable (OnlyAttribute text pattern) :=
  decidable_of_iff' _ onlyAttribute_iff

theorem encode_ne_nil {cs : List Char} (h : cs ≠ []) : Utf8.encode cs ≠ [] := by
  obtain ⟨c,cs,rfl⟩ := List.exists_cons_of_ne_nil h
  have hfirst : Utf8.encodeChar c ≠ [] := by
    simp only [Utf8.encodeChar]
    split_ifs <;> simp
  simp [Utf8.encode,hfirst]

/-- No attribute begins within one. -/
theorem not_attributeNext_within {s : Spelling} {v : s.Value} {before front back : List Char}
    (hspelled : Utf8.encode (front ++ back) = s.bytes v) (hfront : front ≠ []) (hback : back ≠ [])
    (h : AttributeNext before) : ¬ AttributeNext (before ++ front) := by
  rw [AttributeNext,Utf8.encode_append,List.foldl_append]
  exact Scan.not_awaitsAttribute_within h v (by rw [← Utf8.encode_append,hspelled]) (encode_ne_nil hfront)
    (encode_ne_nil hback)

section Replacing
variable {s : Spelling} {v w : s.Value} {text pattern replacement : List Char}

theorem attributeNext_iff {before done : List Char}
    (h : TextRespelled s v w (Utf8.encode before) (Utf8.encode done)) : AttributeNext done ↔ AttributeNext before := by
  rw [AttributeNext,AttributeNext,h.matches_scan.awaitsAttribute_eq]

theorem respelled_next {before done : List Char} (c : Char)
    (h : TextRespelled s v w (Utf8.encode before) (Utf8.encode done)) :
    TextRespelled s v w (Utf8.encode (before ++ [c])) (Utf8.encode (done ++ [c])) := by
  rw [Utf8.encode_append,Utf8.encode_append]
  exact h.append _

/-- An attribute that is spelled in another way is not touched. -/
theorem exists_of_replaceAll_eq_spelled (honly : OnlyAttribute text pattern) {t : Spelling} {u : t.Value}
    {other : List Char} (hother : Utf8.encode other = t.bytes u) (front back : List Char) {before rest tail : List Char}
    (hparts : other = front ++ back) (hfront : front ≠ []) (htext : text = before ++ (front ++ rest))
    (hback : replaceAll pattern replacement rest = back ++ tail) (hnext : AttributeNext before) :
    ∃ after, rest = back ++ after ∧ replaceAll pattern replacement after = tail := by
  induction back generalizing front rest with
  | nil => exact ⟨rest,rfl,hback⟩
  | cons d back ih =>
    cases rest with
    | nil => simp at hback
    | cons c cs =>
      -- within an attribute nothing is found, for what is found begins an attribute
      have hkeep : ¬ pattern <+: c :: cs := by
        rintro ⟨after,hafter⟩
        have hinside := honly (before ++ front) after (by rw [htext,← hafter]; simp)
        exact not_attributeNext_within (hparts ▸ hother) hfront (by simp) hnext hinside
      rw [replaceAll_cons hkeep] at hback
      obtain ⟨rfl,hcs⟩ := List.cons.inj hback
      obtain ⟨after,rfl,hafter⟩ := ih (front ++ [c]) (by simp [hparts]) (by simp) (by simp [htext]) hcs
      exact ⟨after,rfl,hafter⟩

variable (hpattern : Utf8.encode pattern = s.bytes v) (hreplacement : Utf8.encode replacement = s.bytes w)
  (honly : OnlyAttribute text pattern)
include hpattern

theorem pattern_ne_nil : pattern ≠ [] := by
  intro hnil
  simp [hnil,Utf8.encode,Spelling.bytes] at hpattern

include hreplacement

/-- Where a place of the pattern begins an attribute, it may be replaced there. -/
theorem respelled_append_replaceAll (before done rest : List Char)
    (hplaces : ∀ front back, rest = front ++ (pattern ++ back) → AttributeNext (before ++ front))
    (h : TextRespelled s v w (Utf8.encode before) (Utf8.encode done)) :
    TextRespelled s v w (Utf8.encode (before ++ rest)) (Utf8.encode (done ++ replaceAll pattern replacement rest)) := by
  induction rest using place_induction (pattern_ne_nil hpattern) generalizing before done with
  | nil => simpa using h
  | place after ih =>
    have hplace : TextRespelled s v w (Utf8.encode (before ++ pattern)) (Utf8.encode (done ++ replacement)) := by
      rw [Utf8.encode_append,Utf8.encode_append,hpattern,hreplacement]
      have hallows : AttributeNext before := by simpa using hplaces [] after rfl
      exact h.place hallows
    have hafter := ih _ _ (fun front back hrest => by simpa using hplaces (pattern ++ front) back (by simp [hrest])) hplace
    rwa [replaceAll_append (pattern_ne_nil hpattern),← List.append_assoc,← List.append_assoc]
  | cons c cs hkeep ih =>
    have hcs := ih _ _ (fun front back hrest => by simpa using hplaces (c :: front) back (by simp [hrest])) (respelled_next c h)
    rwa [replaceAll_cons hkeep,List.append_cons before,List.append_cons done]

include honly

theorem respelled_place {before done after : List Char} (htext : text = before ++ (pattern ++ after))
    (h : TextRespelled s v w (Utf8.encode before) (Utf8.encode done)) :
    TextRespelled s v w (Utf8.encode (before ++ pattern)) (Utf8.encode (done ++ replacement)) := by
  rw [Utf8.encode_append,Utf8.encode_append,hpattern,hreplacement]
  exact h.place (honly before after (by rw [htext,List.append_assoc]))

theorem respelled_replaceAll :
    TextRespelled s v w (Utf8.encode text) (Utf8.encode (replaceAll pattern replacement text)) :=
  respelled_append_replaceAll hpattern hreplacement [] [] text
    (fun front back htext => honly front back (by rw [htext,List.append_assoc])) .nil

/-- Where an attribute may begin afterwards one could begin before, and what follows has been replaced by itself. -/
theorem exists_of_replaceAll_eq_append (before done rest : List Char) {front tail : List Char}
    (htext : text = before ++ rest) (h : TextRespelled s v w (Utf8.encode before) (Utf8.encode done))
    (hfront : replaceAll pattern replacement rest = front ++ tail) (hnext : AttributeNext (done ++ front)) :
    ∃ front' tail', rest = front' ++ tail' ∧
      TextRespelled s v w (Utf8.encode (before ++ front')) (Utf8.encode (done ++ front)) ∧
      replaceAll pattern replacement tail' = tail := by
  have hhere {before done rest : List Char} (h : TextRespelled s v w (Utf8.encode before) (Utf8.encode done))
      (hrest : replaceAll pattern replacement rest = [] ++ tail) :
      ∃ front' tail', rest = front' ++ tail' ∧
        TextRespelled s v w (Utf8.encode (before ++ front')) (Utf8.encode (done ++ [])) ∧
        replaceAll pattern replacement tail' = tail := ⟨[],rest,rfl,by simpa using h,hrest⟩
  induction rest using place_induction (pattern_ne_nil hpattern) generalizing before done front with
  | nil =>
    obtain ⟨rfl,rfl⟩ := List.append_eq_nil_iff.mp hfront.symm
    exact hhere h rfl
  | place after ih =>
    cases front with
    | nil => exact hhere h hfront
    | cons d front =>
      rw [replaceAll_append (pattern_ne_nil hpattern)] at hfront
      have hplace := respelled_place hpattern hreplacement honly htext h
      have hrest (front' : List Char) (hsplit : replaceAll pattern replacement after = front' ++ tail)
          (hnext : AttributeNext (done ++ replacement ++ front')) : ∃ front tail', pattern ++ after = front ++ tail' ∧
            TextRespelled s v w (Utf8.encode (before ++ front)) (Utf8.encode (done ++ replacement ++ front')) ∧
            replaceAll pattern replacement tail' = tail := by
        obtain ⟨front,tail',hparts,hrespelled,htail⟩ := ih _ _ (by simp [htext]) hplace hsplit hnext
        exact ⟨pattern ++ front,tail',by simp [hparts],by simpa using hrespelled,htail⟩
      rcases List.append_eq_append_iff.mp hfront with ⟨more,hmore,hafter⟩ | ⟨more,hmore,htail⟩
      · rw [hmore,← List.append_assoc] at hnext ⊢
        exact hrest more hafter hnext
      · cases more with
        | nil =>
          rw [List.append_nil] at hmore
          subst hmore
          simpa using hrest [] htail.symm (by simpa using hnext)
        | cons e more =>
          -- the text cannot be cut within an attribute that was put in
          have hbegin : AttributeNext done :=
            (attributeNext_iff h).mpr (honly before after (by rw [htext,List.append_assoc]))
          exact absurd hnext (not_attributeNext_within (hmore ▸ hreplacement) (by simp) (by simp) hbegin)
  | cons c cs hkeep ih =>
    cases front with
    | nil => exact hhere h hfront
    | cons d front =>
      rw [replaceAll_cons hkeep] at hfront
      obtain ⟨rfl,hcs⟩ := List.cons.inj hfront
      obtain ⟨front,tail',hparts,hrespelled,htail⟩ :=
        ih _ _ (by simp [htext]) (respelled_next c h) hcs (by simpa using hnext)
      exact ⟨c :: front,tail',by simp [hparts],by simpa using hrespelled,htail⟩

/-- An attribute of the replaced text that has a third value was there before. -/
theorem exists_of_replaceAll_eq {t : Spelling} {u : t.Value} {front other tail : List Char}
    (hother : Utf8.encode other = t.bytes u) (hne : t.bytes u ≠ s.bytes w)
    (hall : replaceAll pattern replacement text = front ++ (other ++ tail)) (hnext : AttributeNext front) :
    ∃ before after, text = before ++ (other ++ after) ∧ other ≠ pattern ∧
      TextRespelled s v w (Utf8.encode before) (Utf8.encode front) ∧ replaceAll pattern replacement after = tail := by
  obtain ⟨before,rest,htext,hrespelled,hrest⟩ :=
    exists_of_replaceAll_eq_append hpattern hreplacement honly [] [] text rfl .nil hall hnext
  have hallows : AttributeNext before := (attributeNext_iff hrespelled).mp hnext
  have hfirst : ¬ pattern <+: rest := by
    rintro ⟨after,rfl⟩
    rw [replaceAll_append (pattern_ne_nil hpattern)] at hrest
    have hbytes := congrArg Utf8.encode hrest
    rw [Utf8.encode_append,Utf8.encode_append,hreplacement,hother] at hbytes
    exact hne (Spelling.bytes_append_inj hbytes).1.symm
  obtain ⟨d,back,rfl⟩ := List.exists_cons_of_ne_nil (pattern_ne_nil hother)
  cases rest with
  | nil => simp at hrest
  | cons c cs =>
    rw [replaceAll_cons hfirst] at hrest
    obtain ⟨rfl,hcs⟩ := List.cons.inj hrest
    obtain ⟨after,rfl,hafter⟩ := exists_of_replaceAll_eq_spelled honly hother [c] back rfl (by simp) htext hcs hallows
    refine ⟨before,after,htext,?_,hrespelled,hafter⟩
    rintro rfl
    exact hfirst ⟨after,rfl⟩

/-- No attribute keeps the old value, and one with a third value had it before. -/
theorem HasAttribute.of_replaceAll {t : Spelling} {u : t.Value} {other : List Char}
    (hother : Utf8.encode other = t.bytes u) (hne : t.bytes u ≠ s.bytes w)
    (h : HasAttribute (replaceAll pattern replacement text) other) : HasAttribute text other ∧ other ≠ pattern := by
  obtain ⟨front,tail,hall,hnext⟩ := h
  obtain ⟨before,after,htext,hpattern,hrespelled,-⟩ := exists_of_replaceAll_eq hpattern hreplacement honly hother hne
    (by rw [hall,List.append_assoc]) hnext
  exact ⟨⟨before,after,by rw [htext,List.append_assoc],(attributeNext_iff hrespelled).mp hnext⟩,hpattern⟩

end Replacing

/-! ## Around an attribute -/

section Around
variable {s t : Spelling} {v : s.Value} {u : t.Value} {text pattern replacement before other after : List Char}

/-- Of two attributes none goes on where the other one ends. -/
theorem eq_of_append_eq (hpattern : Utf8.encode pattern = s.bytes v) (hother : Utf8.encode other = t.bytes u)
    {cs ds : List Char} (h : pattern ++ cs = other ++ ds) : pattern = other := by
  have hbytes : s.bytes v = t.bytes u := by
    have hall := congrArg Utf8.encode h
    rw [Utf8.encode_append,Utf8.encode_append,hpattern,hother] at hall
    exact (Spelling.bytes_append_inj hall).1
  have hnil {shorter back : List Char} (hsame : Utf8.encode (shorter ++ back) = Utf8.encode shorter) : back = [] := by
    rw [Utf8.encode_append,List.append_right_eq_self] at hsame
    by_contra hback
    exact encode_ne_nil hback hsame
  rcases List.append_eq_append_iff.mp h with ⟨back,rfl,-⟩ | ⟨back,rfl,-⟩
  · rw [hnil (hother.trans (hbytes.symm.trans hpattern.symm)),List.append_nil]
  · rw [hnil (hpattern.trans (hbytes.trans hother.symm)),List.append_nil]

variable (hother : Utf8.encode other = t.bytes u) (htext : text = before ++ (other ++ after))
  (hnext : AttributeNext before) (honly : OnlyAttribute text pattern)
include hother htext hnext honly

/-- No place of the pattern begins within an attribute that is spelled in another way. -/
theorem eq_nil_of_place_within {front back rest : List Char} (hparts : other ++ after = front ++ (pattern ++ rest))
    (hback : other = front ++ back) (hne : back ≠ []) : front = [] := by
  by_contra hfront
  have hplace := honly (before ++ front) rest (by rw [htext,hparts]; simp)
  exact not_attributeNext_within (hback ▸ hother) hfront hne hnext hplace

variable (hpattern : Utf8.encode pattern = s.bytes v)
include hpattern

/-- What stands before and after an attribute is replaced by itself. -/
theorem replaceAll_around : replaceAll pattern replacement text = replaceAll pattern replacement before ++
    (replaceAll pattern replacement other ++ replaceAll pattern replacement after) := by
  have hne := pattern_ne_nil hpattern
  rw [htext,replaceAll_append_of_apart hne,replaceAll_append_of_apart hne]
  · -- what runs over the end of the attribute would begin with it
    rintro front back hparts hfront hback ⟨begun,hbegun⟩ ⟨rest,hrest⟩
    have hplace : other ++ after = begun ++ (pattern ++ rest) := by rw [← hbegun,← hrest,hparts]; simp
    obtain rfl := eq_nil_of_place_within hother htext hnext honly hplace hbegun.symm hfront
    have hsame := eq_of_append_eq hother hpattern hplace
    exact hback (List.append_right_eq_self.mp (hparts.symm.trans (hsame.symm.trans hbegun.symm)))
  · -- what runs over its beginning would begin an attribute before it
    rintro front back hparts hfront hback ⟨begun,hbegun⟩ ⟨rest,hrest⟩
    have hplace := honly begun rest (by rw [htext,← hbegun,← hrest,hparts]; simp)
    exact not_attributeNext_within (hparts ▸ hpattern) hfront hback hplace (hbegun ▸ hnext)

theorem replaceAll_other (hne : other ≠ pattern) : replaceAll pattern replacement other = other := by
  refine replaceAll_of_forall_ne (pattern_ne_nil hpattern) fun front back hparts => ?_
  have hplace : other ++ after = front ++ (pattern ++ (back ++ after)) := by rw [hparts]; simp
  have hback : pattern ++ back ≠ [] := by simp [pattern_ne_nil hpattern]
  obtain rfl := eq_nil_of_place_within hother htext hnext honly hplace hparts hback
  exact hne (eq_of_append_eq hother hpattern hplace)

end Around

end Download
end SchemaBinding
