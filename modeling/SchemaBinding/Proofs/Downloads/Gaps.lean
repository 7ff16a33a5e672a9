import SchemaBinding.Proofs.Downloads.Rewritten

/-! Which attribute the location of a reference is read from. It is read from the attribute at a place of a text if
whatever stands there is what is read, and from no attribute there if it is read the same whatever stands there.
Main statements: where one location is replaced by another one, a reference reads as the other one if it was read from a
place that was found, and as before otherwise; either way it is read from the same places as before. -/
namespace SchemaBinding
namespace Download

open Xml (Spelling)
open Xml.Token (TextRespelled)

/-- What is written for a reference of the schema that is read from a text, by the number of the reference. -/
def writtenAt (r : Reading) (text : List Char) (i : ℕ) : Option String :=
  ((Schema.read r (Utf8.encode text)).toOption.bind (·.references[i]?)).bind (·.written)

theorem writtenAt_exchanged {s : Spelling} {v w : s.Value} {text text' : List Char}
    (h : TextRespelled s v w (Utf8.encode text) (Utf8.encode text')) (r : Reading) (i : ℕ) :
    Xml.ValueExchanged s v w (writtenAt r text i) (writtenAt r text' i) := by
  have hread := Schema.matches_read r h
  unfold writtenAt
  generalize Schema.read r (Utf8.encode text) = outcome at hread ⊢
  generalize Schema.read r (Utf8.encode text') = outcome' at hread ⊢
  cases hread with
  | error _ => exact .inl rfl
  | @ok a a' ha =>
    change Xml.ValueExchanged s v w (a.references[i]?.bind (·.written)) (a'.references[i]?.bind (·.written))
    have hreference := rel_getElem? ha i
    generalize a.references[i]? = reference at hreference ⊢
    generalize a'.references[i]? = reference' at hreference ⊢
    cases hreference with
    | none => exact .inl rfl
    | some hwritten => exact hwritten

/-- A text with a location changed. -/
def Change.on (c : Change) (text : List Char) : List Char :=
  replaceAll (spelled c.name c.quote c.old) (spelled c.name c.quote c.new) text

theorem Change.text_apply (c : Change) (s : Source) : (c.apply s).text.toList = c.on s.text.toList :=
  s.text_replaceSpelling c.name c.quote c.old c.new

theorem Change.on_place (c : Change) (after : List Char) :
    c.on (spelled c.name c.quote c.old ++ after) = spelled c.name c.quote c.new ++ c.on after :=
  replaceAll_append (by simp [spelled]) after

theorem spelled_inj {name name' value : String} {quote quote' : Char}
    (h : spelled name quote value = spelled name' quote' value) : name = name' ∧ quote = quote' := by
  obtain ⟨hfront,hquote⟩ := List.append_inj' h rfl
  exact ⟨String.toList_inj.mp (List.append_inj' hfront (by simp)).1,by simpa using hquote⟩

/-! ## Gaps -/

/-- A text with a gap for the value of an attribute. -/
structure Gap where
  before : List Char
  name : String
  quote : Char
  after : List Char

namespace Gap

def fill (g : Gap) (value : String) : List Char := g.before ++ (spelled g.name g.quote value ++ g.after)

/-- The gap is that of an attribute that may hold a location. -/
structure Sound (g : Gap) : Prop where
  spelling : (g.name,g.quote) ∈ spellings
  next : AttributeNext g.before

/-- What is written for a reference is what stands in the gap. -/
def Holds (r : Reading) (g : Gap) (i : ℕ) : Prop :=
  ∀ value, Stands g.quote value → writtenAt r (g.fill value) i = some value

variable {r : Reading} {g : Gap} {i : ℕ}

theorem Sound.respelled (h : g.Sound) {v w : String} (hv : Stands g.quote v) (hw : Stands g.quote w) :
    TextRespelled (spellingOf h.spelling) (hv.value h.spelling) (hw.value h.spelling) (Utf8.encode (g.fill v))
      (Utf8.encode (g.fill w)) := by
  simp only [fill,Utf8.encode_append,encode_spelled hv h.spelling,encode_spelled hw h.spelling,← List.append_assoc]
  exact (Xml.Respelled.place (.refl _ _) h.next).append _

theorem Sound.exchanged (h : g.Sound) {v w : String} (hv : Stands g.quote v) (hw : Stands g.quote w) :
    writtenAt r (g.fill w) i = writtenAt r (g.fill v) i ∨
      writtenAt r (g.fill v) i = some v ∧ writtenAt r (g.fill w) i = some w :=
  writtenAt_exchanged (h.respelled hv hw) r i

/-- What is read differently for two values is read from the gap. -/
theorem Sound.holds_of_ne (h : g.Sound) {v w : String} (hv : Stands g.quote v) (hw : Stands g.quote w)
    (hne : writtenAt r (g.fill w) i ≠ writtenAt r (g.fill v) i) : g.Holds r i := by
  intro u hu
  rcases h.exchanged (r := r) (i := i) hv hu with hsame | ⟨-,hread⟩
  · rcases h.exchanged (r := r) (i := i) hw hu with hsame' | ⟨-,hread⟩
    · exact absurd (hsame'.symm.trans hsame) hne
    · exact hread
  · exact hread

/-- One value may be left out. -/
theorem Sound.holds_of_forall_ne (h : g.Sound) (out : String)
    (hall : ∀ value, Stands g.quote value → value ≠ out → writtenAt r (g.fill value) i = some value) : g.Holds r i := by
  have hstands (value : String) (hvalue : Quotable value) : Stands g.quote value := hvalue.stands h.spelling
  have htwo {u w : String} (hu : Stands g.quote u) (hw : Stands g.quote w) (hout : u ≠ out) (hout' : w ≠ out)
      (hne : u ≠ w) : g.Holds r i := by
    refine h.holds_of_ne hu hw ?_
    rw [hall u hu hout,hall w hw hout']
    simpa using hne.symm
  have hx := hstands "x" (by decide)
  have hy := hstands "y" (by decide)
  have hz := hstands "z" (by decide)
  by_cases hfirst : "x" = out
  · exact htwo hy hz (by simp [← hfirst]) (by simp [← hfirst]) (by simp)
  · by_cases hsecond : "y" = out
    · exact htwo hx hz hfirst (by simp [← hsecond]) (by simp)
    · exact htwo hx hy hfirst hsecond (by simp)

/-- What is read from a gap is read from it also where other values are exchanged. -/
theorem Sound.holds_iff {g' : Gap} (h : g.Sound) (h' : g'.Sound) (hquote : g'.quote = g.quote) {s : Spelling}
    {v w : s.Value} (hall : ∀ value, Stands g.quote value →
      TextRespelled s v w (Utf8.encode (g.fill value)) (Utf8.encode (g'.fill value))) :
    g'.Holds r i ↔ g.Holds r i := by
  constructor
  · intro hholds
    refine h.holds_of_forall_ne w.value fun value hvalue hne => ?_
    have hread := hholds value (hquote ▸ hvalue)
    rcases writtenAt_exchanged (hall value hvalue) r i with hsame | ⟨-,hnew⟩
    · rw [← hsame,hread]
    · exact absurd (Option.some.inj (hread.symm.trans hnew)) hne
  · intro hholds
    refine h'.holds_of_forall_ne v.value fun value hvalue hne => ?_
    rw [hquote] at hvalue
    have hread := hholds value hvalue
    rcases writtenAt_exchanged (hall value hvalue) r i with hsame | ⟨hold,-⟩
    · rw [hsame,hread]
    · exact absurd (Option.some.inj (hread.symm.trans hold)) hne

/-! ## Changes around a gap -/

/-- The text around a gap, changed. -/
def apply (c : Change) (g : Gap) : Gap := { g with before := c.on g.before, after := c.on g.after }

section Apply
variable {c : Change} (hc : (c.name,c.quote) ∈ spellings) (hold : Stands c.quote c.old) (hnew : Stands c.quote c.new)
  (hg : g.Sound) {value : String} (honly : OnlyAttribute (g.fill value) (spelled c.name c.quote c.old))
include honly

theorem respelled_before : TextRespelled (spellingOf hc) (hold.value hc) (hnew.value hc) (Utf8.encode g.before)
    (Utf8.encode (g.apply c).before) := by
  refine respelled_append_replaceAll (encode_spelled hold hc) (encode_spelled hnew hc) [] [] g.before
    (fun front back hparts => ?_) .nil
  exact honly front (back ++ (spelled g.name g.quote value ++ g.after)) (by rw [fill,hparts]; simp)

include hg hc hold hnew

theorem sound_apply : (g.apply c).Sound :=
  ⟨hg.spelling,(attributeNext_iff (respelled_before hc hold hnew honly)).mpr hg.next⟩

variable (hvalue : Stands g.quote value)
include hvalue

/-- Changes around a gap are made whatever stands in it. -/
theorem respelled_apply {other : String} (hother : Stands g.quote other) :
    TextRespelled (spellingOf hc) (hold.value hc) (hnew.value hc) (Utf8.encode (g.fill other))
      (Utf8.encode ((g.apply c).fill other)) := by
  have hattribute : TextRespelled (spellingOf hc) (hold.value hc) (hnew.value hc)
      (Utf8.encode (g.before ++ spelled g.name g.quote other))
      (Utf8.encode ((g.apply c).before ++ spelled g.name g.quote other)) := by
    rw [Utf8.encode_append,Utf8.encode_append]
    exact (respelled_before hc hold hnew honly).append _
  rw [fill,fill,← List.append_assoc,← List.append_assoc]
  refine respelled_append_replaceAll (encode_spelled hold hc) (encode_spelled hnew hc) _ _ g.after
    (fun front back hparts => ?_) hattribute
  -- an attribute may begin there whatever stands in the gap
  have hfront : Sound { g with after := front } := ⟨hg.spelling,hg.next⟩
  have hnext := honly (g.before ++ (spelled g.name g.quote value ++ front)) back (by rw [fill,hparts]; simp)
  rw [List.append_assoc]
  exact (attributeNext_iff (hfront.respelled hvalue hother)).mpr hnext

theorem holds_apply_iff : (g.apply c).Holds r i ↔ g.Holds r i :=
  hg.holds_iff (sound_apply hc hold hnew hg honly) rfl fun _ => respelled_apply hc hold hnew hg honly hvalue

end Apply

end Gap

/-! ## One change -/

/-- What is written for a reference is the location that stands at a place of a text. -/
def SpelledPlainly (r : Reading) (text : List Char) (location : String) (i : ℕ) : Prop :=
  ∃ g : Gap, g.Sound ∧ Stands g.quote location ∧ text = g.fill location ∧ g.Holds r i

variable {r : Reading} {text : List Char} {i : ℕ}

theorem SpelledPlainly.writtenAt_eq {location : String} (h : SpelledPlainly r text location i) :
    writtenAt r text i = some location := by
  obtain ⟨g,-,hstands,rfl,hholds⟩ := h
  exact hholds location hstands

section Change
variable {c : Change} (hc : (c.name,c.quote) ∈ spellings) (hold : Stands c.quote c.old) (hnew : Stands c.quote c.new)
  (honly : OnlyAttribute text (spelled c.name c.quote c.old))
include hc hold hnew honly

/-- A location that is found is changed, and one that is spelled in another way stays plain. -/
theorem SpelledPlainly.on (h : SpelledPlainly r text c.old i) :
    writtenAt r (c.on text) i = some c.new ∨ SpelledPlainly r (c.on text) c.old i := by
  obtain ⟨g,hg,hstands,rfl,hholds⟩ := h
  have hspelled := encode_spelled hstands hg.spelling
  have hpattern := encode_spelled hold hc
  have haround : c.on (g.fill c.old) = c.on g.before ++ (c.on (spelled g.name g.quote c.old) ++ c.on g.after) :=
    replaceAll_around hspelled rfl hg.next honly hpattern
  have hholds' := (Gap.holds_apply_iff hc hold hnew hg honly hstands).mpr hholds
  by_cases hfound : spelled g.name g.quote c.old = spelled c.name c.quote c.old
  · left
    obtain ⟨hname,hquote⟩ := spelled_inj hfound
    have hchanged : c.on (spelled g.name g.quote c.old) = spelled g.name g.quote c.new := by
      have hplace := c.on_place []
      simp only [List.append_nil,Change.on,replaceAll_nil] at hplace
      rw [hname,hquote,Change.on,hplace]
    rw [haround,hchanged]
    exact hholds' c.new (hquote ▸ hnew)
  · right
    have hkept : c.on (spelled g.name g.quote c.old) = spelled g.name g.quote c.old :=
      replaceAll_other hspelled rfl hg.next honly hpattern hfound
    exact ⟨g.apply c,Gap.sound_apply hc hold hnew hg honly,hstands,by rw [haround,hkept]; rfl,hholds'⟩

/-- A location that is plain afterwards was so before. -/
theorem SpelledPlainly.of_on (hne : c.old ≠ c.new) (h : SpelledPlainly r (c.on text) c.old i) :
    SpelledPlainly r text c.old i := by
  obtain ⟨⟨front,name,quote,tail⟩,hg',hstands,hall,hholds⟩ := h
  have hspelled := encode_spelled hstands hg'.spelling
  have hpattern := encode_spelled hold hc
  have hbytes : (spellingOf hg'.spelling).bytes (hstands.value hg'.spelling) ≠ (spellingOf hc).bytes (hnew.value hc) :=
    fun hbytes => hne (Spelling.bytes_append_inj (congrArg (· ++ []) hbytes)).2
  obtain ⟨before,after,rfl,hother,hrespelled,hafter⟩ :=
    exists_of_replaceAll_eq hpattern (encode_spelled hnew hc) honly hspelled hbytes hall hg'.next
  let g : Gap := ⟨before,name,quote,after⟩
  have hg : g.Sound := ⟨hg'.spelling,(attributeNext_iff hrespelled).mp hg'.next⟩
  have haround : c.on (g.fill c.old) = c.on before ++ (spelled name quote c.old ++ tail) := by
    have hsplit : c.on (g.fill c.old) = c.on before ++ (c.on (spelled name quote c.old) ++ c.on after) :=
      replaceAll_around hspelled rfl hg.next honly hpattern
    have hkept : c.on (spelled name quote c.old) = spelled name quote c.old :=
      replaceAll_other hspelled rfl hg.next honly hpattern hother
    rw [hsplit,hkept,show c.on after = tail from hafter]
  have hbefore : c.on before = front := (List.append_inj' (haround.symm.trans hall) rfl).1
  obtain rfl : c.on after = tail := hafter
  subst hbefore
  exact ⟨g,hg,hstands,rfl,(Gap.holds_apply_iff hc hold hnew hg honly hstands).mp hholds⟩

end Change

section Change
variable {c : Change} (hc : (c.name,c.quote) ∈ spellings) (hold : Stands c.quote c.old) (hnew : Stands c.quote c.new)
include hc hold hnew

/-- Where what is read changes there is a place that it is read from. -/
theorem exists_place_of_ne (before done rest : List Char)
    (hplaces : ∀ front back, rest = front ++ (spelled c.name c.quote c.old ++ back) → AttributeNext (before ++ front))
    (h : TextRespelled (spellingOf hc) (hold.value hc) (hnew.value hc) (Utf8.encode before) (Utf8.encode done))
    (hne : writtenAt r (done ++ c.on rest) i ≠ writtenAt r (done ++ rest) i) :
    ∃ front back, rest = front ++ (spelled c.name c.quote c.old ++ back) ∧
      Gap.Holds r ⟨before ++ front,c.name,c.quote,back⟩ i := by
  have hpattern := encode_spelled hold hc
  induction rest using place_induction (pattern_ne_nil hpattern) generalizing before done with
  | nil => exact absurd rfl hne
  | place after ih =>
    have hnext : AttributeNext before := by simpa using hplaces [] after rfl
    let here : Gap := ⟨done,c.name,c.quote,after⟩
    have hhere : here.Sound := ⟨hc,(attributeNext_iff h).mpr hnext⟩
    by_cases hsame : writtenAt r (here.fill c.new) i = writtenAt r (here.fill c.old) i
    · have hplace : TextRespelled (spellingOf hc) (hold.value hc) (hnew.value hc)
          (Utf8.encode (before ++ spelled c.name c.quote c.old)) (Utf8.encode (done ++ spelled c.name c.quote c.new)) := by
        rw [Utf8.encode_append,Utf8.encode_append,hpattern,encode_spelled hnew hc]
        exact h.place hnext
      have hlater : writtenAt r (done ++ spelled c.name c.quote c.new ++ c.on after) i ≠
          writtenAt r (done ++ spelled c.name c.quote c.new ++ after) i := by
        rw [c.on_place] at hne
        simpa only [Gap.fill,List.append_assoc,← hsame] using fun h => hne (h.trans hsame)
      obtain ⟨front,back,rfl,hholds⟩ := ih _ _
        (fun front back hrest => by simpa using hplaces (spelled c.name c.quote c.old ++ front) back (by simp [hrest]))
        hplace hlater
      exact ⟨spelled c.name c.quote c.old ++ front,back,by simp,by simpa using hholds⟩
    · refine ⟨[],after,rfl,?_⟩
      rw [List.append_nil]
      have hthere : Gap.Sound ⟨before,c.name,c.quote,after⟩ := ⟨hc,hnext⟩
      have hall (value : String) : TextRespelled (spellingOf hc) (hold.value hc) (hnew.value hc)
          (Utf8.encode (Gap.fill ⟨before,c.name,c.quote,after⟩ value)) (Utf8.encode (here.fill value)) := by
        simp only [Gap.fill,Utf8.encode_append,here]
        exact h.append _
      exact (hthere.holds_iff hhere rfl fun value _ => hall value).mp (hhere.holds_of_ne hold hnew hsame)
  | cons d cs hkeep ih =>
    have hchanged : c.on (d :: cs) = d :: c.on cs := replaceAll_cons hkeep
    obtain ⟨front,back,rfl,hholds⟩ := ih (before ++ [d]) (done ++ [d])
      (fun front back hrest => by simpa using hplaces (d :: front) back (by simp [hrest])) (respelled_next d h)
      (by simpa [hchanged] using hne)
    exact ⟨d :: front,back,rfl,by simpa using hholds⟩

theorem spelledPlainly_of_ne (honly : OnlyAttribute text (spelled c.name c.quote c.old))
    (hne : writtenAt r (c.on text) i ≠ writtenAt r text i) : SpelledPlainly r text c.old i := by
  have hplaces (front back : List Char) (hparts : text = front ++ (spelled c.name c.quote c.old ++ back)) :
      AttributeNext ([] ++ front) := honly front back (by rw [hparts,List.append_assoc])
  obtain ⟨front,back,rfl,hholds⟩ := exists_place_of_ne hc hold hnew [] [] text hplaces .nil hne
  exact ⟨⟨front,c.name,c.quote,back⟩,⟨hc,hplaces front back rfl⟩,hold,rfl,hholds⟩

end Change

end Download
end SchemaBinding
