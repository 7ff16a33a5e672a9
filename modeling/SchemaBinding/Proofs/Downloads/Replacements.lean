import SchemaBinding.Proofs.Downloads.Gaps
import SchemaBinding.Proofs.Reading.Unlocated

/-! Replacing the location of references in the text of a schema. Only a location that is spelled plainly is found, as an
attribute without blanks around the sign and with the value as it is read.
Main statement: where nothing else is found, the same schema is read afterwards but for the references whose location is
spelled plainly, and these lead to the replacement. So all references with the location do if and only if it is spelled
plainly for each of them. -/
namespace SchemaBinding

/-- A reference after its location has been replaced, if it is the one to be replaced. -/
def SchemaReference.relocated (r : Reading) (old new : String) (reference : SchemaReference) : SchemaReference :=
  if reference.written = some old then { reference with location := r.resolve? new, written := some new } else reference

def Schema.relocated (r : Reading) (old new : String) (a : Schema) : Schema :=
  { a with references := a.references.map (·.relocated r old new) }

namespace Download

open Xml.Token (TextRespelled)

variable {r : Reading} {old new : String} {i : ℕ}

/-! ## All changes -/

def locationChanges (old new : String) : List Change :=
  spellings.map fun spelling => ⟨spelling.1,spelling.2,old,new⟩

theorem replaceLocation_eq (hne : old ≠ new) (s : Source) :
    s.replaceLocation old new = (locationChanges old new).foldl (fun s c => c.apply s) s := by
  rw [Source.replaceLocation,if_neg hne,locationChanges,List.foldl_map]
  rfl

theorem mem_locationChanges {c : Change} (h : c ∈ locationChanges old new) :
    (c.name,c.quote) ∈ spellings ∧ c.old = old ∧ c.new = new := by
  obtain ⟨spelling,hspelling,rfl⟩ := List.mem_map.mp h
  exact ⟨hspelling,rfl,rfl⟩

theorem name_of_mem_spellings {name : String} {quote : Char} (h : (name,quote) ∈ spellings) :
    name = "schemaLocation" ∨ name = "location" := by
  apply of_mem_spellings h <;> decide

/-- What becomes of a reference from one text to another: it reads as the replacement, or it is as plain as it was, and
what is not plain reads as before. -/
structure Followed (r : Reading) (old new : String) (i : ℕ) (text text' : List Char) : Prop where
  plain : SpelledPlainly r text old i → writtenAt r text' i = some new ∨ SpelledPlainly r text' old i
  other : ¬ SpelledPlainly r text old i → writtenAt r text' i = writtenAt r text i ∧ ¬ SpelledPlainly r text' old i

theorem Followed.refl (text : List Char) : Followed r old new i text text := ⟨.inr,fun h => ⟨rfl,h⟩⟩

theorem Followed.trans (hne : old ≠ new) {text text' text'' : List Char} (h : Followed r old new i text text')
    (h' : Followed r old new i text' text'') : Followed r old new i text text'' where
  plain hplain := by
    rcases h.plain hplain with hnew | hplain'
    · have hother : ¬ SpelledPlainly r text' old i := fun hplain' =>
        hne (Option.some.inj (hplain'.writtenAt_eq.symm.trans hnew))
      exact .inl ((h'.other hother).1.trans hnew)
    · exact h'.plain hplain'
  other hother := by
    obtain ⟨hsame,hother'⟩ := h.other hother
    obtain ⟨hsame',hother''⟩ := h'.other hother'
    exact ⟨hsame'.trans hsame,hother''⟩

theorem Change.Clear.followed {c : Change} {s : Source} (h : c.Clear s) (hc : (c.name,c.quote) ∈ spellings)
    (hnew : Stands c.quote c.new) (hne : c.old ≠ c.new) :
    Followed r c.old c.new i s.text.toList (c.apply s).text.toList := by
  by_cases hfound : occursIn (spelled c.name c.quote c.old) s.text.toList
  · obtain ⟨hold,honly⟩ := h hfound
    rw [Change.text_apply]
    refine ⟨SpelledPlainly.on hc hold hnew honly,fun hother => ⟨?_,fun hplain => hother ?_⟩⟩
    · by_contra hchanged
      exact hother (spelledPlainly_of_ne hc hold hnew honly hchanged)
    · exact hplain.of_on hc hold hnew honly hne
  · rw [Change.apply,Source.replaceSpelling_of_not_occursIn hfound]
    exact .refl _

theorem AllClear.followed (hne : old ≠ new) {cs : List Change} {s : Source} (h : AllClear cs s)
    (hcs : ∀ c ∈ cs, (c.name,c.quote) ∈ spellings ∧ c.old = old ∧ c.new = new) (hnew : ∀ c ∈ cs, Stands c.quote c.new) :
    Followed r old new i s.text.toList (cs.foldl (fun s c => c.apply s) s).text.toList := by
  induction cs generalizing s with
  | nil => exact .refl _
  | cons c cs ih =>
    obtain ⟨hc,rfl,rfl⟩ := hcs c (by simp)
    exact (h.1.followed hc (hnew c (by simp)) hne).trans hne
      (ih h.2 (fun d hd => hcs d (by simp [hd])) fun d hd => hnew d (by simp [hd]))

theorem AllClear.unlocated_read (r : Reading) {cs : List Change} {s : Source} (h : AllClear cs s)
    (hcs : ∀ c ∈ cs, (c.name,c.quote) ∈ spellings) (hnew : ∀ c ∈ cs, Stands c.quote c.new) :
    Agree (fun a a' => a.unlocated = a'.unlocated) (Schema.read r (Utf8.encodeString s.text))
      (Schema.read r (Utf8.encodeString (cs.foldl (fun s c => c.apply s) s).text)) := by
  induction cs generalizing s with
  | nil => exact Agree.refl (R := fun a a' : Schema => a.unlocated = a'.unlocated) (fun _ => rfl) _
  | cons c cs ih =>
    have hrest := ih h.2 (fun d hd => hcs d (by simp [hd])) fun d hd => hnew d (by simp [hd])
    have hc := hcs c (by simp)
    by_cases hfound : occursIn (spelled c.name c.quote c.old) s.text.toList
    · obtain ⟨hold,honly⟩ := h.1 hfound
      have hfirst := Schema.unlocated_read (name_of_mem_spellings hc) r (respelled_apply hc hold (hnew c (by simp)) honly)
      exact hfirst.trans hrest fun _ _ _ => Eq.trans
    · rw [List.foldl_cons]
      rw [Change.apply,Source.replaceSpelling_of_not_occursIn hfound] at hrest ⊢
      exact hrest

section Replaced
variable {text : String} (hnew : Quotable new) (hclear : AllClear (locationChanges old new) { text })
include hnew

theorem stands_of_mem_locationChanges {c : Change} (h : c ∈ locationChanges old new) : Stands c.quote c.new := by
  obtain ⟨hc,-,rfl⟩ := mem_locationChanges h
  exact hnew.stands hc

include hclear

/-- Nothing stays plain. -/
theorem not_spelledPlainly_replaceLocation (hne : old ≠ new) :
    ¬ SpelledPlainly r (Source.replaceLocation { text } old new).text.toList old i := by
  rintro ⟨g,hg,hstands,htext,-⟩
  have hattribute : HasAttribute (Source.replaceLocation { text } old new).text.toList (spelled g.name g.quote old) :=
    ⟨g.before,g.after,by rw [htext,Gap.fill,List.append_assoc],hg.next⟩
  rw [replaceLocation_eq hne] at hattribute
  have hleft := hattribute.of_changes (fun _ h => (mem_locationChanges h).1)
    (fun _ h => stands_of_mem_locationChanges hnew h) hclear hg.spelling hstands
    (fun _ h => (mem_locationChanges h).2.2 ▸ hne.symm)
  exact hleft.2 ⟨g.name,g.quote,old,new⟩ (List.mem_map.mpr ⟨(g.name,g.quote),hg.spelling,rfl⟩) rfl

/-- A location is replaced if and only if it is spelled plainly. -/
theorem writtenAt_replaceLocation (hne : old ≠ new) :
    (SpelledPlainly r text.toList old i →
      writtenAt r (Source.replaceLocation { text } old new).text.toList i = some new) ∧
    (¬ SpelledPlainly r text.toList old i →
      writtenAt r (Source.replaceLocation { text } old new).text.toList i = writtenAt r text.toList i) := by
  have hfollowed : Followed r old new i text.toList (Source.replaceLocation { text } old new).text.toList := by
    rw [replaceLocation_eq hne]
    exact hclear.followed hne (fun _ => mem_locationChanges) fun _ => stands_of_mem_locationChanges hnew
  exact ⟨fun h => (hfollowed.plain h).resolve_right (not_spelledPlainly_replaceLocation hnew hclear hne),
    fun h => (hfollowed.other h).1⟩

end Replaced

/-! ## The schema that is read -/

theorem eq_of_unlocated {a a' : Schema} (h : a.unlocated = a'.unlocated) (hreferences : a.references = a'.references) :
    a = a' := by
  obtain ⟨_,_,_,_,_,_,_,_,_,_⟩ := a
  obtain ⟨_,_,_,_,_,_,_,_,_,_⟩ := a'
  simp_all [Schema.unlocated]

theorem writtenAt_of_read {text : List Char} {a : Schema} (h : Schema.read r (Utf8.encode text) = .ok a) (i : ℕ) :
    writtenAt r text i = a.references[i]?.bind (·.written) := by
  rw [writtenAt,h]
  rfl

/-- References of schemas that agree but for locations agree but for what is written. -/
theorem getElem?_references {text : List Char} {a a' : Schema} (h : a.unlocated = a'.unlocated)
    (hread : Schema.read r (Utf8.encode text) = .ok a') {reference : SchemaReference}
    (hi : a.references[i]? = some reference) : a'.references[i]? = some { reference with
      location := (writtenAt r text i).bind r.resolve?
      written := writtenAt r text i } := by
  have hstripped := congrArg (fun s : Schema => s.references[i]?) h
  simp only [Schema.unlocated,List.getElem?_map,hi,Option.map_some] at hstripped
  obtain ⟨reference',hi',hsame⟩ := Option.map_eq_some_iff.mp hstripped.symm
  have hlocation := Schema.resolved_read r _ a' hread reference' (List.mem_of_getElem? hi')
  rw [writtenAt_of_read hread,hi',Option.bind_some,← hlocation]
  obtain ⟨kind,location,written,space⟩ := reference'
  simp_all

/-- A schema as it is read after a location has been replaced in the text. -/
structure Replaced (r : Reading) (text old new : String) (a a' : Schema) : Prop where
  unlocated : a'.unlocated = a.unlocated
  plain : ∀ i reference, a.references[i]? = some reference → SpelledPlainly r text.toList old i →
    a'.references[i]? = some (reference.relocated r old new)
  other : ∀ i reference, a.references[i]? = some reference → ¬ SpelledPlainly r text.toList old i →
    a'.references[i]? = some reference
  all_iff : old ≠ new → (a' = a.relocated r old new ↔ ∀ i reference, a.references[i]? = some reference →
    reference.written = some old → SpelledPlainly r text.toList old i)

theorem relocated_of_ne {reference : SchemaReference} (h : reference.written ≠ some old) :
    reference.relocated r old new = reference := if_neg h

theorem Replaced.of_references {text : String} {a a' : Schema} (hread : Schema.read r (Utf8.encodeString text) = .ok a)
    (hunlocated : a'.unlocated = a.unlocated)
    (hplain : ∀ i reference, a.references[i]? = some reference → SpelledPlainly r text.toList old i →
      a'.references[i]? = some (reference.relocated r old new))
    (hother : ∀ i reference, a.references[i]? = some reference → ¬ SpelledPlainly r text.toList old i →
      a'.references[i]? = some reference) : Replaced r text old new a a' := by
  refine ⟨hunlocated,hplain,hother,fun hne => ⟨fun hall i reference hi hwritten => ?_,fun hall => ?_⟩⟩
  · by_contra hspelled
    have hsame := hother i reference hi hspelled
    rw [hall,Schema.relocated,List.getElem?_map,hi,Option.map_some,SchemaReference.relocated,if_pos hwritten] at hsame
    have hnew : some new = reference.written := congrArg SchemaReference.written (Option.some.inj hsame)
    exact hne (Option.some.inj (hwritten.symm.trans hnew.symm))
  · have hmap : (a.relocated r old new).unlocated = a.unlocated := by
      simp only [Schema.unlocated,Schema.relocated,List.map_map]
      congr 1
      refine List.map_congr_left fun reference _ => ?_
      simp only [Function.comp_apply,SchemaReference.relocated]
      split <;> rfl
    refine eq_of_unlocated (hunlocated.trans hmap.symm) (List.ext_getElem? fun i => ?_)
    rw [Schema.relocated,List.getElem?_map]
    cases hi : a.references[i]? with
    | none =>
      have hlength := congrArg (fun s : Schema => s.references.length) hunlocated
      simp only [Schema.unlocated,List.length_map] at hlength
      rw [List.getElem?_eq_none_iff] at hi
      exact List.getElem?_eq_none_iff.mpr (hlength ▸ hi)
    | some reference =>
      by_cases hwritten : reference.written = some old
      · exact hplain i reference hi (hall i reference hi hwritten)
      · have hspelled : ¬ SpelledPlainly r text.toList old i := fun hspelled => hwritten (by
          rw [← hspelled.writtenAt_eq,writtenAt_of_read hread,hi,Option.bind_some])
        rw [hother i reference hi hspelled,Option.map_some,relocated_of_ne hwritten]

/-- A location is replaced by itself. -/
theorem Replaced.refl {text : String} {a : Schema} (h : Schema.read r (Utf8.encodeString text) = .ok a) :
    Replaced r text old old a a := by
  have hkept (reference : SchemaReference) (hreference : reference ∈ a.references) :
      reference.relocated r old old = reference := by
    have hlocation := Schema.resolved_read r _ a h reference hreference
    obtain ⟨kind,location,written,space⟩ := reference
    simp only [SchemaReference.relocated]
    split
    · simp_all
    · rfl
  exact .of_references h rfl (fun i reference hi _ => by rw [hi,hkept reference (List.mem_of_getElem? hi)])
    fun _ _ hi _ => hi

/-- Where nothing but the location is found, the schema is read as before but for the references whose location is
spelled plainly, and these lead to the replacement. -/
theorem read_replaceLocation (r : Reading) {text old new : String} (hnew : Quotable new)
    (hclear : AllClear (locationChanges old new) { text }) {a : Schema}
    (h : Schema.read r (Utf8.encodeString text) = .ok a) :
    ∃ a', Schema.read r (Utf8.encodeString (Source.replaceLocation { text } old new).text) = .ok a' ∧
      Replaced r text old new a a' := by
  by_cases hne : old = new
  · subst hne
    rw [Source.replaceLocation,if_pos rfl]
    exact ⟨a,h,.refl h⟩
  · have hagree := hclear.unlocated_read r (fun _ hc => (mem_locationChanges hc).1)
      fun _ hc => stands_of_mem_locationChanges hnew hc
    rw [← replaceLocation_eq hne,h] at hagree
    obtain ⟨hplain,hother⟩ := forall_and.mp fun i => writtenAt_replaceLocation (r := r) (i := i) hnew hclear hne
    generalize htext : (Source.replaceLocation { text } old new).text = text' at hagree hplain hother
    generalize hread : Schema.read r (Utf8.encodeString text') = outcome at hagree
    cases hagree with
    | @ok _ a' hunlocated =>
      refine ⟨a',rfl,.of_references h hunlocated.symm (fun i reference hi hspelled => ?_) fun i reference hi hspelled => ?_⟩
      · have hwritten : reference.written = some old := by
          rw [← hspelled.writtenAt_eq,writtenAt_of_read h,hi,Option.bind_some]
        rw [getElem?_references hunlocated hread hi,hplain i hspelled,SchemaReference.relocated,if_pos hwritten]
        rfl
      · rw [getElem?_references hunlocated hread hi,hother i hspelled,← getElem?_references rfl h hi,hi]

def emptyDisk : Reading := { resolver := { disk := {} } }

/-- Two references to a document, the first one spelled plainly and the second one with blanks around the sign. -/
def spelledTwice : String :=
  "<schema><include schemaLocation='http://e/x.xsd'/><import schemaLocation = 'http://e/x.xsd'/></schema>"

theorem read_replaceLocation_spelledTwice : Quotable "x.xsd" ∧
    AllClear (locationChanges "http://e/x.xsd" "x.xsd") { text := spelledTwice } ∧
    ∃ a, Schema.read emptyDisk (Utf8.encodeString spelledTwice) = .ok a ∧
      ∃ a', Schema.read emptyDisk
          (Utf8.encodeString (Source.replaceLocation { text := spelledTwice } "http://e/x.xsd" "x.xsd").text) = .ok a' ∧
        Replaced emptyDisk spelledTwice "http://e/x.xsd" "x.xsd" a a' := by
  have hnew : Quotable "x.xsd" := by decide
  have hclear : AllClear (locationChanges "http://e/x.xsd" "x.xsd") { text := spelledTwice } := by decide +kernel
  have hread : (Schema.read emptyDisk (Utf8.encodeString spelledTwice)).toOption.isSome := by decide +kernel
  cases h : Schema.read emptyDisk (Utf8.encodeString spelledTwice) with
  | error failure =>
    rw [h] at hread
    cases hread
  | ok a => exact ⟨hnew,hclear,a,rfl,read_replaceLocation _ hnew hclear h⟩

/-- A location that is not found. -/
def spelledWithBlanks : String := "<schema><include schemaLocation = \"http://e/x.xsd\"/></schema>"

theorem replaceLocation_spelledWithBlanks : ∃ a,
    Schema.read emptyDisk (Utf8.encodeString spelledWithBlanks) = .ok a ∧
      a.references.map (·.written) = [some "http://e/x.xsd"] ∧
      Schema.read emptyDisk
          (Utf8.encodeString (Source.replaceLocation { text := spelledWithBlanks } "http://e/x.xsd" "x.xsd").text) ≠
        .ok (a.relocated emptyDisk "http://e/x.xsd" "x.xsd") := by
  have hkept : (Source.replaceLocation { text := spelledWithBlanks } "http://e/x.xsd" "x.xsd").text = spelledWithBlanks := by
    decide +kernel
  have hread : (Schema.read emptyDisk (Utf8.encodeString spelledWithBlanks)).toOption.map
      (fun a => a.references.map (·.written)) = some [some "http://e/x.xsd"] := by decide +kernel
  cases h : Schema.read emptyDisk (Utf8.encodeString spelledWithBlanks) with
  | error failure =>
    rw [h] at hread
    cases hread
  | ok a =>
    rw [h] at hread
    have hwritten : a.references.map (·.written) = [some "http://e/x.xsd"] := Option.some.inj hread
    refine ⟨a,rfl,hwritten,fun hall => ?_⟩
    rw [hkept,h] at hall
    obtain ⟨reference,hreferences,hreference⟩ := List.map_eq_singleton_iff.mp hwritten
    have hsame := congrArg (fun s : Schema => s.references.map (·.written)) (Except.ok.inj hall)
    simp [Schema.relocated,SchemaReference.relocated,hreferences,hreference] at hsame

end Download
end SchemaBinding
