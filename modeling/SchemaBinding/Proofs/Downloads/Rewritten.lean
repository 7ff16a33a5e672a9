import Mathlib.Tactic.MkIffOfInductiveProp
import SchemaBinding.Proofs.Downloads.References
import SchemaBinding.Proofs.Downloads.Replaced
import SchemaBinding.Proofs.Reading.Exchanged

/-! What becomes of the references in a text that is rewritten. Each change looks for an attribute as it would be
spelled plainly. As long as it finds nothing but attributes, the text reads as before but for the locations.
Main statement: no attribute is left with a location that was to be rewritten, and a reference reads as it was rewritten
or as before. -/
namespace SchemaBinding
namespace Download

open Xml (Spelling)

/-! ## One change -/

/-- A value that stands for itself between quotes of either kind. -/
@[mk_iff]
structure Quotable (value : String) : Prop where
  double : 0x22 ∉ Utf8.encodeString value
  single : 0x27 ∉ Utf8.encodeString value
  read : Xml.Reference.expandBytes? (Utf8.encodeString value) = some value

instance (value : String) : Decidable (Quotable value) := decidable_of_iff' _ (quotable_iff value)

theorem of_mem_spellings {P : String → Char → Prop} {name : String} {quote : Char} (h : (name,quote) ∈ spellings)
    (h₁ : P "schemaLocation" '"') (h₂ : P "schemaLocation" '\'') (h₃ : P "location" '"') (h₄ : P "location" '\'') :
    P name quote := by
  simp only [spellings,List.mem_cons,Prod.mk.injEq,List.not_mem_nil,or_false] at h
  rcases h with ⟨rfl,rfl⟩ | ⟨rfl,rfl⟩ | ⟨rfl,rfl⟩ | ⟨rfl,rfl⟩ <;> assumption

def spellingOf {name : String} {quote : Char} (h : (name,quote) ∈ spellings) : Spelling where
  name
  key := Utf8.encodeString name
  quote := UInt8.ofNat quote.toNat
  key_ne := by apply of_mem_spellings h <;> decide
  key_plain := by apply of_mem_spellings h <;> decide +kernel
  key_read := by apply of_mem_spellings h <;> decide
  quote_mem := by apply of_mem_spellings h <;> decide
  name_plain := by apply of_mem_spellings h <;> decide

/-- A value that stands for itself between quotes of one kind. -/
@[mk_iff]
structure Stands (quote : Char) (value : String) : Prop where
  unquoted : UInt8.ofNat quote.toNat ∉ Utf8.encodeString value
  read : Xml.Reference.expandBytes? (Utf8.encodeString value) = some value

instance (quote : Char) (value : String) : Decidable (Stands quote value) := decidable_of_iff' _ (stands_iff quote value)

theorem Quotable.stands {value : String} (hvalue : Quotable value) {name : String} {quote : Char}
    (h : (name,quote) ∈ spellings) : Stands quote value where
  unquoted := by
    change (spellingOf h).quote ∉ _
    rcases (spellingOf h).quote_eq with hquote | hquote <;> rw [hquote]
    · exact hvalue.double
    · exact hvalue.single
  read := hvalue.read

def Stands.value {value : String} {name : String} {quote : Char} (hvalue : Stands quote value)
    (h : (name,quote) ∈ spellings) : (spellingOf h).Value where
  text := Utf8.encodeString value
  value
  unquoted := hvalue.unquoted
  text_read := hvalue.read

theorem encode_spelled {value : String} {name : String} {quote : Char} (hvalue : Stands quote value)
    (h : (name,quote) ∈ spellings) : Utf8.encode (spelled name quote value) = (spellingOf h).bytes (hvalue.value h) := by
  have hquote : Utf8.encodeChar quote = [(spellingOf h).quote] := by
    change _ = [UInt8.ofNat quote.toNat]
    apply of_mem_spellings h <;> decide
  have hsign : Utf8.encodeChar '=' = [Xml.Tag.equals] := by decide
  simp only [spelled,Utf8.encode,List.append_assoc,List.cons_append,List.flatMap_append,List.flatMap_cons,List.flatMap_nil,
    List.append_nil,hquote,hsign]
  rfl

/-! ## All changes of a text -/

/-- A location that is changed wherever an attribute is spelled with it. -/
structure Change where
  name : String
  quote : Char
  old : String
  new : String

def Change.apply (c : Change) (s : Source) : Source := s.replaceSpelling c.name c.quote c.old c.new

/-- The changes that references call for. -/
def changes (disk : Disk) (ls : List Link) : List Change :=
  (ls.filter fun l => l.written ≠ l.relative disk).flatMap fun l =>
    spellings.map fun spelling => ⟨spelling.1,spelling.2,l.written,l.relative disk⟩

theorem relocate_eq (disk : Disk) (text : String) (ls : List Link) :
    relocate disk text ls = (changes disk ls).foldl (fun s c => c.apply s) { text } := by
  have hall (s : Source) : ls.foldl (fun s l => s.replaceLocation l.written (l.relative disk)) s =
      (changes disk ls).foldl (fun s c => c.apply s) s := by
    induction ls generalizing s with
    | nil => rfl
    | cons l ls ih =>
      rw [List.foldl_cons,ih]
      by_cases hsame : l.written = l.relative disk
      · simp [changes,hsame,Source.replaceLocation]
      · simp [changes,hsame,Source.replaceLocation,List.foldl_append,List.foldl_map,Change.apply]
  exact hall { text }

/-- Each change finds nothing but attributes in the text as it is by then. -/
def OnlyAttributes : List Change → Source → Prop
  | [], _ => True
  | c :: rest, s => OnlyAttribute s.text.toList (spelled c.name c.quote c.old) ∧ OnlyAttributes rest (c.apply s)

instance decideOnlyAttributes : (cs : List Change) → (s : Source) → Decidable (OnlyAttributes cs s)
  | [], _ => isTrue trivial
  | c :: cs, s =>
    have := decideOnlyAttributes cs (c.apply s)
    inferInstanceAs (Decidable (_ ∧ _))

/-- A change finds nothing, or nothing but attributes with the value it looks for. -/
def Change.Clear (c : Change) (s : Source) : Prop :=
  occursIn (spelled c.name c.quote c.old) s.text.toList →
    Stands c.quote c.old ∧ OnlyAttribute s.text.toList (spelled c.name c.quote c.old)

/-- Each change is clear in the text as it is by then. -/
def AllClear : List Change → Source → Prop
  | [], _ => True
  | c :: rest, s => c.Clear s ∧ AllClear rest (c.apply s)

instance (c : Change) (s : Source) : Decidable (c.Clear s) := inferInstanceAs (Decidable (_ → _))

instance decideAllClear : (cs : List Change) → (s : Source) → Decidable (AllClear cs s)
  | [], _ => isTrue trivial
  | c :: cs, s =>
    have := decideAllClear cs (c.apply s)
    inferInstanceAs (Decidable (_ ∧ _))

theorem OnlyAttributes.allClear {cs : List Change} {s : Source} (h : OnlyAttributes cs s)
    (hold : ∀ c ∈ cs, Stands c.quote c.old) : AllClear cs s := by
  induction cs generalizing s with
  | nil => trivial
  | cons c cs ih => exact ⟨fun _ => ⟨hold c (by simp),h.1⟩,ih h.2 fun d hd => hold d (by simp [hd])⟩

theorem respelled_apply {c : Change} (h : (c.name,c.quote) ∈ spellings) (hold : Stands c.quote c.old)
    (hnew : Stands c.quote c.new) {s : Source} (honly : OnlyAttribute s.text.toList (spelled c.name c.quote c.old)) :
    Xml.Token.TextRespelled (spellingOf h) (hold.value h) (hnew.value h) (Utf8.encodeString s.text)
      (Utf8.encodeString (c.apply s).text) := by
  rw [Utf8.encodeString,Utf8.encodeString,Change.apply,Source.text_replaceSpelling]
  exact respelled_replaceAll (encode_spelled hold h) (encode_spelled hnew h) honly

theorem HasAttribute.of_apply {c : Change} (h : (c.name,c.quote) ∈ spellings) (hold : Stands c.quote c.old)
    (hnew : Stands c.quote c.new) {s : Source} (honly : OnlyAttribute s.text.toList (spelled c.name c.quote c.old))
    {name value : String} {quote : Char} (hspelling : (name,quote) ∈ spellings) (hvalue : Stands quote value)
    (hne : value ≠ c.new) (hattribute : HasAttribute (c.apply s).text.toList (spelled name quote value)) :
    HasAttribute s.text.toList (spelled name quote value) ∧
      spelled name quote value ≠ spelled c.name c.quote c.old := by
  rw [Change.apply,Source.text_replaceSpelling] at hattribute
  refine hattribute.of_replaceAll (encode_spelled hold h) (encode_spelled hnew h) honly
    (encode_spelled hvalue hspelling) fun hbytes => hne ?_
  exact (Spelling.bytes_append_inj (congrArg (· ++ []) hbytes)).2

theorem references_respelled {s : Spelling} {v w : s.Value} {xs ys : Bytes} (h : Xml.Token.TextRespelled s v w xs ys)
    (r : Resolver) (uri : String) : List.Forall₂ (fun e e' => Xml.ValueExchanged s v w e.2 e'.2)
      (references r uri xs) (references r uri ys) := by
  have hschema {a a' : Schema} (ha : Schema.Matches s v w a a') : List.Forall₂
      (fun e e' => Xml.ValueExchanged s v w e.2 e'.2) (schemaReferences a) (schemaReferences a') := by
    unfold schemaReferences
    rw [List.forall₂_map_left_iff,List.forall₂_map_right_iff]
    exact ha
  by_cases hservice : isService uri
  · have hread := Definitions.matches_read { resolver := r, location := some uri } h
    simp only [references,if_pos hservice]
    generalize Definitions.read _ xs = outcome at hread ⊢
    generalize Definitions.read _ ys = outcome' at hread ⊢
    cases hread with
    | error _ => exact .nil
    | ok hd =>
      refine List.rel_append (List.rel_flatMap hd.schemas fun _ _ ha => hschema ha) ?_
      rw [List.forall₂_map_left_iff,List.forall₂_map_right_iff]
      exact hd.imports
  · have hread := Schema.matches_read { resolver := r, location := some uri } h
    simp only [references,if_neg hservice]
    generalize Schema.read _ xs = outcome at hread ⊢
    generalize Schema.read _ ys = outcome' at hread ⊢
    cases hread with
    | error _ => exact .nil
    | ok ha => exact hschema ha

/-- A location stays or is changed once. -/
def ChangedBy (cs : List Change) (e e' : Option String × Option String) : Prop :=
  e'.2 = e.2 ∨ ∃ c ∈ cs, e.2 = some c.old ∧ e'.2 = some c.new

theorem forall₂_trans {α β γ : Type} {R : α → β → Prop} {S : β → γ → Prop} {T : α → γ → Prop}
    (hT : ∀ a b c, R a b → S b c → T a c) {as : List α} {bs : List β} {cs : List γ} (h : List.Forall₂ R as bs)
    (h' : List.Forall₂ S bs cs) : List.Forall₂ T as cs := by
  induction h generalizing cs with
  | nil =>
    cases h'
    exact .nil
  | cons hab _ ih =>
    cases h' with
    | cons hbc hrest => exact .cons (hT _ _ _ hab hbc) (ih hrest)

theorem rel_getElem? {α β : Type} {R : α → β → Prop} {as : List α} {bs : List β} (h : List.Forall₂ R as bs) (i : ℕ) :
    Option.Rel R as[i]? bs[i]? := by
  induction h generalizing i with
  | nil => exact .none
  | cons hab _ ih =>
    cases i with
    | zero => exact .some hab
    | succ i => exact ih i

theorem exists_of_forall₂ {α β : Type} {R : α → β → Prop} {as : List α} {bs : List β} (h : List.Forall₂ R as bs) {i : ℕ}
    {a : α} (ha : as[i]? = some a) : ∃ b, bs[i]? = some b ∧ R a b := by
  have hrel := rel_getElem? h i
  rw [ha] at hrel
  generalize bs[i]? = b at hrel ⊢
  cases hrel with
  | some hab => exact ⟨_,rfl,hab⟩

/-- Where no change makes what another one looks for, each location is changed at most once. -/
theorem references_changed {cs : List Change} {s : Source} (hspellings : ∀ c ∈ cs, (c.name,c.quote) ∈ spellings)
    (hquotable : ∀ c ∈ cs, Quotable c.old ∧ Quotable c.new) (hapart : ∀ c ∈ cs, ∀ d ∈ cs, c.new ≠ d.old)
    (honly : OnlyAttributes cs s) (r : Resolver) (uri : String) :
    List.Forall₂ (ChangedBy cs) (references r uri (Utf8.encodeString s.text))
      (references r uri (Utf8.encodeString (cs.foldl (fun s c => c.apply s) s).text)) := by
  induction cs generalizing s with
  | nil => exact List.forall₂_same.mpr fun _ _ => .inl rfl
  | cons c cs ih =>
    have hspelling := hspellings c (by simp)
    have hvalues := hquotable c (by simp)
    have hfirst := references_respelled (respelled_apply hspelling (hvalues.1.stands hspelling) (hvalues.2.stands hspelling)
      honly.1) r uri
    have hrest := ih (fun d hd => hspellings d (by simp [hd])) (fun d hd => hquotable d (by simp [hd]))
      (fun d hd d' hd' => hapart d (by simp [hd]) d' (by simp [hd'])) honly.2
    refine forall₂_trans (fun a b e hab hbe => ?_) hfirst hrest
    rcases hab with hsame | ⟨hold,hnew⟩
    · rcases hbe with hsame' | ⟨d,hd,hold,hnew⟩
      · exact .inl (hsame'.trans hsame)
      · exact .inr ⟨d,by simp [hd],hsame ▸ hold,hnew⟩
    · rcases hbe with hsame' | ⟨d,hd,hold',_⟩
      · exact .inr ⟨c,by simp,hold,hsame'.trans hnew⟩
      · have hmade : some c.new = some d.old := hnew.symm.trans hold'
        exact absurd (Option.some.inj hmade) (hapart c (by simp) d (by simp [hd]))

/-- Where no change makes what is looked for, an attribute that is left was there, and no change looked for it. -/
theorem HasAttribute.of_changes {cs : List Change} {s : Source} (hspellings : ∀ c ∈ cs, (c.name,c.quote) ∈ spellings)
    (hnew : ∀ c ∈ cs, Stands c.quote c.new) (hclear : AllClear cs s) {name value : String}
    {quote : Char} (hspelling : (name,quote) ∈ spellings) (hvalue : Stands quote value) (hapart : ∀ c ∈ cs, c.new ≠ value)
    (h : HasAttribute (cs.foldl (fun s c => c.apply s) s).text.toList (spelled name quote value)) :
    HasAttribute s.text.toList (spelled name quote value) ∧
      ∀ c ∈ cs, spelled name quote value ≠ spelled c.name c.quote c.old := by
  induction cs generalizing s with
  | nil => exact ⟨h,by simp⟩
  | cons c cs ih =>
    obtain ⟨hfirst,hrest⟩ := ih (fun d hd => hspellings d (by simp [hd])) (fun d hd => hnew d (by simp [hd])) hclear.2
      (fun d hd => hapart d (by simp [hd])) h
    suffices hstep : HasAttribute s.text.toList (spelled name quote value) ∧
        spelled name quote value ≠ spelled c.name c.quote c.old from ⟨hstep.1,List.forall_mem_cons.mpr ⟨hstep.2,hrest⟩⟩
    by_cases hfound : occursIn (spelled c.name c.quote c.old) s.text.toList
    · obtain ⟨hold,honly⟩ := hclear.1 hfound
      exact hfirst.of_apply (hspellings c (by simp)) hold (hnew c (by simp)) honly hspelling hvalue (hapart c (by simp)).symm
    · rw [Change.apply,Source.replaceSpelling_of_not_occursIn hfound] at hfirst
      exact ⟨hfirst,fun hsame => hfound (hsame ▸ hfirst.occurs)⟩

/-- References that are written alike lead to the same document. -/
theorem location_of_mem_references {r : Resolver} {uri : String} {bytes : Bytes}
    {e : Option String × Option String} (he : e ∈ references r uri bytes) :
    e.1 = e.2.bind { resolver := r, location := some uri : Reading }.resolve? := by
  have hschema {a : Schema} (ha : a.Resolved { resolver := r, location := some uri }) (he : e ∈ schemaReferences a) :
      e.1 = e.2.bind { resolver := r, location := some uri : Reading }.resolve? := by
    obtain ⟨reference,hreference,rfl⟩ := List.mem_map.mp he
    exact ha reference hreference
  by_cases hservice : isService uri
  · have hread := Definitions.resolved_read { resolver := r, location := some uri } bytes
    simp only [references,if_pos hservice] at he
    cases hd : Definitions.read { resolver := r, location := some uri } bytes with
    | error failure => simp [hd] at he
    | ok d =>
      rw [hd] at he
      rcases List.mem_append.mp he with he | he
      · obtain ⟨a,ha,he⟩ := List.mem_flatMap.mp he
        exact hschema ((hread d hd).schemas a ha) he
      · obtain ⟨i,hi,rfl⟩ := List.mem_map.mp he
        exact (hread d hd).imports i hi
  · have hread := Schema.resolved_read { resolver := r, location := some uri } bytes
    simp only [references,if_neg hservice] at he
    cases ha : Schema.read { resolver := r, location := some uri } bytes with
    | error failure => simp [ha] at he
    | ok a =>
      rw [ha] at he
      exact hschema (hread a ha) he

/-! ## Copies -/

/-- A copy whose text is well-formed and spells the locations it changes as attributes only. -/
@[mk_iff]
structure Copy.Plain (c : Copy) : Prop where
  wellFormed : Utf8.encodeString (Utf8.decodeLossy c.bytes) = c.bytes
  onlyAttributes : OnlyAttributes (changes c.resolver.disk c.links) { text := Utf8.decodeLossy c.bytes }
  quotable : ∀ l ∈ c.links, l.written ≠ l.relative c.resolver.disk →
    Quotable l.written ∧ Quotable (l.relative c.resolver.disk)
  apart : ∀ l ∈ c.links, ∀ m ∈ c.links, l.written ≠ l.relative c.resolver.disk →
    m.written ≠ m.relative c.resolver.disk → l.relative c.resolver.disk ≠ m.written

instance (c : Copy) : Decidable c.Plain := decidable_of_iff' _ (Copy.plain_iff c)

theorem mem_changes {disk : Disk} {ls : List Link} {change : Change} (h : change ∈ changes disk ls) :
    (change.name,change.quote) ∈ spellings ∧
      ∃ l ∈ ls, l.written ≠ l.relative disk ∧ change.old = l.written ∧ change.new = l.relative disk := by
  obtain ⟨l,hl,hspelling⟩ := List.mem_flatMap.mp h
  obtain ⟨spelling,hmem,rfl⟩ := List.mem_map.mp hspelling
  have hfilter := List.mem_filter.mp hl
  exact ⟨hmem,l,hfilter.1,by simpa using hfilter.2,rfl,rfl⟩

theorem Copy.Plain.changes_quotable {c : Copy} (h : c.Plain) :
    ∀ change ∈ changes c.resolver.disk c.links, Quotable change.old ∧ Quotable change.new := by
  intro change hchange
  obtain ⟨_,l,hl,hne,hold,hnew⟩ := mem_changes hchange
  rw [hold,hnew]
  exact h.quotable l hl hne

theorem Copy.Plain.changes_apart {c : Copy} (h : c.Plain) {l : Link} (hl : l ∈ c.links)
    (hne : l.written ≠ l.relative c.resolver.disk) :
    ∀ change ∈ changes c.resolver.disk c.links, change.new ≠ l.written := by
  intro change hchange
  obtain ⟨_,m,hm,hne',_,hnew⟩ := mem_changes hchange
  rw [hnew]
  exact h.apart m hm l hl hne' hne

theorem Copy.Plain.changed {c : Copy} (h : c.Plain) :
    List.Forall₂ (ChangedBy (changes c.resolver.disk c.links)) c.references c.rewritten := by
  have hapart : ∀ a ∈ changes c.resolver.disk c.links, ∀ b ∈ changes c.resolver.disk c.links, a.new ≠ b.old := by
    intro a ha b hb
    obtain ⟨_,l,hl,hne,hold,_⟩ := mem_changes hb
    rw [hold]
    exact h.changes_apart hl hne a ha
  have hall := references_changed (fun _ hchange => (mem_changes hchange).1) h.changes_quotable hapart h.onlyAttributes
    c.resolver c.uri
  rwa [h.wellFormed,← relocate_eq] at hall

/-- No attribute is left with a location that was to be rewritten. -/
theorem Copy.Plain.not_hasAttribute {c : Copy} (h : c.Plain) {l : Link} (hl : l ∈ c.links)
    (hne : l.written ≠ l.relative c.resolver.disk) {name : String} {quote : Char} (hspelling : (name,quote) ∈ spellings) :
    ¬ HasAttribute c.text.toList (spelled name quote l.written) := by
  intro hattribute
  rw [Copy.text,relocate_eq] at hattribute
  have hstands := fun change hchange => (h.changes_quotable change hchange).imp
    (·.stands (mem_changes hchange).1) (·.stands (mem_changes hchange).1)
  have hleft := hattribute.of_changes (fun _ hchange => (mem_changes hchange).1) (fun c hc => (hstands c hc).2)
    (h.onlyAttributes.allClear fun c hc => (hstands c hc).1) hspelling ((h.quotable l hl hne).1.stands hspelling)
    (h.changes_apart hl hne)
  have hmem : (⟨name,quote,l.written,l.relative c.resolver.disk⟩ : Change) ∈ changes c.resolver.disk c.links :=
    List.mem_flatMap.mpr ⟨l,List.mem_filter.mpr ⟨hl,by simpa using hne⟩,List.mem_map.mpr ⟨(name,quote),hspelling,rfl⟩⟩
  exact hleft.2 _ hmem rfl

/-- A reference of such a copy reads as it was rewritten, or still as before. -/
theorem Copy.Plain.reads {c : Copy} (h : c.Plain) {i : ℕ} {l : Link}
    (hi : c.references[i]? = some (some l.uri,some l.written)) : ∃ now,
      c.reads i = some now ∧ (now = l.relative c.resolver.disk ∨ now = l.written) := by
  obtain ⟨e,he,hchanged⟩ := exists_of_forall₂ h.changed hi
  have hreads : c.reads i = e.2 := by simp [Copy.reads,he]
  rcases hchanged with hsame | ⟨change,hchange,hold,hnew⟩
  · exact ⟨l.written,hreads.trans hsame,.inr rfl⟩
  · obtain ⟨_,m,hm,_,hwritten,hrelative⟩ := mem_changes hchange
    have hspelled : m.written = l.written := by
      rw [← hwritten]
      exact (Option.some.inj hold).symm
    -- written alike, both lead to one document
    have huri : m.uri = l.uri := by
      have hfirst := location_of_mem_references (mem_links_iff.mp hm)
      have hsecond := location_of_mem_references (List.mem_of_getElem? hi)
      rw [hspelled] at hfirst
      exact Option.some.inj (hfirst.trans hsecond.symm)
    have hlink : m = l := by
      cases m
      cases l
      simp_all
    exact ⟨l.relative c.resolver.disk,by rw [hreads,hnew,hrelative,hlink],.inl rfl⟩

-- a reference by a URL
example : (⟨"file:///m",⟨"out/m"⟩,⟨"out"⟩,{ disk := {} },
    Utf8.encodeString "<schema><import schemaLocation='file:///e'/></schema>"⟩ : Copy).Plain := by
  decide +kernel

end Download
end SchemaBinding
