import Mathlib.Data.List.Induction
import SchemaBinding.Proofs.Reading.Outcomes
import SchemaBinding.Xml.Element

/-! Documents that differ in the values of some attributes. Where a value is exchanged for another one between its
quotes, and an attribute begins at each such place, the document is divided in the same way and reads as the same tree,
but for these values.
Main statement: both documents fail in the same way, or their elements agree. -/
namespace SchemaBinding

namespace Xml

/-- How an attribute is spelled whose value stands in a kind of quotes. -/
structure Spelling where
  name : String
  key : Bytes
  quote : UInt8
  key_ne : key ≠ []
  key_plain : ∀ b ∈ key, ¬ Blank.isMarkupBlank b ∧ b ≠ Tag.equals ∧ b ≠ Token.greaterThan ∧ b ∉ Token.quotes
  key_read : Utf8.decodeString? key = some name
  quote_mem : quote ∈ Token.quotes
  name_plain : Element.AttributeRole.ofName name = .plain name

/-- What can stand between the quotes, and what it is read as. -/
structure Spelling.Value (s : Spelling) where
  text : Bytes
  value : String
  unquoted : s.quote ∉ text
  text_read : Reference.expandBytes? text = some value

namespace Spelling

def bytes (s : Spelling) (v : s.Value) : Bytes := s.key ++ Tag.equals :: s.quote :: (v.text ++ [s.quote])

theorem bytes_eq (s : Spelling) (v : s.Value) :
    s.bytes v = (s.key ++ [Tag.equals]) ++ [s.quote] ++ v.text ++ [s.quote] := by
  simp [bytes]

theorem key_sign_unquoted (s : Spelling) : ∀ c ∈ s.key ++ [Tag.equals], c ≠ Token.greaterThan ∧ c ∉ Token.quotes := by
  intro c hc
  rcases List.mem_append.mp hc with hc | hc
  · exact (s.key_plain c hc).2.2
  · rw [List.mem_singleton.mp hc]
    decide

theorem quote_eq (s : Spelling) : s.quote = 0x22 ∨ s.quote = 0x27 := by
  have h := s.quote_mem
  simpa [Token.quotes] using h

theorem append_cons_inj {b : UInt8} {xs xs' ys ys' : Bytes} (h : xs ++ b :: ys = xs' ++ b :: ys') (hxs : b ∉ xs)
    (hxs' : b ∉ xs') : xs = xs' ∧ ys = ys' := by
  induction xs generalizing xs' with
  | nil =>
    cases xs' with
    | nil => simpa using h
    | cons c xs' => exact absurd (by simp [(List.cons.inj h).1]) hxs'
  | cons c xs ih =>
    cases xs' with
    | nil => exact absurd (by simp [(List.cons.inj h).1]) hxs
    | cons c' xs' =>
      obtain ⟨rfl,hrest⟩ := List.cons.inj h
      obtain ⟨rfl,rfl⟩ := ih hrest (fun hb => hxs (by simp [hb])) (fun hb => hxs' (by simp [hb]))
      exact ⟨rfl,rfl⟩

/-- The name of an attribute goes to the sign, and its value to the quote it began with. -/
theorem bytes_append_inj {s t : Spelling} {v : s.Value} {u : t.Value} {xs ys : Bytes}
    (h : s.bytes v ++ xs = t.bytes u ++ ys) : s.bytes v = t.bytes u ∧ v.value = u.value := by
  have hsign (s : Spelling) : Tag.equals ∉ s.key := fun hmem => (s.key_plain _ hmem).2.1 rfl
  simp only [bytes,List.append_assoc,List.cons_append,List.nil_append] at h ⊢
  obtain ⟨hkey,hrest⟩ := append_cons_inj h (hsign s) (hsign t)
  obtain ⟨hquote,htext⟩ := List.cons.inj hrest
  rw [← hquote] at htext
  obtain ⟨hvalue,-⟩ := append_cons_inj htext v.unquoted (hquote ▸ u.unquoted)
  refine ⟨by rw [hkey,hquote,hvalue],?_⟩
  exact Option.some.inj (v.text_read.symm.trans (hvalue ▸ u.text_read))

end Spelling

/-- A text becomes another one where the value `v` is exchanged for `w`, each time after a text that allows it. -/
inductive Respelled (s : Spelling) (v w : s.Value) (allows : Bytes → Prop) : Bytes → Bytes → Prop where
  | nil : Respelled s v w allows [] []
  | byte {xs ys : Bytes} (b : UInt8) : Respelled s v w allows xs ys → Respelled s v w allows (xs ++ [b]) (ys ++ [b])
  | place {xs ys : Bytes} :
      Respelled s v w allows xs ys → allows xs → Respelled s v w allows (xs ++ s.bytes v) (ys ++ s.bytes w)

/-- An attribute stays or gets the other value. -/
def Exchanged (s : Spelling) (v w : s.Value) (e e' : String × String) : Prop :=
  e' = e ∨ e = (s.name,v.value) ∧ e' = (s.name,w.value)

variable {s : Spelling} {v w : s.Value}

theorem Respelled.append {allows : Bytes → Prop} {xs ys : Bytes} (h : Respelled s v w allows xs ys) (zs : Bytes) :
    Respelled s v w allows (xs ++ zs) (ys ++ zs) := by
  induction zs using List.reverseRecOn with
  | nil => simpa using h
  | append_singleton zs b ih =>
    rw [← List.append_assoc,← List.append_assoc]
    exact ih.byte b

theorem Respelled.refl (allows : Bytes → Prop) (xs : Bytes) : Respelled s v w allows xs xs :=
  Respelled.nil.append xs

theorem exchanged_refl (es : List (String × String)) : List.Forall₂ (Exchanged s v w) es es :=
  List.forall₂_same.mpr fun _ _ => .inl rfl

theorem Exchanged.fst_eq {e e' : String × String} (h : Exchanged s v w e e') : e'.1 = e.1 := by
  rcases h with rfl | ⟨rfl,rfl⟩ <;> rfl

theorem keys_exchanged {es es' : List (String × String)} (h : List.Forall₂ (Exchanged s v w) es es') :
    es'.map Prod.fst = es.map Prod.fst := by
  induction h with
  | nil => rfl
  | cons he _ ih => rw [List.map_cons,List.map_cons,he.fst_eq,ih]

/-! ## Tags -/

namespace Tag

/-- Readings of attributes at the same point. -/
structure Reading.Matches (s : Spelling) (v w : s.Value) (r r' : Reading) : Prop where
  mode : r'.mode = r.mode
  attributes : List.Forall₂ (Exchanged s v w) r.attributes r'.attributes

theorem Reading.foldlM_key {seen ks : Bytes} (hks : ∀ b ∈ ks, ¬ Blank.isMarkupBlank b ∧ b ≠ equals)
    (attributes : List (String × String)) :
    ks.foldlM feed { attributes, mode := .key seen } = .ok { attributes, mode := .key (ks.reverse ++ seen) } := by
  induction ks generalizing seen with
  | nil => rfl
  | cons b ks ih =>
    have hb := hks b (by simp)
    have hstep : feed { attributes, mode := .key seen } b = .ok { attributes, mode := .key (b :: seen) } := by
      simp [feed,hb]
    rw [List.foldlM_cons,hstep,List.reverse_cons,List.append_assoc]
    exact ih fun c hc => hks c (by simp [hc])

theorem Reading.foldlM_value {quote : UInt8} {text : Bytes} (htext : quote ∉ text) (key seen : Bytes)
    (attributes : List (String × String)) : text.foldlM feed { attributes, mode := .value key quote seen } =
      .ok { attributes, mode := .value key quote (text.reverse ++ seen) } := by
  induction text generalizing seen with
  | nil => rfl
  | cons b text ih =>
    have hb : b ≠ quote := fun h => htext (by simp [h])
    have hstep : feed { attributes, mode := .value key quote seen } b =
        .ok { attributes, mode := .value key quote (b :: seen) } := by
      simp [feed,hb]
    rw [List.foldlM_cons,hstep,List.reverse_cons,List.append_assoc]
    exact ih (fun h => htext (by simp [h])) (b :: seen)

/-- The name of an attribute begins where one may begin. -/
theorem Reading.foldlM_name {ks : Bytes} (hks : ∀ b ∈ ks, ¬ Blank.isMarkupBlank b ∧ b ≠ equals) (hne : ks ≠ [])
    (attributes : List (String × String)) :
    ks.foldlM feed { attributes } = .ok { attributes, mode := .key ks.reverse } := by
  obtain ⟨first,rest,rfl⟩ := List.exists_cons_of_ne_nil hne
  have hfirst : feed { attributes } first = .ok { attributes, mode := .key [first] } := by
    simp [feed,(hks first (by simp)).1]
  rw [List.foldlM_cons,hfirst,List.reverse_cons]
  exact foldlM_key (fun b hb => hks b (by simp [hb])) attributes

theorem Reading.foldlM_sign (s : Spelling) (attributes : List (String × String)) :
    (s.key ++ [equals]).foldlM feed { attributes } = .ok { attributes, mode := .afterSign s.key } := by
  have hname := foldlM_name (fun b hb => ⟨(s.key_plain b hb).1,(s.key_plain b hb).2.1⟩) s.key_ne attributes
  have hsign : [equals].foldlM feed { attributes, mode := .key s.key.reverse } =
      .ok { attributes, mode := .afterSign s.key } := by
    rw [List.foldlM_cons]
    simp [feed]
  rw [List.foldlM_append,hname]
  exact hsign

/-- An attribute that is read between others is the next of them. -/
theorem Reading.foldlM_bytes (attributes : List (String × String)) (v : s.Value) :
    (s.bytes v).foldlM feed { attributes } = if (attributes.map Prod.fst).contains s.name then .error .attribute
      else .ok { attributes := (s.name,v.value) :: attributes } := by
  have hopen : [s.quote].foldlM feed { attributes, mode := .afterSign s.key } =
      .ok { attributes, mode := .value s.key s.quote [] } := by
    rw [List.foldlM_cons]
    rcases s.quote_eq with h | h <;> simp [feed,h,Blank.isMarkupBlank]
  have hvalue := foldlM_value v.unquoted s.key [] attributes
  have hclose : [s.quote].foldlM feed { attributes, mode := .value s.key s.quote (v.text.reverse ++ []) } =
      endValue { attributes, mode := .value s.key s.quote (v.text.reverse ++ []) } s.key v.text := by
    rw [List.foldlM_cons]
    simp [feed]
  have hend : endValue { attributes, mode := .value s.key s.quote (v.text.reverse ++ []) } s.key v.text =
      if (attributes.map Prod.fst).contains s.name then .error .attribute
        else .ok { attributes := (s.name,v.value) :: attributes } := by
    rw [endValue,s.key_read,v.text_read]
  calc (s.bytes v).foldlM feed { attributes }
      = ([s.quote] ++ v.text ++ [s.quote]).foldlM feed { attributes, mode := .afterSign s.key } := by
        rw [s.bytes_eq,List.append_assoc,List.append_assoc,List.foldlM_append,foldlM_sign]
        simp only [List.append_assoc]
        rfl
    _ = [s.quote].foldlM feed { attributes, mode := .value s.key s.quote (v.text.reverse ++ []) } := by
        rw [List.append_assoc,List.foldlM_append,hopen]
        change (v.text ++ [s.quote]).foldlM feed _ = _
        rw [List.foldlM_append,hvalue]
        rfl
    _ = _ := hclose.trans hend

theorem Reading.Matches.refl (r : Reading) : Reading.Matches s v w r r := ⟨rfl,exchanged_refl _⟩

theorem Reading.matches_endValue {r r' : Reading} (h : Matches s v w r r') (key value : Bytes) :
    Agree (Matches s v w) (r.endValue key value) (r'.endValue key value) := by
  unfold endValue
  rw [keys_exchanged h.attributes]
  cases Utf8.decodeString? key with
  | none => exact .error _
  | some name =>
    by_cases hname : (r.attributes.map Prod.fst).contains name
    · simp only [hname,if_true]
      exact .error _
    · simp only [hname]
      cases Reference.expandBytes? value with
      | none => exact .error _
      | some value => exact .ok ⟨rfl,.cons (.inl rfl) h.attributes⟩

theorem Reading.matches_feed {r r' : Reading} (h : Matches s v w r r') (b : UInt8) :
    Agree (Matches s v w) (r.feed b) (r'.feed b) := by
  have hmode (m : Mode) : Agree (Matches s v w) (.ok { r with mode := m } : Except Fault Reading) (.ok { r' with mode := m }) :=
    .ok ⟨rfl,h.attributes⟩
  unfold feed
  rw [h.mode]
  cases hr : r.mode with
  | between =>
    by_cases hblank : Blank.isMarkupBlank b
    · simpa only [hblank,if_true] using Agree.ok h
    · simpa only [if_neg hblank] using hmode (.key [b])
  | key seen => exact .ite (hmode _) (.ite (hmode _) (hmode _))
  | afterKey key => exact .ite (.ok h) (.ite (hmode _) (.error _))
  | afterSign key => exact .ite (.ok h) (.ite (hmode _) (.error _))
  | value key quote seen => exact .ite (matches_endValue h key seen.reverse) (hmode _)

/-- Whether an attribute may begin after what has been seen of a tag. -/
def awaitsAttribute (content : Bytes) : Bool :=
  let rest := content.dropWhile (! Blank.isMarkupBlank ·)
  !rest.isEmpty && match rest.foldlM Reading.feed {} with
    | .ok r => r.mode = .between
    | .error _ => false

theorem awaitsAttribute_iff {content : Bytes} : awaitsAttribute content ↔
    content.dropWhile (! Blank.isMarkupBlank ·) ≠ [] ∧ ∃ attributes,
      (content.dropWhile (! Blank.isMarkupBlank ·)).foldlM Reading.feed {} = .ok { attributes, mode := .between } := by
  simp only [awaitsAttribute]
  generalize content.dropWhile (! Blank.isMarkupBlank ·) = rest
  generalize rest.foldlM Reading.feed {} = outcome
  cases outcome with
  | error e => simp
  | ok r =>
    obtain ⟨attributes,mode⟩ := r
    simp

/-- What follows a blank leaves the part before it as it is. -/
theorem divide_append {content : Bytes} (h : content.dropWhile (! Blank.isMarkupBlank ·) ≠ []) (more : Bytes) :
    (content ++ more).dropWhile (! Blank.isMarkupBlank ·) = content.dropWhile (! Blank.isMarkupBlank ·) ++ more ∧
      (content ++ more).takeWhile (! Blank.isMarkupBlank ·) = content.takeWhile (! Blank.isMarkupBlank ·) := by
  have hlength := congrArg List.length (List.takeWhile_append_dropWhile (p := (! Blank.isMarkupBlank ·)) (l := content))
  have hpositive := List.length_pos_iff.mpr h
  rw [List.length_append] at hlength
  rw [List.dropWhile_append,if_neg (by simpa using h),List.takeWhile_append,if_neg (by omega)]
  exact ⟨rfl,rfl⟩

/-- After a text that leaves an attribute open none may begin. -/
theorem not_awaitsAttribute_append {content more : Bytes} (h : awaitsAttribute content)
    (hmore : ∀ attributes, ∃ r, more.foldlM Reading.feed { attributes } = .ok r ∧ r.mode ≠ .between) :
    ¬ awaitsAttribute (content ++ more) := by
  intro hnext
  obtain ⟨hblank,attributes,hread⟩ := awaitsAttribute_iff.mp h
  obtain ⟨-,attributes',hlater⟩ := awaitsAttribute_iff.mp hnext
  obtain ⟨r,hr,hmode⟩ := hmore attributes
  rw [(divide_append hblank more).1,List.foldlM_append,hread] at hlater
  have hsame := Except.ok.inj (hr.symm.trans hlater)
  exact hmode (by rw [hsame])

/-- Contents of tags that differ in the values of attributes. -/
abbrev ContentRespelled (s : Spelling) (v w : s.Value) : Bytes → Bytes → Prop :=
  Respelled s v w (awaitsAttribute ·)

/-- Before the first blank such contents are the same; from there on their attributes are read alike. -/
theorem ContentRespelled.divided {xs ys : Bytes} (h : ContentRespelled s v w xs ys) :
    xs.dropWhile (! Blank.isMarkupBlank ·) = [] ∧ ys = xs ∨
      xs.dropWhile (! Blank.isMarkupBlank ·) ≠ [] ∧ ys.dropWhile (! Blank.isMarkupBlank ·) ≠ [] ∧
        ys.takeWhile (! Blank.isMarkupBlank ·) = xs.takeWhile (! Blank.isMarkupBlank ·) ∧
        Agree (Reading.Matches s v w) ((xs.dropWhile (! Blank.isMarkupBlank ·)).foldlM Reading.feed {})
          ((ys.dropWhile (! Blank.isMarkupBlank ·)).foldlM Reading.feed {}) := by
  induction h with
  | nil => exact .inl ⟨rfl,rfl⟩
  | @byte xs ys b _ ih =>
    rcases ih with ⟨hxs,rfl⟩ | ⟨hxs,hys,hname,hrest⟩
    · by_cases hb : (ys ++ [b]).dropWhile (! Blank.isMarkupBlank ·) = []
      · exact .inl ⟨hb,rfl⟩
      · exact .inr ⟨hb,hb,rfl,.refl Reading.Matches.refl _⟩
    · obtain ⟨hdropx,htakex⟩ := divide_append hxs [b]
      obtain ⟨hdropy,htakey⟩ := divide_append hys [b]
      refine .inr ⟨by simp [hdropx],by simp [hdropy],by rw [htakex,htakey,hname],?_⟩
      rw [hdropx,hdropy,List.foldlM_append,List.foldlM_append]
      refine hrest.bind fun r r' hr => ?_
      simpa using Reading.matches_feed hr b
  | @place xs ys _ hallows ih =>
    obtain ⟨hxs,attributes,hread⟩ := awaitsAttribute_iff.mp hallows
    rcases ih with ⟨hnil,_⟩ | ⟨_,hys,hname,hrest⟩
    · exact absurd hnil hxs
    · obtain ⟨hdropx,htakex⟩ := divide_append hxs (s.bytes v)
      obtain ⟨hdropy,htakey⟩ := divide_append hys (s.bytes w)
      refine .inr ⟨by simp [hdropx,hxs],by simp [hdropy,hys],by rw [htakex,htakey,hname],?_⟩
      rw [hdropx,hdropy,List.foldlM_append,List.foldlM_append]
      rw [hread] at hrest ⊢
      generalize hy : (ys.dropWhile (! Blank.isMarkupBlank ·)).foldlM Reading.feed {} = outcome at hrest ⊢
      cases hrest with
      | @ok _ r' hr =>
        obtain ⟨attributes',mode'⟩ := r'
        obtain rfl : mode' = .between := hr.mode
        change Agree _ ((s.bytes v).foldlM _ _) ((s.bytes w).foldlM _ _)
        rw [Reading.foldlM_bytes,Reading.foldlM_bytes,keys_exchanged hr.attributes]
        exact .ite (.error _) (.ok ⟨rfl,.cons (.inr ⟨rfl,rfl⟩) hr.attributes⟩)

theorem ContentRespelled.awaitsAttribute_eq {xs ys : Bytes} (h : ContentRespelled s v w xs ys) :
    awaitsAttribute ys = awaitsAttribute xs := by
  rcases h.divided with ⟨-,rfl⟩ | ⟨hxs,hys,-,hrest⟩
  · rfl
  · simp only [awaitsAttribute,List.isEmpty_eq_false_iff.mpr hxs,List.isEmpty_eq_false_iff.mpr hys]
    generalize (xs.dropWhile (! Blank.isMarkupBlank ·)).foldlM Reading.feed {} = outcome at hrest ⊢
    generalize (ys.dropWhile (! Blank.isMarkupBlank ·)).foldlM Reading.feed {} = outcome' at hrest ⊢
    cases hrest with
    | error _ => rfl
    | ok hr => simp [hr.mode]

/-- The last byte of contents is the same, and what stands before it is alike if the byte is no quote. -/
theorem ContentRespelled.last {xs ys : Bytes} (h : ContentRespelled s v w xs ys) :
    xs = [] ∧ ys = [] ∨ ∃ c xs' ys', xs = xs' ++ [c] ∧ ys = ys' ++ [c] ∧
      (c ≠ s.quote → ContentRespelled s v w xs' ys') := by
  cases h with
  | nil => exact .inl ⟨rfl,rfl⟩
  | @byte xs ys c hrest => exact .inr ⟨c,xs,ys,rfl,rfl,fun _ => hrest⟩
  | @place xs ys _ _ =>
    refine .inr ⟨s.quote,xs ++ s.key ++ equals :: s.quote :: v.text,ys ++ s.key ++ equals :: s.quote :: w.text,?_,?_,
      fun h => absurd rfl h⟩ <;> simp [Spelling.bytes]

/-- Tags that agree but for values. -/
structure Matches (s : Spelling) (v w : s.Value) (t t' : Tag) : Prop where
  name : t'.name = t.name
  attributes : List.Forall₂ (Exchanged s v w) t.attributes t'.attributes

theorem matches_read {xs ys : Bytes} (h : ContentRespelled s v w xs ys) :
    Agree (Matches s v w) (read xs) (read ys) := by
  rcases h.divided with ⟨-,rfl⟩ | ⟨-,-,hname,hrest⟩
  · exact .refl (fun t => ⟨rfl,exchanged_refl _⟩) _
  · unfold read
    rw [hname]
    cases Utf8.decodeString? (xs.takeWhile (! Blank.isMarkupBlank ·)) with
    | none => exact .error _
    | some name =>
      refine hrest.bind fun r r' hr => ?_
      have hfinish : Agree (List.Forall₂ (Exchanged s v w)) r.finish r'.finish := by
        unfold Reading.finish
        rw [hr.mode]
        cases r.mode with
        | between => exact .ok (List.forall₂_reverse_iff.mpr hr.attributes)
        | _ => exact .error _
      exact hfinish.bind fun _ _ hattributes => .ok ⟨rfl,hattributes⟩

end Tag

/-! ## Tokens -/

namespace Token

/-- Tokens that are the same, or tags that differ in values. -/
inductive Matches (s : Spelling) (v w : s.Value) : Token → Token → Prop where
  | same (t : Token) : Matches s v w t t
  | openTag {xs ys : Bytes} : Tag.ContentRespelled s v w xs ys → Matches s v w (.openTag xs) (.openTag ys)
  | emptyTag {xs ys : Bytes} : Tag.ContentRespelled s v w xs ys → Matches s v w (.emptyTag xs) (.emptyTag ys)

inductive Mode.Matches (s : Spelling) (v w : s.Value) : Mode → Mode → Prop where
  | same (m : Mode) : Mode.Matches s v w m m
  | tag (quote : Option UInt8) {seen seen' : Bytes} : Tag.ContentRespelled s v w seen.reverse seen'.reverse →
      Mode.Matches s v w (.tag quote seen) (.tag quote seen')

namespace Scan

/-- Scans at the same point. -/
structure Matches (s : Spelling) (v w : s.Value) (a b : Scan) : Prop where
  tokens : List.Forall₂ (Token.Matches s v w) a.tokens b.tokens
  mode : Mode.Matches s v w a.mode b.mode

/-- A byte adds tokens by the mode only. -/
theorem feed_eq (a : Scan) (c : UInt8) : a.feed c =
    { tokens := (feed { mode := a.mode } c).tokens ++ a.tokens, mode := (feed { mode := a.mode } c).mode } := by
  obtain ⟨tokens,mode⟩ := a
  cases mode <;> simp only [feed,endContent,feedTag,endTag,endClosing,endInstruction,feedDeclaration,feedComment,
    feedCharSection,feedDocType,fail,emit] <;> (repeat' split) <;> simp_all

theorem Matches.emit {a b : Scan} (h : Matches s v w a b) {t u : Token} (htokens : Token.Matches s v w t u) :
    Matches s v w (a.emit t) (b.emit u) :=
  ⟨.cons htokens h.tokens,.same _⟩

theorem Matches.endTag {a b : Scan} (h : Matches s v w a b) {seen seen' : Bytes}
    (hseen : Tag.ContentRespelled s v w seen.reverse seen'.reverse) : Matches s v w (a.endTag seen) (b.endTag seen') := by
  rcases hseen.last with ⟨hnil,hnil'⟩ | ⟨c,xs,ys,hxs,hys,hrest⟩
  · rw [List.reverse_eq_nil_iff] at hnil hnil'
    rw [hnil,hnil']
    exact h.emit (.same _)
  · obtain rfl : seen = c :: xs.reverse := by simpa using congrArg List.reverse hxs
    obtain rfl : seen' = c :: ys.reverse := by simpa using congrArg List.reverse hys
    by_cases hslash : c = slash
    · have hquote : c ≠ s.quote := by
        rcases s.quote_eq with hq | hq <;> rw [hslash,hq] <;> decide
      simp only [Scan.endTag,if_pos hslash]
      exact h.emit (.emptyTag (by simpa using hrest hquote))
    · simp only [Scan.endTag,if_neg hslash]
      exact h.emit (.openTag hseen)

theorem Matches.feedTag {a b : Scan} (h : Matches s v w a b) (quote : Option UInt8) {seen seen' : Bytes}
    (hseen : Tag.ContentRespelled s v w seen.reverse seen'.reverse) (c : UInt8) :
    Matches s v w (a.feedTag quote seen c) (b.feedTag quote seen' c) := by
  have hnext (quote : Option UInt8) : Mode.Matches s v w (.tag quote (c :: seen)) (.tag quote (c :: seen')) := by
    refine .tag quote ?_
    rw [List.reverse_cons,List.reverse_cons]
    exact hseen.byte c
  cases quote with
  | some q => exact ⟨h.tokens,hnext _⟩
  | none =>
    by_cases hend : c = greaterThan
    · simp only [Scan.feedTag,if_pos hend]
      exact h.endTag hseen
    · simp only [Scan.feedTag,if_neg hend]
      exact ⟨h.tokens,hnext _⟩

theorem Matches.feed {a b : Scan} (h : Matches s v w a b) (c : UInt8) : Matches s v w (a.feed c) (b.feed c) := by
  obtain ⟨tokens,mode⟩ := a
  obtain ⟨tokens',mode'⟩ := b
  have htokens : List.Forall₂ (Token.Matches s v w) tokens tokens' := h.tokens
  have hmode : Mode.Matches s v w mode mode' := h.mode
  cases hmode with
  | same =>
    rw [feed_eq,feed_eq { tokens := tokens',mode }]
    refine ⟨List.rel_append (List.forall₂_same.mpr fun t _ => .same t) htokens,.same _⟩
  | tag quote hseen => exact Matches.feedTag h quote hseen c

theorem finish_eq (a : Scan) : a.finish = a.tokens.reverse ++ Scan.finish { mode := a.mode } := by
  obtain ⟨tokens,mode⟩ := a
  cases mode <;> simp only [finish,endContent,endTag,endClosing,endInstruction,fail,emit] <;> (repeat' split) <;> simp_all

theorem Matches.finish {a b : Scan} (h : Matches s v w a b) :
    List.Forall₂ (Token.Matches s v w) a.finish b.finish := by
  obtain ⟨tokens,mode⟩ := a
  obtain ⟨tokens',mode'⟩ := b
  have htokens : List.Forall₂ (Token.Matches s v w) tokens tokens' := h.tokens
  have hmode : Mode.Matches s v w mode mode' := h.mode
  cases hmode with
  | same =>
    rw [finish_eq,finish_eq { tokens := tokens',mode }]
    exact List.rel_append (List.forall₂_reverse_iff.mpr htokens) (List.forall₂_same.mpr fun t _ => .same t)
  | tag _ hseen => exact List.forall₂_reverse_iff.mpr (h.endTag hseen).tokens

/-! ### Attributes in a tag -/

theorem foldl_unquoted {bytes : Bytes} (hbytes : ∀ c ∈ bytes, c ≠ greaterThan ∧ c ∉ quotes) (tokens : List Token)
    (seen : Bytes) : bytes.foldl Scan.feed { tokens, mode := .tag none seen } =
      { tokens, mode := .tag none (bytes.reverse ++ seen) } := by
  induction bytes generalizing seen with
  | nil => rfl
  | cons c bytes ih =>
    have hc := hbytes c (by simp)
    have hstep : Scan.feed { tokens, mode := .tag none seen } c = { tokens, mode := .tag none (c :: seen) } := by
      simp [Scan.feed,Scan.feedTag,hc]
    rw [List.foldl_cons,hstep,ih (fun d hd => hbytes d (by simp [hd])),List.reverse_cons,List.append_assoc]
    rfl

theorem foldl_quoted {quote : UInt8} {bytes : Bytes} (hbytes : quote ∉ bytes) (tokens : List Token) (seen : Bytes) :
    bytes.foldl Scan.feed { tokens, mode := .tag (some quote) seen } =
      { tokens, mode := .tag (some quote) (bytes.reverse ++ seen) } := by
  induction bytes generalizing seen with
  | nil => rfl
  | cons c bytes ih =>
    have hc : c ≠ quote := fun h => hbytes (by simp [h])
    have hstep : Scan.feed { tokens, mode := .tag (some quote) seen } c =
        { tokens, mode := .tag (some quote) (c :: seen) } := by
      simp [Scan.feed,Scan.feedTag,hc]
    rw [List.foldl_cons,hstep,ih (fun h => hbytes (by simp [h])),List.reverse_cons,List.append_assoc]
    rfl

theorem foldl_quote (s : Spelling) (tokens : List Token) (seen : Bytes) :
    [s.quote].foldl Scan.feed { tokens, mode := .tag none seen } =
      { tokens, mode := .tag (some s.quote) (s.quote :: seen) } := by
  rcases s.quote_eq with h | h <;> simp [Scan.feed,Scan.feedTag,h,greaterThan,quotes]

/-- An attribute leaves a tag open. -/
theorem foldl_bytes (v : s.Value) (tokens : List Token) (seen : Bytes) :
    (s.bytes v).foldl Scan.feed { tokens, mode := .tag none seen } =
      { tokens, mode := .tag none ((s.bytes v).reverse ++ seen) } := by
  have hclose (seen : Bytes) : [s.quote].foldl Scan.feed { tokens, mode := .tag (some s.quote) seen } =
      { tokens, mode := .tag none (s.quote :: seen) } := by
    simp [Scan.feed,Scan.feedTag]
  rw [s.bytes_eq,List.foldl_append,List.foldl_append,List.foldl_append,foldl_unquoted s.key_sign_unquoted,foldl_quote,
    foldl_quoted v.unquoted,hclose]
  simp

/-- Whether an attribute may begin after what has been seen of a document. -/
def awaitsAttribute (a : Scan) : Bool :=
  match a.mode with
  | .tag none seen => Tag.awaitsAttribute seen.reverse
  | _ => false

theorem Matches.awaitsAttribute_eq {a b : Scan} (h : Matches s v w a b) : b.awaitsAttribute = a.awaitsAttribute := by
  obtain ⟨tokens,mode⟩ := a
  obtain ⟨tokens',mode'⟩ := b
  cases h.mode with
  | same => rfl
  | tag quote hseen =>
    cases quote with
    | none => exact hseen.awaitsAttribute_eq
    | some q => rfl

theorem exists_of_awaitsAttribute {a : Scan} (h : a.awaitsAttribute) :
    ∃ seen, a = { tokens := a.tokens, mode := .tag none seen } ∧ Tag.awaitsAttribute seen.reverse := by
  obtain ⟨tokens,mode⟩ := a
  unfold awaitsAttribute at h
  split at h
  · rename_i seen hmode
    obtain rfl : mode = .tag none seen := hmode
    exact ⟨seen,rfl,h⟩
  · exact absurd h (by simp)

/-- Within an attribute none may begin. -/
theorem not_awaitsAttribute_within {a : Scan} (h : a.awaitsAttribute) (v : s.Value) {xs ys : Bytes}
    (hbytes : xs ++ ys = s.bytes v) (hxs : xs ≠ []) (hys : ys ≠ []) : ¬ (xs.foldl Scan.feed a).awaitsAttribute := by
  obtain ⟨seen,ha,hseen⟩ := exists_of_awaitsAttribute h
  have hsign : ∀ c ∈ s.key ++ [Tag.equals], c ≠ greaterThan ∧ c ∉ quotes := s.key_sign_unquoted
  have hname : ∀ c ∈ s.key, ¬ Blank.isMarkupBlank c ∧ c ≠ Tag.equals :=
    fun c hc => ⟨(s.key_plain c hc).1,(s.key_plain c hc).2.1⟩
  have hunquoted (hplain : ∀ c ∈ xs, c ≠ greaterThan ∧ c ∉ quotes)
      (hread : ∀ attributes, ∃ r, xs.foldlM Tag.Reading.feed { attributes } = .ok r ∧ r.mode ≠ .between) :
      ¬ (xs.foldl Scan.feed a).awaitsAttribute := by
    have hcontent : (xs.reverse ++ seen).reverse = seen.reverse ++ xs := by simp
    rw [ha,foldl_unquoted hplain]
    change ¬ Tag.awaitsAttribute (xs.reverse ++ seen).reverse
    rw [hcontent]
    exact Tag.not_awaitsAttribute_append hseen hread
  have hwhole (hxs : xs = s.key ++ [Tag.equals]) : ¬ (xs.foldl Scan.feed a).awaitsAttribute := by
    refine hunquoted (hxs ▸ hsign) fun attributes => ?_
    rw [hxs]
    exact ⟨_,Tag.Reading.foldlM_sign s attributes,by simp⟩
  have hparts : xs ++ ys = (s.key ++ [Tag.equals]) ++ (s.quote :: (v.text ++ [s.quote])) := by
    rw [hbytes,s.bytes_eq]
    simp
  -- the cut is in the name, after the sign or in the value
  rcases List.append_eq_append_iff.mp hparts with ⟨more,hkey,-⟩ | ⟨more,hmore,hrest⟩
  · rcases List.eq_nil_or_concat more with rfl | ⟨front,c,rfl⟩
    · exact hwhole (by simpa using hkey.symm)
    · have hfront : s.key = xs ++ front := by
        rw [List.concat_eq_append,← List.append_assoc] at hkey
        exact (List.append_inj' hkey rfl).1
      have hplain : ∀ c ∈ xs, c ∈ s.key := fun c hc => by simp [hfront,hc]
      refine hunquoted (fun c hc => (s.key_plain c (hplain c hc)).2.2) fun attributes => ?_
      exact ⟨_,Tag.Reading.foldlM_name (fun c hc => hname c (hplain c hc)) hxs attributes,by simp⟩
  · cases more with
    | nil => exact hwhole (by simpa using hmore)
    | cons c more =>
      obtain ⟨rfl,htail⟩ := List.cons.inj hrest
      have hvalue : v.text ++ [s.quote] = more ++ ys := htail
      have hinside : s.quote ∉ more := by
        obtain rfl | ⟨front,last,rfl⟩ := List.eq_nil_or_concat ys
        · exact absurd rfl hys
        · rw [List.concat_eq_append,← List.append_assoc] at hvalue
          have htext : v.text = more ++ front := (List.append_inj' hvalue rfl).1
          exact fun hc => v.unquoted (by simp [htext,hc])
      have hopen : xs.foldl Scan.feed a =
          ⟨a.tokens,.tag (some s.quote) (more.reverse ++ s.quote :: ((s.key ++ [Tag.equals]).reverse ++ seen))⟩ := by
        have hdivided : xs = (s.key ++ [Tag.equals]) ++ ([s.quote] ++ more) := hmore
        rw [hdivided,List.foldl_append,List.foldl_append,ha,foldl_unquoted hsign,foldl_quote,foldl_quoted hinside]
      rw [hopen]
      simp [awaitsAttribute]

theorem Matches.place {a b : Scan} (h : Matches s v w a b) (hallows : a.awaitsAttribute) :
    Matches s v w ((s.bytes v).foldl Scan.feed a) ((s.bytes w).foldl Scan.feed b) := by
  obtain ⟨seen,ha,hseen⟩ := exists_of_awaitsAttribute hallows
  rw [ha] at h ⊢
  obtain ⟨tokens',mode'⟩ := b
  obtain ⟨seen',rfl,hcontent⟩ : ∃ seen', mode' = .tag none seen' ∧ Tag.ContentRespelled s v w seen.reverse seen'.reverse := by
    cases h.mode with
    | same => exact ⟨seen,rfl,.refl _ _⟩
    | tag _ hcontent => exact ⟨_,rfl,hcontent⟩
  rw [foldl_bytes,foldl_bytes]
  refine ⟨h.tokens,.tag none ?_⟩
  simpa using hcontent.place hseen

end Scan

/-- Texts that differ in the values of attributes. -/
abbrev TextRespelled (s : Spelling) (v w : s.Value) : Bytes → Bytes → Prop :=
  Respelled s v w fun bytes => (bytes.foldl Scan.feed {}).awaitsAttribute

theorem TextRespelled.matches_scan {xs ys : Bytes} (h : TextRespelled s v w xs ys) :
    Scan.Matches s v w (xs.foldl Scan.feed {}) (ys.foldl Scan.feed {}) := by
  induction h with
  | nil => exact ⟨.nil,.same _⟩
  | byte c _ ih =>
    rw [List.foldl_append,List.foldl_append]
    exact ih.feed c
  | place _ hallows ih =>
    rw [List.foldl_append,List.foldl_append]
    exact ih.place hallows

theorem TextRespelled.matches_tokens {xs ys : Bytes} (h : TextRespelled s v w xs ys) :
    List.Forall₂ (Token.Matches s v w) (tokens xs) (tokens ys) :=
  h.matches_scan.finish

end Token
end Xml
end SchemaBinding
