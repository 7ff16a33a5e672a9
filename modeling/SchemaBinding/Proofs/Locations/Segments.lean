import Mathlib.Data.List.Sections
import SchemaBinding.Proofs.Locations.Encoded
import SchemaBinding.Proofs.Text.Letters
import SchemaBinding.Uri.Parser

/-! Segments that are read as they stand. An encoded name holds none of the characters that a path gives a meaning, and it is
a segment of dots only if the name is one. So the text of encoded names, each after a slash, is read as these names.
Main statement: what is read is what was written, but a drive letter in front has a colon. -/
namespace SchemaBinding
namespace Uri
namespace Percent

/-- A character of an encoded name. -/
def IsWritten (c : Char) : Prop := c = '%' ∨ inFileName c = false

variable {c : Char}

theorem IsWritten.inPath (h : IsWritten c) : inPath c = false := by
  rcases h with rfl | h
  · decide
  · simp_all [inFileName]

theorem IsWritten.visible (h : IsWritten c) : 0x20 < c.toNat ∧ c.toNat < 0x7F := by
  rcases h with rfl | h
  · decide
  · have hblank : c ≠ ' ' := by
      rintro rfl
      exact absurd h (by decide)
    have hnot : c.toNat ≠ 0x20 := fun hn => hblank (Char.ext (UInt32.toNat_inj.mp hn))
    have hcontrol : 0x20 ≤ c.toNat ∧ c.toNat ≤ 0x7E := by
      simp [inFileName,Percent.inPath,inFragment,isControl] at h
      omega
    omega

theorem IsWritten.isBreak (h : IsWritten c) : Segments.isBreak c = false := by
  have hvisible := h.visible
  have hnot {d : Char} (hd : d.toNat ≤ 0x20) : c ≠ d := by
    rintro rfl
    omega
  simp [Segments.isBreak,hnot (d := '\t') (by decide),hnot (d := '\n') (by decide),hnot (d := '\x0d') (by decide)]

theorem IsWritten.isSlash (h : IsWritten c) : Segments.isSlash .file c = false := by
  rcases h with rfl | h
  · decide
  · simp_all [inFileName,Segments.isSlash]

theorem IsWritten.endsPath (h : IsWritten c) : Url.endsPath c = false := by
  have hpath := h.inPath
  simp_all [Percent.inPath,Url.endsPath]

theorem isWritten_of_mem_encode {cs : List Char} (h : c ∈ encode inFileName cs) : IsWritten c :=
  mem_encode (by decide) h

/-! ## Segments of dots -/

/-- The texts that are the same in lower case. -/
theorem mem_sections_of_map_toLower {cs ds : List Char} (h : cs.map Char.toLower = ds) :
    cs ∈ (ds.map fun d => [d,d.toUpper]).sections := by
  rw [List.mem_sections]
  induction cs generalizing ds with
  | nil =>
    subst h
    exact .nil
  | cons c cs ih =>
    subst h
    exact .cons (List.mem_pair.mpr (Letter.eq_toLower_or c)) (ih rfl)

/-- A segment that is in lower case one of some spellings is decoded as these are in either case. -/
theorem decode_of_spelling {segment dots : List Char} {spellings : List String}
    (hall : ∀ ds ∈ spellings, ∀ cs ∈ (ds.toList.map fun d => [d,d.toUpper]).sections, decode cs = Utf8.encode dots)
    (h : String.ofList (segment.map Char.toLower) ∈ spellings) : decode segment = Utf8.encode dots :=
  hall _ h _ (mem_sections_of_map_toLower (String.toList_ofList ..).symm)

theorem decode_of_isSingleDot {segment : List Char} (h : Segments.isSingleDot segment) : decode segment = Utf8.encode ['.'] :=
  decode_of_spelling (by decide) (of_decide_eq_true h)

theorem decode_of_isDoubleDot {segment : List Char} (h : Segments.isDoubleDot segment) :
    decode segment = Utf8.encode ['.','.'] :=
  decode_of_spelling (by decide) (of_decide_eq_true h)

end Percent

namespace Drive

/-- What a `file` path makes of its first segment: a drive letter has a colon. -/
def settle : List Char → List Char
  | [a,b] => if isDrive [a,b] then [a,':'] else [a,b]
  | segment => segment

/-- Whether a text ends in a letter and a colon or bar. -/
def ends (cs : List Char) : Bool := isDrive (cs.drop (cs.length - 2))

theorem settle_of_not_isDrive {segment : List Char} (h : ¬ isDrive segment) : settle segment = segment := by
  unfold settle
  split
  · rw [if_neg h]
  · rfl

theorem ends_append (front : List Char) (a b : Char) : ends (front ++ [a,b]) = isDrive [a,b] := by
  simp [ends]

theorem toNat_of_isAlpha {c : Char} (h : c.isAlpha) : 65 ≤ c.toNat ∧ c.toNat ≤ 122 := by
  rw [Letter.isAlpha_iff,Letter.isUpper_iff,Letter.isLower_iff] at h
  omega

theorem exists_of_isDrive {segment : List Char} (h : isDrive segment) :
    ∃ a b, segment = [a,b] ∧ a.isAlpha ∧ (b = ':' ∨ b = '|') := by
  unfold isDrive at h
  split at h
  · exact ⟨_,_,rfl,by simpa using h⟩
  · cases h

@[simp] theorem length_settle (segment : List Char) : (settle segment).length = segment.length := by
  unfold settle
  split
  · split <;> rfl
  · rfl

/-- Only a drive letter with a bar changes. -/
theorem settle_eq_self_iff {segment : List Char} : settle segment = segment ↔ ∀ a : Char, a.isAlpha → segment ≠ [a,'|'] := by
  constructor
  · rintro h a ha rfl
    have hdrive : isDrive [a,'|'] := by simpa [isDrive] using ha
    rw [settle,if_pos hdrive] at h
    simp at h
  · intro h
    by_cases hdrive : isDrive segment
    · obtain ⟨a,b,rfl,ha,rfl | rfl⟩ := exists_of_isDrive hdrive
      · exact if_pos hdrive
      · exact absurd rfl (h a ha)
    · exact settle_of_not_isDrive hdrive

theorem isDrive_settle {segment : List Char} (h : isDrive segment) : isDrive (settle segment) := by
  obtain ⟨a,b,rfl,ha,-⟩ := exists_of_isDrive h
  rw [settle,if_pos h]
  simpa [isDrive] using ha

/-- A drive letter is encoded as it stands. -/
theorem encode_of_isDrive {segment : List Char} (h : isDrive segment) :
    Percent.encode Percent.inFileName segment = segment := by
  obtain ⟨a,b,rfl,ha,hb⟩ := exists_of_isDrive h
  have hletter : Percent.inFileName a = false := by
    have hother {c : Char} (hc : ¬ c.isAlpha) : a ≠ c := by
      rintro rfl
      exact hc ha
    have hrange : 0x20 ≤ a.toNat ∧ a.toNat ≤ 0x7E := by
      have := toNat_of_isAlpha ha
      omega
    simp [Percent.inFileName,Percent.inPath,Percent.inFragment,Percent.isControl,hrange,hother]
  refine Percent.encode_eq_self ?_
  rcases hb with rfl | rfl <;> simpa using ⟨hletter,by decide⟩

theorem settle_encode (name : List Char) :
    settle (Percent.encode Percent.inFileName name) = Percent.encode Percent.inFileName (settle name) := by
  by_cases h : isDrive name
  · rw [encode_of_isDrive h,encode_of_isDrive (isDrive_settle h)]
  · have hencoded : ¬ isDrive (Percent.encode Percent.inFileName name) := fun hdrive => by
      have hsame := Percent.encode_injective Percent.inFileName (by decide) (encode_of_isDrive hdrive)
      exact h (hsame ▸ hdrive)
    rw [settle_of_not_isDrive h,settle_of_not_isDrive hencoded]

end Drive

namespace Segments
open Percent

/-- A text that is read as one segment, as it stands. -/
structure IsSegment (segment : List Char) : Prop where
  not_empty : segment ≠ []
  written : ∀ c ∈ segment, IsWritten c
  not_current : ¬ isSingleDot segment
  not_parent : ¬ isDoubleDot segment

theorem isSegment_encode {name : List Char} (hempty : name ≠ []) (hcurrent : name ≠ ['.']) (hparent : name ≠ ['.','.']) :
    IsSegment (encode inFileName name) where
  not_empty h := hempty (encode_injective inFileName (by decide) h)
  written _ h := isWritten_of_mem_encode h
  not_current h := by
    have hbytes := decode_of_isSingleDot h
    rw [decode_encode (by decide)] at hbytes
    exact hcurrent (Utf8.encode_injective hbytes)
  not_parent h := by
    have hbytes := decode_of_isDoubleDot h
    rw [decode_encode (by decide)] at hbytes
    exact hparent (Utf8.encode_injective hbytes)

variable {segment : List Char} {segments : List (List Char)}

theorem IsSegment.piece_read (h : IsSegment segment) : Piece.read segment = { text := segment } := by
  have hbreak (c : Char) (hc : c ∈ segment) : isBreak c = false := (h.written c hc).isBreak
  have hbreaks : withoutBreaks segment = segment := List.filter_eq_self.mpr fun c hc => by simp [hbreak c hc]
  have hsame : encode inPath segment = segment := encode_eq_self fun c hc => (h.written c hc).inPath
  have hcut : ((skipBreaks ((skipBreaks segment).drop 1)).drop 1).head?.any isBreak = false := by
    rw [Option.any_eq_false]
    intro c hc
    have hsub : (skipBreaks ((skipBreaks segment).drop 1)).drop 1 ⊆ segment := fun d hd =>
      List.dropWhile_subset _ (List.mem_of_mem_drop (List.dropWhile_subset _ (List.mem_of_mem_drop hd)))
    simp [hbreak c (hsub (List.mem_of_mem_head? hc))]
  rw [Piece.read,hbreaks,hsame,hcut]

/-- The text of segments, each after a slash. -/
def slashed (segments : List (List Char)) : List Char := segments.flatMap ('/' :: ·)

theorem pieces_slashed (hfirst : IsSegment segment) (hrest : ∀ s ∈ segments, IsSegment s) :
    pieces .file (segment ++ slashed segments) = (segment :: segments).map fun text => { text } := by
  have hsplit : (segment ++ slashed segments).splitOnP (isSlash .file) = segment :: segments := by
    induction segments generalizing segment with
    | nil =>
      have hall : ∀ c ∈ segment, isSlash .file c = false := fun c hc => (hfirst.written c hc).isSlash
      simpa [slashed] using List.splitOnP_eq_singleton hall
    | cons next segments ih =>
      have hall : ∀ c ∈ segment, isSlash .file c = false := fun c hc => (hfirst.written c hc).isSlash
      have hslashed : slashed (next :: segments) = '/' :: (next ++ slashed segments) := rfl
      rw [hslashed,List.splitOnP_append_cons_of_forall_mem hall '/' (by decide),
        ih (hrest next (by simp)) fun s hs => hrest s (by simp [hs])]
  rw [pieces,hsplit]
  apply List.map_congr_left
  intro s hs
  rcases List.mem_cons.mp hs with rfl | hs
  · exact hfirst.piece_read
  · exact (hrest s hs).piece_read

theorem IsSegment.push_eq (h : IsSegment segment) (done : List (List Char)) (isLast : Bool) :
    push done isLast segment = segment :: done := by
  rw [push,if_neg h.not_parent,if_neg h.not_current]

theorem IsSegment.pushFirst_eq (h : IsSegment segment) (isLast : Bool) :
    pushFirstOfFile isLast { text := segment } = [Drive.settle segment] := by
  have hpush := h.push_eq [] isLast
  match segment with
  | [] => exact hpush
  | [_] => exact hpush
  | [a,b] =>
    have hdrive : pushFirstOfFile isLast { text := [a,b] } =
        if Drive.isDrive [a,b] then [[a,':']] else push [] isLast [a,b] := rfl
    rw [hdrive,hpush,Drive.settle]
    split <;> rfl
  | _ :: _ :: _ :: _ =>
    simp only [pushFirstOfFile,Bool.false_and,Bool.false_eq_true,if_false]
    exact hpush

theorem pushAll_eq {done : List (List Char)} (hdone : done ≠ []) (h : ∀ s ∈ segments, IsSegment s) :
    pushAll .file done (segments.map fun text => { text }) = segments.reverse ++ done := by
  induction segments generalizing done with
  | nil => rfl
  | cons next segments ih =>
    have hstep (isLast : Bool) : step .file done isLast { text := next } = next :: done := by
      rw [step,if_neg (by simp [hdone]),(h next (by simp)).push_eq]
    rw [List.map_cons,pushAll,hstep,ih (by simp) fun s hs => h s (by simp [hs])]
    simp

theorem read_slashed (hfirst : IsSegment segment) (hrest : ∀ s ∈ segments, IsSegment s) :
    read .file [] (segment ++ slashed segments) = (Drive.settle segment :: segments).map String.ofList := by
  have hpush : pushAll .file [] ((segment :: segments).map fun text => { text }) =
      segments.reverse ++ [Drive.settle segment] := by
    have hstep (isLast : Bool) : step .file [] isLast { text := segment } = [Drive.settle segment] := hfirst.pushFirst_eq isLast
    rw [List.map_cons,pushAll,hstep,pushAll_eq (by simp) hrest]
  have hleading : dropLeadingEmpty (Drive.settle segment :: segments) = Drive.settle segment :: segments := by
    have hne : Drive.settle segment ≠ [] :=
      List.ne_nil_of_length_pos (by simpa using List.length_pos_of_ne_nil hfirst.not_empty)
    simp [dropLeadingEmpty,hne]
  have hall : (pushAll .file [] ((segment :: segments).map fun text => { text })).reverse =
      Drive.settle segment :: segments := by
    rw [hpush]
    simp
  rw [read,pieces_slashed hfirst hrest,if_pos rfl]
  exact (congrArg (fun all => (dropLeadingEmpty all).map String.ofList) hall).trans (congrArg _ hleading)

end Segments
end Uri
end SchemaBinding
