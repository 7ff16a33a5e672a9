import Mathlib.Data.List.TakeWhile
import SchemaBinding.Proofs.Locations.Segments
import SchemaBinding.Uri.File

/-! URLs of files that are read again. The text of a URL made of the names of a path is parsed into the URL of the same
names, and its path is that of the names, but for drive letters: one in front is written with a colon, and one that ends the
path is closed by a slash. The bytes at the end of a path tell whether it ends in a drive letter because no character outside
of ASCII ends in a byte of ASCII.
Main statements: what the text of such a URL is parsed into, and which path that URL stands for. -/
namespace SchemaBinding
namespace Url
open Uri Segments Percent

variable {segment : List Char} {segments : List (List Char)}

/-- The text of a `file` URL without a host. -/
def fileText (path : List Char) : List Char := 'f' :: 'i' :: 'l' :: 'e' :: ':' :: '/' :: '/' :: path

theorem toList_text (segments : List (List Char)) :
    (localFile (.segments (segments.map String.ofList))).text.toList = fileText (slashed segments) := by
  simp [text,localFile,pathText,Authority.text,Host.text,String.toList_join,slashed,List.flatMap_map,fileText]

theorem parseWithScheme_file (path : List Char) :
    scheme? (fileText path) = some ("file",'/' :: '/' :: path) ∧
      parseWithScheme none "file" (((fileText path).dropWhile (· ≠ ':')).drop 1) ('/' :: '/' :: path) = parseFileHost path :=
  ⟨rfl,rfl⟩

/-- The characters of the text of segments. -/
theorem mem_slashed (h : ∀ s ∈ segments, IsSegment s) {c : Char} (hc : c ∈ slashed segments) : c = '/' ∨ IsWritten c := by
  obtain ⟨s,hs,hmem⟩ := List.mem_flatMap.mp hc
  rcases List.mem_cons.mp hmem with rfl | hmem
  · exact .inl rfl
  · exact .inr ((h s hs).written c hmem)

theorem localFileAt_slashed (hfirst : IsSegment segment) (hrest : ∀ s ∈ segments, IsSegment s) :
    localFileAt (segment ++ slashed segments) =
      localFile (.segments ((Drive.settle segment :: segments).map String.ofList)) := by
  have hplain : ∀ c ∈ segment ++ slashed segments, endsPath c = false := by
    intro c hc
    rcases List.mem_append.mp hc with hc | hc
    · exact (hfirst.written c hc).endsPath
    · rcases mem_slashed hrest hc with rfl | hc
      · rfl
      · exact hc.endsPath
  have htake : (segment ++ slashed segments).takeWhile (! endsPath ·) = segment ++ slashed segments :=
    List.takeWhile_eq_self_iff.mpr fun c hc => by simp [hplain c hc]
  have hdrop : (segment ++ slashed segments).dropWhile (! endsPath ·) = [] :=
    List.dropWhile_eq_nil_iff.mpr fun c hc => by simp [hplain c hc]
  rw [localFileAt,withPath,htake,hdrop]
  exact congrArg (fun names => localFile (.segments names)) (read_slashed hfirst hrest)

theorem trim_eq {cs : List Char} (h : ∀ c ∈ cs, isTrimmed c = false) : trim cs = cs := by
  have hdrop {cs : List Char} (h : ∀ c ∈ cs, isTrimmed c = false) : cs.dropWhile isTrimmed = cs := by
    cases cs with
    | nil => rfl
    | cons c cs => rw [List.dropWhile_cons_of_neg (by simp [h c (by simp)])]
  rw [trim,hdrop h,hdrop (fun c hc => h c (List.mem_reverse.mp hc)),List.reverse_reverse]

/-- The text of a URL of segments is read as these, but a drive letter in front has a colon. -/
theorem parse?_text (hfirst : IsSegment segment) (hrest : ∀ s ∈ segments, IsSegment s) :
    parse? (localFile (.segments ((segment :: segments).map String.ofList))).text =
      some (localFile (.segments ((Drive.settle segment :: segments).map String.ofList))) := by
  have hall : ∀ s ∈ segment :: segments, IsSegment s := by simpa using ⟨hfirst,hrest⟩
  set path := slashed (segment :: segments) with hpath
  have hvisible : ∀ c ∈ fileText path, isTrimmed c = false ∧ isBreak c = false := by
    simp only [fileText,List.forall_mem_cons]
    refine ⟨by decide,by decide,by decide,by decide,by decide,by decide,by decide,?_⟩
    intro c hc
    rcases mem_slashed hall hc with rfl | hc
    · decide
    · exact ⟨by simpa [isTrimmed] using hc.visible.1,hc.isBreak⟩
  have htrim := trim_eq fun c hc => (hvisible c hc).1
  have hbreaks : withoutBreaks (fileText path) = fileText path :=
    List.filter_eq_self.mpr fun c hc => by simp [(hvisible c hc).2]
  -- there is nothing between the slashes in front, so there is no host
  have hhost : parseFileHost path = .ok (localFileAt (segment ++ slashed segments)) := rfl
  obtain ⟨hscheme,hfile⟩ := parseWithScheme_file path
  rw [parse?,parse,toList_text,← hpath,htrim,hbreaks,hscheme]
  dsimp only
  rw [hfile,hhost,localFileAt_slashed hfirst hrest]
  rfl

theorem parse?_encode {name : List Char} {names : List (List Char)}
    (h : ∀ n ∈ name :: names, IsSegment (encode inFileName n)) :
    parse? (localFile (.segments (((name :: names).map (encode inFileName)).map String.ofList))).text =
      some (localFile (.segments (((Drive.settle name :: names).map (encode inFileName)).map String.ofList))) := by
  rw [List.forall_mem_cons] at h
  rw [List.map_cons,parse?_text h.1 (List.forall_mem_map.mpr h.2),Drive.settle_encode]
  rfl

/-! ## File paths -/

theorem closeDrive_append {front : Bytes} (h : front ≠ []) (a b : UInt8) : closeDrive (front ++ [a,b]) =
    if (Char.ofNat a.toNat).isAlpha && a < 0x80 && (b = 0x3A || b = 0x7C) then front ++ [a,b] ++ [0x2F]
    else front ++ [a,b] := by
  obtain ⟨init,last,rfl⟩ := (List.eq_nil_or_concat front).resolve_left h
  simp [closeDrive]

theorem closeDrive_of_ne {front : Bytes} {b : UInt8} (hcolon : b ≠ 0x3A) (hbar : b ≠ 0x7C) :
    closeDrive (front ++ [b]) = front ++ [b] := by
  unfold closeDrive
  split
  · rename_i last a _ _ hreverse
    obtain rfl : b = last := by simp_all
    simp [hcolon,hbar]
  · rfl

/-- A character of ASCII is its last byte, and no other character ends in a byte of ASCII. -/
theorem exists_last_byte (c : Char) : ∃ front last, Utf8.encodeChar c = front ++ [last] ∧
    (front = [] ∧ last.toNat = c.toNat ∨ 0x80 ≤ c.toNat ∧ 0x80 ≤ last.toNat) := by
  by_cases h : c.toNat < 0x80
  · exact ⟨[],_,Utf8.encodeChar_ascii h,.inl ⟨rfl,Utf8.toNat_byte (by omega)⟩⟩
  · have hne : Utf8.encodeChar c ≠ [] := by
      unfold Utf8.encodeChar
      dsimp only
      split_ifs <;> simp
    obtain ⟨front,last,hbytes⟩ := (List.eq_nil_or_concat _).resolve_left hne
    rw [List.concat_eq_append] at hbytes
    exact ⟨front,last,hbytes,.inr ⟨by omega,Utf8.le_encodeChar h last (by simp [hbytes])⟩⟩

/-- Reading the last byte of a character as a letter tells whether the character is one. -/
theorem isAlpha_last_byte {c : Char} {last : UInt8} {front : Bytes}
    (h : front = [] ∧ last.toNat = c.toNat ∨ 0x80 ≤ c.toNat ∧ 0x80 ≤ last.toNat) :
    ((Char.ofNat last.toNat).isAlpha && decide (last < 0x80)) = c.isAlpha := by
  have hascii (halpha : c.isAlpha) : c.toNat < 0x80 := by
    have := Drive.toNat_of_isAlpha halpha
    omega
  rcases h with ⟨-,h⟩ | ⟨hc,hlast⟩
  · rw [h,Char.ofNat_toNat]
    by_cases halpha : c.isAlpha
    · have hlow : last < 0x80 := UInt8.lt_iff_toNat_lt.mpr (by simpa [h] using hascii halpha)
      simp [halpha,hlow]
    · simp [halpha]
  · have hnot : ¬ last < 0x80 := fun hlow => by
      have := UInt8.lt_iff_toNat_lt.mp hlow
      simp at this
      omega
    have hother : ¬ c.isAlpha := fun halpha => by
      have := hascii halpha
      omega
    simp [hnot,hother]

theorem isDrive_last_byte {b : Char} {last : UInt8} (h : last.toNat = b.toNat) (a : Char) :
    Drive.isDrive [a,b] = (a.isAlpha && (decide (last = 0x3A) || decide (last = 0x7C))) := by
  have hsame {n : UInt8} {c : Char} (hn : n.toNat = c.toNat) : last = n ↔ b = c := by
    rw [← UInt8.toNat_inj,h,hn]
    exact ⟨fun h => by rw [← Char.ofNat_toNat b,h,Char.ofNat_toNat],fun h => by rw [h]⟩
  simp only [Drive.isDrive,hsame (n := 0x3A) (c := ':') rfl,hsame (n := 0x7C) (c := '|') rfl]

theorem not_ends_of_le {b : Char} (h : 0x80 ≤ b.toNat) {before : List Char} (hbefore : before ≠ []) :
    Drive.ends (before ++ [b]) = false := by
  have hne {c : Char} (hc : c.toNat < 0x80) : b ≠ c := by
    rintro rfl
    omega
  obtain ⟨front,a,rfl⟩ := (List.eq_nil_or_concat before).resolve_left hbefore
  rw [List.concat_eq_append,List.append_assoc,List.singleton_append,Drive.ends_append]
  simp [Drive.isDrive,hne (c := ':') (by decide),hne (c := '|') (by decide)]

/-- The bytes of a path are closed if it ends in a drive letter. -/
theorem closeDrive_encode (cs : List Char) : closeDrive (Utf8.encode ('/' :: cs)) =
    Utf8.encode ('/' :: cs ++ if Drive.ends ('/' :: cs) then ['/'] else []) := by
  rcases List.eq_nil_or_concat cs with rfl | ⟨before,b,rfl⟩
  · rfl
  rw [List.concat_eq_append,← List.cons_append]
  have hslash : Utf8.encodeChar '/' = [0x2F] := rfl
  obtain ⟨front,last,hbytes,⟨rfl,hlast⟩ | ⟨hb,hlast⟩⟩ := exists_last_byte b
  · have hencode : Utf8.encode ('/' :: before ++ [b]) = Utf8.encode ('/' :: before) ++ [last] := by
      rw [Utf8.encode_append]
      simp [Utf8.encode,hbytes]
    rcases List.eq_nil_or_concat before with rfl | ⟨before,a,rfl⟩
    · -- a slash is no letter
      have hends : Drive.ends ('/' :: [] ++ [b]) = false := rfl
      rw [hends,if_neg (by decide),List.append_nil,hencode]
      rfl
    · obtain ⟨front,next,hnext,halpha⟩ := exists_last_byte a
      have htext : '/' :: before.concat a ++ [b] = '/' :: before ++ [a,b] := by simp
      have hpair : Utf8.encode ('/' :: before.concat a) ++ [last] = 0x2F :: Utf8.encode before ++ front ++ [next,last] := by
        rw [List.concat_eq_append,← List.cons_append,Utf8.encode_append]
        simp [Utf8.encode,hnext,hslash]
      have hends : Drive.ends ('/' :: before.concat a ++ [b]) = Drive.isDrive [a,b] := by rw [htext,Drive.ends_append]
      rw [Utf8.encode_append _ (ite ..),hencode,hpair,closeDrive_append (by simp),isAlpha_last_byte halpha,hends,
        isDrive_last_byte hlast]
      split <;> simp [Utf8.encode,hslash]
  · have hencode : Utf8.encode ('/' :: before ++ [b]) = Utf8.encode ('/' :: before) ++ front ++ [last] := by
      rw [Utf8.encode_append]
      simp [Utf8.encode,hbytes]
    have hhigh {n : UInt8} (hn : n.toNat < 0x80) : last ≠ n := by
      rintro rfl
      omega
    rw [not_ends_of_le hb (by simp),if_neg (by decide),List.append_nil,hencode,
      closeDrive_of_ne (hhigh (by decide)) (hhigh (by decide))]

theorem flatMap_decode (names : List (List Char)) :
    ((names.map (encode inFileName)).map String.ofList).flatMap (fun s => 0x2F :: decode s.toList) =
      Utf8.encode (slashed names) := by
  induction names with
  | nil => rfl
  | cons name names ih =>
    have hslashed : slashed (name :: names) = '/' :: name ++ slashed names := rfl
    have hslash : Utf8.encode ('/' :: name) = 0x2F :: Utf8.encode name := rfl
    rw [hslashed,Utf8.encode_append,hslash,List.map_cons,List.map_cons,List.flatMap_cons,ih,String.toList_ofList,
      decode_encode (by decide)]

/-- The path of a URL that has the names of a path for its segments. -/
theorem filePath?_encode (name : List Char) (names : List (List Char)) :
    filePath? (localFile (.segments (((name :: names).map (encode inFileName)).map String.ofList))) =
      some (Utf8.encode (slashed (name :: names) ++ if Drive.ends (slashed (name :: names)) then ['/'] else [])) := by
  have hclose := closeDrive_encode (name ++ slashed names)
  have hflat := flatMap_decode (name :: names)
  have hslashed : slashed (name :: names) = '/' :: (name ++ slashed names) := rfl
  rw [hslashed,← hclose,← hslashed,← hflat]
  rfl

end Url
end SchemaBinding
