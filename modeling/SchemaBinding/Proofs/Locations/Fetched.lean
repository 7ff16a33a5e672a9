import SchemaBinding.Proofs.Downloads.Places
import SchemaBinding.Proofs.Locations.Reread
import SchemaBinding.Proofs.Reading.Located
import SchemaBinding.Supply

/-! Files that are fetched by the URIs of their paths. A path of names only is made into a URI as it is, whether it exists or
not. Its names are the segments of the URL, so the URI leads to the same path again, unless a drive letter in it makes the
URL stand for another path: one in front that has a bar, or one at the end, whether it is a whole name or not.
Main statement: a file is fetched by the URI of its path. -/
namespace SchemaBinding
open Uri Segments Percent

namespace Path

/-- A path from the root through names only. -/
structure IsPlain (p : Path) : Prop where
  absolute : p.isAbsolute
  names : ∀ piece ∈ p.pieces, piece ≠ "" ∧ piece ≠ "." ∧ piece ≠ ".."

/-- The path that a URI made of a path stands for: a drive letter in front has a colon, and one at the end is closed. -/
def reread (p : Path) : Path :=
  let text := match p.body.splitOn '/' with
    | [] => []
    | name :: names => slashed (Drive.settle name :: names)
  ⟨String.ofList (text ++ if Drive.ends text then ['/'] else [])⟩

theorem slashed_splitOn (cs : List Char) : slashed (cs.splitOn '/') = '/' :: cs := by
  have hslashed {names : List (List Char)} (h : names ≠ []) : slashed names = '/' :: ['/'].intercalate names := by
    induction names with
    | nil => contradiction
    | cons name names ih =>
      cases names with
      | nil => simp [slashed]
      | cons next names =>
        have hcons : slashed (name :: next :: names) = '/' :: name ++ slashed (next :: names) := rfl
        rw [hcons,ih (by simp),List.intercalate_cons_cons]
        simp
  rw [hslashed (by simp),List.intercalate_splitOn]

theorem mk_ofList_eq_iff {cs : List Char} {p : Path} : (⟨String.ofList cs⟩ : Path) = p ↔ cs = p.text.toList := by
  obtain ⟨text⟩ := p
  rw [Path.mk.injEq,← String.toList_inj,String.toList_ofList]

namespace IsPlain
variable {p : Path} (h : p.IsPlain)
include h

theorem toList_text : p.text.toList = '/' :: p.body := by
  have hhead : p.text.toList.head? = some '/' := by simpa [isAbsolute] using h.absolute
  rw [body,if_pos h.absolute]
  exact (List.cons_head?_tail hhead).symm

theorem components_eq : p.components = .root :: p.pieces.map .normal := by
  have hfilter : (p.pieces.filter fun s => s ≠ "" && s ≠ ".") = p.pieces :=
    List.filter_eq_self.mpr fun piece hpiece => by simp [h.names piece hpiece]
  rw [components,if_pos h.absolute,componentsOfPieces,hfilter]
  congr 1
  exact List.map_congr_left fun piece hpiece => if_neg (h.names piece hpiece).2.2

theorem locate?_eq {disk : Disk} {here : List String} (hplace : disk.locate? p = some here) : here = p.pieces := by
  rw [← Disk.destination_of_locate? hplace,Disk.destination,h.components_eq]
  have hnames := foldl_step_names p.pieces []
  simpa [Component.step] using hnames

theorem pathOf_pieces : Disk.pathOf p.pieces = p := by
  have hnames : p.pieces.map String.toList = p.body.splitOn '/' := by simp [pieces_eq]
  have htext : "/" ++ "/".intercalate p.pieces = p.text := by
    rw [← String.toList_inj,String.toList_append,String.toList_intercalate,hnames,h.toList_text]
    simp [List.intercalate_splitOn]
  rw [Disk.pathOf,htext]

/-- Made into a URI a path stays as it is, whether it exists or not. -/
theorem uriOfPath_eq (disk : Disk) : Location.uriOfPath disk p =
    .ok (Url.localFile (.segments (((p.body.splitOn '/').map (encode inFileName)).map String.ofList))).text := by
  have hsame : (disk.canonical? p).getD (disk.absolute p) = p := by
    cases hplace : disk.locate? p with
    | none => rw [Disk.canonical?,hplace,Option.map_none,Option.getD_none,Disk.absolute,if_pos h.absolute]
    | some here => rw [Disk.canonical?,hplace,h.locate?_eq hplace,Option.map_some,h.pathOf_pieces,Option.getD_some]
  have hurl : Url.ofPath? p =
      some (Url.localFile (.segments (((p.body.splitOn '/').map (encode inFileName)).map String.ofList))) := by
    rw [Url.ofPath?,if_pos h.absolute,h.components_eq,pieces_eq]
    simp [Function.comp_def,Component.text]
  simp only [Location.uriOfPath,hsame,hurl]

theorem isSegment_encode {name : List Char} (hname : name ∈ p.body.splitOn '/') : IsSegment (encode inFileName name) := by
  have hpiece : String.ofList name ∈ p.pieces := by
    rw [pieces_eq]
    exact List.mem_map_of_mem hname
  obtain ⟨hempty,hcurrent,hparent⟩ := h.names _ hpiece
  refine Segments.isSegment_encode ?_ ?_ ?_
  all_goals
    rintro rfl
    contradiction

/-- The URI of a path stands for the path that it is read again as. -/
theorem readLocation_eq (disk : Disk) (allowRemote : Bool) : ∃ uri, Location.uriOfPath disk p = .ok uri ∧
    Supply.readLocation disk allowRemote (Location.classify disk uri) = Supply.readFile disk p.reread := by
  refine ⟨_,h.uriOfPath_eq disk,?_⟩
  obtain ⟨name,names,hnames⟩ := List.exists_cons_of_ne_nil (List.splitOn_ne_nil '/' p.body)
  have hparse := Url.parse?_encode fun n hn => h.isSegment_encode (hnames ▸ hn)
  have hpath := Url.filePath?_encode (Drive.settle name) names
  generalize hu : Url.localFile (.segments (((Drive.settle name :: names).map (encode inFileName)).map String.ofList)) = u
    at hparse hpath
  have hscheme : u.scheme = "file" := by rw [← hu]; rfl
  have hlong : 1 < u.scheme.length := by
    rw [hscheme]
    decide
  have hclassify : Location.classify disk _ = .url u :=
    Location.classify_eq_url_iff.mpr ((congrArg _ hparse).trans (Option.filter_some_pos (by simpa using hlong)))
  simp only [reread,hnames]
  rw [hclassify,Supply.readLocation,Supply.readUrl,if_pos hscheme,hpath]
  simp only [Utf8.decodeString?_encode]

/-- The path that is read again is the path, but for drive letters. -/
theorem reread_eq_iff : p.reread = p ↔
    (∀ a, a.isAlpha → p.pieces.head? ≠ some (String.ofList [a,'|'])) ∧ ¬ Drive.ends p.text.toList := by
  obtain ⟨name,names,hnames⟩ := List.exists_cons_of_ne_nil (List.splitOn_ne_nil '/' p.body)
  have htext : p.text.toList = slashed (name :: names) := by rw [h.toList_text,← slashed_splitOn,hnames]
  have hhead : p.pieces.head? = some (String.ofList name) := by rw [pieces_eq,hnames]; rfl
  have hfirst : (∀ a, a.isAlpha → p.pieces.head? ≠ some (String.ofList [a,'|'])) ↔ Drive.settle name = name := by
    simp only [hhead,Drive.settle_eq_self_iff,ne_eq,Option.some.injEq,String.ofList_inj]
  have hsame : p.reread = p ↔ slashed (Drive.settle name :: names) ++
      (if Drive.ends (slashed (Drive.settle name :: names)) then ['/'] else []) = slashed (name :: names) := by
    rw [← htext,← mk_ofList_eq_iff]
    simp only [reread,hnames]
  rw [hfirst,htext,hsame]
  constructor
  · intro heq
    have hlength := congrArg List.length heq
    have hlast : ¬ Drive.ends (slashed (Drive.settle name :: names)) := by
      intro hends
      rw [if_pos hends] at hlength
      simp [slashed] at hlength
    rw [if_neg hlast,List.append_nil] at heq
    have hsettle : Drive.settle name = name := by simpa [slashed] using heq
    exact ⟨hsettle,heq ▸ hlast⟩
  · rintro ⟨hsettle,hlast⟩
    rw [hsettle,if_neg hlast,List.append_nil]

end IsPlain
end Path

namespace Supply

theorem fetch_uriOfPath_eq {p : Path} (h : p.IsPlain) (disk : Disk) (limits : Limits) (allowRemote : Bool) :
    ∃ uri, Location.uriOfPath disk p = .ok uri ∧ (Supply.disk limits allowRemote).fetch disk uri = (do
      let bytes ← readFile disk p.reread
      limits.checkDocumentSize bytes.length
      return bytes) := by
  obtain ⟨uri,huri,hread⟩ := h.readLocation_eq disk allowRemote
  exact ⟨uri,huri,by simp only [Supply.disk,hread]⟩

variable {disk : Disk} {p : Path} {here : List String} {bytes : Bytes} {limits : Limits}

/-- A file is fetched by the URI of its path. -/
theorem fetch_uriOfPath (h : p.IsPlain) (hplace : disk.locate? p = some here) (hfile : disk.files.get? here = some bytes)
    (hsize : bytes.length ≤ limits.maxDocumentSize) (hfirst : ∀ a, a.isAlpha → p.pieces.head? ≠ some (String.ofList [a,'|']))
    (hlast : ¬ Drive.ends p.text.toList) (allowRemote : Bool) :
    ∃ uri, Location.uriOfPath disk p = .ok uri ∧ (Supply.disk limits allowRemote).fetch disk uri = .ok bytes := by
  obtain ⟨uri,huri,hfetch⟩ := fetch_uriOfPath_eq h disk limits allowRemote
  refine ⟨uri,huri,?_⟩
  rw [hfetch,h.reread_eq_iff.mpr ⟨hfirst,hlast⟩,readFile,Disk.read_of_locate? hplace hfile]
  exact congrArg (fun checked => do checked; return bytes) (Limits.checkDocumentSize_eq_ok_iff.mpr hsize)

theorem fetch_uriOfPath_unusual :
    let disk := ({} : Disk).mount ["x y","100%","#?|é:z"] (some [104,105])
    ∃ uri, Location.uriOfPath disk ⟨"/x y/100%/#?|é:z"⟩ = .ok uri ∧ (Supply.disk {} true).fetch disk uri = .ok [104,105] := by
  intro disk
  have hplace : disk.locate? ⟨"/x y/100%/#?|é:z"⟩ = some ["x y","100%","#?|é:z"] := by decide +kernel
  have hhead : (Path.mk "/x y/100%/#?|é:z").pieces.head? = some "x y" := by decide
  have hfirst (a : Char) (_ : a.isAlpha) : (Path.mk "/x y/100%/#?|é:z").pieces.head? ≠ some (String.ofList [a,'|']) := by
    intro h
    have hlist := congrArg (Option.map String.toList) (hhead.symm.trans h)
    simp at hlist
  exact fetch_uriOfPath ⟨by decide,by decide⟩ hplace (by decide) (by decide) hfirst (by decide) true

/-- A path that ends in a drive letter is closed, so no file is there; and a bar after a drive letter in front is read as a
colon, so another file is fetched. -/
theorem fetch_drive_letters :
    let disk := ((({} : Disk).mount ["ab:"] (some [1])).mount ["C|","x"] (some [2])).mount ["C:","x"] (some [3])
    (Path.IsPlain ⟨"/ab:"⟩ ∧ disk.locate? ⟨"/ab:"⟩ = some ["ab:"] ∧ disk.files.get? ["ab:"] = some [1] ∧
      Location.uriOfPath disk ⟨"/ab:"⟩ = .ok "file:///ab:" ∧
      (Supply.disk {} true).fetch disk "file:///ab:" = .error (.resource (.unreadableFile "/ab:/" .unavailable))) ∧
    Path.IsPlain ⟨"/C|/x"⟩ ∧ disk.locate? ⟨"/C|/x"⟩ = some ["C|","x"] ∧ disk.files.get? ["C|","x"] = some [2] ∧
      Location.uriOfPath disk ⟨"/C|/x"⟩ = .ok "file:///C|/x" ∧
      (Supply.disk {} true).fetch disk "file:///C|/x" = .ok [3] := by
  intro disk
  refine ⟨⟨⟨by decide,by decide⟩,?_,?_,?_,?_⟩,⟨by decide,by decide⟩,?_,?_,?_,?_⟩
  all_goals decide +kernel

end Supply
end SchemaBinding
