import SchemaBinding.Model.Simplify
import SchemaBinding.Proofs.Output.Modules
import SchemaBinding.Proofs.Packages.Layout
import SchemaBinding.Proofs.Packages.Pieces
import SchemaBinding.Settings

/-! Files of packages. A package is divided at its dots, and the dots in the names of directories divide it too; empty
pieces are lost on the way to the file. Main statement: two documents of a group share a package if and only if the names
of their directories below the shared one come to the same pieces, and share a file if and only if these come to the same
pieces without the empty ones; so directories whose names have no dots share neither. -/
namespace SchemaBinding
namespace Packages
open SchemaBinding.Path (Dotless)

/-! ## Pieces of packages -/

/-- The pieces between the dots of a package or of the name of a directory. -/
def dotted (name : String) : List String := (name.toList.splitOn '.').map String.ofList

theorem dotted_spec {name piece : String} (h : piece ∈ dotted name) :
    Dotless piece ∧ piece.toList ⊆ name.toList := by
  obtain ⟨cs,hcs,rfl⟩ := List.mem_map.mp h
  simpa [Dotless] using Path.mem_splitOn_spec hcs

theorem dotted_injective : Function.Injective dotted := by
  intro s t h
  have hpieces := List.map_injective_iff.mpr (fun _ _ hcs => String.ofList_injective hcs) h
  have hlists := congrArg (['.'].intercalate ·) hpieces
  simpa [List.intercalate_splitOn,String.toList_inj] using hlists

theorem dotted_of_dotless {name : String} (h : Dotless name) : dotted name = [name] := by
  rw [dotted,List.splitOn_eq_singleton h]
  simp

theorem dotted_append (s t : String) : dotted (s ++ "." ++ t) = dotted s ++ dotted t := by
  simp [dotted,List.splitOn_append_cons_self]

/-- The names of directories are pieces of the package, or come to several. -/
theorem dotted_packageBelow (package : String) (names : List String) :
    dotted (packageBelow package names) = dotted package ++ names.flatMap dotted := by
  cases names with
  | nil => simp [packageBelow]
  | cons s rest =>
    have hjoined : dotted (".".intercalate (s :: rest)) = (s :: rest).flatMap dotted := by
      induction rest generalizing s with
      | nil => simp
      | cons t rest ih => rw [String.intercalate_cons_cons,dotted_append,ih,List.flatMap_cons (x:=s)]
    rw [packageBelow,if_neg (List.cons_ne_nil s rest),dotted_append,hjoined]

/-- The directories of two documents come to one package. -/
def SamePackage (us : List String) (u v : String) : Prop :=
  (below (baseOf us) u).flatMap dotted = (below (baseOf us) v).flatMap dotted

/-- The directories of two documents come to one file. -/
def SameFile (us : List String) (u v : String) : Prop :=
  ((below (baseOf us) u).flatMap dotted).filter (· ≠ "") = ((below (baseOf us) v).flatMap dotted).filter (· ≠ "")

theorem packageOf_eq_iff (us : List String) (package u v : String) :
    packageOf (baseOf us) package u = packageOf (baseOf us) package v ↔ SamePackage us u v := by
  rw [packageOf_eq_packageBelow,packageOf_eq_packageBelow,← dotted_injective.eq_iff,dotted_packageBelow,
    dotted_packageBelow,List.append_cancel_left_eq,SamePackage]

theorem no_slash_below (base : List String) (uri : String) : ∀ name ∈ below base uri, '/' ∉ name.toList := by
  intro name hname
  obtain ⟨cs,hcs,rfl⟩ := List.mem_map.mp (List.mem_of_mem_filter (below_subset _ _ hname))
  simpa using (Path.mem_splitOn_spec hcs).1

/-- Where no name has a dot, documents that are apart share a package, or a file, if they are in one directory. -/
theorem same_iff_of_dotless {us : List String} (hnodup : us.Nodup) (hapart : Apart us) {u v : String} (hu : u ∈ us)
    (hv : v ∈ us) (hdotless : ∀ name ∈ below (baseOf us) u ++ below (baseOf us) v, Dotless name) :
    (SamePackage us u v ↔ (segments u).dropLast = (segments v).dropLast) ∧
      (SameFile us u v ↔ (segments u).dropLast = (segments v).dropLast) := by
  have hshared := sharedDirectory_baseOf (List.ne_nil_of_mem hu) hnodup hapart
  have hbelow {uri : String} (huri : uri ∈ us) : (segments uri).dropLast = baseOf us ++ below (baseOf us) uri := by
    obtain ⟨rest,hrest⟩ := hshared.shared uri huri
    rw [below,← hrest,stripPrefix_append]
  have hpieces {uri : String} (h : ∀ name ∈ below (baseOf us) uri, Dotless name) :
      (below (baseOf us) uri).flatMap dotted = below (baseOf us) uri := by
    rw [List.flatMap_congr fun name hname => dotted_of_dotless (h name hname)]
    exact List.flatMap_singleton' _
  have hnonempty (uri : String) : (below (baseOf us) uri).filter (· ≠ "") = below (baseOf us) uri := by
    refine List.filter_eq_self.mpr fun name hname => ?_
    simpa using ne_empty_of_mem_segments (below_subset _ _ hname)
  obtain ⟨hleft,hright⟩ := List.forall_mem_append.mp hdotless
  rw [SamePackage,SameFile,hpieces hleft,hpieces hright,hnonempty,hnonempty,hbelow hu,hbelow hv,
    List.append_cancel_left_eq]
  exact ⟨.rfl,.rfl⟩

end Packages

namespace Output
open Packages (dotted packageBelow)
open SchemaBinding.Path (Dotless)

/-! ## Files of packages -/

theorem Format.file_path (format : Format) (m : Module) :
    (format.file m).path = (Path.ofPieces (dotted m.package)).withExtension format.extension := by
  rw [Format.file,dotted]

theorem text_ofPieces_ne {pieces : List String} (hne : pieces ≠ []) (h : ∀ piece ∈ pieces, piece ≠ "") :
    (Path.ofPieces pieces).text ≠ "" := by
  rcases List.eq_nil_or_concat pieces with rfl | ⟨front,last,rfl⟩
  · exact absurd rfl hne
  · have hlast : last ≠ "" := h last (by simp)
    rw [List.concat_eq_append,Path.ofPieces,List.foldl_append]
    rcases Path.text_div (Path.ofPieces front) ⟨last⟩ with heq | heq | heq <;>
      simp_all [Path.ofPieces]

/-- What the file of a package below another leads through. -/
theorem names_packageBelow {package : String} (hvalid : ∀ piece ∈ dotted package, piece ≠ "") {names : List String}
    (hslash : ∀ name ∈ names, '/' ∉ name.toList) :
    let base := Path.ofPieces (dotted package)
    let path := Path.ofPieces (dotted (packageBelow package names))
    Dotless path.text ∧ path.isAbsolute = base.isAbsolute ∧
      path.names = base.names ++ (names.flatMap dotted).filter (· ≠ "") := by
  intro base path
  have hbase : Dotless base.text := .ofPieces fun piece hpiece => (Packages.dotted_spec hpiece).1
  have htext : base.text ≠ "" := text_ofPieces_ne (by simp [dotted]) hvalid
  have hpath : path = (names.flatMap dotted).foldl (fun p s => p / ⟨s⟩) base := by
    change Path.ofPieces _ = _
    rw [Packages.dotted_packageBelow,Path.ofPieces,List.foldl_append]
    rfl
  have hdotless : ∀ piece ∈ names.flatMap dotted, Dotless piece := by
    intro piece hpiece
    obtain ⟨name,_,hname⟩ := List.mem_flatMap.mp hpiece
    exact (Packages.dotted_spec hname).1
  have hplain : ∀ piece ∈ names.flatMap dotted, '/' ∉ piece.toList := by
    intro piece hpiece hmem
    obtain ⟨name,hname,hpiece⟩ := List.mem_flatMap.mp hpiece
    exact hslash name hname ((Packages.dotted_spec hpiece).2 hmem)
  refine ⟨.ofPieces fun piece hpiece => (Packages.dotted_spec hpiece).1,?_⟩
  rw [hpath]
  exact hbase.names_foldl htext hdotless hplain

/-- The files of packages below another are the same if the names come to the same pieces but for empty ones. -/
theorem file_eq_iff {package : String} (hvalid : ∀ piece ∈ dotted package, piece ≠ "") {ns ms : List String}
    (hns : ∀ name ∈ ns, '/' ∉ name.toList) (hms : ∀ name ∈ ms, '/' ∉ name.toList) {extension : String}
    (hextension : '/' ∉ extension.toList) :
    let p := (Path.ofPieces (dotted (packageBelow package ns))).withExtension extension
    let q := (Path.ofPieces (dotted (packageBelow package ms))).withExtension extension
    let same := (ns.flatMap dotted).filter (· ≠ "") = (ms.flatMap dotted).filter (· ≠ "")
    (p.components = q.components ↔ same) ∧
      ∀ (disk : Disk) (directory : Path), disk.destination (directory / p) = disk.destination (directory / q) ↔ same := by
  intro p q same
  obtain ⟨hp,hpabsolute,hpnames⟩ := names_packageBelow hvalid hns
  obtain ⟨hq,hqabsolute,hqnames⟩ := names_packageBelow hvalid hms
  have hsame : (Path.ofPieces (dotted (packageBelow package ns))).names =
      (Path.ofPieces (dotted (packageBelow package ms))).names ↔ same := by
    rw [hpnames,hqnames,List.append_cancel_left_eq]
  constructor
  · rw [hp.components_withExtension hextension,hq.components_withExtension hextension,Path.origin,Path.origin,
      hpabsolute,hqabsolute,List.append_cancel_left_eq,
      (List.map_injective_iff.mpr fun _ _ hname => Path.Component.normal.inj hname).eq_iff,
      (Path.extended_injective extension).eq_iff,hsame]
  · intro disk directory
    rw [hp.destination_div_withExtension hextension,hq.destination_div_withExtension hextension,hpabsolute,hqabsolute,
      List.append_cancel_left_eq,(Path.extended_injective extension).eq_iff,hsame]

/-- A class is in a file if it is in the module of the file. -/
def IsFileOf (format : Format) (cs : List Class) (f : File) (c : Class) : Prop :=
  ∃ m ∈ modules cs, c ∈ m.classes ∧ f = format.file m

theorem existsUnique_isFileOf (format : Format) {cs : List Class} {c : Class} (hc : c ∈ cs) :
    ∃! f, IsFileOf format cs f c := by
  obtain ⟨m,⟨hm,hcm⟩,hunique⟩ := existsUnique_module hc
  refine ⟨format.file m,⟨m,hm,hcm,rfl⟩,?_⟩
  rintro f ⟨n,hn,hcn,rfl⟩
  rw [hunique n ⟨hn,hcn⟩]

theorem mem_files_iff {format : Format} {cs : List Class} {f : File} :
    f ∈ (modules cs).map format.file ↔ ∃ c ∈ cs, IsFileOf format cs f c := by
  constructor
  · intro hf
    obtain ⟨m,hm,rfl⟩ := List.mem_map.mp hf
    obtain ⟨c,hc⟩ := List.exists_mem_of_ne_nil _ (modules_spec hm).1
    exact ⟨c,((mem_classes_iff hm).mp hc).1,m,hm,hc,rfl⟩
  · rintro ⟨c,_,m,hm,_,rfl⟩
    exact List.mem_map_of_mem hm

namespace Writer

theorem writeFiles_cons (directory : Path) (disk : Disk) (f : File) (rest : List File) :
    writeFiles directory disk (f :: rest) =
      match disk.place (directory / f.path) (Utf8.encodeString f.content) with
      | (placed,.error e) => (placed,.error e)
      | (placed,.ok ()) =>
        ((writeFiles directory placed rest).1,(writeFiles directory placed rest).2.map (directory / f.path :: ·)) :=
  (rfl)

theorem wrote_writeFiles {directory : Path} {disk disk' : Disk} {files : List File} {targets : List Path}
    (h : writeFiles directory disk files = (disk',.ok targets)) :
    disk.Wrote (files.map fun f => (directory / f.path,Utf8.encodeString f.content)) disk' := by
  induction files generalizing disk targets with
  | nil =>
    obtain ⟨rfl,_⟩ := Prod.mk.inj h
    exact .refl disk
  | cons f rest ih =>
    rw [writeFiles_cons] at h
    rcases disk.wrote_place (directory / f.path) (Utf8.encodeString f.content) with
      ⟨placed,hplace,hwrote⟩ | ⟨placed,failure,hplace,_⟩
    · simp only [hplace,Prod.mk.injEq] at h
      obtain ⟨hdisk,hwritten⟩ := h
      cases hrest : (writeFiles directory placed rest).2 with
      | error failure => simp [hrest,Except.map] at hwritten
      | ok written => exact hwrote.trans (ih (Prod.ext hdisk hrest))
    · simp only [hplace,Prod.mk.injEq,reduceCtorEq,and_false] at h

/-- At the path of each file stands the last one that is at the same place. -/
def Stored (directory : Path) (files : List File) (disk disk' : Disk) : Prop :=
  ∀ f ∈ files, ∃ g, (files.reverse.find? fun g =>
      disk.destination (directory / g.path) = disk.destination (directory / f.path)) = some g ∧
    disk'.read (directory / f.path) = .ok (Utf8.encodeString g.content)

theorem stored_of_write {w : Writer} {disk disk' : Disk} {cs : List Class} {name : String} {files : List File}
    {targets : List Path} (hrender : w.render cs name = .ok files) (h : w.write disk cs name = (disk',.ok targets)) :
    Stored w.directory files disk disk' := by
  intro f hf
  rw [write,hrender] at h
  have hwrote := wrote_writeFiles h
  have hplace : ∀ g ∈ files.reverse, decide (disk'.locate? (w.directory / g.path) = disk'.locate? (w.directory / f.path)) =
      decide (disk.destination (w.directory / g.path) = disk.destination (w.directory / f.path)) := by
    have hlocated {g : File} (hg : g ∈ files) :
        disk'.locate? (w.directory / g.path) = some (disk.destination (w.directory / g.path)) := by
      obtain ⟨here,hhere⟩ := Option.isSome_iff_exists.mp (hwrote.located _ (List.mem_map_of_mem hg))
      rw [hhere,← hwrote.grows.destination_eq,Disk.destination_of_locate? hhere]
    intro g hg
    simp only [hlocated (List.mem_reverse.mp hg),hlocated hf,Option.some.injEq]
  obtain ⟨v,hv,hread⟩ := hwrote.read_eq (List.mem_map_of_mem hf)
  rw [← List.map_reverse,List.find?_map,Option.map_eq_some_iff] at hv
  obtain ⟨g,hg,rfl⟩ := hv
  exact ⟨g,(List.find?_congr hplace).symm.trans hg,hread⟩

end Writer
end Output

namespace Settings

/-- Settings that are accepted name a package without empty pieces. -/
theorem ne_empty_of_validate {s : Settings} (h : s.validate = .ok ()) :
    ∀ piece ∈ Packages.dotted s.package, piece ≠ "" := by
  unfold validate at h
  split at h
  · cases h
  · split at h
    · cases h
    · rename_i hpieces
      intro piece hpiece
      obtain ⟨cs,hcs,rfl⟩ := List.mem_map.mp hpiece
      simp only [List.any_eq_true,not_exists,not_and] at hpieces
      simpa using hpieces cs hcs

end Settings

namespace Corpus
open Packages Output

/-- The classes of a document. -/
def classesOf (c : Corpus) (uri : String) : List Class := (c.get? uri).getD []

theorem mem_allClasses_of_mem_classesOf {c : Corpus} {uri : String} {a : Class} (h : a ∈ c.classesOf uri) :
    a ∈ c.allClasses := by
  cases hget : c.get? uri with
  | none => simp [classesOf,hget] at h
  | some classes =>
    have hclasses : classes ∈ c.documents.values := OrderedMap.mem_values.mpr ⟨uri,hget⟩
    exact List.mem_flatten.mpr ⟨classes,hclasses,by simpa [classesOf,hget] using h⟩

theorem package_of_mem_classesOf {c : Corpus} {package uri : String} {common? : Option String} {a : Class}
    (h : a ∈ (c.assignPackages package common?).classesOf uri) :
    a.package = some (documentPackage c.uris package common? uri) := by
  rw [classesOf,get?_assignPackages] at h
  cases hget : c.get? uri with
  | none => simp [hget] at h
  | some classes =>
    rw [hget,Option.map_some,Option.getD_some] at h
    exact Class.everywhere_assignPackages _ classes a h a (.self a)

/-- How the classes of two documents of a group are told apart. -/
structure ToldApart (after : Corpus) (format : Format) (files : List File) (us : List String) (u v : String) : Prop where
  /-- Each class is in one file. -/
  filed : ∀ uri ∈ us, ∀ a ∈ after.classesOf uri, ∃! f, f ∈ files ∧ IsFileOf format after.allClasses f a
  /-- A class of one document is taken for one of the other if it has the same name and they share a package. -/
  duplicate : ∀ a ∈ after.classesOf u, ∀ b ∈ after.classesOf v, Simplify.classKey a = Simplify.classKey b ↔
    SamePackage us u v ∧ a.space = b.space ∧ a.name = b.name ∧ a.kind = b.kind
  path : ∀ a ∈ after.classesOf u, ∀ b ∈ after.classesOf v, ∀ f g, IsFileOf format after.allClasses f a →
    IsFileOf format after.allClasses g b → (f.path.components = g.path.components ↔ SameFile us u v)
  /-- Below any directory, the two files are at one place if they have the same path. -/
  place : ∀ a ∈ after.classesOf u, ∀ b ∈ after.classesOf v, ∀ f g, IsFileOf format after.allClasses f a →
    IsFileOf format after.allClasses g b → ∀ (disk : Disk) (directory : Path),
      disk.destination (directory / f.path) = disk.destination (directory / g.path) ↔ SameFile us u v
  /-- So they are told apart if they are in different directories, the names of these have no dots, and no document of
  the group is a directory of another. -/
  plain : Apart us → (∀ name ∈ below (baseOf us) u ++ below (baseOf us) v, Path.Dotless name) →
    (segments u).dropLast ≠ (segments v).dropLast → ¬ SamePackage us u v ∧ ¬ SameFile us u v

/-- The classes of a group are told apart by the pieces that the names of directories come to. -/
theorem render_toldApart (c : Corpus) {s : Settings} (hvalid : s.validate = .ok ()) {w : Writer} {format : Format}
    (hformat : w.format s.output = .ok format) (hextension : '/' ∉ format.extension.toList) {common? : Option String}
    {n : Nat} {us : List String} (hus : (group c.uris common?).get? n = some us) {u v : String} (hu : u ∈ us)
    (hv : v ∈ us) :
    ∃ files, w.render (c.assignPackages s.package common?).allClasses s.output = .ok files ∧
      ToldApart (c.assignPackages s.package common?) format files us u v ∧
      ∀ disk disk' targets, w.write disk (c.assignPackages s.package common?).allClasses s.output = (disk',.ok targets) →
        Writer.Stored w.directory files disk disk' := by
  have hnodup : c.uris.Nodup := c.documents.keys_nodup
  have hpieces := Settings.ne_empty_of_validate hvalid
  have hpackage {uri : String} (huri : uri ∈ us) {a : Class}
      (ha : a ∈ (c.assignPackages s.package common?).classesOf uri) :
      a.package = some (packageOf (baseOf us) s.package uri) := by
    rw [package_of_mem_classesOf ha,documentPackage_of_group hnodup hus huri]
  -- the path of a file, by the directories of a document whose class is in it
  have hfile {uri : String} (huri : uri ∈ us) {a : Class} (ha : a ∈ (c.assignPackages s.package common?).classesOf uri)
      {f : File} (hf : IsFileOf format (c.assignPackages s.package common?).allClasses f a) :
      f.path = (Path.ofPieces (dotted (packageBelow s.package (below (baseOf us) uri)))).withExtension
        format.extension := by
    obtain ⟨m,hm,ham,rfl⟩ := hf
    rw [Format.file_path,← ((mem_classes_iff hm).mp ham).2,packageName,hpackage huri ha,packageOf_eq_packageBelow,
      Option.getD_some]
  have hsame := file_eq_iff hpieces (no_slash_below (baseOf us) u) (no_slash_below (baseOf us) v) hextension
  refine ⟨_,render_eq hformat _,⟨?_,?_,?_,?_,?_⟩,fun _ _ _ => Writer.stored_of_write (render_eq hformat _)⟩
  · intro uri _ a ha
    obtain ⟨f,hf,hunique⟩ := existsUnique_isFileOf format (mem_allClasses_of_mem_classesOf ha)
    exact ⟨f,⟨mem_files_iff.mpr ⟨a,mem_allClasses_of_mem_classesOf ha,hf⟩,hf⟩,fun g hg => hunique g hg.2⟩
  · intro a ha b hb
    simp only [Simplify.classKey,Simplify.ClassKey.mk.injEq,hpackage hu ha,hpackage hv hb,Option.some.injEq,
      packageOf_eq_iff]
  · intro a ha b hb f g hf hg
    rw [hfile hu ha hf,hfile hv hb hg]
    exact hsame.1
  · intro a ha b hb f g hf hg disk directory
    rw [hfile hu ha hf,hfile hv hb hg]
    exact hsame.2 disk directory
  · intro hapart hdotless hdifferent
    have hsame := same_iff_of_dotless ((pairwise_of_get?_group hnodup hus).imp ne_of_lt) hapart hu hv hdotless
    exact ⟨fun h => hdifferent (hsame.1.mp h),fun h => hdifferent (hsame.2.mp h)⟩

/-- A document in a directory whose name begins with a dot, and one in a directory of that name without the dot. -/
def hidden : Corpus :=
  let order : Class := { name := "Order", kind := .complexType, isRoot := true }
  let part : Class := { name := "Part", kind := .complexType, isRoot := true }
  (({} : Corpus).record "file:///s/.x/part" [part]).record "file:///s/x/order" [order]

theorem get?_group_hidden : (group hidden.uris none).get? 1 = some ["file:///s/.x/part","file:///s/x/order"] := by
  rw [group,List.mergeSort_of_pairwise (by decide +kernel)]
  decide +kernel

theorem assignments_hidden : Packages.assignments hidden.uris "generated" none =
    [("file:///s/.x/part","generated..x"),("file:///s/x/order","generated.x")] := by
  rw [Packages.assignments,Packages.group,List.mergeSort_of_pairwise (by decide +kernel)]
  decide +kernel

theorem path_text_hidden : (({} : Writer).render (hidden.assignPackages "generated" none).allClasses
    "json").toOption.map (List.map fun f => f.path.text) = some ["generated/x.json","generated/x.json"] := by
  rw [assignPackages,assignments_hidden]
  decide +kernel

/-- Both files are called the same. -/
theorem render_toldApart_hidden : ∃ files,
    ({} : Writer).render (hidden.assignPackages "generated" none).allClasses "json" = .ok files ∧
      files.map (fun f => f.path.text) = ["generated/x.json","generated/x.json"] ∧
      ToldApart (hidden.assignPackages "generated" none) .json files ["file:///s/.x/part","file:///s/x/order"]
        "file:///s/.x/part" "file:///s/x/order" ∧
      ∀ disk disk' targets,
        ({} : Writer).write disk (hidden.assignPackages "generated" none).allClasses "json" = (disk',.ok targets) →
          Writer.Stored ⟨"."⟩ files disk disk' := by
  have hformat : ({} : Writer).format ({} : Settings).output = .ok .json := rfl
  obtain ⟨files,hrender,htold,hstored⟩ := render_toldApart hidden (s:={}) (by decide +kernel) hformat (by decide +kernel)
    get?_group_hidden (u:="file:///s/.x/part") (v:="file:///s/x/order") (by simp) (by simp)
  have hpaths := path_text_hidden
  rw [hrender] at hpaths
  exact ⟨files,hrender,Option.some.inj hpaths,htold,hstored⟩

/-- The packages differ, and so do the directories, but the file is the same. -/
theorem hidden_share_file : ({} : Settings).validate = .ok () ∧
    (group hidden.uris none).get? 1 = some ["file:///s/.x/part","file:///s/x/order"] ∧
    (segments "file:///s/.x/part").dropLast ≠ (segments "file:///s/x/order").dropLast ∧
    (({} : Writer).render (hidden.assignPackages "generated" none).allClasses "json").toOption.map
      (List.map fun f => f.path.text) = some ["generated/x.json","generated/x.json"] ∧
    (hidden.assignPackages "generated" none).allClasses.map (fun c => (c.name,c.package)) =
      [("Part",some "generated..x"),("Order",some "generated.x")] := by
  refine ⟨by decide +kernel,get?_group_hidden,by decide +kernel,path_text_hidden,?_⟩
  rw [assignPackages,assignments_hidden]
  decide +kernel

end Corpus
end SchemaBinding
