import Mathlib.Data.List.TakeWhile
import SchemaBinding.Proofs.Downloads.Places
import SchemaBinding.Proofs.Downloads.References

/-! Files outside the root. References can be written in any way, but a document is asked for in a file that begins as the
root does and goes on by names, or in an entry of the root, and writing changes the one file its path leads to.
Main statement: no call, whatever it reads, changes a file outside the directory of its package. -/
namespace SchemaBinding

theorem Location.not_mem_fileName (uri : String) : '/' ∉ (fileName uri).toList := by
  intro h
  rw [fileName,String.toList_ofList,List.mem_reverse] at h
  simpa using List.mem_takeWhile_imp h

namespace Disk

/-- What a disk becomes by changes at or below the place a path leads to. -/
structure ChangedBelow (root : Path) (d e : Disk) : Prop where
  workingDirectory : e.workingDirectory = d.workingDirectory
  files : ∀ place, ¬ d.destination root <+: place → e.files.get? place = d.files.get? place

variable {root : Path} {d e f : Disk}

theorem ChangedBelow.refl (root : Path) (d : Disk) : ChangedBelow root d d := ⟨rfl,fun _ _ => rfl⟩

theorem ChangedBelow.trans (h : ChangedBelow root d e) (h' : ChangedBelow root e f) : ChangedBelow root d f where
  workingDirectory := h'.workingDirectory.trans h.workingDirectory
  files := by
    intro place houtside
    have hsame : e.destination root = d.destination root := by simp [destination,h.workingDirectory]
    rw [h'.files place (by rwa [hsame]),h.files place houtside]

theorem changedBelow_place {target : Path} (content : Bytes)
    (h : ∀ name, target.pieces.getLast? = some name → isEntryName name → d.destination root <+: d.destination target) :
    ChangedBelow root d (d.place target content).1 := by
  have hgrows : d.Grows (d.place target content).1 := by
    rcases d.wrote_place target content with ⟨e,he,hwrote⟩ | ⟨e,failure,he,hwrote⟩ <;>
      · rw [he]
        exact hwrote.grows
  refine ⟨hgrows.workingDirectory,fun place houtside => ?_⟩
  rcases d.place_destination target content with ⟨e,failure,he,hfiles⟩ | ⟨e,name,hlast,hname,he,hfiles⟩
  · rw [he,hfiles]
  · have hother : place ≠ d.destination target := fun hplace => houtside (hplace ▸ h name hlast hname)
    rw [he,hfiles,OrderedMap.get?_insert,if_neg hother]

end Disk

namespace Download
open SchemaBinding.Path (Component)

/-- Under the root a document is asked for in an entry of it, if at all. -/
theorem isName_fileName {root : Path} (hroot : root.text ≠ "") (uri : String) {name : String}
    (hlast : (root / ⟨Location.fileName uri⟩).pieces.getLast? = some name) (hname : Disk.isEntryName name) :
    Path.IsName (Location.fileName uri) := by
  have hslash := Location.not_mem_fileName uri
  obtain ⟨_,front,ending,_,_,hpieces,_⟩ := Path.pieces_div hroot (Path.not_isAbsolute_mk hslash)
  have hsame : Location.fileName uri = name := by simpa [hpieces,Path.pieces_mk hslash] using hlast
  simp only [Disk.isEntryName,Bool.and_eq_true,decide_eq_true_eq] at hname
  rw [hsame] at hslash ⊢
  exact ⟨hname.1.1.1.1,hname.1.1.1.2,hname.1.1.2,hslash⟩

/-- A document is not asked for outside the root: such a file has no name that an entry can have. -/
theorem Placed.destination_prefix {root target : Path} {uri : String} (h : Placed root uri target)
    (hroot : root.text ≠ "") (d : Disk) {name : String} (hlast : target.pieces.getLast? = some name)
    (hname : Disk.isEntryName name) : d.destination root <+: d.destination target := by
  rcases h with rfl | ⟨hnormal,hbelow⟩
  · have hplain := isName_fileName hroot uri hlast hname
    have hdestination :
        d.destination (root / ⟨Location.fileName uri⟩) = d.destination root ++ [Location.fileName uri] := by
      simp [Disk.destination,Path.components_div_name root hplain,Component.step]
    rw [hdestination]
    exact List.prefix_append _ _
  · obtain ⟨rest,hrest⟩ := List.isPrefixOf_iff_prefix.mp hbelow
    have hcomponents : target.components = target.normalComponents := by rw [← Path.components_normalize,hnormal]
    have hstack : (target.components.foldl Path.normalizeStep []).reverse = root.components ++ rest :=
      (hrest.trans hcomponents).symm
    have hdestination : d.destination target = rest.foldl Component.step (d.destination root) := by
      rw [Disk.destination,← hrest,List.foldl_append,Disk.destination]
    -- a path without detours goes on by names from anything but the top, which all is below
    rcases target.settled_components.rest hstack (Path.components_ne_nil hroot) with htop | ⟨names,rfl,_⟩
    · have hempty : d.destination root = [] := by simp [Disk.destination,htop,Component.step]
      rw [hempty]
      exact List.nil_prefix
    · rw [hdestination,Path.foldl_step_names]
      exact List.prefix_append _ _

theorem Progress.write_changedBelow (p : Progress) {root target : Path} {uri : String} (h : Placed root uri target)
    (hroot : root.text ≠ "") (text : String) : p.disk.ChangedBelow root (p.write target text).disk := by
  have hplace := Disk.changedBelow_place (d := p.disk) (Utf8.encodeString text)
    fun name hlast hname => h.destination_prefix hroot p.disk hlast hname
  unfold Progress.write
  split
  · exact .refl root p.disk
  · split <;> simp_all

/-- The walk from one document changes no file outside the root, however far it may go. -/
theorem fetch_changedBelow (supply : Supply) (catalog : Catalog) {root : Path} (hroot : root.text ≠ "") (levels : ℕ)
    (p : Progress) {uri : String} {target : Path} (h : Placed root uri target) :
    p.disk.ChangedBelow root (fetch supply catalog root levels p uri target).disk := by
  induction levels generalizing p uri target with
  | zero => exact .refl root p.disk
  | succ levels ih =>
    rw [fetch]
    by_cases hskip : p.failure.isSome || p.kept.contains uri
    · rw [if_pos hskip]
      exact .refl root p.disk
    · rw [if_neg hskip]
      cases supply.fetch p.disk uri with
      | error _ => exact .refl root p.disk
      | ok bytes =>
        refine .trans ?_ (Progress.write_changedBelow _ h hroot _)
        refine List.foldlRecOn _ _ (motive := fun q : Progress => p.disk.ChangedBelow root q.disk) (.refl root p.disk) ?_
        exact fun q hq l _ => hq.trans (ih q (l.placed_target _ _ _))

/-- Whatever documents hold, refer to and are called, a call changes no file outside the directory of its package, and
makes none there. -/
theorem process_confined (disk : Disk) (d : Download) (uris : List String) (package : String)
    (hroot : (d.rootOf package).text ≠ "") {place : List String}
    (houtside : ¬ disk.destination (d.rootOf package) <+: place) :
    (d.process disk uris package).2.1.files.get? place = disk.files.get? place := by
  have hwalk : disk.ChangedBelow (d.rootOf package) (d.walk disk uris package).disk := by
    refine List.foldlRecOn uris _ (motive := fun q : Progress => disk.ChangedBelow (d.rootOf package) q.disk)
      (.refl _ disk) ?_
    exact fun q hq uri _ => hq.trans (fetch_changedBelow d.supply d.catalog hroot _ q (.inl rfl))
  exact hwalk.files place houtside

/-- A document that refers to a file of the system in three ways. -/
def hostile : Supply := .memory (.ofList [
  ("file:///s/m.xsd",Utf8.encodeString
    ("<schema><include schemaLocation='../etc/passwd'/><import schemaLocation='/etc/passwd'/>" ++
      "<import schemaLocation='file:///s/x/../../etc/passwd'/></schema>")),
  ("file:///etc/passwd",Utf8.encodeString "<schema/>")])

def hostileDisk : Disk :=
  { files := .ofList [(["etc","passwd"],[0])], directories := [["etc"],["home"]], workingDirectory := ["home"] }

def hostileRun : Download × Disk × Except Failure (List Path) :=
  process hostileDisk { supply := hostile, directory := ⟨"../mirror"⟩ } ["file:///s/m.xsd"] "p"

/-- It is kept below the root, as are the documents it refers to, and the file of the system stays. -/
theorem hostile_confined :
    (rootOf { supply := hostile, directory := ⟨"../mirror"⟩ } "p").text ≠ "" ∧
      ¬ hostileDisk.destination (rootOf { supply := hostile, directory := ⟨"../mirror"⟩ } "p") <+: ["etc","passwd"] ∧
      hostileRun.2.1.files.get? ["etc","passwd"] = hostileDisk.files.get? ["etc","passwd"] ∧
      hostileRun.2.1.files.get? ["mirror","p","passwd"] = some (Utf8.encodeString "<schema/>") := by
  have hroot : (rootOf { supply := hostile, directory := ⟨"../mirror"⟩ } "p").text ≠ "" := by decide
  have houtside : ¬ hostileDisk.destination (rootOf { supply := hostile, directory := ⟨"../mirror"⟩ } "p") <+:
      ["etc","passwd"] := by decide
  exact ⟨hroot,houtside,process_confined hostileDisk { supply := hostile, directory := ⟨"../mirror"⟩ } ["file:///s/m.xsd"]
    "p" hroot houtside,by decide +kernel⟩

end Download
end SchemaBinding
