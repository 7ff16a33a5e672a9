import Mathlib.Data.List.Basic
import Mathlib.Data.List.Find
import SchemaBinding.Disk

/-! What writing files does to a disk. Directories and files are only added, so a path that leads somewhere leads there
from then on, and of several contents written at one place the last one stays.
Main statement: after a list of contents has been written, the file a path of the list leads to holds the last of those
written at its place. -/
namespace SchemaBinding

theorem OrderedMap.get?_foldl_insert {κ α β : Type} [DecidableEq κ] (key : β → κ) (value : β → α) (bs : List β)
    (m : OrderedMap κ α) (k : κ) : (bs.foldl (fun m b => m.insert (key b) (value b)) m).get? k =
      ((bs.reverse.find? fun b => key b = k).map value).or (m.get? k) := by
  induction bs generalizing m with
  | nil => simp
  | cons b bs ih =>
    rw [List.foldl_cons,ih,get?_insert,List.reverse_cons,List.find?_append]
    by_cases hb : k = key b
    · cases bs.reverse.find? fun b => key b = k <;> simp [hb]
    · have hb' : ¬ key b = k := fun h => hb h.symm
      cases bs.reverse.find? fun b => key b = k <;> simp [hb,hb']

namespace Disk

/-- What a disk becomes by making directories and writing files. -/
structure Grows (d e : Disk) : Prop where
  directories : ∀ here, d.isDirectoryAt here → e.isDirectoryAt here
  files : ∀ here, d.isFileAt here → e.isFileAt here
  workingDirectory : e.workingDirectory = d.workingDirectory

theorem Grows.refl (d : Disk) : d.Grows d := ⟨fun _ h => h,fun _ h => h,rfl⟩

theorem Grows.trans {d e f : Disk} (h : d.Grows e) (h' : e.Grows f) : d.Grows f where
  directories := fun here hd => h'.directories here (h.directories here hd)
  files := fun here hd => h'.files here (h.files here hd)
  workingDirectory := h'.workingDirectory.trans h.workingDirectory

/-! ## Paths that lead somewhere -/

theorem follow_append (d : Disk) (here : List String) (ps qs : List String) :
    d.follow here (ps ++ qs) = (d.follow here ps).bind fun there => d.follow there qs := by
  induction ps generalizing here with
  | nil => rfl
  | cons piece rest ih =>
    simp only [List.cons_append,follow,ih]
    by_cases hdirectory : d.isDirectoryAt here <;> by_cases hempty : piece = "" ∨ piece = "." <;>
      by_cases hparent : piece = ".." <;> simp_all
    split <;> rfl

theorem Grows.follow_eq {d e : Disk} (h : d.Grows e) {here ps there : List String}
    (hd : d.follow here ps = some there) : e.follow here ps = some there := by
  induction ps generalizing here with
  | nil => exact hd
  | cons piece rest ih =>
    rw [follow] at hd ⊢
    by_cases hdirectory : d.isDirectoryAt here
    · simp only [hdirectory,h.directories here hdirectory,Bool.not_true,Bool.false_eq_true,if_false] at hd ⊢
      by_cases hempty : piece = "" || piece = "."
      · rw [if_pos hempty] at hd ⊢
        exact ih hd
      · rw [if_neg hempty] at hd ⊢
        by_cases hparent : piece = ".."
        · rw [if_pos hparent] at hd ⊢
          exact ih hd
        · rw [if_neg hparent] at hd ⊢
          by_cases hentry : d.isDirectoryAt (here ++ [piece]) || d.isFileAt (here ++ [piece])
          · have hentry' : e.isDirectoryAt (here ++ [piece]) || e.isFileAt (here ++ [piece]) := by
              rw [Bool.or_eq_true] at hentry ⊢
              exact hentry.imp (h.directories _) (h.files _)
            rw [if_pos hentry] at hd
            rw [if_pos hentry']
            exact ih hd
          · simp [hentry] at hd
    · simp [hdirectory] at hd

theorem Grows.start_eq {d e : Disk} (h : d.Grows e) (p : Path) : e.start p = d.start p := by
  simp [start,h.workingDirectory]

theorem Grows.locate?_eq {d e : Disk} (h : d.Grows e) {p : Path} (hd : (d.locate? p).isSome) :
    e.locate? p = d.locate? p := by
  unfold locate? at hd ⊢
  by_cases hp : p.text = "" || isRefused p
  · rw [if_pos hp,if_pos hp]
  · rw [if_neg hp] at hd ⊢
    rw [if_neg hp,h.start_eq]
    have hthere := Option.some_get hd
    rw [h.follow_eq hthere.symm,hthere]

/-! ## Making directories and writing files -/

theorem grows_makeDirectories (d : Disk) (here ps : List String) :
    d.Grows (d.makeDirectories here ps).1 ∧ (d.makeDirectories here ps).1.files = d.files := by
  induction ps generalizing d here with
  | nil => exact ⟨.refl d,rfl⟩
  | cons piece rest ih =>
    have hmade : d.Grows { d with directories := d.directories ++ [here ++ [piece]] } := by
      refine ⟨fun there h => ?_,fun _ h => h,rfl⟩
      simp only [isDirectoryAt,Bool.or_eq_true,List.contains_eq_mem,decide_eq_true_eq,List.mem_append] at h ⊢
      exact h.imp_right Or.inl
    rw [makeDirectories]
    by_cases hempty : piece = "" || piece = "."
    · simpa only [if_pos hempty] using ih d here
    · by_cases hparent : piece = ".."
      · simpa only [if_neg hempty,if_pos hparent] using ih d here.dropLast
      · by_cases hdirectory : d.isDirectoryAt (here ++ [piece])
        · simpa only [if_neg hempty,if_neg hparent,if_pos hdirectory] using ih d (here ++ [piece])
        · by_cases hrefused : d.isFileAt (here ++ [piece]) || !isEntryName piece
          · simpa only [if_neg hempty,if_neg hparent,if_neg hdirectory,if_pos hrefused] using
              (⟨.refl d,rfl⟩ : d.Grows d ∧ d.files = d.files)
          · simp only [if_neg hempty,if_neg hparent,if_neg hdirectory,if_neg hrefused]
            have hrest := ih { d with directories := d.directories ++ [here ++ [piece]] } (here ++ [piece])
            exact ⟨hmade.trans hrest.1,hrest.2⟩

theorem grows_createDirectories (d : Disk) (p : Path) :
    d.Grows (d.createDirectories p).1 ∧ (d.createDirectories p).1.files = d.files := by
  unfold createDirectories
  split
  · exact ⟨.refl d,rfl⟩
  · split
    · exact ⟨.refl d,rfl⟩
    · exact d.grows_makeDirectories (d.start p) p.pieces

/-- Writing fails without a change, or puts the content where the path leads from then on. -/
theorem write_cases (d : Disk) (p : Path) (content : Bytes) :
    (∃ e, d.write p content = (d,.error e)) ∨
      ∃ e here, d.write p content = (e,.ok ()) ∧ d.Grows e ∧ e.locate? p = some here ∧
        e.files = d.files.insert here content := by
  unfold write
  cases hlast : p.pieces.getLast? with
  | none => exact .inl ⟨_,rfl⟩
  | some name =>
    cases hfollow : d.follow (d.start p) p.pieces.dropLast with
    | none => exact .inl ⟨_,rfl⟩
    | some here =>
      by_cases hrefused : isRefused p || !d.isDirectoryAt here || !isEntryName name || d.isDirectoryAt (here ++ [name])
      · exact .inl ⟨.io,by simp only [if_pos hrefused]⟩
      · simp only [if_neg hrefused]
        simp only [Bool.or_eq_true,Bool.not_eq_true',not_or,Bool.not_eq_true,Bool.not_eq_false] at hrefused
        obtain ⟨⟨⟨haccepted,hdirectory⟩,hname⟩,-⟩ := hrefused
        let e : Disk := { d with files := d.files.insert (here ++ [name]) content }
        have hgrows : d.Grows e := by
          refine ⟨fun _ h => h,fun there h => ?_,rfl⟩
          simp only [isFileAt,OrderedMap.contains,decide_eq_true_eq] at h ⊢
          exact OrderedMap.mem_keys_insert.mpr (Or.inr h)
        have hfile : e.isFileAt (here ++ [name]) := by simp [e,isFileAt,OrderedMap.contains]
        have hpieces : p.pieces = p.pieces.dropLast ++ [name] := (List.dropLast_append_getLast? name hlast).symm
        have htext : p.text ≠ "" := by
          intro h
          have hnone : p.pieces = [""] := by simp [Path.pieces,h]
          simp [hnone] at hlast
          simp [← hlast,isEntryName] at hname
        have hlocate : e.locate? p = some (here ++ [name]) := by
          have hstep : e.follow here [name] = some (here ++ [name]) := by
            simp only [isEntryName,Bool.and_eq_true,decide_eq_true_eq] at hname
            have hdirectory' : e.isDirectoryAt here = true := hdirectory
            simp [follow,hdirectory',hfile,hname.1.1.1.1,hname.1.1.1.2,hname.1.1.2]
          have hstart := hgrows.follow_eq hfollow
          rw [locate?,if_neg (by simp [htext,haccepted]),hpieces,follow_append,hgrows.start_eq,hstart]
          exact hstep
        exact .inr ⟨e,here ++ [name],rfl,hgrows,hlocate,rfl⟩

/-- The files of a disk become those of another by writing contents, each where its path leads in the end. -/
structure Wrote (d : Disk) (ws : List (Path × Bytes)) (e : Disk) : Prop where
  grows : d.Grows e
  located : ∀ w ∈ ws, (e.locate? w.1).isSome
  files : e.files = ws.foldl (fun files w => files.insert ((e.locate? w.1).getD []) w.2) d.files

theorem Wrote.refl (d : Disk) : d.Wrote [] d := ⟨.refl d,by simp,rfl⟩

theorem Wrote.trans {d e f : Disk} {ws vs : List (Path × Bytes)} (h : d.Wrote ws e) (h' : e.Wrote vs f) :
    d.Wrote (ws ++ vs) f where
  grows := h.grows.trans h'.grows
  located := by
    intro w hw
    rcases List.mem_append.mp hw with hw | hw
    · rw [h'.grows.locate?_eq (h.located w hw)]
      exact h.located w hw
    · exact h'.located w hw
  files := by
    have hlater : ∀ w ∈ ws, f.locate? w.1 = e.locate? w.1 := fun w hw => h'.grows.locate?_eq (h.located w hw)
    rw [h'.files,h.files,List.foldl_append]
    congr 1
    refine List.foldl_ext _ _ _ fun files w hw => ?_
    rw [hlater w hw]

theorem wrote_createDirectories {d e : Disk} {p : Path} {outcome : Except Failure Unit}
    (h : d.createDirectories p = (e,outcome)) : d.Wrote [] e := by
  have hgrows := d.grows_createDirectories p
  rw [h] at hgrows
  exact ⟨hgrows.1,by simp,hgrows.2⟩

/-- Where placing fails, no file is changed. -/
theorem wrote_place (d : Disk) (p : Path) (content : Bytes) :
    (∃ e, d.place p content = (e,.ok ()) ∧ d.Wrote [(p,content)] e) ∨
      ∃ e failure, d.place p content = (e,.error failure) ∧ d.Wrote [] e := by
  have hwrite (d : Disk) : (∃ e, d.write p content = (e,.ok ()) ∧ d.Wrote [(p,content)] e) ∨
      ∃ failure, d.write p content = (d,.error failure) := by
    rcases d.write_cases p content with h | ⟨e,here,he,hgrows,hlocate,hfiles⟩
    · exact .inr h
    · exact .inl ⟨e,he,hgrows,by simp [hlocate],by simp [hlocate,hfiles]⟩
  rw [place]
  cases p.parent? with
  | none =>
    rcases hwrite d with h | ⟨failure,h⟩
    · exact .inl h
    · exact .inr ⟨d,failure,h,.refl d⟩
  | some directory =>
    rcases hcreate : d.createDirectories directory with ⟨e,failure | _⟩
    · exact .inr ⟨e,failure,by simp only [hcreate],wrote_createDirectories hcreate⟩
    · have hbefore := wrote_createDirectories hcreate
      rcases hwrite e with ⟨f,hf,hwrote⟩ | ⟨failure,hf⟩
      · exact .inl ⟨f,by simpa only [hcreate] using hf,hbefore.trans hwrote⟩
      · exact .inr ⟨e,failure,by simpa only [hcreate] using hf,hbefore⟩

theorem not_isRefused_of_locate? {d : Disk} {p : Path} {here : List String} (h : d.locate? p = some here) :
    ¬ isRefused p := by
  intro hrefused
  simp [locate?,hrefused] at h

theorem read_of_locate? {d : Disk} {p : Path} {here : List String} {content : Bytes} (h : d.locate? p = some here)
    (hfile : d.files.get? here = some content) : d.read p = .ok content := by
  have haccepted := not_isRefused_of_locate? h
  simp only [isRefused,Bool.or_eq_true,not_or] at haccepted
  rw [read,if_neg haccepted.2,h,Option.bind_some,hfile]

/-- Of the contents written at one place the last one stays. -/
theorem Wrote.read_eq {d e : Disk} {ws : List (Path × Bytes)} (h : d.Wrote ws e) {w : Path × Bytes} (hw : w ∈ ws) :
    ∃ v, (ws.reverse.find? fun v => e.locate? v.1 = e.locate? w.1) = some v ∧ e.read w.1 = .ok v.2 := by
  obtain ⟨here,hhere⟩ := Option.isSome_iff_exists.mp (h.located w hw)
  have hplace : ∀ v ∈ ws.reverse,
      decide ((e.locate? v.1).getD [] = here) = decide (e.locate? v.1 = e.locate? w.1) := by
    intro v hv
    obtain ⟨there,hthere⟩ := Option.isSome_iff_exists.mp (h.located v (List.mem_reverse.mp hv))
    simp [hhere,hthere]
  have hfound : (ws.reverse.find? fun v => e.locate? v.1 = e.locate? w.1).isSome :=
    List.find?_isSome.mpr ⟨w,List.mem_reverse.mpr hw,by simp⟩
  obtain ⟨v,hv⟩ := Option.isSome_iff_exists.mp hfound
  have hfile : e.files.get? here = some v.2 := by
    rw [h.files,OrderedMap.get?_foldl_insert,List.find?_congr hplace,hv]
    rfl
  exact ⟨v,hv,read_of_locate? hhere hfile⟩

end Disk
end SchemaBinding
