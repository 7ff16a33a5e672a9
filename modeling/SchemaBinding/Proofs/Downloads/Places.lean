import SchemaBinding.Proofs.Downloads.Normalized
import SchemaBinding.Proofs.Downloads.Written

/-! Where paths lead. No entry of a disk is a link, so what a path leads through says where it leads: a name down, two dots
up, and never above the root. The disk decides only whether there is anything.
Main statements: a path that leads somewhere leads to its destination; and writing changes the file at the destination, if
the path ends in a name that an entry can have, and no other. -/
namespace SchemaBinding
namespace Path

/-- Goes on from a place. There is nothing above the root. -/
def Component.step (here : List String) : Component → List String
  | .root => []
  | .current => here
  | .parent => here.dropLast
  | .normal name => here ++ [name]

/-! ## Reading components one after another -/

section
variable {β : Type} {f : β → Component → β}

theorem foldl_components (hcurrent : ∀ b, f b .current = b) (p : Path) (b : β) :
    p.components.foldl f b = (componentsOfPieces p.pieces).foldl f (if p.isAbsolute then f b .root else b) := by
  unfold components
  by_cases habsolute : p.isAbsolute
  · simp [habsolute]
  · by_cases hleading : p.pieces.head? = some "."
    · simp [habsolute,hleading,hcurrent]
    · simp [habsolute,hleading]

/-- A reader that passes over `.` and starts anew at the root reads a joined path part by part. -/
theorem foldl_components_div (hcurrent : ∀ b, f b .current = b) (hroot : ∀ b c, f b .root = f c .root) (p q : Path)
    (b : β) : (p / q).components.foldl f b = q.components.foldl f (p.components.foldl f b) := by
  by_cases habsolute : q.isAbsolute
  · have hjoin : p / q = q := if_pos (by simp [habsolute])
    rw [hjoin,foldl_components hcurrent q,foldl_components hcurrent q,if_pos habsolute,if_pos habsolute,hroot b]
  · by_cases htext : p.text = ""
    · rw [div_of_text_eq htext,components_of_text_eq htext,List.foldl_nil]
    · rw [components_div htext habsolute,List.foldl_append,foldl_components hcurrent q,if_neg habsolute]

end

theorem head?_pieces_ne {p : Path} (habsolute : ¬ p.isAbsolute) (htext : p.text ≠ "") : p.pieces.head? ≠ some "" := by
  have hbody : p.body = p.text.toList := if_neg habsolute
  rw [pieces_eq,hbody]
  cases hchars : p.text.toList with
  | nil => exact absurd (by simpa using hchars) htext
  | cons c cs =>
    have hc : c ≠ '/' := by
      rintro rfl
      exact habsolute (by simp [isAbsolute,hchars])
    rw [List.splitOn_cons_eq_if_modifyHead,if_neg (by simpa using hc)]
    cases hrest : cs.splitOn '/' with
    | nil => exact absurd hrest (by simp)
    | cons d ds => simp

theorem components_ne_nil {p : Path} (htext : p.text ≠ "") : p.components ≠ [] := by
  unfold components
  split
  · simp
  · rename_i habsolute
    split
    · simp
    · rename_i hleading
      obtain ⟨first,hfirst⟩ : ∃ first, p.pieces.head? = some first := by
        rw [pieces_eq]
        cases hsplit : p.body.splitOn '/' with
        | nil => exact absurd hsplit (by simp)
        | cons first _ => exact ⟨String.ofList first,by simp⟩
      have hname : first ≠ "" := fun h => head?_pieces_ne habsolute htext (h ▸ hfirst)
      have hcurrent : first ≠ "." := fun h => hleading (h ▸ hfirst)
      have hcounts : first ∈ p.pieces.filter fun s => s ≠ "" && s ≠ "." :=
        List.mem_filter.mpr ⟨List.mem_of_mem_head? hfirst,by simp [hname,hcurrent]⟩
      simpa [componentsOfPieces] using List.ne_nil_of_mem hcounts

/-! ## Paths below others -/

/-- Below what is left of a path, unless it is the bare root, there are only names. -/
theorem Settled.rest {stack : List Component} (h : Settled stack) {front rest : List Component}
    (hstack : stack.reverse = front ++ rest) (hfront : front ≠ []) :
    front = [.root] ∨ ∃ names : List String, rest = names.map .normal ∧ ∀ name ∈ names, IsName name := by
  induction h generalizing rest with
  | empty => simp_all
  | root | parent =>
    cases front with
    | nil => exact absurd rfl hfront
    | cons c cs => exact .inr ⟨[],by simp_all⟩
  | parentOfRoot =>
    cases front with
    | nil => exact absurd rfl hfront
    | cons c cs =>
      cases cs with
      | nil => exact .inl (by simp_all)
      | cons d ds => exact .inr ⟨[],by simp_all⟩
  | @name stack name hname _ ih =>
    rw [List.reverse_cons] at hstack
    rcases List.eq_nil_or_concat rest with rfl | ⟨rest,last,rfl⟩
    · exact .inr ⟨[],by simp⟩
    · rw [List.concat_eq_append,← List.append_assoc] at hstack
      obtain ⟨hinit,hlast⟩ := List.append_inj' hstack rfl
      refine (ih hinit).imp_right ?_
      rintro ⟨names,rfl,hnames⟩
      refine ⟨names ++ [name],by simp_all,List.forall_mem_append.mpr ⟨hnames,by simpa using hname⟩⟩

theorem components_normalize (p : Path) : p.normalize.components = p.normalComponents :=
  p.settled_components.components_ofComponents

theorem foldl_step_names (names : List String) (here : List String) :
    (names.map Component.normal).foldl Component.step here = here ++ names := by
  induction names generalizing here with
  | nil => simp
  | cons name names ih => simp [Component.step,ih]

end Path

namespace Disk
open SchemaBinding.Path (Component)

/-- Where a path leads if it leads anywhere. -/
def destination (d : Disk) (p : Path) : List String := p.components.foldl Component.step d.workingDirectory

theorem Grows.destination_eq {d e : Disk} (h : d.Grows e) (p : Path) : e.destination p = d.destination p := by
  simp [destination,h.workingDirectory]

theorem follow_eq {d : Disk} {here ps there : List String} (h : d.follow here ps = some there) :
    there = (Path.componentsOfPieces ps).foldl Component.step here := by
  induction ps generalizing here with
  | nil => exact (Option.some.inj h).symm
  | cons piece rest ih =>
    rw [follow] at h
    have hcons : Path.componentsOfPieces (piece :: rest) =
        Path.componentsOfPieces [piece] ++ Path.componentsOfPieces rest := Path.componentsOfPieces_append [piece] rest
    rw [hcons,List.foldl_append]
    split at h
    · cases h
    · split at h
      · rename_i hempty
        have hnone : Path.componentsOfPieces [piece] = [] := by
          have hpiece : piece = "" ∨ piece = "." := by simpa using hempty
          rcases hpiece with rfl | rfl <;> decide
        rw [hnone]
        exact ih h
      · split at h
        · rename_i _ hparent
          subst hparent
          exact ih h
        · rename_i hempty hparent
          have hpiece : Path.componentsOfPieces [piece] = [.normal piece] := by
            simp only [Bool.or_eq_true,decide_eq_true_eq,not_or] at hempty
            simp [Path.componentsOfPieces,Component.ofPiece,hempty,hparent]
          rw [hpiece]
          split at h
          · exact ih h
          · cases h

theorem destination_eq (d : Disk) (p : Path) :
    d.destination p = (Path.componentsOfPieces p.pieces).foldl Component.step (d.start p) := by
  rw [destination,Path.foldl_components fun _ => rfl,start]
  rfl

/-- A path that leads somewhere leads to its destination. -/
theorem destination_of_locate? {d : Disk} {p : Path} {here : List String} (h : d.locate? p = some here) :
    d.destination p = here := by
  rw [destination_eq]
  unfold locate? at h
  split at h
  · cases h
  · exact (follow_eq h).symm

/-- Writing fails without a change, or puts the content at the destination of a path that ends in the name of an entry. -/
theorem write_destination (d : Disk) (p : Path) (content : Bytes) :
    (∃ failure, d.write p content = (d,.error failure)) ∨
      ∃ name, p.pieces.getLast? = some name ∧ isEntryName name ∧
        d.write p content = ({ d with files := d.files.insert (d.destination p) content },.ok ()) := by
  unfold write
  cases hlast : p.pieces.getLast? with
  | none => exact .inl ⟨_,rfl⟩
  | some name =>
    cases hfollow : d.follow (d.start p) p.pieces.dropLast with
    | none => exact .inl ⟨_,rfl⟩
    | some here =>
      by_cases hrefused : isRefused p || !d.isDirectoryAt here || !isEntryName name || d.isDirectoryAt (here ++ [name])
      · exact .inl ⟨.io,by simp only [if_pos hrefused]⟩
      · simp only [if_neg hrefused]
        have hname : isEntryName name := by
          simp only [Bool.or_eq_true,not_or] at hrefused
          simpa using hrefused.1.2
        have hpieces : p.pieces = p.pieces.dropLast ++ [name] := (List.dropLast_append_getLast? name hlast).symm
        have hsingle : Path.componentsOfPieces [name] = [.normal name] := by
          have hplain := hname
          simp only [isEntryName,Bool.and_eq_true,decide_eq_true_eq] at hplain
          simp [Path.componentsOfPieces,Component.ofPiece,hplain.1.1.1.1,hplain.1.1.1.2,hplain.1.1.2]
        have hdestination : d.destination p = here ++ [name] := by
          rw [destination_eq,hpieces,Path.componentsOfPieces_append,List.foldl_append,← follow_eq hfollow,hsingle]
          rfl
        exact .inr ⟨name,rfl,hname,by rw [hdestination]⟩

/-- Placing a file changes no other file, and none at all unless the path ends in the name of an entry. -/
theorem place_destination (d : Disk) (p : Path) (content : Bytes) :
    (∃ e failure, d.place p content = (e,.error failure) ∧ e.files = d.files) ∨
      ∃ e name, p.pieces.getLast? = some name ∧ isEntryName name ∧ d.place p content = (e,.ok ()) ∧
        e.files = d.files.insert (d.destination p) content := by
  rw [place]
  cases p.parent? with
  | none =>
    rcases d.write_destination p content with ⟨failure,h⟩ | ⟨name,hlast,hname,h⟩
    · exact .inl ⟨d,failure,h,rfl⟩
    · exact .inr ⟨_,name,hlast,hname,h,rfl⟩
  | some directory =>
    have hgrows := d.grows_createDirectories directory
    rcases hcreate : d.createDirectories directory with ⟨e,failure | _⟩
    · rw [hcreate] at hgrows
      exact .inl ⟨e,failure,by simp only [hcreate],hgrows.2⟩
    · rw [hcreate] at hgrows
      rcases e.write_destination p content with ⟨failure,h⟩ | ⟨name,hlast,hname,h⟩
      · exact .inl ⟨e,failure,by simpa only [hcreate] using h,hgrows.2⟩
      · refine .inr ⟨_,name,hlast,hname,by simpa only [hcreate] using h,?_⟩
        simp only [hgrows.1.destination_eq p]
        rw [hgrows.2]

end Disk
end SchemaBinding
