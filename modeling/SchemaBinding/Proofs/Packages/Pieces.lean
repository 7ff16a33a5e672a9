import SchemaBinding.Proofs.Downloads.Beneath

/-! Paths made of pieces without dots. Such a path leads through names only, after its root, and empty pieces add nothing;
an extension goes to the last name, so it keeps paths apart that are apart without it. -/
namespace SchemaBinding
namespace Path

/-! ## Paths without dots -/

def Dotless (s : String) : Prop := '.' ∉ s.toList

/-- What a path without dots leads through after its root. -/
def names (p : Path) : List String := p.pieces.filter (· ≠ "")

/-- Where a path without dots begins. -/
def origin (p : Path) : List Component := if p.isAbsolute then [.root] else []

theorem text_div (p q : Path) :
    (p / q).text = q.text ∨ (p / q).text = p.text ++ q.text ∨ (p / q).text = p.text ++ "/" ++ q.text := by
  change (join p q).text = _ ∨ (join p q).text = _ ∨ (join p q).text = _
  unfold join
  split
  · exact .inl rfl
  · split
    · exact .inr (.inl rfl)
    · exact .inr (.inr rfl)

theorem Dotless.div {p q : Path} (hp : Dotless p.text) (hq : Dotless q.text) : Dotless (p / q).text := by
  unfold Dotless at *
  rcases text_div p q with h | h | h <;> simp [h,hp,hq]

theorem Dotless.ofPieces {pieces : List String} (h : ∀ piece ∈ pieces, Dotless piece) :
    Dotless (ofPieces pieces).text := by
  have hfold : ∀ p : Path, Dotless p.text → Dotless (pieces.foldl (fun p s => p / ⟨s⟩) p).text := by
    induction pieces with
    | nil => exact fun _ hp => hp
    | cons piece pieces ih =>
      intro p hp
      have hpiece : Dotless (Path.mk piece).text := h piece (by simp)
      exact ih (fun s hs => h s (by simp [hs])) _ (hp.div hpiece)
  exact hfold ⟨""⟩ (by simp [Dotless])

theorem Dotless.pieces {p : Path} (h : Dotless p.text) : ∀ piece ∈ p.pieces, Dotless piece := by
  intro piece hpiece
  rw [pieces_eq] at hpiece
  obtain ⟨cs,hcs,rfl⟩ := List.mem_map.mp hpiece
  have hbody : p.body ⊆ p.text.toList := by
    unfold body
    split
    · exact (List.tail_sublist _).subset
    · exact List.Subset.refl _
  have hdot : '.' ∉ cs := fun hdot => h (hbody ((mem_splitOn_spec hcs).2 hdot))
  simpa [Dotless] using hdot

theorem componentsOfPieces_of_dotless {pieces : List String} (h : ∀ piece ∈ pieces, Dotless piece) :
    componentsOfPieces pieces = (pieces.filter (· ≠ "")).map .normal := by
  have hcurrent : ∀ piece ∈ pieces, piece ≠ "." := fun piece hpiece heq => h piece hpiece (by simp [heq])
  have hparent : ∀ piece ∈ pieces, piece ≠ ".." := fun piece hpiece heq => h piece hpiece (by simp [heq])
  have hfilter : (pieces.filter fun s => s ≠ "" && s ≠ ".") = pieces.filter (· ≠ "") :=
    List.filter_congr fun piece hpiece => by simp [hcurrent piece hpiece]
  rw [componentsOfPieces,hfilter]
  refine List.map_congr_left fun piece hpiece => ?_
  rw [Component.ofPiece,if_neg (hparent piece (List.mem_of_mem_filter hpiece))]

theorem Dotless.components {p : Path} (h : Dotless p.text) : p.components = p.origin ++ p.names.map .normal := by
  have hhead : p.pieces.head? ≠ some "." := fun heq => h.pieces "." (List.mem_of_mem_head? heq) (by simp)
  rw [Path.components,if_neg hhead,componentsOfPieces_of_dotless h.pieces,origin,names]
  split <;> rfl

theorem Dotless.isName {p : Path} (h : Dotless p.text) {name : String} (hname : name ∈ p.names) : IsName name := by
  refine normal_of_mem_components (p := p) ?_
  rw [h.components]
  simp [hname]

/-- A name without dots has no extension yet. -/
theorem splitExtension_of_dotless {name : String} (h : Dotless name) : splitExtension name = (name,none) := by
  have hdrop : name.toList.reverse.dropWhile (· ≠ '.') = [] := by
    simp only [List.dropWhile_eq_nil_iff,List.mem_reverse]
    intro c hc
    simpa using fun heq : c = '.' => h (heq ▸ hc)
  unfold splitExtension
  simp only [hdrop]

/-! ## Extensions -/

theorem IsName.extendName {name extension : String} (h : IsName name) (hdotless : Dotless name)
    (hextension : '/' ∉ extension.toList) : IsName (extendName name extension) := by
  unfold Path.extendName
  split
  · exact h
  · obtain ⟨c,cs,hcs⟩ : ∃ c cs, name.toList = c :: cs := List.exists_cons_of_ne_nil (by simpa using h.not_empty)
    have hc : c ≠ '.' := by
      rintro rfl
      exact hdotless (by simp [hcs])
    refine ⟨by simp,?_,?_,by simp [h.no_slash,hextension]⟩ <;>
    · intro heq
      have hhead := congrArg (List.head? ∘ String.toList) heq
      simp [hcs,hc] at hhead

theorem extendName_inj {s t extension : String} : extendName s extension = extendName t extension ↔ s = t := by
  unfold extendName
  split <;> simp

/-- Names with an extension on the last of them. -/
def extended (extension : String) (names : List String) : List String :=
  match names.getLast? with
  | none => []
  | some last => names.dropLast ++ [extendName last extension]

@[simp] theorem extended_nil (extension : String) : extended extension [] = [] := rfl

@[simp] theorem extended_concat (extension : String) (names : List String) (last : String) :
    extended extension (names ++ [last]) = names ++ [extendName last extension] := by
  simp [extended]

theorem extended_injective (extension : String) : Function.Injective (extended extension) := by
  intro ns ms h
  rcases List.eq_nil_or_concat ns with rfl | ⟨ns,n,rfl⟩ <;> rcases List.eq_nil_or_concat ms with rfl | ⟨ms,m,rfl⟩
  · rfl
  · simp at h
  · simp at h
  · simp only [List.concat_eq_append,extended_concat] at h
    obtain ⟨rfl,hlast⟩ := List.append_inj' h rfl
    rw [extendName_inj.mp (List.singleton_inj.mp hlast)]

theorem Dotless.components_withExtension {p : Path} (h : Dotless p.text) {extension : String}
    (hextension : '/' ∉ extension.toList) :
    (p.withExtension extension).components = p.origin ++ (extended extension p.names).map .normal := by
  rcases List.eq_nil_or_concat p.names with hnil | ⟨front,last,hnames⟩
  · have hfile : p.fileName? = none := by
      rw [fileName?,h.components,hnil,origin]
      cases p.isAbsolute <;> rfl
    rw [withExtension,hfile,h.components,hnil]
    rfl
  · rw [List.concat_eq_append] at hnames
    have hmem : last ∈ p.names := by simp [hnames]
    have hlast : Dotless last := h.pieces last (List.mem_of_mem_filter hmem)
    have hcomponents : p.components = (p.origin ++ front.map .normal) ++ [.normal last] := by
      rw [h.components,hnames]
      simp
    have hname : IsName (extendName last extension) := (h.isName hmem).extendName hlast hextension
    have hstem : (splitExtension last).1 = last := by rw [splitExtension_of_dotless hlast]
    rw [Path.components_withExtension hcomponents (hstem.symm ▸ hname),hstem,hnames,extended_concat]
    simp

/-- Where a path without dots leads below a directory, when it is given an extension. -/
theorem Dotless.destination_div_withExtension {p : Path} (h : Dotless p.text) {extension : String}
    (hextension : '/' ∉ extension.toList) (d : Disk) (directory : Path) :
    d.destination (directory / p.withExtension extension) =
      (if p.isAbsolute then [] else d.destination directory) ++ extended extension p.names := by
  rw [Disk.destination,foldl_components_div (fun _ => rfl) (fun _ _ => rfl),h.components_withExtension hextension,
    List.foldl_append,foldl_step_names,origin,Disk.destination]
  cases p.isAbsolute <;> rfl

/-! ## Paths made of pieces -/

/-- What further pieces add to a path without dots. -/
theorem Dotless.names_foldl {p : Path} (h : Dotless p.text) (htext : p.text ≠ "") {pieces : List String}
    (hdotless : ∀ piece ∈ pieces, Dotless piece) (hslash : ∀ piece ∈ pieces, '/' ∉ piece.toList) :
    (pieces.foldl (fun p s => p / ⟨s⟩) p).isAbsolute = p.isAbsolute ∧
      (pieces.foldl (fun p s => p / ⟨s⟩) p).names = p.names ++ pieces.filter (· ≠ "") := by
  induction pieces generalizing p with
  | nil => simp
  | cons piece pieces ih =>
    obtain ⟨hpiece,hpieces⟩ := List.forall_mem_cons.mp hdotless
    obtain ⟨hplain,hrest⟩ := List.forall_mem_cons.mp hslash
    have hstep : Dotless (p / ⟨piece⟩).text := h.div hpiece
    have habsolute : (p / ⟨piece⟩).isAbsolute = p.isAbsolute := (pieces_div htext (not_isAbsolute_mk hplain)).1
    have hcomponents := components_div htext (not_isAbsolute_mk hplain)
    have hfurther : (p / ⟨piece⟩).text ≠ "" := by
      intro hnone
      rw [components_of_text_eq hnone] at hcomponents
      exact components_ne_nil htext (List.append_eq_nil_iff.mp hcomponents.symm).1
    have hnames : (p / ⟨piece⟩).names = p.names ++ [piece].filter (· ≠ "") := by
      rw [hstep.components,h.components,origin,habsolute,origin,pieces_mk hplain,
        componentsOfPieces_of_dotless (by simpa using hpiece),List.append_assoc,List.append_cancel_left_eq,
        ← List.map_append] at hcomponents
      exact List.map_injective_iff.mpr (fun _ _ hname => Component.normal.inj hname) hcomponents
    obtain ⟨hsame,hall⟩ := ih hstep hfurther hpieces hrest
    rw [List.foldl_cons,hsame,hall,habsolute,hnames,List.append_assoc,← List.filter_append,List.singleton_append]
    exact ⟨rfl,rfl⟩

end Path

end SchemaBinding
