import Mathlib.Data.List.Basic
import Mathlib.Data.String.Basic
import SchemaBinding.Path
import SchemaBinding.Text.Blank

/-! Paths without detours. Reading the components of a path onto a stack leaves at most a root, one step up and names, and
the path that is put together from these has just these components.
Main statement: a path that was freed of its detours stays as it is when it is freed again. -/
namespace SchemaBinding
namespace Path

/-! ## Pieces and components -/

/-- What the pieces are taken from. -/
def body (p : Path) : List Char := if p.isAbsolute then p.text.toList.tail else p.text.toList

theorem pieces_eq (p : Path) : p.pieces = (p.body.splitOn '/').map String.ofList := by
  unfold pieces body isAbsolute
  cases p.text.toList with
  | nil => rfl
  | cons c cs =>
    by_cases hc : c = '/'
    · subst hc
      rfl
    · simp [hc]

/-- A piece that can be a component other than a step up. -/
structure IsName (name : String) : Prop where
  not_empty : name ≠ ""
  not_current : name ≠ "."
  not_parent : name ≠ ".."
  no_slash : '/' ∉ name.toList

/-- The pieces between separators have none, and no characters but those of the whole. -/
theorem mem_splitOn_spec {separator : Char} {cs piece : List Char} (h : piece ∈ cs.splitOn separator) :
    separator ∉ piece ∧ piece ⊆ cs := by
  rw [List.splitOn_eq_splitOnP] at h
  obtain ⟨hpiece,hsubset⟩ := Blank.mem_splitOnP_spec h
  exact ⟨fun hmem => by simpa using hpiece separator hmem,hsubset⟩

theorem normal_of_mem_components {p : Path} {name : String} (h : .normal name ∈ p.components) : IsName name := by
  have hpieces : .normal name ∈ componentsOfPieces p.pieces := by
    unfold components at h
    split at h
    · simpa using h
    · split at h <;> simpa using h
  obtain ⟨piece,hpiece,hname⟩ := List.mem_map.mp hpieces
  simp only [List.mem_filter,decide_eq_true_eq,Bool.and_eq_true] at hpiece
  have hparent : piece ≠ ".." := by
    rintro rfl
    simp [Component.ofPiece] at hname
  have hsame : piece = name := by simpa [Component.ofPiece,hparent] using hname
  subst hsame
  rw [pieces_eq,List.mem_map] at hpiece
  obtain ⟨⟨cs,hcs,rfl⟩,hempty,hcurrent⟩ := hpiece
  exact ⟨hempty,hcurrent,hparent,by simpa using (mem_splitOn_spec hcs).1⟩

theorem componentsOfPieces_append (ps qs : List String) :
    componentsOfPieces (ps ++ qs) = componentsOfPieces ps ++ componentsOfPieces qs := by
  simp [componentsOfPieces]

theorem IsName.componentsOfPieces_eq {name : String} (h : IsName name) : componentsOfPieces [name] = [.normal name] := by
  simp [componentsOfPieces,Component.ofPiece,h.not_empty,h.not_current,h.not_parent]

theorem not_isAbsolute_mk {name : String} (h : '/' ∉ name.toList) : ¬ (Path.mk name).isAbsolute := by
  intro habsolute
  have hhead : name.toList.head? = some '/' := by simpa [isAbsolute] using habsolute
  exact h (List.mem_of_mem_head? hhead)

theorem pieces_mk {name : String} (h : '/' ∉ name.toList) : (Path.mk name).pieces = [name] := by
  have hbody : (Path.mk name).body = name.toList := if_neg (not_isAbsolute_mk h)
  simp [pieces_eq,hbody,List.splitOn_eq_singleton h]

theorem isAbsolute_append {p : Path} (htext : p.text ≠ "") (more : String) :
    (Path.mk (p.text ++ more)).isAbsolute = p.isAbsolute := by
  have hlist : p.text.toList ≠ [] := by simpa using htext
  simp [isAbsolute,List.head?_append_of_ne_nil _ hlist]

theorem body_append {p : Path} (htext : p.text ≠ "") (more : String) :
    (Path.mk (p.text ++ more)).body = p.body ++ more.toList := by
  have hlist : p.text.toList ≠ [] := by simpa using htext
  unfold body
  rw [isAbsolute_append htext]
  split <;> simp [List.tail_append_of_ne_nil hlist]

/-- What a relative path adds to the pieces: its own stand after them, or in the place of the empty one at their end. -/
theorem pieces_div {p q : Path} (htext : p.text ≠ "") (hq : ¬ q.isAbsolute) :
    (p / q).isAbsolute = p.isAbsolute ∧ ∃ front ending, p.pieces = front ++ ending ∧ componentsOfPieces ending = [] ∧
      (p / q).pieces = front ++ q.pieces ∧ (front = [] → p.isAbsolute) := by
  have hrelative : ¬ (q.isAbsolute || p.text = "") := by simp [hq,htext]
  have hnonempty : ∀ cs : List Char, (cs.splitOn '/').map String.ofList ≠ [] := by simp
  have hbody : q.body = q.text.toList := if_neg hq
  by_cases hslash : p.text.toList.getLast? = some '/'
  · have hjoin : p / q = ⟨p.text ++ q.text⟩ := (if_neg hrelative).trans (if_pos hslash)
    rw [hjoin,isAbsolute_append htext,pieces_eq,pieces_eq,pieces_eq,body_append htext,hbody]
    refine ⟨rfl,?_⟩
    rcases List.eq_nil_or_concat p.body with hempty | ⟨directory,c,hdirectory⟩
    · have habsolute : p.isAbsolute := by
        by_contra hnot
        exact htext (by simpa [body,hnot] using hempty)
      exact ⟨[],[""],by simp [hempty],by decide,by simp [hempty],fun _ => habsolute⟩
    · have hsuffix : directory.concat c <:+ p.text.toList := by
        rw [← hdirectory,body]
        split
        · exact List.tail_suffix _
        · exact List.suffix_rfl
      obtain ⟨before,hbefore⟩ := hsuffix
      have hc : c = '/' := by simpa [← hbefore,List.getLast?_append] using hslash
      subst hc
      refine ⟨(directory.splitOn '/').map String.ofList,[""],?_,by decide,?_,fun hnil => absurd hnil (hnonempty _)⟩
      · simp [hdirectory,List.splitOn_append_cons_self]
      · simp [hdirectory,List.splitOn_append_cons_self]
  · have hjoin : p / q = ⟨p.text ++ ("/" ++ q.text)⟩ := by
      rw [← String.append_assoc]
      exact (if_neg hrelative).trans (if_neg hslash)
    rw [hjoin,isAbsolute_append htext,pieces_eq,pieces_eq,pieces_eq,body_append htext,hbody]
    refine ⟨rfl,(p.body.splitOn '/').map String.ofList,[],by simp,rfl,?_,fun hnil => absurd hnil (hnonempty _)⟩
    simp [List.splitOn_append_cons_self]

/-- What pieces lead through, from the root or from the place where a path begins. -/
def componentsOf (absolute : Bool) (pieces : List String) : List Component :=
  if absolute then .root :: componentsOfPieces pieces
  else if pieces.head? = some "." then .current :: componentsOfPieces pieces
  else componentsOfPieces pieces

theorem components_eq (p : Path) : p.components = componentsOf p.isAbsolute p.pieces := rfl

theorem componentsOf_append {absolute : Bool} {front ending : List String}
    (h : front = [] → absolute ∨ ending.head? ≠ some ".") :
    componentsOf absolute (front ++ ending) = componentsOf absolute front ++ componentsOfPieces ending := by
  unfold componentsOf
  rw [componentsOfPieces_append]
  cases absolute with
  | true => simp
  | false =>
    cases front with
    | nil =>
      have hhead : ending.head? ≠ some "." := by simpa using h rfl
      simp [hhead,componentsOfPieces]
    | cons piece front => by_cases hpiece : piece = "." <;> simp [hpiece]

/-- What a relative path adds to what a path leads through. -/
theorem components_div {p q : Path} (htext : p.text ≠ "") (hq : ¬ q.isAbsolute) :
    (p / q).components = p.components ++ componentsOfPieces q.pieces := by
  obtain ⟨habsolute,front,ending,hpieces,hending,hlonger,hfront⟩ := pieces_div htext hq
  have hroot (rest : List String) : front = [] → p.isAbsolute ∨ rest.head? ≠ some "." := fun h => .inl (hfront h)
  rw [components_eq,components_eq,habsolute,hlonger,hpieces,componentsOf_append (hroot _),componentsOf_append (hroot _),
    hending,List.append_nil]

theorem components_mk_name {name : String} (h : IsName name) : (Path.mk name).components = [.normal name] := by
  rw [components,if_neg (not_isAbsolute_mk h.no_slash),pieces_mk h.no_slash,h.componentsOfPieces_eq]
  simp [h.not_current]

theorem div_of_text_eq {p : Path} (htext : p.text = "") (q : Path) : p / q = q := if_pos (by simp [htext])

theorem components_of_text_eq {p : Path} (htext : p.text = "") : p.components = [] := by
  obtain rfl : p = ⟨""⟩ := by cases p; simp_all
  decide

/-- What a name adds to a path. -/
theorem components_div_name (p : Path) {name : String} (h : IsName name) :
    (p / ⟨name⟩).components = p.components ++ [.normal name] := by
  by_cases htext : p.text = ""
  · rw [div_of_text_eq htext,components_mk_name h,components_of_text_eq htext,List.nil_append]
  · rw [components_div htext (not_isAbsolute_mk h.no_slash),pieces_mk h.no_slash,h.componentsOfPieces_eq]

/-! ## Stacks of components -/

/-- What reading components can leave, innermost first. -/
inductive Settled : List Component → Prop where
  | empty : Settled []
  | root : Settled [.root]
  | parent : Settled [.parent]
  | parentOfRoot : Settled [.parent,.root]
  | name {stack : List Component} {name : String} : IsName name → Settled stack → Settled (.normal name :: stack)

theorem settled_normalizeStep {stack : List Component} (h : Settled stack) {c : Component}
    (hc : ∀ name, c = .normal name → IsName name) : Settled (normalizeStep stack c) := by
  cases c with
  | root => exact .root
  | current => exact h
  | parent =>
    cases h with
    | empty => exact .parent
    | root => exact .parentOfRoot
    | parent => exact .empty
    | parentOfRoot => exact .root
    | name _ hrest => exact hrest
  | normal name => exact .name (hc name rfl) h

theorem settled_foldl {cs stack : List Component} (h : Settled stack) (hcs : ∀ name, .normal name ∈ cs → IsName name) :
    Settled (cs.foldl normalizeStep stack) := by
  induction cs generalizing stack with
  | nil => exact h
  | cons c cs ih =>
    have hstep := settled_normalizeStep h (c := c) fun name hname => hcs name (by simp [hname])
    exact ih hstep fun name hname => hcs name (by simp [hname])

/-- What is left is read onto the empty stack without a change. -/
theorem Settled.foldl_reverse {stack : List Component} (h : Settled stack) :
    stack.reverse.foldl normalizeStep [] = stack := by
  induction h with
  | empty | root | parent | parentOfRoot => rfl
  | name _ _ ih => rw [List.reverse_cons,List.foldl_append,ih]; rfl

theorem Settled.components_ofComponents {stack : List Component} (h : Settled stack) :
    (ofComponents stack.reverse).components = stack.reverse := by
  induction h with
  | empty | root | parent | parentOfRoot => decide
  | @name stack name hname _ ih =>
    have hlast : ofComponents (stack.reverse ++ [.normal name]) = ofComponents stack.reverse / ⟨name⟩ := by
      simp [ofComponents,Component.text]
    rw [List.reverse_cons,hlast,components_div_name _ hname,ih]

theorem settled_components (p : Path) : Settled (p.components.foldl normalizeStep []) :=
  settled_foldl .empty fun _ => normal_of_mem_components

/-- A path without detours has none. -/
theorem normalize_normalize (p : Path) : p.normalize.normalize = p.normalize := by
  have hsettled := p.settled_components
  have hcomponents : p.normalize.components = p.normalComponents := hsettled.components_ofComponents
  have hagain : p.normalize.normalComponents = p.normalComponents := by
    rw [normalComponents,hcomponents,normalComponents,hsettled.foldl_reverse]
  rw [normalize,hagain]
  rfl

end Path
end SchemaBinding
