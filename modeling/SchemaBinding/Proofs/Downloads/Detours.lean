import SchemaBinding.Proofs.Downloads.Places

/-! Detours of paths. Read component by component, a path leads some steps up from where it begins, and then down through
names; no step leads up from the root. Freeing a path of its detours keeps the names, but takes two steps up for none.
Main statement: a path freed of its detours leads to the same place without any if it goes up at most once from where it
begins, or an even number of times from the root, and only then. -/
namespace SchemaBinding
namespace Path

/-! ## Courses -/

/-- What reading components comes to: how many steps up found no name to take back, and the names that are left, innermost
first. -/
structure Course where
  above : Nat := 0
  names : List String := []

namespace Course

def step (c : Course) : Component → Course
  | .root => {}
  | .current => c
  | .parent =>
    match c.names with
    | [] => { c with above := c.above + 1 }
    | _ :: rest => { c with names := rest }
  | .normal name => { c with names := name :: c.names }

/-- Where a course leads from a place. There is nothing above the root. -/
def follow (c : Course) (here : List String) : List String :=
  here.take (here.length - c.above) ++ c.names.reverse

/-- What freeing a path of its detours keeps of it, innermost first: of the steps up only whether they are odd. -/
def stack (absolute : Bool) (c : Course) : List Component :=
  c.names.map .normal ++ (List.replicate (c.above % 2) .parent ++ if absolute then [.root] else [])

theorem follow_start (here : List String) : follow {} here = here := by simp [follow]

theorem follow_step (c : Course) (here : List String) {next : Component} (h : next ≠ .root) :
    (c.step next).follow here = next.step (c.follow here) := by
  cases next with
  | root => exact absurd rfl h
  | current => rfl
  | normal name => simp [step,follow,Component.step]
  | parent =>
    cases hnames : c.names with
    | cons name rest => simp [step,follow,Component.step,hnames]
    | nil =>
      simp [step,follow,Component.step,hnames,List.dropLast_eq_take,List.take_take]
      omega

theorem foldl_follow {cs : List Component} (h : ∀ next ∈ cs, next ≠ .root) (c : Course) (here : List String) :
    cs.foldl Component.step (c.follow here) = (cs.foldl step c).follow here := by
  induction cs generalizing c with
  | nil => rfl
  | cons next cs ih =>
    obtain ⟨hnext,hcs⟩ := List.forall_mem_cons.mp h
    rw [List.foldl_cons,List.foldl_cons,← follow_step c here hnext,ih hcs]

/-- A second step up takes the first one back. -/
theorem normalizeStep_stack (absolute : Bool) (c : Course) {next : Component} (h : next ≠ .root) :
    normalizeStep (c.stack absolute) next = (c.step next).stack absolute := by
  cases next with
  | root => exact absurd rfl h
  | current => rfl
  | normal name => rfl
  | parent =>
    cases hnames : c.names with
    | cons name rest => simp [step,stack,normalizeStep,hnames]
    | nil =>
      rcases Nat.mod_two_eq_zero_or_one c.above with heven | hodd
      · have hnext : (c.above + 1) % 2 = 1 := by omega
        cases absolute <;> simp [step,stack,normalizeStep,hnames,heven,hnext]
      · have hnext : (c.above + 1) % 2 = 0 := by omega
        simp [step,stack,normalizeStep,hnames,hodd,hnext]

theorem foldl_stack {cs : List Component} (h : ∀ next ∈ cs, next ≠ .root) (absolute : Bool) (c : Course) :
    cs.foldl normalizeStep (c.stack absolute) = (cs.foldl step c).stack absolute := by
  induction cs generalizing c with
  | nil => rfl
  | cons next cs ih =>
    obtain ⟨hnext,hcs⟩ := List.forall_mem_cons.mp h
    rw [List.foldl_cons,List.foldl_cons,normalizeStep_stack absolute c hnext,ih hcs]

end Course

def course (p : Path) : Course := p.components.foldl Course.step {}

theorem ne_root_of_mem_componentsOfPieces (pieces : List String) : ∀ c ∈ componentsOfPieces pieces, c ≠ .root := by
  intro c hc
  obtain ⟨piece,_,rfl⟩ := List.mem_map.mp hc
  unfold Component.ofPiece
  split <;> simp

theorem course_eq (p : Path) : p.course = (componentsOfPieces p.pieces).foldl Course.step {} := by
  rw [course,foldl_components (fun _ => rfl)]
  congr 1
  split <;> rfl

/-- A path leads where its course does, from the root or from where it begins. -/
theorem foldl_step_components (p : Path) (here : List String) :
    p.components.foldl Component.step here = p.course.follow (if p.isAbsolute then [] else here) := by
  rw [foldl_components (fun _ => rfl),course_eq,← Course.foldl_follow (ne_root_of_mem_componentsOfPieces _),
    Course.follow_start]
  rfl

theorem components_normalize_eq_stack (p : Path) : p.normalize.components = (p.course.stack p.isAbsolute).reverse := by
  have hstart : (if p.isAbsolute then normalizeStep [] .root else []) = Course.stack p.isAbsolute {} := by
    cases p.isAbsolute <;> rfl
  have hstack : p.components.foldl normalizeStep [] = p.course.stack p.isAbsolute := by
    rw [foldl_components (fun _ => rfl),hstart,Course.foldl_stack (ne_root_of_mem_componentsOfPieces _),course_eq]
  rw [components_normalize,normalComponents,hstack]

/-! ## The same place -/

/-- Where two courses through the same names lead is told by their steps up, from a place that is deep enough. -/
theorem follow_eq_iff {c d : Course} (hnames : c.names = d.names) :
    (∀ here, c.follow here = d.follow here) ↔ c.above = d.above := by
  constructor
  · intro h
    have hdeep := congrArg List.length (h (List.replicate (c.above + d.above) ""))
    simp only [Course.follow,hnames,List.length_append,List.length_take,List.length_replicate] at hdeep
    omega
  · intro h here
    rw [Course.follow,Course.follow,h,hnames]

/-- Where a path leads that was freed of its detours. -/
theorem foldl_step_normalize (p : Path) (here : List String) : p.normalize.components.foldl Component.step here =
    Course.follow { p.course with above := p.course.above % 2 } (if p.isAbsolute then [] else here) := by
  rw [components_normalize_eq_stack,Course.stack]
  rcases Nat.mod_two_eq_zero_or_one p.course.above with heven | hodd
  · cases p.isAbsolute <;> simp [heven,foldl_step_names,Course.follow,Component.step,← List.map_reverse]
  · cases p.isAbsolute <;> simp [hodd,foldl_step_names,Course.follow,Component.step,← List.map_reverse,List.dropLast_eq_take]

/-- A path to where another leads, whatever place both begin at, without detours: names below the root, or steps up and
then names. -/
structure IsDirect (p q : Path) : Prop where
  leads : ∀ here, q.components.foldl Component.step here = p.components.foldl Component.step here
  plain : .current ∉ q.components
  shape : ∃ names : List String, q.components = .root :: names.map .normal ∨
    ∃ n, q.components = List.replicate n .parent ++ names.map .normal

/-- A path freed of its detours goes on through the names that are left of it, after one step up or none. It leads to the
same place without detours if the path goes up from the root an even number of times, or at most once from elsewhere. -/
theorem normalize_isDirect_iff (p : Path) :
    p.normalize.components = (if p.isAbsolute then [.root] else []) ++ List.replicate (p.course.above % 2) .parent ++
        p.course.names.reverse.map .normal ∧
      (IsDirect p p.normalize ↔ if p.isAbsolute then p.course.above % 2 = 0 else p.course.above ≤ 1) := by
  have hcomponents : p.normalize.components = (if p.isAbsolute then [.root] else []) ++
      List.replicate (p.course.above % 2) .parent ++ p.course.names.reverse.map .normal := by
    rw [components_normalize_eq_stack,Course.stack]
    cases p.isAbsolute <;> simp
  refine ⟨hcomponents,?_⟩
  have hplain : .current ∉ p.normalize.components := by
    rw [hcomponents]
    cases p.isAbsolute <;> simp
  cases habsolute : p.isAbsolute with
  | true =>
    rw [if_pos rfl]
    simp only [habsolute] at hcomponents
    constructor
    · rintro ⟨-,-,names,hshape⟩
      by_contra hodd
      rw [hcomponents,Nat.mod_two_ne_zero.mp hodd] at hshape
      rcases hshape with hroot | ⟨n,hup⟩
      · cases names <;> simp at hroot
      · cases n <;> cases names <;> simp [List.replicate_succ] at hup
    · intro heven
      refine ⟨fun here => ?_,hplain,p.course.names.reverse,.inl (by simpa [heven] using hcomponents)⟩
      rw [foldl_step_normalize,foldl_step_components,habsolute]
      simp [Course.follow]
  | false =>
    simp only [habsolute] at hcomponents
    have hleads : (∀ here, p.normalize.components.foldl Component.step here = p.components.foldl Component.step here) ↔
        p.course.above % 2 = p.course.above := by
      have hfollow (here : List String) : (p.normalize.components.foldl Component.step here =
          p.components.foldl Component.step here) ↔
          Course.follow { p.course with above := p.course.above % 2 } here = p.course.follow here := by
        rw [foldl_step_normalize,foldl_step_components p,habsolute]
        rfl
      exact (forall_congr' hfollow).trans (follow_eq_iff rfl)
    have hbound : p.course.above % 2 = p.course.above ↔ p.course.above ≤ 1 := by omega
    rw [if_neg (by simp),← hbound,← hleads]
    exact ⟨IsDirect.leads,fun h => ⟨h,hplain,p.course.names.reverse,.inr ⟨_,by simpa using hcomponents⟩⟩⟩

/-- Two steps up above the place where a path begins are lost, so it comes back below that place. -/
theorem not_isDirect_two_above :
    (Path.mk "out/p/../../../../out/p/q/x.xsd").normalize = ⟨"out/p/q/x.xsd"⟩ ∧
      ¬ IsDirect ⟨"out/p/../../../../out/p/q/x.xsd"⟩ (Path.mk "out/p/../../../../out/p/q/x.xsd").normalize := by
  refine ⟨by decide,fun h => ?_⟩
  have hleads := h.leads ["home","user"]
  revert hleads
  decide

end Path
end SchemaBinding
