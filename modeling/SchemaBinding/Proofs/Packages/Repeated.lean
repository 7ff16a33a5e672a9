import SchemaBinding.Proofs.Packages.Traceless
import SchemaBinding.Proofs.Resolution.Growth
import SchemaBinding.Proofs.Resolution.Schemas

/-! Definitions that are resolved again. Everything their schemas refer to has been asked for, so the second time
nothing is followed, and the schemas alone are recorded once more, behind what is there. Of classes that mean the same
the first counts, and so of groups; what stands once more behind itself makes no difference. Main statement: however
often definitions are resolved, the same classes are compiled. -/
namespace SchemaBinding

namespace OrderedMap
variable {κ α β : Type} [DecidableEq κ]

/-- The values of a map by its keys. -/
theorem values_eq_map_keys (m : OrderedMap κ α) (absent : α) :
    m.values = m.keys.map fun k => (m.get? k).getD absent := by
  rw [values,keys,List.map_map]
  refine List.map_congr_left fun e he => ?_
  have hget : m.get? e.1 = some e.2 := get?_eq_some_iff.mpr he
  simp [hget]

theorem mem_keys_foldl_insertNew (key : α → κ) (xs : List α) (m : OrderedMap κ α) {k : κ}
    (hk : k ∈ m.keys ∨ ∃ x ∈ xs, key x = k) : k ∈ (xs.foldl (fun m x => m.insertNew (key x) x) m).keys := by
  induction xs generalizing m with
  | nil => simpa using hk
  | cons x xs ih =>
    refine ih (m.insertNew (key x) x) ?_
    have hkeys : k ∈ (m.insertNew (key x) x).keys ↔ k ∈ m.keys ∨ key x = k := by
      rw [keys_insertNew]
      split
      · exact ⟨Or.inl,fun h => h.elim id fun hx => hx ▸ ‹key x ∈ m.keys›⟩
      · simp [eq_comm]
    rw [hkeys]
    simpa [or_assoc] using hk

theorem foldl_insertNew_of_mem (key : α → κ) {xs : List α} {m : OrderedMap κ α} (h : ∀ x ∈ xs, key x ∈ m.keys) :
    xs.foldl (fun m x => m.insertNew (key x) x) m = m := by
  induction xs with
  | nil => rfl
  | cons x xs ih =>
    have hx : m.insertNew (key x) x = m := insertNew_of_mem (h x (by simp)) x
    rw [List.foldl_cons,hx]
    exact ih fun y hy => h y (by simp [hy])

/-- Lists with some of their own elements once more behind them. -/
def Echoes (f g : β → List α) : Prop := ∀ b, ∃ again, g b = f b ++ again ∧ again ⊆ f b

theorem firsts_flatMap {f g : β → List α} (h : Echoes f g) (key : α → κ) (bs : List β) :
    firsts key (bs.flatMap g) = firsts key (bs.flatMap f) := by
  let take (m : OrderedMap κ α) (x : α) := m.insertNew (key x) x
  have hall (m : OrderedMap κ α) : (bs.flatMap g).foldl take m = (bs.flatMap f).foldl take m := by
    induction bs generalizing m with
    | nil => rfl
    | cons b bs ih =>
      obtain ⟨again,hg,hsubset⟩ := h b
      have hkeys : ∀ x ∈ again, key x ∈ ((f b).foldl take m).keys :=
        fun x hx => mem_keys_foldl_insertNew key (f b) m (Or.inr ⟨x,hsubset hx,rfl⟩)
      have hagain : again.foldl take ((f b).foldl take m) = (f b).foldl take m := foldl_insertNew_of_mem key hkeys
      rw [List.flatMap_cons,List.flatMap_cons,List.foldl_append,List.foldl_append,hg,List.foldl_append,hagain]
      exact ih _
  exact hall empty

end OrderedMap

namespace Simplify
open OrderedMap (Echoes)
variable {β : Type}

theorem echoes_filter {f g : β → List Class} (h : Echoes f g) (test : Class → Bool) :
    Echoes (fun b => (f b).filter test) fun b => (g b).filter test := by
  intro b
  obtain ⟨again,hg,hsubset⟩ := h b
  exact ⟨again.filter test,by simp [hg],List.filter_subset _ hsubset⟩

theorem echoes_map {f g : β → List Class} (h : Echoes f g) (change : Class → Class) :
    Echoes (fun b => (f b).map change) fun b => (g b).map change := by
  intro b
  obtain ⟨again,hg,hsubset⟩ := h b
  exact ⟨again.map change,by simp [hg],List.map_subset _ hsubset⟩

/-- Classes that stand once more behind themselves change nothing. -/
theorem classes_flatMap {f g : β → List Class} (h : Echoes f g) (bs : List β) :
    classes (bs.flatMap g) = classes (bs.flatMap f) := by
  have hdefinitions : definitions (bs.flatMap g) = definitions (bs.flatMap f) := by
    rw [definitions,definitions,List.filter_flatMap,List.filter_flatMap]
    exact OrderedMap.firsts_flatMap (echoes_filter h _) keyOf bs
  have hkept := echoes_map (echoes_filter h fun c => !c.kind.isGroup) (inlineGroups (definitions (bs.flatMap f)))
  have hdistinct := OrderedMap.firsts_flatMap hkept classKey bs
  simp only [classes,hdefinitions,distinct,List.filter_flatMap,List.map_flatMap]
  rw [hdistinct]

end Simplify

namespace Corpus
open Packages (documentPackage)

/-- A corpus in which classes of some documents are recorded once more. -/
structure Echoes (c d : Corpus) : Prop where
  uris : d.uris = c.uris
  classes : ∀ uri classes, c.get? uri = some classes → ∃ again, d.get? uri = some (classes ++ again) ∧ again ⊆ classes

theorem Echoes.refl (c : Corpus) : c.Echoes c :=
  ⟨rfl,fun _ _ h => ⟨[],by simpa using h,List.nil_subset _⟩⟩

theorem Echoes.trans {c d e : Corpus} (h : c.Echoes d) (h' : d.Echoes e) : c.Echoes e where
  uris := h'.uris.trans h.uris
  classes := by
    intro uri classes hc
    obtain ⟨again,hd,hsubset⟩ := h.classes uri classes hc
    obtain ⟨further,he,hsubset'⟩ := h'.classes uri _ hd
    have hall : classes ++ again ⊆ classes := List.append_subset.mpr ⟨fun _ hx => hx,hsubset⟩
    exact ⟨again ++ further,by rw [he,List.append_assoc],List.append_subset.mpr ⟨hsubset,fun _ hx => hall (hsubset' hx)⟩⟩

theorem allClasses_eq_flatMap (c : Corpus) : c.allClasses = c.uris.flatMap fun uri => (c.get? uri).getD [] := by
  rw [allClasses,OrderedMap.values_eq_map_keys _ [],List.flatMap]
  rfl

theorem Echoes.assignPackages {c d : Corpus} (h : c.Echoes d) (package : String) (common? : Option String) :
    (c.assignPackages package common?).Echoes (d.assignPackages package common?) where
  uris := by simpa using h.uris
  classes := by
    intro uri classes hc
    rw [get?_assignPackages] at hc
    obtain ⟨old,hold,rfl⟩ := Option.map_eq_some_iff.mp hc
    obtain ⟨again,hd,hsubset⟩ := h.classes uri old hold
    let place := Class.assignPackages (documentPackage c.uris package common? uri)
    refine ⟨place again,?_,?_⟩
    · rw [get?_assignPackages,h.uris,hd,Option.map_some,Class.assignPackages_append]
    · simp only [place,Class.assignPackages_eq_map]
      exact List.map_subset _ hsubset

theorem Echoes.lists {c d : Corpus} (h : c.Echoes d) :
    OrderedMap.Echoes (fun uri => (c.get? uri).getD []) fun uri => (d.get? uri).getD [] := by
  intro uri
  cases hc : c.get? uri with
  | some classes =>
    obtain ⟨again,hd,hsubset⟩ := h.classes uri classes hc
    exact ⟨again,by simp [hc,hd],by simpa [hc] using hsubset⟩
  | none =>
    have hnone : d.get? uri = none := by
      rw [← Option.not_isSome_iff_eq_none,isSome_get?,h.uris,← isSome_get?,hc]
      simp
    exact ⟨[],by simp [hc,hnone],List.nil_subset _⟩

theorem Echoes.classes_allClasses {c d : Corpus} (h : c.Echoes d) :
    Simplify.classes d.allClasses = Simplify.classes c.allClasses := by
  rw [allClasses_eq_flatMap,allClasses_eq_flatMap,h.uris]
  exact Simplify.classes_flatMap h.lists c.uris

theorem Echoes.count_eq_zero_iff {c d : Corpus} (h : c.Echoes d) : d.count.main = 0 ↔ c.count.main = 0 := by
  have hempty : ∀ uri, (d.get? uri).getD [] = [] ↔ (c.get? uri).getD [] = [] := by
    intro uri
    obtain ⟨again,hd,hsubset⟩ := h.lists uri
    simp only at hd hsubset
    rw [hd,List.append_eq_nil_iff]
    refine ⟨And.left,fun hc => ⟨hc,?_⟩⟩
    rw [hc] at hsubset
    exact List.subset_nil.mp hsubset
  simp only [count,Class.count,List.length_eq_zero_iff,allClasses_eq_flatMap,List.flatMap_eq_nil_iff,h.uris,hempty]

end Corpus

namespace Resolution
variable {read : Reader Schema} {levels : Nat} {p q : Progress}

/-- A schema that has been converted: what it refers to has been asked for unless it is too deep, and its classes are
recorded. -/
structure Converted (levels : Nat) (p : Progress) (s : Schema) : Prop where
  followed : levels = 0 ∨ ∀ uri ∈ s.locations, uri ∈ p.requested
  recorded : ∃ uri classes, s.location = some uri ∧ p.corpus.get? uri = some classes ∧ s.classes ⊆ classes

theorem Converted.grows {s : Schema} (h : Converted levels p s) (hgrows : p.Grows q) : Converted levels q s where
  followed := h.followed.imp_right fun hall uri huri => hgrows.requested.subset (hall uri huri)
  recorded := by
    obtain ⟨uri,classes,hlocation,hget,hsubset⟩ := h.recorded
    obtain ⟨more,hmore⟩ := hgrows.corpus.classes uri classes hget
    exact ⟨uri,classes ++ more,hlocation,hmore,fun _ hx => List.mem_append_left _ (hsubset hx)⟩

theorem mem_requested_visit (hread : ∀ uri space s, read uri space = some s → s.location = some uri)
    (space : Option String) (p : Progress) (uri : String) :
    uri ∈ (visit read (levels+1) space p uri).1.requested := by
  by_cases hseen : uri ∈ p.requested
  · simp only [visit,hseen,if_true]
  · simp only [visit,hseen,if_false]
    have hnew : uri ∈ (p.request uri).requested := by simp [Progress.request]
    cases h : read uri space with
    | none => exact hnew
    | some s =>
      have hbelow := convertBy_advances (visit_advances hread levels) (hread uri space s h) (p.request uri)
      exact hbelow.grows.requested.subset hnew

theorem mem_requested_inTurn {step : Progress → String → Progress × Except Failure Unit}
    (hstep : ∀ p uri, Advances p (step p uri)) (hvisited : ∀ p uri, uri ∈ (step p uri).1.requested)
    (locations : List String) (p : Progress) : ∀ uri ∈ locations, uri ∈ (inTurn step p locations).1.requested := by
  induction locations generalizing p with
  | nil => simp
  | cons first rest ih =>
    obtain ⟨q,hq,_⟩ := (hstep p first).exists_eq
    have hfirst : first ∈ q.requested := by simpa [hq] using hvisited p first
    have hrest := inTurn_advances rest (fun uri _ p => hstep p uri) q
    intro uri huri
    rw [inTurn,hq]
    rcases List.mem_cons.mp huri with rfl | huri
    · exact hrest.grows.requested.subset hfirst
    · exact ih q uri huri

theorem converted_convert (hread : ∀ uri space s, read uri space = some s → s.location = some uri) {s : Schema}
    (hlocation : s.location.isSome) (p : Progress) : Converted levels (convert read levels p s).1 s := by
  obtain ⟨uri,huri⟩ := Option.isSome_iff_exists.mp hlocation
  let step := visit read levels s.targetNamespace
  have hstep : ∀ p uri, Advances p (step p uri) := visit_advances hread levels s.targetNamespace
  obtain ⟨q,hq,_⟩ := (inTurn_advances s.locations (fun uri _ p => hstep p uri) p).exists_eq
  have hconvert : convert read levels p s = (q.record uri s,.ok ()) := convertBy_of_inTurn hq huri
  rw [hconvert]
  refine ⟨?_,uri,(q.corpus.get? uri).getD [] ++ s.classes,huri,?_,List.subset_append_right _ _⟩
  · cases levels with
    | zero => exact Or.inl rfl
    | succ levels =>
      have hall := mem_requested_inTurn hstep (mem_requested_visit hread s.targetNamespace) s.locations p
      rw [hq] at hall
      exact Or.inr hall
  · change (q.corpus.record uri s.classes).get? uri = _
    rw [Corpus.get?_record,if_pos rfl]

theorem converted_convertAll (hread : ∀ uri space s, read uri space = some s → s.location = some uri)
    {ss : List Schema} (hss : ∀ s ∈ ss, s.location.isSome) (p : Progress) :
    ∀ s ∈ ss, Converted levels (convertAll read levels p ss).1 s := by
  induction ss generalizing p with
  | nil => simp
  | cons first rest ih =>
    obtain ⟨uri,huri⟩ := Option.isSome_iff_exists.mp (hss first (by simp))
    have hfirst : Converted levels (convert read levels p first).1 first :=
      converted_convert hread (hss first (by simp)) p
    obtain ⟨q,hq,_⟩ := (convertBy_advances (visit_advances hread levels) huri p).exists_eq
    have hconvert : convert read levels p first = (q,.ok ()) := hq
    have hlocated : ∀ s ∈ rest, s.location.isSome := fun s hs => hss s (by simp [hs])
    have hrest := convertAll_advances hread levels hlocated q
    intro s hs
    rw [convertAll,inTurn,hconvert]
    rcases List.mem_cons.mp hs with rfl | hs
    · rw [hconvert] at hfirst
      exact hfirst.grows hrest.grows
    · exact ih hlocated q s hs

variable (read) in
/-- A schema that has been converted is recorded once more, and nothing else happens. -/
theorem convert_of_converted {s : Schema} (h : Converted levels p s) :
    ∃ uri, s.location = some uri ∧ convert read levels p s = (p.record uri s,.ok ()) := by
  obtain ⟨uri,_,hlocation,_⟩ := h.recorded
  have hpassed : ∀ other ∈ s.locations, visit read levels s.targetNamespace p other = (p,.ok ()) := by
    intro other hother
    cases levels with
    | zero => rfl
    | succ levels =>
      have hseen : other ∈ p.requested := (h.followed.resolve_left (Nat.succ_ne_zero levels)) other hother
      simp only [visit,hseen,if_true]
  have hbelow (locations : List String) (hall : ∀ other ∈ locations, other ∈ s.locations) :
      inTurn (visit read levels s.targetNamespace) p locations = (p,.ok ()) := by
    induction locations with
    | nil => rfl
    | cons other rest ih =>
      rw [inTurn,hpassed other (hall other (by simp))]
      exact ih fun other hother => hall other (by simp [hother])
  exact ⟨uri,hlocation,convertBy_of_inTurn (hbelow s.locations fun _ h => h) hlocation⟩

/-- The classes that schemas have for a document. -/
def classesAt (ss : List Schema) (uri : String) : List Class :=
  (ss.filter (·.location = some uri)).flatMap Schema.classes

variable (read) in
/-- Schemas that have been converted are recorded once more, each behind what its document has. -/
theorem get?_convertAll_of_converted {ss : List Schema} (hss : ∀ s ∈ ss, Converted levels p s) (uri : String) :
    (convertAll read levels p ss).1.corpus.get? uri = (p.corpus.get? uri).map (· ++ classesAt ss uri) := by
  induction ss generalizing p with
  | nil => simp [convertAll,inTurn,classesAt]
  | cons s rest ih =>
    obtain ⟨place,hplace,hconvert⟩ := convert_of_converted read (hss s (by simp))
    have hgrows := p.grows_record place s
    have hrest := ih (p:=p.record place s) fun t ht => (hss t (by simp [ht])).grows hgrows
    have hrecord : (p.record place s).corpus.get? uri =
        if uri = place then some ((p.corpus.get? place).getD [] ++ s.classes) else p.corpus.get? uri :=
      Corpus.get?_record _ _ _ _
    obtain ⟨_,classes,hlocation,hget,_⟩ := (hss s (by simp)).recorded
    obtain rfl := Option.some.inj (hplace.symm.trans hlocation)
    rw [convertAll,inTurn,hconvert]
    refine hrest.trans ?_
    rw [hrecord]
    by_cases huri : uri = place
    · subst huri
      simp [classesAt,hplace,hget]
    · simp [classesAt,hplace,huri,Ne.symm huri]

variable (read) in
theorem echoes_convertAll_of_converted {ss : List Schema} (hss : ∀ s ∈ ss, Converted levels p s) :
    p.corpus.Echoes (convertAll read levels p ss).1.corpus where
  uris := by
    induction ss generalizing p with
    | nil => rfl
    | cons s rest ih =>
      obtain ⟨place,hplace,hconvert⟩ := convert_of_converted read (hss s (by simp))
      have hrest := ih (p:=p.record place s) fun t ht => (hss t (by simp [ht])).grows (p.grows_record place s)
      obtain ⟨_,classes,hlocation,hget,_⟩ := (hss s (by simp)).recorded
      obtain rfl := Option.some.inj (hplace.symm.trans hlocation)
      have hknown : place ∈ p.corpus.uris := Corpus.isSome_get?.mp (by simp [hget])
      rw [convertAll,inTurn,hconvert]
      refine hrest.trans ?_
      change (p.corpus.record place s.classes).uris = p.corpus.uris
      rw [Corpus.uris_record,if_pos hknown]
  classes := by
    intro uri classes hclasses
    refine ⟨classesAt ss uri,by rw [get?_convertAll_of_converted read hss,hclasses]; rfl,?_⟩
    intro c hc
    obtain ⟨s,hmem,hclass⟩ := List.mem_flatMap.mp hc
    obtain ⟨hs,hplace⟩ := List.mem_filter.mp hmem
    obtain ⟨place,recorded,hlocation,hget,hsubset⟩ := (hss s hs).recorded
    obtain rfl : place = uri := Option.some.inj (hlocation.symm.trans (of_decide_eq_true hplace))
    obtain rfl := Option.some.inj (hget.symm.trans hclasses)
    exact hsubset hclass

end Resolution

namespace Session
open Resolution

variable (disk : Disk) (s : Session)

/-- What is compiled does not depend on what is recorded once more. -/
theorem compile_eq_of_echoes {t : Session} {progress : Progress} {merged : List String}
    (ht : t = { s with progress, merged }) (hsimplify : s.simplify = Simplify.classes)
    (h : s.corpus.Echoes t.corpus) : (t.compile disk).2 = (s.compile disk).2 := by
  have hcount := h.count_eq_zero_iff
  have hclasses (common? : Option String) :
      s.simplify (t.corpus.assignPackages s.settings.package common?).allClasses =
        s.simplify (s.corpus.assignPackages s.settings.package common?).allClasses := by
    rw [hsimplify]
    exact (h.assignPackages s.settings.package common?).classes_allClasses
  subst ht
  unfold compile
  by_cases hempty : s.corpus.count.main = 0
  · simp only [hempty,hcount.mpr hempty,if_true]
  · simp only [hempty,mt hcount.mp hempty,if_false]
    cases s.settings.commonUri disk with
    | error failure => rfl
    | ok common? => simp only [hclasses]

/-- What a request for definitions makes of the progress. -/
def convertedBy (root : String) (p : Progress) : Progress :=
  match (s.unmerged.gatherDefinitions disk root none 0).2 with
  | none => p
  | some d => (convertAll (s.readSchema? disk) (s.settings.limits.levelsLeft 2) p d.schemas).1

theorem resolveDefinitions_eq (root : String) (progress : Progress) (merged : List String) :
    (resolveDefinitions disk { s with progress, merged } root).1 =
      { s with
        progress := s.convertedBy disk root progress
        merged := (s.unmerged.gatherDefinitions disk root none 0).1.merged } := by
  have hgather : gatherDefinitions disk { s with progress, merged }.unmerged root none 0 =
      ({ (s.unmerged.gatherDefinitions disk root none 0).1 with progress },
        (s.unmerged.gatherDefinitions disk root none 0).2) := rfl
  have hsession : (s.unmerged.gatherDefinitions disk root none 0).1 =
      { s with merged := (s.unmerged.gatherDefinitions disk root none 0).1.merged } := rfl
  unfold resolveDefinitions convertedBy
  rw [hgather]
  cases (s.unmerged.gatherDefinitions disk root none 0).2 with
  | none => rw [hsession]
  | some d => rfl

/-- The sessions after definitions were resolved again and again. -/
theorem exists_serveAll_eq (root : String) (n : Nat) :
    ∃ merged, s.serveAll disk (.replicate n (.definitions root)) =
      { s with progress := (s.convertedBy disk root)^[n] s.progress, merged } := by
  induction n with
  | zero => exact ⟨s.merged,rfl⟩
  | succ n ih =>
    obtain ⟨merged,ih⟩ := ih
    have hlast : s.serveAll disk (.replicate (n+1) (.definitions root)) =
        (s.serveAll disk (.replicate n (.definitions root))).serve disk (.definitions root) := by
      simp only [serveAll,List.replicate_succ',List.foldl_append,List.foldl_cons,List.foldl_nil]
    have hstep := s.resolveDefinitions_eq disk root ((s.convertedBy disk root)^[n] s.progress) merged
    rw [hlast,ih,Function.iterate_succ_apply']
    exact ⟨_,hstep⟩

variable {disk s} in
/-- After a first time, every further one records the same schemas once more. -/
theorem converted_convertedBy {root : String} {d : Definitions}
    (hd : (s.unmerged.gatherDefinitions disk root none 0).2 = some d) (n : Nat) :
    ∀ schema ∈ d.schemas, Converted (s.settings.limits.levelsLeft 2) ((s.convertedBy disk root)^[n+1] s.progress) schema := by
  have hread : ∀ uri space schema, s.readSchema? disk uri space = some schema → schema.location = some uri :=
    fun _ _ _ => s.location_readSchema? disk
  have hlocated := s.located_gatherDefinitions disk hd
  rw [Function.iterate_succ_apply']
  simp only [convertedBy,hd]
  exact converted_convertAll hread hlocated _

/-- From the first time on, classes are recorded once more and nothing else happens. -/
theorem echoes_convertedBy (root : String) (n : Nat) :
    (s.convertedBy disk root s.progress).corpus.Echoes ((s.convertedBy disk root)^[n+1] s.progress).corpus := by
  induction n with
  | zero => exact .refl _
  | succ n ih =>
    refine ih.trans ?_
    rw [Function.iterate_succ_apply' _ (n+1)]
    cases hd : (s.unmerged.gatherDefinitions disk root none 0).2 with
    | none =>
      simp only [convertedBy,hd]
      exact .refl _
    | some d =>
      have hechoes := echoes_convertAll_of_converted (s.readSchema? disk) (converted_convertedBy hd n)
      simpa only [convertedBy,hd] using hechoes

/-- However often definitions are resolved, what is compiled is what is compiled after the first time, although each
time the classes of their schemas are recorded once more. -/
theorem compile_resolveDefinitions_again (hsimplify : s.simplify = Simplify.classes) (root : String) (n : Nat) :
    let after (k : Nat) := s.serveAll disk (.replicate k (.definitions root))
    ((after (n+1)).compile disk).2 = ((after 1).compile disk).2 ∧
      ∀ d, (s.unmerged.gatherDefinitions disk root none 0).2 = some d → ∀ uri,
        (after (n+2)).corpus.get? uri = ((after (n+1)).corpus.get? uri).map (· ++ classesAt d.schemas uri) := by
  intro after
  have hafter (k : Nat) : ∃ merged, after k = { s with progress := (s.convertedBy disk root)^[k] s.progress, merged } :=
    s.exists_serveAll_eq disk root k
  obtain ⟨once,honce⟩ := hafter 1
  obtain ⟨merged,hlast⟩ := hafter (n+1)
  obtain ⟨later,hnext⟩ := hafter (n+2)
  constructor
  · have hechoes : (after 1).corpus.Echoes (after (n+1)).corpus := by
      rw [honce,hlast]
      exact s.echoes_convertedBy disk root n
    have hsame : after (n+1) = { after 1 with progress := (after (n+1)).progress, merged } := by
      rw [honce,hlast]
    exact compile_eq_of_echoes disk (after 1) hsame (by rw [honce]; exact hsimplify) hechoes
  · intro d hd uri
    have hrecorded := get?_convertAll_of_converted (s.readSchema? disk) (converted_convertedBy hd n) uri
    rw [hlast,hnext]
    simp only [corpus,Function.iterate_succ_apply' _ (n+1)]
    simpa only [convertedBy,hd] using hrecorded

/-- Definitions with a schema that includes another, which declares the same type. -/
def doubled : Session := serving {} [
  ("file:///w","<definitions xmlns='http://schemas.xmlsoap.org/wsdl/'><types><schema><include schemaLocation='s'/>" ++
    "<complexType name='T'><attribute name='a'/></complexType></schema></types></definitions>"),
  ("file:///s","<schema><complexType name='T'><attribute name='b'/></complexType></schema>")]

/-- After the first time, the type that is included is compiled. -/
theorem compile_doubled : ((doubled.serveAll {} (.replicate 1 (.definitions "file:///w"))).compile {}).2.toOption.map
    (List.map fun c => (c.localName,c.fields.map Field.name)) = some [("T",["b"])] := by
  let after := doubled.serveAll {} (.replicate 1 (.definitions "file:///w"))
  have hrecorded : (after.corpus.uris,after.corpus.allClasses.isEmpty) = (["file:///s","file:///w"],false) := by
    decide +kernel
  obtain ⟨huris,hclasses⟩ := Prod.mk.inj hrecorded
  have hassigned : Packages.assignments ["file:///s","file:///w"] "generated" none =
      [("file:///s","generated"),("file:///w","generated")] := by
    rw [Packages.assignments,Packages.group,List.mergeSort_of_pairwise (by decide +kernel)]
    decide +kernel
  have hsettings : after.settings = {} := by
    obtain ⟨_,hafter⟩ := doubled.exists_serveAll_eq {} "file:///w" 1
    exact congrArg settings hafter
  have hcommon : after.settings.commonUri {} = .ok none := by rw [hsettings,Settings.commonUri]
  have hpackage : after.settings.package = "generated" := by rw [hsettings]
  rw [compile_eq_designate {} hcommon (List.isEmpty_eq_false_iff.mp hclasses),Corpus.assignPackages,huris,hpackage,hassigned]
  decide +kernel

/-- The type of the definitions is recorded once more each time, and the same class is compiled. -/
theorem compile_resolveDefinitions_again_doubled : doubled.simplify = Simplify.classes ∧
    let after (k : Nat) := doubled.serveAll {} (.replicate k (.definitions "file:///w"))
    ((after 3).compile {}).2.toOption.map (List.map fun c => (c.localName,c.fields.map Field.name)) =
      some [("T",["b"])] ∧
    (List.range 4).map (fun k => ((after k).corpus.get? "file:///w").map (List.map Class.name)) =
      [none,some ["T"],some ["T","T"],some ["T","T","T"]] ∧
    ((after 3).compile {}).2 = ((after 1).compile {}).2 ∧
      ∀ d, (doubled.unmerged.gatherDefinitions {} "file:///w" none 0).2 = some d → ∀ uri,
        (after 4).corpus.get? uri = ((after 3).corpus.get? uri).map (· ++ classesAt d.schemas uri) := by
  have hagain := compile_resolveDefinitions_again {} doubled rfl "file:///w" 2
  refine ⟨rfl,?_,by decide +kernel,hagain⟩
  rw [hagain.1]
  exact compile_doubled

end Session
end SchemaBinding
