import SchemaBinding.Proofs.Classes.Simplified
import SchemaBinding.Proofs.Packages.Directories
import SchemaBinding.Proofs.Resolution.Coverage

/-! Which declaration counts if several documents declare the same. It is that of the document that was recorded
first, among those in the same package, and for groups among all. A document is recorded after what it refers to;
so an entry point comes last, and what it redefines comes before it. Main statement: what an entry point declares
counts against the same declaration in a document that it refers to if and only if no reference is followed. -/
namespace SchemaBinding

namespace Corpus
variable {c : Corpus} {test : Class → Bool}

/-- The first class that passes a test, with its document. -/
def declaration? (c : Corpus) (test : Class → Bool) : Option (String × Class) :=
  c.documents.entries.findSome? fun e => (e.2.find? test).map (e.1,·)

theorem find?_allClasses (c : Corpus) (test : Class → Bool) :
    c.allClasses.find? test = (c.declaration? test).map Prod.snd := by
  rw [allClasses,OrderedMap.values,List.find?_flatten,List.findSome?_map,declaration?,List.map_findSome?]
  simp only [Function.comp_def,Option.map_map,Option.map_id']

theorem mem_allClasses_of_last {before : List (String × List Class)} {uri : String} {classes : List Class} {d : Class}
    (hentries : c.documents.entries = before ++ [(uri,classes)]) (hd : d ∈ classes) : d ∈ c.allClasses := by
  rw [allClasses,OrderedMap.values,hentries]
  exact List.mem_flatten.mpr ⟨classes,by simp,hd⟩

theorem entries_record {uri : String} (h : uri ∉ c.uris) (classes : List Class) :
    (c.record uri classes).documents.entries = c.documents.entries ++ [(uri,classes)] := by
  have hold : ∀ e ∈ c.documents.entries, (e.1,if e.1 = uri then e.2 ++ classes else e.2) = e := by
    intro e he
    have hne : e.1 ≠ uri := fun hu => h (hu ▸ List.mem_map_of_mem he)
    rw [if_neg hne]
  simp only [record,OrderedMap.adjust,OrderedMap.entries_insertNew_of_not_mem h,List.map_append]
  rw [List.map_congr_left hold]
  simp

/-- The last document is the one whose declaration counts if no other has it. -/
theorem exists_declaration?_last {before : List (String × List Class)} {uri : String} {classes : List Class}
    (hentries : c.documents.entries = before ++ [(uri,classes)]) (hdeclared : ∃ d ∈ classes, test d) :
    (∃ d, c.declaration? test = some (uri,d)) ↔ ∀ e ∈ before, ∀ d ∈ e.2, ¬ test d := by
  have hnodup := c.documents.nodup
  rw [hentries,List.map_append,List.nodup_append] at hnodup
  have hlast : ∃ d, classes.find? test = some d := by
    rw [← Option.isSome_iff_exists,List.find?_isSome]
    exact hdeclared
  obtain ⟨first,hfirst⟩ := hlast
  have hsplit : c.declaration? test =
      (before.findSome? fun e => (e.2.find? test).map (e.1,·)).or (some (uri,first)) := by
    simp [declaration?,hentries,List.findSome?_append,hfirst]
  rw [hsplit]
  constructor
  · rintro ⟨d,hd⟩ e he x hx htest
    rcases Option.or_eq_some_iff.mp hd with hbefore | ⟨hnone,_⟩
    · obtain ⟨other,hother,hfound⟩ := List.exists_of_findSome?_eq_some hbefore
      obtain ⟨x,_,hx⟩ := Option.map_eq_some_iff.mp hfound
      have huri : other.1 = uri := congrArg Prod.fst hx
      exact hnodup.2.2 other.1 (List.mem_map_of_mem hother) uri (by simp) huri
    · have hnot := List.findSome?_eq_none_iff.mp hnone e he
      rw [Option.map_eq_none_iff,List.find?_eq_none] at hnot
      exact hnot x hx htest
  · intro h
    have hnone : (before.findSome? fun e => (e.2.find? test).map (e.1,·)) = none := by
      rw [List.findSome?_eq_none_iff]
      intro e he
      rw [Option.map_eq_none_iff,List.find?_eq_none]
      exact h e he
    exact ⟨first,by rw [hnone,Option.none_or]⟩

end Corpus

namespace Simplify
variable {cs : List Class}

/-- The class that is kept for a key stands for the first declaration of that key. -/
theorem find?_classes {k : ClassKey} (hk : k.kind.isGroup = false) (cs : List Class) :
    (classes cs).find? (classKey · = k) = (cs.find? (classKey · = k)).map (simplified (definitions cs)) := by
  have hkey : ∀ c, classKey (simplified (definitions cs) c) = classKey c := by
    intro c
    rw [simplified,mergeRepeated_eq,inlineGroups_eq]
    rfl
  have hgroup : ∀ c : Class, decide (classKey c = k) → !c.kind.isGroup := by
    intro c hc
    have hkind : c.kind = k.kind := congrArg ClassKey.kind (of_decide_eq_true hc)
    simp [hkind,hk]
  rw [classes_eq_map,List.find?_map]
  simp only [Function.comp_def,hkey]
  rw [distinct,OrderedMap.find?_values_firsts,find?_filter_of_imp hgroup]

/-- Whether two declarations count as the same: those of groups in all packages, others in one. -/
def same (d e : Class) : Bool := keyOf e = keyOf d && (d.kind.isGroup || e.package = d.package)

@[simp] theorem keyOf_assignPackage (package : String) (c : Class) : keyOf (c.assignPackage package) = keyOf c := by
  cases c
  rfl

theorem package_assignPackage (package : String) (c : Class) : (c.assignPackage package).package = some package := by
  cases c
  rfl

theorem same_assignPackage (package : String) {d e : Class} (h : keyOf e = keyOf d) :
    same (d.assignPackage package) (e.assignPackage package) := by
  simp [same,h,package_assignPackage]

theorem same_of_isGroup {d : Class} (hd : d.kind.isGroup) : same d = fun e => decide (keyOf e = keyOf d) := by
  funext e
  simp [same,hd]

theorem same_of_not_isGroup {d : Class} (hd : d.kind.isGroup = false) :
    same d = fun e => decide (classKey e = classKey d) := by
  funext e
  simp only [same,hd,Bool.false_or,keyOf,classKey,GroupKey.mk.injEq,ClassKey.mk.injEq,← Bool.decide_and]
  exact decide_eq_decide.mpr (by tauto)

end Simplify

/-! ## What is kept in a corpus -/

namespace Corpus
open Simplify (same)

variable {c : Corpus} {d : Class}

theorem find?_classes_declaration? (hd : d.kind.isGroup = false) (c : Corpus) :
    (Simplify.classes c.allClasses).find? (Simplify.classKey · = Simplify.classKey d) =
      (c.declaration? (same d)).map fun e => Simplify.simplified (Simplify.definitions c.allClasses) e.2 := by
  rw [Simplify.find?_classes hd,Simplify.same_of_not_isGroup hd,find?_allClasses,Option.map_map]
  rfl

theorem lookup_declaration? (hd : d.kind.isGroup) (hdeclared : (c.declaration? (same d)).isSome) {f : Field}
    (hkind : f.kind = d.kind) (htype : Prefixed.localPart f.type = d.name) :
    Simplify.lookup (Simplify.definitions c.allClasses) d.space f = (c.declaration? (same d)).map Prod.snd := by
  have hget : (Simplify.definitions c.allClasses).get? (Simplify.keyOf d) =
      (c.declaration? (same d)).map Prod.snd := by
    rw [Simplify.get?_definitions hd,find?_allClasses,Simplify.same_of_isGroup hd]
  obtain ⟨e,he⟩ := Option.isSome_iff_exists.mp hdeclared
  rw [he] at hget ⊢
  simp only [Simplify.lookup,hkind,htype]
  rw [show (Simplify.GroupKey.mk d.kind d.space d.name) = Simplify.keyOf d from rfl,hget]
  rfl

end Corpus

/-- The URI of the common directory ends in a slash. -/
theorem Settings.getLast?_commonUri {disk : Disk} {s : Settings} {common? : Option String}
    (h : s.commonUri disk = .ok common?) : ∀ common, common? = some common → common.toList.getLast? = some '/' := by
  rintro common rfl
  unfold commonUri at h
  cases hdirectory : s.commonDirectory with
  | none =>
    rw [hdirectory] at h
    cases h
  | some directory =>
    simp only [hdirectory] at h
    cases huri : Location.uriOfPath disk directory with
    | error failure =>
      rw [huri] at h
      cases h
    | ok uri =>
      rw [huri] at h
      obtain rfl := Option.some.inj (Except.ok.inj h)
      split
      · assumption
      · simp

namespace Session
open Resolution
open Packages (documentPackage InDirectory)

variable (disk : Disk) (s : Session)

theorem settings_takeSchemas (uris : List String) : (s.takeSchemas disk uris).1.settings = s.settings := rfl

variable {s} in
theorem takeSchemas_of_inTurn {uris : List String} {q : Progress} {outcome : Except Failure Unit}
    (h : inTurn (visit (s.readSchema? disk) (s.settings.limits.levelsLeft 0) none) s.progress uris = (q,outcome)) :
    s.takeSchemas disk uris = ({ s with progress := q },outcome) := by
  rw [takeSchemas,h]

/-- An entry point is recorded last, after the documents it refers to. -/
theorem corpus_takeSchemas_single {m : String} {M : Schema} (hread : s.readSchema? disk m none = some M) :
    ∃ q : Corpus, (s.fresh.takeSchemas disk [m]).2 = .ok () ∧
      (s.fresh.takeSchemas disk [m]).1.corpus = q.record m M.classes ∧ m ∉ q.uris ∧
      (s.settings.limits.maxIncludeDepth = 0 → q.uris = []) ∧
      (0 < s.settings.limits.maxIncludeDepth → ∀ b ∈ M.locations, b ≠ m →
        (s.readSchema? disk b none).isSome → b ∈ q.uris) := by
  let bound := s.settings.limits.maxIncludeDepth
  let step := visit (s.readSchema? disk) bound M.targetNamespace
  have hstart : (({} : Progress).request m).Orderly := by
    intro uri huri
    cases huri
  have hfirst : ∀ p uri, p.Orderly → ∃ order,
      Follows (s.readSchema? disk) bound p [⟨uri,M.targetNamespace,1⟩] order (step p uri) :=
    fun p uri hp => visit_follows (fun _ _ _ => s.location_readSchema? disk) bound bound 1 (by omega) _ p uri hp
  obtain ⟨order,h⟩ := inTurn_follows hfirst M.locations hstart
  obtain ⟨q,hq⟩ : ∃ q, inTurn step (({} : Progress).request m) M.locations = (q,.ok ()) := ⟨_,Prod.ext rfl h.ok⟩
  rw [hq] at h
  have hvisit : visit (s.readSchema? disk) (bound+1) none {} m = (q.record m M,.ok ()) := by
    have hnew : m ∉ ({} : Progress).requested := List.not_mem_nil
    simp only [visit,hnew,if_false,hread]
    exact convertBy_of_inTurn hq (s.location_readSchema? disk hread)
  have hrun : s.fresh.takeSchemas disk [m] = ({ s with progress := q.record m M },.ok ()) := by
    have hturn : inTurn (visit (s.readSchema? disk) (bound+1) none) {} [m] = (q.record m M,.ok ()) := by
      simp only [inTurn,hvisit]
    exact takeSchemas_of_inTurn disk (s:=s.fresh) hturn
  have hrecorded := h.mem_uris (s.steady_readSchema? disk) rfl
  have hunseen : m ∉ uris order := fun hm => h.tour.not_mem_seen m hm (List.mem_singleton_self m)
  refine ⟨q.corpus,by rw [hrun],by rw [hrun]; rfl,fun hm => hunseen ((hrecorded m).mp hm).1,?_,?_⟩
  · intro hbound
    refine List.eq_nil_iff_forall_not_mem.mpr fun uri huri => ?_
    obtain ⟨a,ha,_⟩ := mem_uris.mp ((hrecorded uri).mp huri).1
    have hdeep : 1 ≤ a.depth := by
      refine h.tour.invariant (P:=fun a => 1 ≤ a.depth) ?_ ?_ a ha
      · intro b hb c hc
        obtain ⟨_,_,_,_,hdepth⟩ := mem_onward.mp hc
        omega
      · intro b hb
        obtain ⟨_,_,rfl⟩ := List.mem_map.mp hb
        exact le_rfl
    have hdepth : a.depth ≤ bound := by exact_mod_cast h.tour.depth_le a ha
    omega
  · intro hbound b hb hne hsome
    have harrival : (⟨b,M.targetNamespace,1⟩ : Arrival) ∈ M.locations.map fun uri => ⟨uri,M.targetNamespace,1⟩ :=
      List.mem_map_of_mem hb
    have hvisited := h.tour.visits _ harrival (by exact_mod_cast hbound)
    refine (hrecorded b).mpr ⟨(List.mem_append.mp hvisited).resolve_left ?_,hsome⟩
    exact fun hm => hne (List.mem_singleton.mp hm)

/-- An entry point and a document in its directory to which it refers, as it does to one that it redefines, declare
the same. What the entry point declares is kept if and only if no reference is followed. -/
theorem redefinition_kept_iff {m b : String} {M : Schema} {r : SchemaReference} {d : Class} {common? : Option String}
    (hsimplify : s.simplify = Simplify.classes) (hcommon : s.settings.commonUri disk = .ok common?)
    (hread : s.readSchema? disk m none = some M) (hr : r ∈ M.references) (hb : r.location = some b) (hne : b ≠ m)
    (hreadable : (s.readSchema? disk b none).isSome) (hd : d ∈ M.classes)
    {directory : List Char} (hplace : InDirectory directory m) (hplace' : InDirectory directory b)
    (hboth : ∀ classes, (s.fresh.takeSchemas disk [m]).1.corpus.get? b = some classes →
      ∃ e ∈ classes, Simplify.keyOf e = Simplify.keyOf d) :
    let run := s.fresh.takeSchemas disk [m]
    let c := run.1.corpus.assignPackages s.settings.package common?
    let declared := d.assignPackage (documentPackage run.1.corpus.uris s.settings.package common? m)
    let kept := c.declaration? (Simplify.same declared)
    run.2 = .ok () ∧
      (run.1.compile disk).2 = s.writer.designate (Simplify.classes c.allClasses) s.settings.output ∧
      (d.kind.isGroup = false →
        (Simplify.classes c.allClasses).find? (Simplify.classKey · = Simplify.classKey declared) =
          kept.map fun e => Simplify.simplified (Simplify.definitions c.allClasses) e.2) ∧
      (d.kind.isGroup → ∀ f : Field, f.kind = d.kind → Prefixed.localPart f.type = d.name →
        Simplify.lookup (Simplify.definitions c.allClasses) d.space f = kept.map Prod.snd) ∧
      ((∃ e, kept = some (m,e)) ↔ s.settings.limits.maxIncludeDepth = 0) := by
  intro run c declared kept
  let packageOf := documentPackage run.1.corpus.uris s.settings.package common?
  obtain ⟨q,hok,hcorpus,hnew,hnone,hall⟩ := s.corpus_takeSchemas_single disk hread
  have hlast : run.1.corpus.documents.entries = q.documents.entries ++ [(m,M.classes)] :=
    hcorpus ▸ Corpus.entries_record hnew M.classes
  have hentries : c.documents.entries =
      q.documents.entries.map (fun e => (e.1,Class.assignPackages (packageOf e.1) e.2)) ++
        [(m,Class.assignPackages (packageOf m) M.classes)] := by
    rw [Corpus.documents_assignPackages]
    simp only [OrderedMap.map,hlast,List.map_append,List.map_cons,List.map_nil]
    rfl
  have hkey : Simplify.keyOf declared = Simplify.keyOf d := Simplify.keyOf_assignPackage _ d
  have hkind : declared.kind = d.kind := congrArg Simplify.GroupKey.kind hkey
  have hmem : declared ∈ Class.assignPackages (packageOf m) M.classes := by
    rw [Class.assignPackages_eq_map]
    exact List.mem_map_of_mem hd
  have hsame : Simplify.same declared declared := by simp [Simplify.same]
  have hmem' : declared ∈ c.allClasses := Corpus.mem_allClasses_of_last hentries hmem
  refine ⟨hok,?_,?_,?_,?_⟩
  · have hclasses : run.1.corpus.allClasses ≠ [] :=
      List.ne_nil_of_mem (Corpus.mem_allClasses_of_last hlast hd)
    rw [compile_eq_designate disk (s:=run.1) hcommon hclasses]
    exact congrArg (fun f => s.writer.designate (f c.allClasses) s.settings.output) hsimplify
  · intro hgroup
    exact Corpus.find?_classes_declaration? (hkind ▸ hgroup) c
  · intro hgroup f hf htype
    have hfound : (c.allClasses.find? (Simplify.same declared)).isSome :=
      List.find?_isSome.mpr ⟨declared,hmem',hsame⟩
    rw [Corpus.find?_allClasses,Option.isSome_map] at hfound
    have hlookup := Corpus.lookup_declaration? (d:=declared) (hkind ▸ hgroup) hfound (hf.trans hkind.symm)
      (htype.trans (congrArg Simplify.GroupKey.name hkey).symm)
    rwa [show declared.space = d.space from congrArg Simplify.GroupKey.space hkey] at hlookup
  · rw [Corpus.exists_declaration?_last hentries ⟨declared,hmem,hsame⟩]
    constructor
    · intro hrivals
      by_contra hlimit
      have hlocation : b ∈ M.locations := List.mem_filterMap.mpr ⟨r,hr,hb⟩
      have hbefore := hall (Nat.pos_of_ne_zero hlimit) b hlocation hne hreadable
      have hpackage : packageOf b = packageOf m := by
        refine Packages.documentPackage_eq_of_inDirectory (Settings.getLast?_commonUri hcommon) ?_ ?_ hplace' hplace _
        · rw [Corpus.uris,OrderedMap.keys,hlast,List.map_append]
          exact List.mem_append_left _ hbefore
        · rw [Corpus.uris,OrderedMap.keys,hlast,List.map_append]
          exact List.mem_append_right _ (List.mem_singleton_self m)
      obtain ⟨⟨_,classes⟩,hrecorded,rfl⟩ := List.mem_map.mp hbefore
      obtain ⟨e,he,hdouble⟩ := hboth classes (by
        rw [Corpus.get?,OrderedMap.get?_eq_some_iff,hlast]
        exact List.mem_append_left _ hrecorded)
      refine hrivals _ (List.mem_map_of_mem hrecorded) (e.assignPackage (packageOf m)) ?_
        (Simplify.same_assignPackage _ hdouble)
      rw [show packageOf _ = packageOf m from hpackage,Class.assignPackages_eq_map]
      exact List.mem_map_of_mem he
    · intro hlimit e he
      have hempty : q.documents.entries = [] := List.map_eq_nil_iff.mp (hnone hlimit)
      rw [hempty] at he
      cases he

/-- A document that overrides the only type of another. -/
def overriding : Session := serving {} [
  ("file:///m","<schema><override schemaLocation='b'><complexType name='T'><attribute name='y'/></complexType>" ++
    "</override></schema>"),
  ("file:///b","<schema><complexType name='T'><attribute name='x'/></complexType></schema>")]

theorem redefinition_kept_iff_overriding : ∃ M r d, overriding.readSchema? {} "file:///m" none = some M ∧
    r ∈ M.references ∧ r.kind = .overriding ∧ r.location = some "file:///b" ∧
    (overriding.readSchema? {} "file:///b" none).isSome ∧ d ∈ M.classes ∧
    let run := overriding.fresh.takeSchemas {} ["file:///m"]
    let c := run.1.corpus.assignPackages overriding.settings.package none
    let declared := d.assignPackage (documentPackage run.1.corpus.uris overriding.settings.package none "file:///m")
    let kept := c.declaration? (Simplify.same declared)
    run.2 = .ok () ∧
      (run.1.compile {}).2 = overriding.writer.designate (Simplify.classes c.allClasses) overriding.settings.output ∧
      (d.kind.isGroup = false →
        (Simplify.classes c.allClasses).find? (Simplify.classKey · = Simplify.classKey declared) =
          kept.map fun e => Simplify.simplified (Simplify.definitions c.allClasses) e.2) ∧
      (d.kind.isGroup → ∀ f : Field, f.kind = d.kind → Prefixed.localPart f.type = d.name →
        Simplify.lookup (Simplify.definitions c.allClasses) d.space f = kept.map Prod.snd) ∧
      ((∃ e, kept = some ("file:///m",e)) ↔ overriding.settings.limits.maxIncludeDepth = 0) := by
  have hview : (overriding.readSchema? {} "file:///m" none).map (fun M =>
      (M.references.map fun r => (r.kind,r.location),M.classes.map Simplify.keyOf)) =
        some ([(.overriding,some "file:///b")],[⟨.complexType,none,"T"⟩]) := by
    decide +kernel
  obtain ⟨M,hread,hparts⟩ := Option.map_eq_some_iff.mp hview
  obtain ⟨hreferences,hclasses⟩ := Prod.mk.inj hparts
  obtain ⟨r,hr,hreference⟩ := List.mem_map.mp (hreferences ▸ List.mem_singleton_self _)
  obtain ⟨hkind,hlocation⟩ := Prod.mk.inj hreference
  obtain ⟨d,hd,hkey⟩ := List.mem_map.mp (hclasses ▸ List.mem_singleton_self _)
  have hreadable : (overriding.readSchema? {} "file:///b" none).isSome := by decide +kernel
  have hrecorded : ((overriding.fresh.takeSchemas {} ["file:///m"]).1.corpus.get? "file:///b").map
      (List.map Simplify.keyOf) = some [⟨.complexType,none,"T"⟩] := by
    decide +kernel
  refine ⟨M,r,d,hread,hr,hkind,hlocation,hreadable,hd,?_⟩
  have hm : InDirectory "file://".toList "file:///m" := ⟨['m'],by decide,by decide,by decide⟩
  have hb : InDirectory "file://".toList "file:///b" := ⟨['b'],by decide,by decide,by decide⟩
  refine redefinition_kept_iff {} overriding rfl rfl hread hr hlocation (by decide) hreadable hd hm hb ?_
  intro classes hget
  rw [hget] at hrecorded
  obtain ⟨e,he,hdouble⟩ := List.mem_map.mp (Option.some.inj hrecorded ▸ List.mem_singleton_self _)
  exact ⟨e,he,hdouble.trans hkey.symm⟩

/-- The type that is kept is the one that is overridden. -/
theorem overriding_keeps_overridden :
    (overriding.readSchema? {} "file:///m" none).map (·.classes.map fun c => (c.name,c.fields.map Field.name)) =
        some [("T",["y"])] ∧
      ((overriding.fresh.takeSchemas {} ["file:///m"]).1.compile {}).2.toOption.map
        (List.map fun c => (c.name,c.fields.map Field.name)) = some [("T",["x"])] := by
  have hclasses : (overriding.fresh.takeSchemas {} ["file:///m"]).1.corpus.allClasses ≠ [] := by
    rw [← List.length_pos_iff]
    decide +kernel
  have huris : (overriding.fresh.takeSchemas {} ["file:///m"]).1.corpus.uris = ["file:///b","file:///m"] := by
    decide +kernel
  have hassigned : Packages.assignments ["file:///b","file:///m"] "generated" none =
      [("file:///b","generated"),("file:///m","generated")] := by
    rw [Packages.assignments,Packages.group,List.mergeSort_of_pairwise (by decide +kernel)]
    decide +kernel
  refine ⟨by decide +kernel,?_⟩
  have hsettings := settings_takeSchemas {} overriding.fresh ["file:///m"]
  have hcommon : (overriding.fresh.takeSchemas {} ["file:///m"]).1.settings.commonUri {} = .ok none := by
    rw [hsettings]
    rfl
  have hpackage : (overriding.fresh.takeSchemas {} ["file:///m"]).1.settings.package = "generated" := by
    rw [hsettings]
    rfl
  rw [compile_eq_designate {} hcommon hclasses,Corpus.assignPackages,huris,hpackage,hassigned]
  decide +kernel

end Session
end SchemaBinding
