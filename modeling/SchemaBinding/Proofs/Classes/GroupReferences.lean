import SchemaBinding.Proofs.Classes.Inlining
import SchemaBinding.Proofs.Classes.Referring
import SchemaBinding.Proofs.Classes.Retained
import SchemaBinding.Proofs.Packages.Layout
import SchemaBinding.Proofs.Packages.Precedence

/-! Which groups references mean. What a prefix stands for is not kept, so a reference is to the group of its local name that
is in the namespace of its own document, or else to the first of that name.
Main statement: a reference whose prefix stands for a namespace with a group of that name means this group if and only if the
namespace is that of its own document, or this has none of that name and the group is the first of all. -/
namespace SchemaBinding
open Xml (Element)
open SchemaBinding.Class (Everywhere)

namespace Simplify

/-- The fields in the place of a reference are those of a group, whatever groups are underway. A group that is underway
stands for nothing. -/
def GivesWayTo (ds : Definitions) (space : Option String) (f : Field) (d : Class) : Prop :=
  ∀ seen, Underway ds seen → standsFor ds seen space f = if keyOf d ∈ seen then [] else
    (d.fields.flatMap (standsFor ds (keyOf d :: seen) d.space)).map (takePlace f)

variable {cs : List Class}

theorem givesWayTo_of_found? {space : Option String} {f : Field} (hgroup : f.kind.isGroup) {d : Class}
    (h : found? cs space f.kind (Prefixed.localPart f.type) = some d) : GivesWayTo (definitions cs) space f d :=
  fun _ hseen => standsFor_of_lookup hseen hgroup (by rw [lookup_definitions hgroup,h])

/-- A group is found for its name if it is in the namespace of the reference, or there is none and it is the first. -/
theorem found?_eq_iff (space : Option String) {kind : Kind} {name N : String} {D : Class}
    (hD : cs.find? (keyOf · = ⟨kind,some N,name⟩) = some D) :
    ∃ d, found? cs space kind name = some d ∧ (d = D ↔ some N = space ∨
      (cs.find? (keyOf · = ⟨kind,space,name⟩) = none ∧ cs.find? (fun c => c.kind = kind && c.name = name) = some D)) := by
  have hkey {k : GroupKey} {c : Class} (h : cs.find? (keyOf · = k) = some c) : keyOf c = k := by
    simpa using List.find?_some h
  cases hown : cs.find? (keyOf · = ⟨kind,space,name⟩) with
  | some own =>
    refine ⟨own,by rw [found?,hown,Option.some_or],?_⟩
    constructor
    · rintro rfl
      exact .inl (congrArg GroupKey.space ((hkey hD).symm.trans (hkey hown)))
    · rintro (rfl | ⟨hnone,_⟩)
      · exact Option.some.inj (hown.symm.trans hD)
      · cases hnone
  | none =>
    have hany : (cs.find? fun c => c.kind = kind && c.name = name).isSome := by
      rw [List.find?_isSome]
      refine ⟨D,List.mem_of_find?_eq_some hD,?_⟩
      rw [show D.kind = kind from congrArg GroupKey.kind (hkey hD),show D.name = name from congrArg GroupKey.name (hkey hD)]
      simp
    obtain ⟨first,hfirst⟩ := Option.isSome_iff_exists.mp hany
    refine ⟨first,by rw [found?,hown,hfirst,Option.none_or],?_⟩
    rw [hfirst]
    constructor
    · rintro rfl
      exact .inr ⟨rfl,rfl⟩
    · rintro (rfl | ⟨_,heq⟩)
      · rw [hown] at hD
        cases hD
      · exact Option.some.inj heq

/-- What a reference to a group means that a class in a namespace has from a document. -/
structure Means (cs : List Class) (root : Element) (space : Option String) (f : Field) : Prop where
  written : ∃ x : Element, x.Below root ∧ x.RefersTo f.kind f.type
  found : ∀ d, found? cs space f.kind (Prefixed.localPart f.type) = some d → GivesWayTo (definitions cs) space f d
  missing : found? cs space f.kind (Prefixed.localPart f.type) = none → ∀ seen, standsFor (definitions cs) seen space f = []
  /-- Where the prefix stands for a namespace with a group of that name. -/
  bound : ∀ x : Element, x.Below root → x.RefersTo f.kind f.type → ∀ N, (x.resolve f.type).space = some N →
    ∀ D, cs.find? (keyOf · = ⟨f.kind,some N,Prefixed.localPart f.type⟩) = some D →
      ∃ d, found? cs space f.kind (Prefixed.localPart f.type) = some d ∧
        (d = D ↔ some N = space ∨ (cs.find? (keyOf · = ⟨f.kind,space,Prefixed.localPart f.type⟩) = none ∧
          cs.find? (fun c => c.kind = f.kind && c.name = Prefixed.localPart f.type) = some D))

theorem means_of_holdsReference {root : Element} {space : Option String} {f : Field} (hgroup : f.kind.isGroup)
    (h : root.HoldsReference (f.kind,f.type)) : Means cs root space f := by
  refine ⟨h,fun d => givesWayTo_of_found? hgroup,fun hmissing seen => ?_,fun x _ _ N _ D => found?_eq_iff space⟩
  exact standsFor_of_lookup_eq_none hgroup (by rw [lookup_definitions hgroup,hmissing])

end Simplify

namespace Session
open Simplify (definitions simplified standsFor mergeFields Means)

variable (disk : Disk) (s : Session)

/-- What stands in the place of references to groups when classes of resolved documents are simplified. -/
structure ReferencesMean (c : Corpus) : Prop where
  /-- Classes that are kept are simplified one by one. -/
  classes : Simplify.classes c.allClasses = (Simplify.kept c.allClasses).map (simplified (definitions c.allClasses))
  /-- In a class, and in all below it, references give way and nothing else does. -/
  inside : ∀ d, (simplified (definitions c.allClasses) d).fields =
      mergeFields (d.fields.flatMap (standsFor (definitions c.allClasses) [] d.space)) ∧
    (simplified (definitions c.allClasses) d).inner = d.inner.map (simplified (definitions c.allClasses))
  plain : ∀ seen space (f : Field), f.kind.isGroup = false → standsFor (definitions c.allClasses) seen space f = [f]
  /-- Each reference is written in the document of its class and means the group in the namespace of the document, or else
  the first of all. -/
  references : ∀ uri classes, c.get? uri = some classes →
    ∃ root space S, s.root? disk uri = some root ∧ Schema.ofElement (s.reading disk uri space) root = .ok S ∧
      Everywhere (fun d => d.space = S.targetNamespace ∧
        ∀ f ∈ d.fields, f.kind.isGroup → Means c.allClasses root S.targetNamespace f) classes

/-- What references mean in the documents that a run resolves, whatever packages they are in. -/
theorem references_mean (uris : List String) (base : String) (common? : Option String) :
    s.ReferencesMean disk ((s.fresh.takeSchemas disk uris).1.corpus.assignPackages base common?) where
  classes := by rw [Simplify.classes_eq_map,Simplify.distinct_eq_kept]
  inside d := ⟨by rw [Simplify.fields_simplified,Simplify.expanded_eq],Simplify.inner_simplified _ d⟩
  plain _ space _ h := Simplify.standsFor_of_not_isGroup h space
  references uri classes hget := by
    rw [Corpus.get?_assignPackages] at hget
    obtain ⟨recorded,hrecorded,rfl⟩ := Option.map_eq_some_iff.mp hget
    obtain ⟨root,space,S,hroot,hread,rfl⟩ := exists_root_of_get? hrecorded
    refine ⟨root,space,S,hroot,hread,?_⟩
    rw [Class.assignPackages_eq_map,Class.everywhere_map (Class.inner_assignPackage _)]
    refine (Schema.everywhere_readFrom_classes hread).mono fun d hd => ?_
    cases d
    exact ⟨hd.inSpace,fun f hf hgroup => Simplify.means_of_holdsReference hgroup (hd.references f hf hgroup)⟩

/-- A document refers to a group of another one, of a name that it declares too; its own group refers to itself. -/
def shadowing : Session := serving {} [
  ("file:///m","<schema targetNamespace='m' xmlns:m='m' xmlns:o='o'><import schemaLocation='o'/>" ++
    "<complexType name='T'><group ref='o:G'/></complexType>" ++
    "<group name='G'><all><element name='a'/><group ref='m:G'/></all></group></schema>"),
  ("file:///o","<schema targetNamespace='o'><group name='G'><all><element name='b'/></all></group></schema>")]

/-- The fields put in the place of the reference are those of its own group. -/
theorem shadowing_means_own :
    let run := shadowing.fresh.takeSchemas {} ["file:///m"]
    (∃ root, run.1.root? {} "file:///m" = some root ∧ ∃ x : Element, x.Below root ∧ x.RefersTo .group "o:G" ∧
      x.resolve "o:G" = ⟨some "o","G"⟩) ∧
    (run.1.corpus.allClasses.find? (Simplify.keyOf · = ⟨.group,some "o","G"⟩)).map (·.fields.map Field.name) =
      some ["b"] ∧
    (Simplify.classes run.1.corpus.allClasses).map (fun c => (c.name,c.fields.map Field.name)) = [("T",["a"])] := by
  have hview : (fun run : Session × Except Failure Unit =>
      ((run.1.root? {} "file:///m").map fun root => (root.children.flatMap Element.children).map fun x =>
          (x.name,x.attribute? "ref",x.resolve "o:G"),
        (run.1.corpus.allClasses.find? (Simplify.keyOf · = ⟨.group,some "o","G"⟩)).map (·.fields.map Field.name),
        (Simplify.classes run.1.corpus.allClasses).map fun c => (c.name,c.fields.map Field.name)))
      (shadowing.fresh.takeSchemas {} ["file:///m"]) =
        (some [("group",some "o:G",⟨some "o","G"⟩),("all",none,⟨some "o","G"⟩)],some ["b"],[("T",["a"])]) := by
    decide +kernel
  obtain ⟨hroot,hnamed,hclasses⟩ := Prod.mk.inj hview |>.imp_right Prod.mk.inj
  refine ⟨?_,hnamed,hclasses⟩
  obtain ⟨root,hread,hspecs⟩ := Option.map_eq_some_iff.mp hroot
  obtain ⟨x,hx,hspec⟩ := List.mem_map.mp (hspecs ▸ List.mem_cons_self)
  obtain ⟨c,hc,hx⟩ := List.mem_flatMap.mp hx
  simp only [Prod.mk.injEq] at hspec
  exact ⟨root,hread,x,.child hc (.child hx .self),⟨hspec.1,hspec.2.1⟩,hspec.2.2⟩

end Session
end SchemaBinding
