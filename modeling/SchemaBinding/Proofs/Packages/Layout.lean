import SchemaBinding.Proofs.Classes.Within
import SchemaBinding.Proofs.Packages.Directories

/-! Packages mirror directories. What the URIs of a group have in common is the longest directory that the documents
share, since none of them is a directory of another; and the package of a document names the directories between that
one and its own. Main statement: so are the classes of a corpus put in packages, at every depth, and nothing else of
them changes. -/
namespace SchemaBinding

namespace Class

/-- Classes that differ in no more than packages, at any depth. -/
inductive Alike : Class → Class → Prop
  | mk {c : Class} {package : Option String} {inner : List Class} :
      List.Forall₂ Alike c.inner inner → Alike c { c with package, inner }

mutual

theorem alike_assignPackage (package : String) : ∀ c : Class, Alike c (c.assignPackage package)
  | { inner, .. } => by
    have hinner := alike_assignPackages package inner
    exact .mk hinner

theorem alike_assignPackages (package : String) : ∀ cs : List Class, List.Forall₂ Alike cs (assignPackages package cs)
  | [] => .nil
  | c :: cs => .cons (alike_assignPackage package c) (alike_assignPackages package cs)

end

theorem inner_assignPackage (package : String) (c : Class) :
    (c.assignPackage package).inner = c.inner.map (assignPackage package) := by
  cases c
  exact assignPackages_eq_map package _

theorem everywhere_assignPackages (package : String) (cs : List Class) :
    Everywhere (fun d => d.package = some package) (assignPackages package cs) := by
  rw [assignPackages_eq_map,everywhere_map (inner_assignPackage package)]
  intro c _ d _
  cases d
  rfl

end Class

namespace Packages

/-! ## Directories -/

theorem prefix_commonPrefix_iff {front ss ts : List String} :
    front <+: commonPrefix ss ts ↔ front <+: ss ∧ front <+: ts := by
  induction front generalizing ss ts with
  | nil => simp
  | cons f front ih =>
    match ss,ts with
    | [],_ => simp [commonPrefix]
    | _ :: _,[] => simp [commonPrefix]
    | s :: ss,t :: ts =>
      by_cases hst : s = t
      · simp only [commonPrefix,hst,if_true,List.cons_prefix_cons,ih]
        tauto
      · simp only [commonPrefix,hst,if_false,List.cons_prefix_cons]
        refine iff_of_false (by simp) ?_
        rintro ⟨⟨rfl,_⟩,heq,_⟩
        exact hst heq

theorem prefix_foldl_commonPrefix_iff {front shared : List String} (us : List String) :
    front <+: us.foldl (fun shared u => commonPrefix shared (segments u)) shared ↔
      front <+: shared ∧ ∀ uri ∈ us, front <+: segments uri := by
  induction us generalizing shared with
  | nil => simp
  | cons u us ih =>
    rw [List.foldl_cons,ih,prefix_commonPrefix_iff,List.forall_mem_cons,and_assoc]

theorem prefix_dropLast_of_ne {α : Type} {l m : List α} (h : l <+: m) (hne : l ≠ m) : l <+: m.dropLast := by
  obtain ⟨rest,rfl⟩ := h
  have hrest : rest ≠ [] := by
    rintro rfl
    exact hne (List.append_nil l).symm
  rw [List.dropLast_append_of_ne_nil hrest]
  exact List.prefix_append _ _

/-- The longest directory that documents share. -/
structure SharedDirectory (us : List String) (directory : List String) : Prop where
  shared : ∀ uri ∈ us, directory <+: (segments uri).dropLast
  longest : ∀ other, (∀ uri ∈ us, other <+: (segments uri).dropLast) → other <+: directory

/-- No document is a directory of another. -/
def Apart (us : List String) : Prop := ∀ uri ∈ us, ∀ other ∈ us, uri ≠ other → ¬ segments uri <+: segments other

instance (us : List String) : Decidable (Apart us) :=
  inferInstanceAs (Decidable (∀ uri ∈ us, ∀ other ∈ us, uri ≠ other → ¬ segments uri <+: segments other))

/-- Of several documents that are apart, all that their URIs have in common is directories. -/
theorem sharedDirectory_baseOf {us : List String} (hne : us ≠ []) (hnodup : us.Nodup) (hapart : Apart us) :
    SharedDirectory us (baseOf us) := by
  match us,hne with
  | [uri],_ =>
    constructor
    · intro other hother
      rw [List.mem_singleton.mp hother]
      exact List.prefix_rfl
    · intro other hother
      exact hother uri (by simp)
  | first :: second :: rest,_ =>
    have hbase : ∀ front, front <+: baseOf (first :: second :: rest) ↔
        ∀ uri ∈ first :: second :: rest, front <+: segments uri := by
      intro front
      rw [List.forall_mem_cons]
      exact prefix_foldl_commonPrefix_iff (second :: rest)
    have hall := (hbase _).mp List.prefix_rfl
    constructor
    · intro uri huri
      refine prefix_dropLast_of_ne (hall uri huri) fun heq => ?_
      obtain ⟨other,hother,hdiffer⟩ : ∃ other ∈ first :: second :: rest, uri ≠ other := by
        have hfirst : first ≠ second := fun he => (List.nodup_cons.mp hnodup).1 (by simp [he])
        by_cases hu : uri = first
        · exact ⟨second,by simp,hu ▸ hfirst⟩
        · exact ⟨first,by simp,hu⟩
      exact hapart uri huri other hother hdiffer (heq ▸ hall other hother)
    · intro other hother
      exact (hbase other).mpr fun uri huri => (hother uri huri).trans (List.dropLast_prefix _)

/-! ## Names of packages -/

/-- The package for directories below the one that a group shares. -/
def packageBelow (package : String) (below : List String) : String :=
  if below = [] then package else package ++ "." ++ ".".intercalate below

theorem stripPrefix_append (base below : List String) : stripPrefix (base ++ below) base = below := by
  induction base with
  | nil => cases below <;> rfl
  | cons s base ih => simp [stripPrefix,ih]

theorem ne_empty_of_mem_segments {uri s : String} (h : s ∈ segments uri) : s ≠ "" := by
  simpa using (List.mem_filter.mp h).2

theorem intercalate_ne_empty {separator s : String} {ss : List String} (hs : s ≠ "") :
    separator.intercalate (s :: ss) ≠ "" := by
  cases ss with
  | nil => simpa using hs
  | cons t ss => simp [hs]

theorem stripPrefix_subset (names base : List String) : stripPrefix names base ⊆ names := by
  induction base generalizing names with
  | nil => cases names <;> simp [stripPrefix]
  | cons t ts ih =>
    cases names with
    | nil => simp [stripPrefix]
    | cons s ss =>
      rw [stripPrefix]
      split
      · exact List.subset_cons_of_subset s (ih ss)
      · simp

/-- The directories of a document below others; none if it is not below them. -/
def below (base : List String) (uri : String) : List String := stripPrefix (segments uri).dropLast base

theorem below_subset (base : List String) (uri : String) : below base uri ⊆ segments uri :=
  List.Subset.trans (stripPrefix_subset _ base) (List.dropLast_subset _)

theorem packageOf_eq_packageBelow (base : List String) (package uri : String) :
    packageOf base package uri = packageBelow package (below base uri) := by
  have hsubset := below_subset base uri
  rw [packageOf,← below,packageBelow]
  cases hbelow : below base uri with
  | nil => simp
  | cons s rest =>
    rw [hbelow] at hsubset
    simp [intercalate_ne_empty (ne_empty_of_mem_segments (hsubset List.mem_cons_self))]

theorem packageOf_eq {uri : String} {base below : List String} (h : (segments uri).dropLast = base ++ below)
    (package : String) : packageOf base package uri = packageBelow package below := by
  rw [packageOf_eq_packageBelow,Packages.below,h,stripPrefix_append]

end Packages

namespace Corpus
open Packages

/-- A corpus whose classes are in packages that mirror directories, with all else as in another: those of a document
directly in the directory that its group shares are in the given package, and others are further down. -/
structure Mirrors (c : Corpus) (package : String) (common? : Option String) (after : Corpus) : Prop where
  uris : after.uris = c.uris
  one : ∀ uri ∈ c.uris, ∃! n, InGroup (group c.uris common?) n uri
  placed : ∀ n us, (group c.uris common?).get? n = some us → ∃ directory, SharedDirectory us directory ∧
    ∀ uri ∈ us, ∃ below classes moved, (segments uri).dropLast = directory ++ below ∧
      c.get? uri = some classes ∧ after.get? uri = some moved ∧ List.Forall₂ Class.Alike classes moved ∧
      Class.Everywhere (fun d => d.package = some (packageBelow package below)) moved

/-- Classes are put in packages that mirror directories, and to do it again changes nothing. -/
theorem assignPackages_mirrors (c : Corpus) (package : String) (common? : Option String) (hapart : Apart c.uris) :
    Mirrors c package common? (c.assignPackages package common?) ∧
      (c.assignPackages package common?).assignPackages package common? = c.assignPackages package common? := by
  have hnodup : c.uris.Nodup := c.documents.keys_nodup
  refine ⟨⟨uris_assignPackages c package common?,?_,?_⟩,?_⟩
  · intro uri huri
    obtain ⟨n,hn⟩ := exists_inGroup_iff.mpr huri
    exact ⟨n,hn,fun m hm => hm.unique hnodup hn⟩
  · intro n us hn
    obtain ⟨hne,hsublist,_⟩ := sublist_of_get?_group hn
    have hgiven : ∀ uri ∈ us, uri ∈ c.uris := fun uri huri => mem_inOrder.mp (hsublist.subset huri)
    have hshared : SharedDirectory us (baseOf us) :=
      sharedDirectory_baseOf hne ((pairwise_of_get?_group hnodup hn).imp ne_of_lt)
        fun uri huri other hother => hapart uri (hgiven uri huri) other (hgiven other hother)
    refine ⟨baseOf us,hshared,fun uri huri => ?_⟩
    obtain ⟨below,hbelow⟩ := hshared.shared uri huri
    obtain ⟨classes,hclasses⟩ := Option.isSome_iff_exists.mp (isSome_get?.mpr (hgiven uri huri))
    have hpackage : documentPackage c.uris package common? uri = packageBelow package below := by
      rw [documentPackage_of_group hnodup hn huri,packageOf_eq hbelow.symm]
    refine ⟨below,classes,Class.assignPackages (packageBelow package below) classes,hbelow.symm,hclasses,?_,
      Class.alike_assignPackages _ classes,Class.everywhere_assignPackages _ classes⟩
    rw [get?,documents_assignPackages,OrderedMap.get?_map,hpackage]
    exact congrArg (Option.map _) hclasses
  · have hdocuments : ((c.assignPackages package common?).assignPackages package common?).documents =
        (c.assignPackages package common?).documents := by
      rw [documents_assignPackages,uris_assignPackages,documents_assignPackages]
      apply OrderedMap.ext
      simp only [OrderedMap.map,List.map_map]
      exact List.map_congr_left fun e _ => by simp [Class.assignPackages_assignPackages]
    exact congrArg Corpus.mk hdocuments

/-- A document with an inner class, another two directories further down, and one that is alone. -/
def shelved : Corpus :=
  let line : Class := { name := "line", kind := .complexType, isRoot := false }
  let order : Class := { name := "Order", kind := .complexType, isRoot := true, inner := [line] }
  ((({} : Corpus).record "file:///s/order" [order]).record "file:///s/a/b/part" [line]).record "http://t/u" [order]

theorem assignPackages_mirrors_shelved : Apart shelved.uris ∧
    Mirrors shelved "shop" none (shelved.assignPackages "shop" none) ∧
    (shelved.assignPackages "shop" none).assignPackages "shop" none = shelved.assignPackages "shop" none :=
  ⟨by decide +kernel,assignPackages_mirrors shelved "shop" none (by decide +kernel)⟩

end Corpus
end SchemaBinding
