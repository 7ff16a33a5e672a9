import SchemaBinding.Proofs.Packages.Directories

/-! Documents whose URIs have a scheme and two segments or more. Two of them are related if and only if they have the
scheme and the first segment in common, and between two such documents there are only others, since their URIs have
the same front and the order is that of characters. Main statement: documents are in one group if and only if they
have a root in common, whatever characters segments may hold. -/
namespace SchemaBinding
namespace Packages

/-- A URI by its parts. -/
structure Address where
  scheme : String
  first : String
  further : List String
  further_ne_nil : further ≠ []
  scheme_plain : '/' ∉ scheme.toList
  segments_plain : ∀ s ∈ first :: further, s ≠ "" ∧ '/' ∉ s.toList

namespace Address

/-- What stands behind the scheme. Only files have an empty host. -/
def mark (scheme : String) : String := if scheme = "file" then ":///" else "://"

def uri (a : Address) : String := a.scheme ++ mark a.scheme ++ "/".intercalate (a.first :: a.further)

/-- The URI up to the slash behind the first segment. -/
def root (a : Address) : List Char := (a.scheme ++ mark a.scheme ++ a.first).toList

variable {a b : Address}

theorem below_root (a : Address) : Below a.root a.uri := by
  refine ⟨("/".intercalate a.further).toList,?_⟩
  rw [uri,String.intercalate_cons_of_ne_nil a.further_ne_nil]
  simp [root]

theorem segmentsOf_slash (cs : List Char) : segmentsOf ('/' :: cs) = segmentsOf cs :=
  segmentsOf_append [] cs

theorem segmentsOf_root (a : Address) : segmentsOf a.root = [a.scheme ++ ":",a.first] := by
  obtain ⟨hne,hplain⟩ := a.segments_plain a.first (by simp)
  have hfirst : segmentsOf a.first.toList = [a.first] := by
    rw [segmentsOf_file hplain (by simpa using hne),String.ofList_toList]
  have hscheme : segmentsOf (a.scheme.toList ++ [':']) = [a.scheme ++ ":"] := by
    rw [segmentsOf_file (by simpa using a.scheme_plain) (by simp),String.ofList_append,String.ofList_toList]
  obtain ⟨slashes,hroot,hslashes⟩ : ∃ slashes : List Char,
      a.root = (a.scheme.toList ++ [':']) ++ '/' :: (slashes ++ a.first.toList) ∧
        segmentsOf (slashes ++ a.first.toList) = [a.first] := by
    by_cases hfile : a.scheme = "file"
    · exact ⟨['/','/'],by simp [root,mark,hfile],by simp [segmentsOf_slash,hfirst]⟩
    · exact ⟨['/'],by simp [root,mark,hfile],by simp [segmentsOf_slash,hfirst]⟩
  rw [hroot,segmentsOf_append,hscheme,hslashes]
  rfl

theorem root_eq_iff : a.root = b.root ↔ a.scheme = b.scheme ∧ a.first = b.first := by
  constructor
  · intro h
    have hsegments := congrArg segmentsOf h
    rw [segmentsOf_root,segmentsOf_root] at hsegments
    simpa using hsegments
  · rintro ⟨hscheme,hfirst⟩
    rw [root,root,hscheme,hfirst]

theorem take_segments (a : Address) : (segments a.uri).take 2 = segmentsOf a.root := by
  obtain ⟨rest,hrest⟩ := a.below_root.exists_segments
  rw [hrest,segmentsOf_root]
  rfl

/-- Related documents have a root in common. -/
theorem isRelated_iff : isRelated a.uri b.uri ↔ a.root = b.root := by
  obtain ⟨rest,hrest⟩ := a.below_root.exists_segments
  obtain ⟨others,hothers⟩ := b.below_root.exists_segments
  rw [segmentsOf_root] at hrest hothers
  rw [root_eq_iff,isRelated,hrest,hothers]
  by_cases hscheme : a.scheme = b.scheme
  · by_cases hfirst : a.first = b.first <;> simp [commonPrefix,isUnrelated,hscheme,hfirst]
  · simp [commonPrefix,isUnrelated,hscheme]

end Address

theorem isBelow_iff {common? : Option String} {uri : String} :
    isBelow common? uri ↔ ∃ directory ∈ common?, directory.toList <+: uri.toList := by
  cases common? <;> simp [isBelow]

/-- Documents that are not in the common directory are in one group if and only if they have a root in common. -/
theorem exists_inGroup_iff_root {as : List Address} {common? : Option String} {a b : Address} (ha : a ∈ as)
    (hb : b ∈ as) (houtside : isBelow common? a.uri = false) (houtside' : isBelow common? b.uri = false) :
    (∃ n, InGroup (group (as.map Address.uri) common?) n a.uri ∧ InGroup (group (as.map Address.uri) common?) n b.uri) ↔
      a.root = b.root := by
  have hother : ∀ {n uri}, isBelow common? uri = false → InGroup (group (as.map Address.uri) common?) n uri →
      n ≠ commonGroup := by
    intro n uri huri hn hzero
    rw [hn.eq_common_iff,huri] at hzero
    cases hzero
  constructor
  · rintro ⟨n,hn,hn'⟩
    have hfront : (segments a.uri).take 2 = (segments b.uri).take 2 := by
      refine eq_of_inGroup (f:=fun uri => (segments uri).take 2) ?_ (hother houtside hn) hn hn'
      intro x hx y hy hxy
      obtain ⟨c,_,rfl⟩ := List.mem_map.mp hx
      obtain ⟨d,_,rfl⟩ := List.mem_map.mp hy
      rw [c.take_segments,d.take_segments,Address.isRelated_iff.mp hxy]
    rw [a.take_segments,b.take_segments,Address.segmentsOf_root,Address.segmentsOf_root] at hfront
    exact Address.root_eq_iff.mpr (by simpa using hfront)
  · intro hroot
    obtain ⟨n,hn⟩ := exists_inGroup_iff.mpr (List.mem_map_of_mem ha)
    obtain ⟨m,hm⟩ := exists_inGroup_iff.mpr (List.mem_map_of_mem hb)
    have hrelated : isUnrelated (segmentsOf a.root) = false := by
      rw [Address.segmentsOf_root]
      rfl
    obtain rfl : n = m := eq_of_below hrelated (hother houtside hn) (hother houtside' hm) hn hm a.below_root
      (hroot ▸ b.below_root)
    exact ⟨n,hn,hm⟩

/-- Groups of documents: one for the common directory, and one for each root of the others, numbered in their order. -/
structure ByRoot (as : List Address) (common? : Option String) (groups : OrderedMap Nat (List String)) : Prop where
  one : ∀ a ∈ as, ∃! n, InGroup groups n a.uri
  common : ∀ uri, InGroup groups commonGroup uri ↔
    uri ∈ as.map Address.uri ∧ ∃ directory ∈ common?, directory.toList <+: uri.toList
  root : ∀ a ∈ as, ∀ b ∈ as, ¬ InGroup groups commonGroup a.uri → ¬ InGroup groups commonGroup b.uri →
    ((∃ n, InGroup groups n a.uri ∧ InGroup groups n b.uri) ↔ a.scheme = b.scheme ∧ a.first = b.first)
  numbered : ∃ k, ∀ n, n ≠ commonGroup → (n ∈ groups.keys ↔ n ≤ k)
  ordered : ∀ n m uri other, n ≠ commonGroup → n < m → InGroup groups n uri → InGroup groups m other → uri < other
  ascending : ∀ n us, groups.get? n = some us → us ≠ [] ∧ us.Pairwise (· < ·) ∧ ∀ uri ∈ us, uri ∈ as.map Address.uri

/-- Documents are grouped by root, and the order in which they are given does not count. -/
theorem group_byRoot (as : List Address) (common? : Option String) (hdistinct : (as.map Address.uri).Nodup) :
    ByRoot as common? (group (as.map Address.uri) common?) ∧
      ∀ others : List String, others.Perm (as.map Address.uri) →
        group others common? = group (as.map Address.uri) common? := by
  have hcommon : ∀ uri, InGroup (group (as.map Address.uri) common?) commonGroup uri ↔
      uri ∈ as.map Address.uri ∧ isBelow common? uri := by
    intro uri
    constructor
    · intro h
      exact ⟨exists_inGroup_iff.mp ⟨_,h⟩,h.eq_common_iff.mp rfl⟩
    · rintro ⟨huri,hbelow⟩
      obtain ⟨n,hn⟩ := exists_inGroup_iff.mpr huri
      exact hn.eq_common_iff.mpr hbelow ▸ hn
  have houtside : ∀ a ∈ as, ¬ InGroup (group (as.map Address.uri) common?) commonGroup a.uri →
      isBelow common? a.uri = false := by
    intro a ha h
    rw [hcommon,not_and] at h
    exact Bool.eq_false_iff.mpr (h (List.mem_map_of_mem ha))
  refine ⟨?_,fun others h => group_congr h common?⟩
  constructor
  · intro a ha
    obtain ⟨n,hn⟩ := exists_inGroup_iff.mpr (List.mem_map_of_mem ha)
    exact ⟨n,hn,fun m hm => hm.unique hdistinct hn⟩
  · intro uri
    rw [hcommon,isBelow_iff]
  · intro a ha b hb hna hnb
    rw [exists_inGroup_iff_root ha hb (houtside a ha hna) (houtside b hb hnb),Address.root_eq_iff]
  · exact ⟨_,fun n => mem_keys_group_iff⟩
  · exact fun n m uri other => lt_of_inGroup hdistinct
  · intro n us hn
    obtain ⟨hne,hsublist,_⟩ := sublist_of_get?_group hn
    exact ⟨hne,pairwise_of_get?_group hdistinct hn,fun uri huri => mem_inOrder.mp (hsublist.subset huri)⟩

/-- Two directories whose names begin alike, with a host of the same name and a directory of common documents. -/
def mirrored : List Address := [
  ⟨"file","s",["b"],by decide,by decide,by decide⟩,⟨"http","s",["a"],by decide,by decide,by decide⟩,
  ⟨"file","s-t",["a"],by decide,by decide,by decide⟩,⟨"file","s",["common","a"],by decide,by decide,by decide⟩,
  ⟨"file","s",["a","a"],by decide,by decide,by decide⟩]

theorem group_byRoot_mirrored : (mirrored.map Address.uri).Nodup ∧
    ByRoot mirrored (some "file:///s/common/") (group (mirrored.map Address.uri) (some "file:///s/common/")) ∧
    ∀ others : List String, others.Perm (mirrored.map Address.uri) →
      group others (some "file:///s/common/") = group (mirrored.map Address.uri) (some "file:///s/common/") :=
  ⟨by decide +kernel,group_byRoot mirrored (some "file:///s/common/") (by decide +kernel)⟩

end Packages
end SchemaBinding
