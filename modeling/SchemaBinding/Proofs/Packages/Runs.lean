import Mathlib.Data.List.SplitBy
import Mathlib.Data.String.Basic
import SchemaBinding.Model.Packages

/-! Groups as runs. Documents come in order of their URIs. Those in the common directory are set apart, and the
others are cut wherever one is unrelated to the one before it; the pieces are the groups, numbered from one.
Main statement: this is what comes of taking the documents one at a time. -/
namespace SchemaBinding
namespace Packages

/-- Documents in the order of their URIs. -/
def inOrder (uris : List String) : List String := uris.mergeSort fun a b => a ≤ b

/-- Documents that are not in the common directory. -/
def outside (common? : Option String) (uris : List String) : List String :=
  uris.filter fun uri => !isBelow common? uri

/-- Whether two documents share more than the scheme of their URIs. -/
def isRelated (uri other : String) : Bool := !isUnrelated (commonPrefix (segments uri) (segments other))

def runs (common? : Option String) (uris : List String) : List (List String) :=
  (outside common? uris).splitBy isRelated

/-! ## Order -/

theorem perm_inOrder (uris : List String) : (inOrder uris).Perm uris := List.mergeSort_perm _ _

theorem mem_inOrder {uris : List String} {uri : String} : uri ∈ inOrder uris ↔ uri ∈ uris :=
  (perm_inOrder uris).mem_iff

theorem pairwise_le_inOrder (uris : List String) : (inOrder uris).Pairwise (· ≤ ·) := by
  have h := @List.pairwise_mergeSort _ (fun a b : String => decide (a ≤ b))
    (fun a b c hab hbc => by simpa using le_trans (of_decide_eq_true hab) (of_decide_eq_true hbc))
    (fun a b => by simpa using le_total a b) uris
  exact h.imp of_decide_eq_true

theorem pairwise_lt_inOrder {uris : List String} (h : uris.Nodup) : (inOrder uris).Pairwise (· < ·) := by
  have hnodup : (inOrder uris).Pairwise (· ≠ ·) := (perm_inOrder uris).nodup_iff.mpr h
  exact (hnodup.and (pairwise_le_inOrder uris)).imp fun h => lt_of_le_of_ne h.2 h.1

/-- The order in which documents are given does not count. -/
theorem inOrder_congr {uris others : List String} (h : uris.Perm others) : inOrder uris = inOrder others := by
  have hperm : (inOrder uris).Perm (inOrder others) :=
    ((perm_inOrder uris).trans h).trans (perm_inOrder others).symm
  exact hperm.eq_of_pairwise (fun _ _ _ _ => le_antisymm) (pairwise_le_inOrder uris) (pairwise_le_inOrder others)

/-! ## One more document -/

/-- An element related to the last one lengthens the last run. -/
theorem splitBy_concat_of_related {α : Type} {r : α → α → Bool} {l : List α} {before : List (List α)} {last : List α}
    (h : l.splitBy r = before ++ [last]) {a : α} (ha : ∀ x ∈ l.getLast?, r x a) :
    (l ++ [a]).splitBy r = before ++ [last ++ [a]] := by
  obtain ⟨hflatten,hne,hchains,hcuts⟩ := List.splitBy_eq_iff.mp h
  have hlast : last ≠ [] := fun hnil => hne (by simp [hnil])
  rw [List.splitBy_eq_iff]
  refine ⟨by simp [hflatten],by simpa using fun hnil => hne (by simp [hnil]),?_,?_⟩
  · intro run hrun
    rcases List.mem_append.mp hrun with hrun | hrun
    · exact hchains run (List.mem_append_left _ hrun)
    · rw [List.mem_singleton.mp hrun,List.isChain_append]
      refine ⟨hchains last (by simp),List.isChain_singleton _,fun x hx y hy => ?_⟩
      obtain rfl : a = y := by simpa using hy
      refine ha x ?_
      rwa [hflatten,List.flatten_append,List.flatten_singleton,List.getLast?_append_of_ne_nil _ hlast]
  · obtain ⟨hbefore,_,hcut⟩ := List.isChain_append.mp hcuts
    refine List.isChain_append.mpr ⟨hbefore,List.isChain_singleton _,fun x hx y hy => ?_⟩
    obtain rfl : last ++ [a] = y := by simpa using hy
    obtain ⟨hx',_,hapart⟩ := hcut x hx last (by simp)
    exact ⟨hx',by simp,by rwa [List.head_append_of_ne_nil hlast]⟩

theorem splitBy_concat_of_unrelated {α : Type} {r : α → α → Bool} {l : List α} {a : α}
    (ha : ∀ x ∈ l.getLast?, r x a = false) : (l ++ [a]).splitBy r = l.splitBy r ++ [[a]] := by
  rw [List.splitBy_append_cons [] ha]
  rfl

/-! ## Runs of a list in order -/

section Cuts
variable {α β : Type} {r : α → α → Bool}

/-- Elements of one run are alike in what neighbours have in common. -/
theorem eq_of_mem_splitBy {f : α → β} {l run : List α} (hrun : run ∈ l.splitBy r)
    (hf : ∀ x ∈ l, ∀ y ∈ l, r x y → f x = f y) {x y : α} (hx : x ∈ run) (hy : y ∈ run) : f x = f y := by
  have hsubset : ∀ z ∈ run, z ∈ l := by
    intro z hz
    rw [← List.flatten_splitBy r l]
    exact List.mem_flatten.mpr ⟨run,hrun,hz⟩
  have hchain : run.IsChain fun x y => f x = f y :=
    (List.isChain_of_mem_splitBy hrun).imp_of_mem_imp fun x y hx hy => hf x (hsubset x hx) y (hsubset y hy)
  have htrans : IsTrans α fun x y => f x = f y := ⟨fun _ _ _ => Eq.trans⟩
  have hsymm : Std.Symm fun x y => f x = f y := ⟨fun _ _ => Eq.symm⟩
  exact List.Pairwise.forall_of_forall (R:=fun x y => f x = f y) (fun _ _ => rfl) hchain.pairwise hx hy

/-- A property that neighbours cannot be parted by, and that what is between two elements shares with them, does not
hold of elements of different runs. -/
theorem pairwise_apart_of_cuts [Preorder α] {P : α → Prop} (hrelated : ∀ x y, P x → P y → r x y)
    (hbetween : ∀ x y z, P x → P z → x ≤ y → y ≤ z → P y) {pieces : List (List α)}
    (hsorted : pieces.flatten.Pairwise (· ≤ ·))
    (hcuts : pieces.IsChain fun a b => ∃ ha hb, r (a.getLast ha) (b.head hb) = false) :
    pieces.Pairwise fun us vs => ∀ x ∈ us, ∀ y ∈ vs, P x → ¬ P y := by
  induction pieces with
  | nil => exact .nil
  | cons us pieces ih =>
    obtain ⟨hwithin,hacross⟩ := List.pairwise_flatten.mp hsorted
    obtain ⟨hus,hpieces⟩ := List.forall_mem_cons.mp hwithin
    obtain ⟨hahead,hrest⟩ := List.pairwise_cons.mp hacross
    refine List.pairwise_cons.mpr ⟨?_,ih (List.pairwise_flatten.mpr ⟨hpieces,hrest⟩) hcuts.tail⟩
    intro vs hvs x hx y hy hPx hPy
    cases pieces with
    | nil => cases hvs
    | cons ws pieces =>
      obtain ⟨hne,hne',hcut⟩ := (List.isChain_cons_cons.mp hcuts).1
      have hlast := List.getLast_mem hne
      have hhead := List.head_mem hne'
      have hxlast : x ≤ us.getLast hne := hus.rel_getLast hx
      have hlasthead : us.getLast hne ≤ ws.head hne' := hahead ws (by simp) _ hlast _ hhead
      have hheady : ws.head hne' ≤ y := by
        rcases List.mem_cons.mp hvs with rfl | hvs
        · exact (hpieces vs (by simp)).rel_head hy
        · exact (List.pairwise_cons.mp hrest).1 vs hvs _ hhead y hy
      have hPlast : P (us.getLast hne) := hbetween x _ y hPx hPy hxlast (hlasthead.trans hheady)
      have hPhead : P (ws.head hne') := hbetween x _ y hPx hPy (hxlast.trans hlasthead) hheady
      rw [hrelated _ _ hPlast hPhead] at hcut
      cases hcut

end Cuts

/-- Groups that hold the documents taken so far as runs. -/
structure Grouping.Cut (common? : Option String) (g : Grouping) (taken : List String) : Prop where
  common : ∀ us, g.groups.get? commonGroup = some us ↔ us ≠ [] ∧ us = taken.filter (isBelow common?)
  run : ∀ n, g.groups.get? (n+1) = (runs common? taken)[n]?
  newest : g.newest = (runs common? taken).length
  previous : g.previous = (outside common? taken).getLast?

namespace Grouping
variable {common? : Option String} {g : Grouping} {taken : List String} {uri : String}

theorem get?_join (n number : Nat) : (g.join number uri).get? n =
    if n = number then some ((g.groups.get? number).getD [] ++ [uri]) else g.groups.get? n :=
  g.groups.get?_adjust_insertNew number n [uri]

theorem cut_empty (common? : Option String) : Cut common? {} [] where
  common := by
    intro us
    constructor
    · intro h
      cases h
    · rintro ⟨hne,rfl⟩
      exact absurd rfl hne
  run _ := rfl
  newest := rfl
  previous := rfl

/-- A document in the common directory joins the group of that directory. -/
theorem Cut.take_common (h : Cut common? g taken) (huri : isBelow common? uri) :
    Cut common? (g.take common? uri) (taken ++ [uri]) := by
  have htake : g.take common? uri = { g with groups := g.join commonGroup uri } := by
    simp only [take,huri,if_true]
  have houtside : outside common? (taken ++ [uri]) = outside common? taken := by
    simp [outside,huri]
  have hruns : runs common? (taken ++ [uri]) = runs common? taken := by rw [runs,houtside,runs]
  constructor
  · intro us
    have hbefore : (g.groups.get? commonGroup).getD [] = taken.filter (isBelow common?) := by
      cases hget : g.groups.get? commonGroup with
      | some vs => exact ((h.common vs).mp hget).2
      | none =>
        by_contra hne
        have hsome := (h.common _).mpr ⟨fun hnil => hne hnil.symm,rfl⟩
        rw [hget] at hsome
        cases hsome
    rw [htake,get?_join,if_pos rfl,hbefore,List.filter_append]
    simp only [List.filter_cons,huri,if_true,List.filter_nil,Option.some.injEq]
    exact ⟨fun he => ⟨he ▸ by simp,he.symm⟩,fun he => he.2.symm⟩
  · intro n
    rw [htake,get?_join,if_neg (show n+1 ≠ commonGroup from Nat.succ_ne_zero n),hruns]
    exact h.run n
  · rw [htake,hruns]
    exact h.newest
  · rw [htake,houtside]
    exact h.previous

/-- Another document begins a run or lengthens the last. -/
theorem Cut.exists_runs_concat (h : Cut common? g taken) (huri : isBelow common? uri = false) :
    ∃ before last, runs common? (taken ++ [uri]) = before ++ [last ++ [uri]] ∧
      ((g.opens uri = true ∧ runs common? taken = before ∧ last = []) ∨
        (g.opens uri = false ∧ runs common? taken = before ++ [last])) := by
  have houtside : outside common? (taken ++ [uri]) = outside common? taken ++ [uri] := by
    simp [outside,huri]
  cases hopens : g.opens uri with
  | true =>
    have hapart : ∀ x ∈ (outside common? taken).getLast?, isRelated x uri = false := by
      intro x hx
      rw [← h.previous] at hx
      simpa [opens,Option.mem_def.mp hx,isRelated] using hopens
    refine ⟨runs common? taken,[],?_,Or.inl ⟨rfl,rfl,rfl⟩⟩
    rw [runs,houtside,splitBy_concat_of_unrelated hapart,List.nil_append,runs]
  | false =>
    obtain ⟨previous,hprevious,hrelated⟩ : ∃ previous, g.previous = some previous ∧ isRelated previous uri := by
      cases hprevious : g.previous with
      | none => simp [opens,hprevious] at hopens
      | some previous => exact ⟨previous,rfl,by simpa [opens,hprevious,isRelated] using hopens⟩
    have hne : runs common? taken ≠ [] := by
      rw [runs,List.splitBy_ne_nil]
      intro hnil
      rw [h.previous,hnil] at hprevious
      cases hprevious
    obtain ⟨before,last,hsplit⟩ := (List.eq_nil_or_concat' (runs common? taken)).resolve_left hne
    refine ⟨before,last,?_,Or.inr ⟨rfl,hsplit⟩⟩
    rw [runs,houtside]
    refine splitBy_concat_of_related hsplit fun x hx => ?_
    rw [← h.previous,hprevious] at hx
    exact Option.some.inj hx ▸ hrelated

theorem Cut.take_outside (h : Cut common? g taken) (huri : isBelow common? uri = false) :
    Cut common? (g.take common? uri) (taken ++ [uri]) := by
  obtain ⟨before,last,hruns,hbefore⟩ := h.exists_runs_concat huri
  have htake : g.take common? uri = ⟨g.join (before.length+1) uri,before.length+1,some uri⟩ := by
    simp only [take,huri,Bool.false_eq_true,if_false]
    rcases hbefore with ⟨hopens,hall,_⟩ | ⟨hopens,hall⟩ <;> simp [hopens,h.newest,hall]
  -- the group that the document joins holds the last run, and the groups before it are as they were
  have hlast : (g.groups.get? (before.length+1)).getD [] = last := by
    rw [h.run]
    rcases hbefore with ⟨_,hall,hnil⟩ | ⟨_,hall⟩ <;> simp [*]
  have hothers : ∀ n, n ≠ before.length → g.groups.get? (n+1) = (before ++ [last ++ [uri]])[n]? := by
    intro n hn
    rw [h.run]
    rcases hbefore with ⟨_,hall,_⟩ | ⟨_,hall⟩ <;> rw [hall] <;> grind
  constructor
  · intro us
    rw [htake,get?_join,if_neg (show commonGroup ≠ before.length+1 from (Nat.succ_ne_zero _).symm),h.common,
      List.filter_append]
    simp [huri]
  · intro n
    rw [htake,get?_join,hlast,hruns]
    by_cases hn : n = before.length
    · subst hn
      simp
    · rw [if_neg (by omega),hothers n hn]
  · rw [htake,hruns]
    simp
  · rw [htake]
    simp [outside,huri]

theorem Cut.foldl (h : Cut common? g taken) (ahead : List String) :
    Cut common? (ahead.foldl (take common?) g) (taken ++ ahead) := by
  induction ahead generalizing g taken with
  | nil => simpa using h
  | cons uri ahead ih =>
    rw [List.foldl_cons,List.append_cons]
    cases huri : isBelow common? uri with
    | true => exact ih (h.take_common huri)
    | false => exact ih (h.take_outside huri)

end Grouping

/-! ## Groups -/

/-- A document is in the group of a number. -/
def InGroup (groups : OrderedMap Nat (List String)) (n : Nat) (uri : String) : Prop :=
  ∃ us, groups.get? n = some us ∧ uri ∈ us

section Groups
variable {uris us vs : List String} {common? : Option String} {n m : Nat} {uri other : String}

/-- The group of the common directory. -/
theorem get?_group_common : (group uris common?).get? commonGroup = some us ↔
    us ≠ [] ∧ us = (inOrder uris).filter (isBelow common?) :=
  ((Grouping.cut_empty common?).foldl (inOrder uris)).common us

/-- The other groups are the runs. -/
theorem get?_group_succ (uris : List String) (common? : Option String) (n : Nat) :
    (group uris common?).get? (n+1) = (runs common? (inOrder uris))[n]? :=
  ((Grouping.cut_empty common?).foldl (inOrder uris)).run n

theorem flatten_runs (common? : Option String) (uris : List String) :
    (runs common? uris).flatten = outside common? uris :=
  List.flatten_splitBy _ _

/-- A group holds documents, in order, and they are either all or none in the common directory. -/
theorem sublist_of_get?_group (h : (group uris common?).get? n = some us) : us ≠ [] ∧ us.Sublist (inOrder uris) ∧
    ∀ uri ∈ us, n = commonGroup ↔ isBelow common? uri := by
  cases n with
  | zero =>
    obtain ⟨hne,rfl⟩ := get?_group_common.mp h
    exact ⟨hne,List.filter_sublist,fun uri huri => iff_of_true rfl (List.mem_filter.mp huri).2⟩
  | succ n =>
    rw [get?_group_succ] at h
    have hus := List.mem_of_getElem? h
    have hsublist : us.Sublist (outside common? (inOrder uris)) := by
      rw [← flatten_runs]
      exact List.sublist_flatten_of_mem hus
    refine ⟨List.ne_nil_of_mem_splitBy hus,hsublist.trans List.filter_sublist,fun uri huri => ?_⟩
    have houtside := (List.mem_filter.mp (hsublist.subset huri)).2
    exact iff_of_false (Nat.succ_ne_zero n) (by simpa using houtside)

theorem exists_inGroup_iff : (∃ n, InGroup (group uris common?) n uri) ↔ uri ∈ uris := by
  constructor
  · rintro ⟨n,us,hn,huri⟩
    exact mem_inOrder.mp ((sublist_of_get?_group hn).2.1.subset huri)
  · intro huri
    have hmem := mem_inOrder.mpr huri
    cases hbelow : isBelow common? uri with
    | true =>
      have hcommon := List.mem_filter.mpr ⟨hmem,hbelow⟩
      exact ⟨commonGroup,_,get?_group_common.mpr ⟨List.ne_nil_of_mem hcommon,rfl⟩,hcommon⟩
    | false =>
      have houtside : uri ∈ outside common? (inOrder uris) := List.mem_filter.mpr ⟨hmem,by simp [hbelow]⟩
      rw [← flatten_runs] at houtside
      obtain ⟨us,hus,huri⟩ := List.mem_flatten.mp houtside
      obtain ⟨n,hn⟩ := List.getElem?_of_mem hus
      exact ⟨n+1,us,by rw [get?_group_succ,hn],huri⟩

theorem InGroup.eq_common_iff (h : InGroup (group uris common?) n uri) : n = commonGroup ↔ isBelow common? uri := by
  obtain ⟨us,hn,huri⟩ := h
  exact (sublist_of_get?_group hn).2.2 uri huri

/-- What holds of runs one behind the other holds of groups other than that of the common directory. -/
theorem rel_of_pairwise_runs {R : List String → List String → Prop} (h : (runs common? (inOrder uris)).Pairwise R)
    (hn : n ≠ commonGroup) (hm : m ≠ commonGroup) (hus : (group uris common?).get? n = some us)
    (hvs : (group uris common?).get? m = some vs) (hlt : n < m) : R us vs := by
  obtain ⟨n,rfl⟩ := Nat.exists_eq_succ_of_ne_zero hn
  obtain ⟨m,rfl⟩ := Nat.exists_eq_succ_of_ne_zero hm
  rw [Nat.succ_eq_add_one,get?_group_succ] at hus hvs
  obtain ⟨hnlt,rfl⟩ := List.getElem?_eq_some_iff.mp hus
  obtain ⟨hmlt,rfl⟩ := List.getElem?_eq_some_iff.mp hvs
  exact List.pairwise_iff_getElem.mp h n m hnlt hmlt (by omega)

/-- Documents of one group are alike in what neighbours have in common. -/
theorem eq_of_inGroup {β : Type} {f : String → β} (hf : ∀ x ∈ uris, ∀ y ∈ uris, isRelated x y → f x = f y)
    (hn : n ≠ commonGroup) (h : InGroup (group uris common?) n uri) (hother : InGroup (group uris common?) n other) :
    f uri = f other := by
  obtain ⟨us,hus,huri⟩ := h
  obtain ⟨vs,hvs,hmem⟩ := hother
  obtain rfl := Option.some.inj (hus.symm.trans hvs)
  obtain ⟨n,rfl⟩ := Nat.exists_eq_succ_of_ne_zero hn
  rw [Nat.succ_eq_add_one,get?_group_succ] at hus
  have hgiven : ∀ x ∈ outside common? (inOrder uris), x ∈ uris :=
    fun x hx => mem_inOrder.mp (List.mem_of_mem_filter hx)
  exact eq_of_mem_splitBy (List.mem_of_getElem? hus) (fun x hx y hy => hf x (hgiven x hx) y (hgiven y hy)) huri hmem

/-- Documents are in one group if they share what relates neighbours and is kept by all between them. -/
theorem eq_of_between {P : String → Prop} (hrelated : ∀ x y, P x → P y → isRelated x y)
    (hbetween : ∀ x y z, P x → P z → x ≤ y → y ≤ z → P y) (hn : n ≠ commonGroup) (hm : m ≠ commonGroup)
    (h : InGroup (group uris common?) n uri) (hother : InGroup (group uris common?) m other) (huri : P uri)
    (hPother : P other) : n = m := by
  have hsorted : (runs common? (inOrder uris)).flatten.Pairwise (· ≤ ·) := by
    rw [flatten_runs]
    exact (pairwise_le_inOrder uris).filter _
  have hapart := pairwise_apart_of_cuts hrelated hbetween hsorted (List.isChain_getLast_head_splitBy _ _)
  obtain ⟨us,hus,hmem⟩ := h
  obtain ⟨vs,hvs,hmem'⟩ := hother
  rcases Nat.lt_trichotomy n m with hlt | heq | hgt
  · exact absurd hPother (rel_of_pairwise_runs hapart hn hm hus hvs hlt uri hmem other hmem' huri)
  · exact heq
  · exact absurd huri (rel_of_pairwise_runs hapart hm hn hvs hus hgt other hmem' uri hmem hPother)

theorem pairwise_of_get?_group (h : uris.Nodup) (hn : (group uris common?).get? n = some us) : us.Pairwise (· < ·) :=
  (pairwise_lt_inOrder h).sublist (sublist_of_get?_group hn).2.1

/-- Groups come in the order of their documents. -/
theorem lt_of_inGroup (h : uris.Nodup) (hn : n ≠ commonGroup) (hlt : n < m)
    (huri : InGroup (group uris common?) n uri) (hother : InGroup (group uris common?) m other) : uri < other := by
  have hsorted : (runs common? (inOrder uris)).flatten.Pairwise (· < ·) := by
    rw [flatten_runs]
    exact (pairwise_lt_inOrder h).filter _
  obtain ⟨us,hus,hmem⟩ := huri
  obtain ⟨vs,hvs,hmem'⟩ := hother
  have hm : m ≠ commonGroup := Nat.ne_zero_of_lt hlt
  exact rel_of_pairwise_runs (List.pairwise_flatten.mp hsorted).2 hn hm hus hvs hlt uri hmem other hmem'

/-- A document is in one group only. -/
theorem InGroup.unique (h : uris.Nodup) (hn : InGroup (group uris common?) n uri)
    (hm : InGroup (group uris common?) m uri) : n = m := by
  by_cases hzero : n = commonGroup
  · rw [hzero,hm.eq_common_iff.mpr (hn.eq_common_iff.mp hzero)]
  · have hzero' : m ≠ commonGroup := fun hm' => hzero (hn.eq_common_iff.mpr (hm.eq_common_iff.mp hm'))
    rcases Nat.lt_trichotomy n m with hlt | heq | hgt
    · exact absurd (lt_of_inGroup h hzero hlt hn hm) (lt_irrefl uri)
    · exact heq
    · exact absurd (lt_of_inGroup h hzero' hgt hm hn) (lt_irrefl uri)

/-- The other groups are numbered from one without a gap. -/
theorem mem_keys_group_iff (hn : n ≠ commonGroup) :
    n ∈ (group uris common?).keys ↔ n ≤ (runs common? (inOrder uris)).length := by
  obtain ⟨n,rfl⟩ := Nat.exists_eq_succ_of_ne_zero hn
  rw [← OrderedMap.isSome_get?,Nat.succ_eq_add_one,get?_group_succ,isSome_getElem?,Nat.succ_le_iff]

theorem group_congr {others : List String} (h : uris.Perm others) (common? : Option String) :
    group uris common? = group others common? := by
  have horder := inOrder_congr h
  rw [inOrder,inOrder] at horder
  rw [group,group,horder]

end Groups
end Packages
end SchemaBinding
