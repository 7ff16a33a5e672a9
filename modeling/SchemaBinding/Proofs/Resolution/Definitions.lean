import SchemaBinding.Proofs.Resolution.Inheritance

/-! What definitions are merged from. Merging is associative, so definitions that were merged on the way back
through a walk are those of the documents of its tour, merged from the first to the last; each list is put
together from the lists of these documents in their order, and the rest is that of the first. -/
namespace SchemaBinding
namespace Definitions

theorem mergeTypes_assoc (a b c : Option (List Schema)) :
    mergeTypes (mergeTypes a b) c = mergeTypes a (mergeTypes b c) := by
  cases b <;> cases c <;> simp [mergeTypes]

theorem merge_assoc (a b c : Definitions) : (a.merge b).merge c = a.merge (b.merge c) := by
  simp [merge,mergeTypes_assoc]

theorem merge_foldl (a b : Definitions) (ds : List Definitions) :
    a.merge (ds.foldl merge b) = ds.foldl merge (a.merge b) := by
  induction ds generalizing b with
  | nil => rfl
  | cons d ds ih => rw [List.foldl_cons,List.foldl_cons,ih,merge_assoc]

@[simp] theorem schemas_merge (a b : Definitions) : (a.merge b).schemas = a.schemas ++ b.schemas := by
  unfold schemas merge
  cases b.types <;> simp [mergeTypes]

theorem isSome_types_merge (a b : Definitions) :
    (a.merge b).types.isSome ↔ a.types.isSome ∨ b.types.isSome := by
  unfold merge
  cases b.types <;> simp [mergeTypes]

/-- Definitions merged from the first to the last, if there are any. -/
def mergeAll : List Definitions → Option Definitions
  | [] => none
  | d :: ds => some (ds.foldl merge d)

theorem foldl_merge_append {β : Type} (list : Definitions → List β)
    (hlist : ∀ a b : Definitions, list (a.merge b) = list a ++ list b) (d : Definitions) (ds : List Definitions) :
    list (ds.foldl merge d) = (d :: ds).flatMap list := by
  induction ds generalizing d with
  | nil => simp
  | cons e ds ih =>
    rw [List.foldl_cons,ih,List.flatMap_cons,hlist,List.append_assoc]
    rfl

theorem foldl_merge_keep {β : Type} (part : Definitions → β)
    (hpart : ∀ a b : Definitions, part (a.merge b) = part a) (d : Definitions) (ds : List Definitions) :
    part (ds.foldl merge d) = part d := by
  induction ds generalizing d with
  | nil => rfl
  | cons e ds ih => rw [List.foldl_cons,ih,hpart]

theorem isSome_types_foldl_merge (d : Definitions) (ds : List Definitions) :
    (ds.foldl merge d).types.isSome ↔ ∃ e ∈ d :: ds, e.types.isSome := by
  induction ds generalizing d with
  | nil => simp
  | cons e ds ih =>
    rw [List.foldl_cons,ih]
    simp only [List.exists_mem_cons_iff,isSome_types_merge,or_assoc]

/-- Definitions that have their lists from documents in their order, and all else from one of their own. -/
structure Assembled (own : Definitions) (parts : List Definitions) (d : Definitions) : Prop where
  messages : d.messages = parts.flatMap (·.messages)
  portTypes : d.portTypes = parts.flatMap (·.portTypes)
  bindings : d.bindings = parts.flatMap (·.bindings)
  services : d.services = parts.flatMap (·.services)
  extensions : d.extensions = parts.flatMap (·.extensions)
  schemas : d.schemas = parts.flatMap (·.schemas)
  types : d.types.isSome ↔ ∃ part ∈ parts, part.types.isSome
  name : d.name = own.name
  targetNamespace : d.targetNamespace = own.targetNamespace
  location : d.location = own.location
  imports : d.imports = own.imports

theorem assembled_foldl_merge (d : Definitions) (ds : List Definitions) :
    Assembled d (d :: ds) (ds.foldl merge d) where
  messages := foldl_merge_append _ (fun _ _ => rfl) d ds
  portTypes := foldl_merge_append _ (fun _ _ => rfl) d ds
  bindings := foldl_merge_append _ (fun _ _ => rfl) d ds
  services := foldl_merge_append _ (fun _ _ => rfl) d ds
  extensions := foldl_merge_append _ (fun _ _ => rfl) d ds
  schemas := foldl_merge_append _ schemas_merge d ds
  types := isSome_types_foldl_merge d ds
  name := foldl_merge_keep _ (fun _ _ => rfl) d ds
  targetNamespace := foldl_merge_keep _ (fun _ _ => rfl) d ds
  location := foldl_merge_keep _ (fun _ _ => rfl) d ds
  imports := foldl_merge_keep _ (fun _ _ => rfl) d ds

end Definitions

namespace Resolution
open Definitions (mergeAll)

/-- What is read on the visits of a tour. -/
def parts (read : Reader Definitions) (order : List Arrival) : List Definitions :=
  order.filterMap fun a => read a.uri a.space

variable {read : Reader Definitions} {limit : ℕ∞} {m : Merge}

@[simp] theorem parts_append (as bs : List Arrival) : parts read (as ++ bs) = parts read as ++ parts read bs :=
  List.filterMap_append

/-- Taking in what was merged from documents takes these in one after another. -/
theorem Merge.take_mergeAll (requested : List String) (ds : List Definitions) :
    m.take (requested,mergeAll ds) = ⟨ds.foldl Definitions.merge m.definitions,requested⟩ := by
  cases ds with
  | nil => rfl
  | cons d ds => simp [Merge.take,mergeAll,Definitions.merge_foldl]

/-- A walk that asks for the documents of a tour and merges what it reads of them. -/
def Collects (read : Reader Definitions) (limit : ℕ∞) (requested : List String) (a : Arrival)
    (outcome : List String × Option Definitions) : Prop :=
  ∃ order, Tour read limit requested [a] order ∧
    outcome = (requested ++ uris order,mergeAll (parts read order))

theorem Collects.passed {requested : List String} {a : Arrival} (h : Tour read limit requested [a] []) :
    Collects read limit requested a (requested,none) :=
  ⟨[],h,by simp [parts,mergeAll]⟩

/-- Walks that collect along tours, one after another, collect along one tour. -/
theorem foldl_take_collects {walk : List String → String → List String × Option Definitions}
    (request : String → Arrival)
    (hwalk : ∀ requested uri, Collects read limit requested (request uri) (walk requested uri))
    (locations : List String) (m : Merge) :
    ∃ order, Tour read limit m.requested (locations.map request) order ∧
      locations.foldl (fun m location => m.take (walk m.requested location)) m =
        ⟨(parts read order).foldl Definitions.merge m.definitions,m.requested ++ uris order⟩ := by
  induction locations generalizing m with
  | nil => exact ⟨[],.done,by simp [parts]⟩
  | cons location locations ih =>
    obtain ⟨order,hfirst,hone⟩ := hwalk m.requested location
    rw [List.foldl_cons,hone,Merge.take_mergeAll]
    obtain ⟨after,hrest,hall⟩ :=
      ih ⟨(parts read order).foldl Definitions.merge m.definitions,m.requested ++ uris order⟩
    refine ⟨order ++ after,hfirst.append hrest,?_⟩
    rw [hall,parts_append,List.foldl_append,uris_append,List.append_assoc]

/-- A walk with as many levels left as the limit leaves at its depth collects along a tour within the limit. -/
theorem gather_collects (bound levels depth : Nat) (hlevels : levels = bound+1-depth) (space : Option String)
    (requested : List String) (uri : String) :
    Collects read bound requested ⟨uri,space,depth⟩ (gather read levels space requested uri) := by
  induction levels generalizing depth space requested uri with
  | zero =>
    exact .passed (.beyond (Nat.cast_lt.mpr (show bound < depth by omega)))
  | succ levels ih =>
    by_cases hseen : uri ∈ requested
    · simp only [gather,hseen,if_true]
      exact .passed (.again hseen .done)
    · simp only [gather,hseen,if_false]
      have hdepth : (depth : ℕ∞) ≤ bound := Nat.cast_le.mpr (by omega)
      cases hread : read uri space with
      | none => exact ⟨_,.unread hseen hdepth hread,by simp [parts,hread,mergeAll]⟩
      | some d =>
        obtain ⟨below,htour,hbelow⟩ := foldl_take_collects
          (fun uri => ⟨uri,d.targetNamespace,depth+1⟩)
          (fun requested uri => ih (depth+1) (by omega) d.targetNamespace requested uri) d.locations
          ⟨d,requested ++ [uri]⟩
        have honward := onward_of_read (a:=⟨uri,space,depth⟩) hread
        refine ⟨⟨uri,space,depth⟩ :: below,.single hseen hdepth (honward ▸ htour),?_⟩
        simp [hbelow,parts,hread,mergeAll]

/-- What a walk that is not limited finds starts with the document it starts from. -/
theorem assembled_of_tour {a : Arrival} {order : List Arrival} (h : Tour read ⊤ [] [a] order) :
    ((mergeAll (parts read order)).isSome ↔ (read a.uri a.space).isSome) ∧
      ∀ d, mergeAll (parts read order) = some d →
        ∃ own, read a.uri a.space = some own ∧ own.Assembled (parts read order) d := by
  obtain ⟨below,rfl,hbelow⟩ := h.exists_below
  cases hread : read a.uri a.space with
  | none =>
    rw [onward_of_unread hread] at hbelow
    cases hbelow
    simp [parts,hread,mergeAll]
  | some own =>
    have hparts : parts read (a :: below) = own :: parts read below := by simp [parts,hread]
    rw [hparts]
    refine ⟨by simp [mergeAll],?_⟩
    rintro d ⟨⟩
    exact ⟨own,rfl,own.assembled_foldl_merge _⟩

end Resolution

namespace Session
open Resolution
open Definitions (mergeAll)

/-- The documents are those of the tour from the root: each that can be read contributes once, in the order of
first visits. -/
theorem gatherDefinitions_assembles (disk : Disk) (s : Session) (root : String) (space : Option String)
    (hlimit : {uri | Reach (s.readDefinitions? disk) [root] uri ∧
      (s.readDefinitions? disk uri none).isSome}.encard ≤ s.settings.limits.maxIncludeDepth) :
    let read := s.readDefinitions? disk
    let run := s.unmerged.gatherDefinitions disk root space 0
    ∃ order, Tour read ⊤ [] (entering space [root]) order ∧
      run.1.merged = uris order ∧ (uris order).Nodup ∧
      (∀ uri, uri ∈ uris order ↔ Reach read [root] uri) ∧
      (run.2.isSome ↔ (read root none).isSome) ∧
      ∀ d, run.2 = some d → ∃ own, read root space = some own ∧ own.Assembled (parts read order) d := by
  intro read run
  have hs : Steady read := s.steady_readDefinitions? disk
  obtain ⟨order,hwithin,hfound⟩ :=
    gather_collects s.settings.limits.maxIncludeDepth _ 0 rfl space [] root
  have htour : Tour read ⊤ [] (entering space [root]) order :=
    hwithin.unlimited hs hlimit (.start read [root] space)
  have hmerged : run.1.merged = uris order := congrArg Prod.fst hfound
  have hdefinitions : run.2 = mergeAll (parts read order) := congrArg Prod.snd hfound
  have hassembled := assembled_of_tour htour
  rw [hdefinitions,← hs.isSome space]
  exact ⟨order,htour,hmerged,htour.nodup,htour.mem_iff_reach hs,hassembled⟩

/-- Two documents of definitions that import each other, and an import that is missing. -/
def pair : Session :=
  let text (parts : String) := "<definitions xmlns='http://schemas.xmlsoap.org/wsdl/'>" ++ parts ++ "</definitions>"
  serving { maxIncludeDepth := 2 } [
    ("file:///a",text "<import location='b'/><import location='c'/>"),
    ("file:///b",text "<import location='a'/><message name='m'/>")]

theorem encard_reach_pair : {uri | Reach (pair.readDefinitions? {}) ["file:///a"] uri ∧
    (pair.readDefinitions? {} uri none).isSome}.encard ≤ (2 : Nat) := by
  have hlength : (readable (pair.readDefinitions? {}) ["file:///a","file:///b","file:///c"]).length = 2 := by
    decide +kernel
  rw [← hlength]
  apply encard_le_length
  rintro uri ⟨hreach,hread⟩
  exact List.mem_filter.mpr ⟨hreach.mem_of_closed (by decide) (by decide +kernel),hread⟩

/-- All three are asked for, and the message of the second is taken over with the imports of the first. -/
theorem gatherDefinitions_assembles_pair :
    {uri | Reach (pair.readDefinitions? {}) ["file:///a"] uri ∧
      (pair.readDefinitions? {} uri none).isSome}.encard ≤ (2 : Nat) ∧
    let read := pair.readDefinitions? {}
    let run := pair.unmerged.gatherDefinitions {} "file:///a" none 0
    run.1.merged = ["file:///a","file:///b","file:///c"] ∧
    run.2.map (fun d => (d.messages.map (·.name),d.locations)) = some ([some "m"],["file:///b","file:///c"]) ∧
    ∃ order, Tour read ⊤ [] (entering none ["file:///a"]) order ∧
      run.1.merged = uris order ∧ (uris order).Nodup ∧
      (∀ uri, uri ∈ uris order ↔ Reach read ["file:///a"] uri) ∧
      (run.2.isSome ↔ (read "file:///a" none).isSome) ∧
      ∀ d, run.2 = some d → ∃ own, read "file:///a" none = some own ∧ own.Assembled (parts read order) d :=
  ⟨encard_reach_pair,by decide +kernel,by decide +kernel,
    gatherDefinitions_assembles {} pair "file:///a" none encard_reach_pair⟩

end Session
end SchemaBinding
