import SchemaBinding.Proofs.Reading.Outcomes
import SchemaBinding.Proofs.Resolution.Definitions

/-! What a request for definitions does to a session. A walk only adds: it asks for more documents, and what it
records stands behind what is there. It fails at a schema without a location, and no document that is read has one.
Main statement: a request for definitions fails if and only if its own document cannot be read, and then nothing has
changed; otherwise everything recorded before is still there. -/
namespace SchemaBinding

namespace Corpus

/-- What a corpus becomes by recording. -/
structure Grows (c d : Corpus) : Prop where
  uris : c.uris <+: d.uris
  classes : ∀ uri classes, c.get? uri = some classes → ∃ more, d.get? uri = some (classes ++ more)

theorem Grows.refl (c : Corpus) : c.Grows c where
  uris := List.prefix_rfl
  classes := fun _ classes h => ⟨[],by simpa using h⟩

theorem Grows.trans {c d e : Corpus} (h : c.Grows d) (h' : d.Grows e) : c.Grows e where
  uris := h.uris.trans h'.uris
  classes := by
    intro uri classes hc
    obtain ⟨more,hd⟩ := h.classes uri classes hc
    obtain ⟨further,he⟩ := h'.classes uri _ hd
    exact ⟨more ++ further,by rw [he,List.append_assoc]⟩

theorem grows_record (c : Corpus) (uri : String) (classes : List Class) : c.Grows (c.record uri classes) where
  uris := by
    rw [uris_record]
    split
    · exact List.prefix_rfl
    · exact List.prefix_append _ _
  classes := by
    intro other old hold
    rw [get?_record]
    by_cases h : other = uri
    · subst h
      exact ⟨classes,by simp [hold]⟩
    · exact ⟨[],by simp [h,hold]⟩

end Corpus

namespace Resolution

/-- What the state of a walk becomes. -/
structure Progress.Grows (p q : Progress) : Prop where
  requested : p.requested <+: q.requested
  corpus : p.corpus.Grows q.corpus

/-- A walk that does not fail, and only adds. -/
structure Advances (p : Progress) (outcome : Progress × Except Failure Unit) : Prop where
  ok : outcome.2 = .ok ()
  grows : p.Grows outcome.1

namespace Progress

theorem Grows.refl (p : Progress) : p.Grows p := ⟨List.prefix_rfl,.refl _⟩

theorem Grows.trans {p q r : Progress} (h : p.Grows q) (h' : q.Grows r) : p.Grows r :=
  ⟨h.requested.trans h'.requested,h.corpus.trans h'.corpus⟩

theorem grows_request (p : Progress) (uri : String) : p.Grows (p.request uri) :=
  ⟨List.prefix_append _ _,.refl _⟩

theorem grows_record (p : Progress) (uri : String) (s : Schema) : p.Grows (p.record uri s) :=
  ⟨List.prefix_rfl,p.corpus.grows_record uri s.classes⟩

end Progress

theorem Advances.done (p : Progress) : Advances p (p,.ok ()) := ⟨rfl,.refl p⟩

theorem Advances.after {p q : Progress} {outcome : Progress × Except Failure Unit} (h : Advances q outcome)
    (hq : p.Grows q) : Advances p outcome :=
  ⟨h.ok,hq.trans h.grows⟩

theorem Advances.exists_eq {p : Progress} {outcome : Progress × Except Failure Unit} (h : Advances p outcome) :
    ∃ q, outcome = (q,.ok ()) ∧ p.Grows q :=
  ⟨outcome.1,Prod.ext rfl h.ok,h.grows⟩

/-- Steps that advance, one after another, advance. -/
theorem inTurn_advances {α : Type} {step : Progress → α → Progress × Except Failure Unit} (as : List α)
    (hstep : ∀ a ∈ as, ∀ p, Advances p (step p a)) (p : Progress) : Advances p (inTurn step p as) := by
  induction as generalizing p with
  | nil => exact .done p
  | cons a as ih =>
    obtain ⟨q,hq,hgrows⟩ := (hstep a (by simp) p).exists_eq
    have hrest := ih (fun b hb => hstep b (by simp [hb])) q
    rw [inTurn,hq]
    exact hrest.after hgrows

theorem convertBy_advances {follow : Option String → Progress → String → Progress × Except Failure Unit}
    (hfollow : ∀ space p uri, Advances p (follow space p uri)) {s : Schema} {uri : String}
    (hlocation : s.location = some uri) (p : Progress) : Advances p (convertBy follow p s) := by
  have hbelow : Advances p (inTurn (follow s.targetNamespace) p s.locations) :=
    inTurn_advances s.locations (fun uri _ p => hfollow s.targetNamespace p uri) p
  obtain ⟨q,hq,hgrows⟩ := hbelow.exists_eq
  have hrecord := q.grows_record uri s
  rw [convertBy,hq]
  simp only [hlocation]
  exact ⟨rfl,hgrows.trans hrecord⟩

variable {read : Reader Schema}

theorem visit_advances (hlocation : ∀ uri space s, read uri space = some s → s.location = some uri) (levels : Nat)
    (space : Option String) (p : Progress) (uri : String) : Advances p (visit read levels space p uri) := by
  induction levels generalizing space p uri with
  | zero => exact .done p
  | succ levels ih =>
    by_cases hseen : uri ∈ p.requested
    · simp only [visit,hseen,if_true]
      exact .done p
    · simp only [visit,hseen,if_false]
      have hrequest := p.grows_request uri
      cases hread : read uri space with
      | none => exact ⟨rfl,hrequest⟩
      | some s => exact (convertBy_advances ih (hlocation uri space s hread) _).after hrequest

theorem convertAll_advances (hlocation : ∀ uri space s, read uri space = some s → s.location = some uri)
    (levels : Nat) {ss : List Schema} (hss : ∀ s ∈ ss, s.location.isSome) (p : Progress) :
    Advances p (convertAll read levels p ss) := by
  refine inTurn_advances ss (fun s hs p => ?_) p
  obtain ⟨uri,huri⟩ := Option.isSome_iff_exists.mp (hss s hs)
  exact convertBy_advances (visit_advances hlocation levels) huri p

end Resolution

/-! ## Where the schemas of definitions are -/

namespace Definitions
open Xml (Element)

/-- All schemas of definitions are at one location. -/
def Placed (location : Option String) (d : Definitions) : Prop := ∀ s ∈ d.schemas, s.location = location

theorem placed_addChild {r : Reading} {d : Definitions} (hd : d.Placed r.location) (e : Element) :
    Gives (Placed r.location) (addChild r d e) := by
  unfold addChild
  split
  · exact .ok hd
  · split
    · have hschemas : Gives (fun ss => ∀ s ∈ ss, s.location = r.location) (readSchemas r e) :=
        .mapM (fun _ _ hs => Schema.location_ofElement hs) _
      exact hschemas.map fun schemas hnew => List.forall_mem_append.mpr ⟨hd,hnew⟩
    all_goals exact .ok hd

/-- The schemas in a document are at the location of the document. -/
theorem placed_read (r : Reading) (bytes : Bytes) : Gives (Placed r.location) (read r bytes) := by
  refine (Gives.any _).bind fun root _ => ?_
  cases root with
  | none => exact .error _
  | some e =>
    change Gives _ (ofElement r e)
    unfold ofElement
    split
    · exact .error _
    · exact .foldlM (fun _ e hd => placed_addChild hd e) _ (by simp [Placed,schemas])

end Definitions

namespace Session
open Resolution

variable (disk : Disk) (s : Session)

theorem placed_readDefinitions? {uri : String} {space : Option String} {d : Definitions}
    (h : s.readDefinitions? disk uri space = some d) : d.Placed (some uri) := by
  have hread : Gives (Definitions.Placed (some uri))
      ((s.supply.fetch disk uri).bind (Definitions.read (s.reading disk uri space))) :=
    (Gives.any _).bind fun bytes _ => Definitions.placed_read (s.reading disk uri space) bytes
  exact hread.of_toOption h

/-- The definitions that are gathered hold schemas that are in the documents they were read from. -/
theorem located_gatherDefinitions {uri : String} {d : Definitions}
    (h : (s.unmerged.gatherDefinitions disk uri none 0).2 = some d) : ∀ schema ∈ d.schemas, schema.location.isSome := by
  obtain ⟨order,_,hfound⟩ : Collects (s.readDefinitions? disk) s.settings.limits.maxIncludeDepth [] ⟨uri,none,0⟩ _ :=
    gather_collects s.settings.limits.maxIncludeDepth _ 0 rfl none [] uri
  have hparts : Definitions.mergeAll (parts (s.readDefinitions? disk) order) = some d :=
    (congrArg Prod.snd hfound).symm.trans h
  have hplaced : ∀ part ∈ parts (s.readDefinitions? disk) order, ∀ schema ∈ part.schemas, schema.location.isSome := by
    intro part hpart schema hschema
    obtain ⟨a,_,ha⟩ := List.mem_filterMap.mp hpart
    rw [s.placed_readDefinitions? disk ha schema hschema]
    rfl
  cases hlist : parts (s.readDefinitions? disk) order with
  | nil =>
    rw [hlist] at hparts
    cases hparts
  | cons own others =>
    rw [hlist] at hparts hplaced
    obtain rfl := Option.some.inj hparts
    intro schema hschema
    rw [(own.assembled_foldl_merge others).schemas] at hschema
    obtain ⟨part,hpart,hschema⟩ := List.mem_flatMap.mp hschema
    exact hplaced part hpart schema hschema

/-- Gathering finds something if and only if it can read the document it starts from. -/
theorem isSome_gatherDefinitions (uri : String) :
    (s.unmerged.gatherDefinitions disk uri none 0).2.isSome = (s.readDefinitions? disk uri none).isSome := by
  have hgather : (gather (s.readDefinitions? disk) (s.settings.limits.maxIncludeDepth+1) none [] uri).2.isSome =
      (s.readDefinitions? disk uri none).isSome := by
    cases hread : s.readDefinitions? disk uri none <;> simp [gather,hread]
  exact hgather

theorem resolveDefinitions_of_unread {uri : String} (h : s.readDefinitions? disk uri none = none) :
    (s.resolveDefinitions disk uri).2 = .error (.generation (.definitionsNotFound uri)) ∧
      (s.resolveDefinitions disk uri).1.progress = s.progress := by
  have hnone := s.isSome_gatherDefinitions disk uri
  rw [h] at hnone
  cases hfound : s.unmerged.gatherDefinitions disk uri none 0 with
  | mk t found =>
    have hprogress : t.progress = s.progress := congrArg (·.1.progress) hfound.symm
    rw [hfound] at hnone
    cases found with
    | some d => cases hnone
    | none =>
      rw [resolveDefinitions,hfound]
      exact ⟨rfl,hprogress⟩

theorem resolveDefinitions_of_read {uri : String} (h : (s.readDefinitions? disk uri none).isSome) :
    Advances s.progress ((s.resolveDefinitions disk uri).1.progress,(s.resolveDefinitions disk uri).2) := by
  have hsome := s.isSome_gatherDefinitions disk uri
  rw [h] at hsome
  cases hfound : s.unmerged.gatherDefinitions disk uri none 0 with
  | mk t found =>
    cases found with
    | none =>
      rw [hfound] at hsome
      cases hsome
    | some d =>
      have hlocated := s.located_gatherDefinitions disk (congrArg Prod.snd hfound)
      have hsession : (s.unmerged.gatherDefinitions disk uri none 0).1 = t := congrArg Prod.fst hfound
      rw [resolveDefinitions,hfound,← hsession]
      exact convertAll_advances (fun _ _ _ => s.location_readSchema? disk) _ hlocated s.progress

/-- A request for definitions fails if and only if its own document cannot be fetched or is no document of
definitions, whatever that imports and refers to, and whatever the session has resolved. A request that fails
leaves everything as it was, and one that does not only adds. -/
theorem resolveDefinitions_fails_iff (root : String) :
    let run := s.resolveDefinitions disk root
    ((∃ failure, run.2 = .error failure) ↔ ∃ cause,
      (s.supply.fetch disk root).bind (Definitions.read (s.reading disk root none)) = .error cause) ∧
      ((∃ failure, run.2 = .error failure) → run.1.progress = s.progress) ∧
      (run.2 = .ok () → s.progress.Grows run.1.progress) := by
  intro run
  cases hread : (s.supply.fetch disk root).bind (Definitions.read (s.reading disk root none)) with
  | error cause =>
    have hnone : s.readDefinitions? disk root none = none := by
      rw [readDefinitions?,hread]
      rfl
    obtain ⟨herror,hsame⟩ := s.resolveDefinitions_of_unread disk hnone
    have hfails : run.2 = .error (.generation (.definitionsNotFound root)) := herror
    exact ⟨by simp [hfails],fun _ => hsame,by simp [hfails]⟩
  | ok d =>
    have hsome : (s.readDefinitions? disk root none).isSome := by
      rw [readDefinitions?,hread]
      rfl
    have hadvances := s.resolveDefinitions_of_read disk hsome
    have hok : run.2 = .ok () := hadvances.ok
    exact ⟨by simp [hok],by simp [hok],fun _ => hadvances.grows⟩

end Session
end SchemaBinding
