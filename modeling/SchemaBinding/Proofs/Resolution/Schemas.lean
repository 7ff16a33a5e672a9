import SchemaBinding.Proofs.Resolution.Inheritance

/-! What is recorded of the schemas that are visited. A walk through the documents follows a tour: it asks for
the documents of the tour in their order, and each of them that can be read has its classes recorded, once and
as it was read on its first visit. -/
namespace SchemaBinding
namespace Resolution

/-- Classes are recorded of requested documents only. -/
def Progress.Orderly (p : Progress) : Prop := ∀ uri ∈ p.corpus.uris, uri ∈ p.requested

/-- A walk that ends well, has asked for the documents of a tour, and has recorded each of them, as it was read
on its first visit, and no others. -/
structure Follows (read : Reader Schema) (limit : ℕ∞) (p : Progress) (ahead order : List Arrival)
    (outcome : Progress × Except Failure Unit) : Prop where
  ok : outcome.2 = .ok ()
  tour : Tour read limit p.requested ahead order
  requested : outcome.1.requested = p.requested ++ uris order
  recorded : ∀ a ∈ order, outcome.1.corpus.get? a.uri = (read a.uri a.space).map Schema.classes
  kept : ∀ uri, uri ∉ uris order → outcome.1.corpus.get? uri = p.corpus.get? uri

variable {read : Reader Schema} {limit : ℕ∞} {p : Progress}

theorem Progress.Orderly.get?_eq_none (hp : p.Orderly) {uri : String} (huri : uri ∉ p.requested) :
    p.corpus.get? uri = none := by
  rw [← Option.not_isSome_iff_eq_none]
  exact fun h => huri (hp uri (Corpus.isSome_get?.mp h))

theorem Progress.Orderly.request (hp : p.Orderly) (uri : String) : (p.request uri).Orderly :=
  fun other hother => List.mem_append_left _ (hp other hother)

namespace Follows
variable {ahead order : List Arrival} {outcome : Progress × Except Failure Unit}

theorem orderly (h : Follows read limit p ahead order outcome) (hp : p.Orderly) : outcome.1.Orderly := by
  intro uri huri
  rw [h.requested,List.mem_append]
  by_cases hmem : uri ∈ uris order
  · exact Or.inr hmem
  · rw [← Corpus.isSome_get?,h.kept uri hmem,Corpus.isSome_get?] at huri
    exact Or.inl (hp uri huri)

theorem done (p : Progress) : Follows read limit p [] [] (p,.ok ()) :=
  ⟨rfl,.done,by simp,by simp,fun _ _ => rfl⟩

/-- A request that leads to no visit. -/
theorem passed {a : Arrival} (h : Tour read limit p.requested [a] []) : Follows read limit p [a] [] (p,.ok ()) :=
  ⟨rfl,h,by simp,by simp,fun _ _ => rfl⟩

theorem append {behind after : List Arrival} {q : Progress} (h : Follows read limit p ahead order (q,.ok ()))
    (hb : Follows read limit q behind after outcome) :
    Follows read limit p (ahead ++ behind) (order ++ after) outcome where
  ok := hb.ok
  tour := h.tour.append (h.requested ▸ hb.tour)
  requested := by rw [hb.requested,h.requested,uris_append,List.append_assoc]
  recorded := by
    intro a ha
    rcases List.mem_append.mp ha with ha | ha
    · have hrequested : a.uri ∈ q.requested := by
        rw [h.requested]
        exact List.mem_append_right _ (mem_uris.mpr ⟨a,ha,rfl⟩)
      rw [hb.kept a.uri fun hafter => hb.tour.not_mem_seen _ hafter hrequested]
      exact h.recorded a ha
    · exact hb.recorded a ha
  kept := by
    intro uri huri
    rw [uris_append,List.mem_append,not_or] at huri
    exact (hb.kept uri huri.2).trans (h.kept uri huri.1)

/-- A walk from nothing records the documents of its tour that can be read. -/
theorem mem_uris (h : Follows read limit p ahead order outcome) (hs : Steady read) (hp : p.corpus.uris = [])
    (uri : String) : uri ∈ outcome.1.corpus.uris ↔ uri ∈ uris order ∧ (read uri none).isSome := by
  rw [← Corpus.isSome_get?]
  by_cases huri : uri ∈ uris order
  · obtain ⟨a,ha,rfl⟩ := Resolution.mem_uris.mp huri
    rw [h.recorded a ha,Option.isSome_map,hs.isSome a.space]
    simp [huri]
  · have hnone : ¬ (p.corpus.get? uri).isSome := by
      rw [Corpus.isSome_get?,hp]
      exact List.not_mem_nil
    rw [h.kept uri huri]
    simp [hnone,huri]

end Follows

/-- Steps that follow tours, one after another, follow one tour. -/
theorem inTurn_follows {step : Progress → String → Progress × Except Failure Unit} {request : String → Arrival}
    (hstep : ∀ p uri, p.Orderly → ∃ order, Follows read limit p [request uri] order (step p uri))
    (locations : List String) (hp : p.Orderly) :
    ∃ order, Follows read limit p (locations.map request) order (inTurn step p locations) := by
  induction locations generalizing p with
  | nil => exact ⟨[],Follows.done p⟩
  | cons uri locations ih =>
    obtain ⟨order,hfirst⟩ := hstep p uri hp
    cases hq : step p uri with
    | mk q outcome =>
      rw [hq] at hfirst
      obtain rfl : outcome = .ok () := hfirst.ok
      obtain ⟨after,hrest⟩ := ih (hfirst.orderly hp)
      have hall := hfirst.append hrest
      exact ⟨order ++ after,by simpa [inTurn,hq] using hall⟩

theorem convertBy_of_inTurn {follow : Option String → Progress → String → Progress × Except Failure Unit}
    {p q : Progress} {s : Schema} {uri : String} (h : inTurn (follow s.targetNamespace) p s.locations = (q,.ok ()))
    (hlocation : s.location = some uri) : convertBy follow p s = (q.record uri s,.ok ()) := by
  rw [convertBy,h]
  simp only [hlocation]

/-- A document that is read is recorded after all it refers to. -/
theorem convertBy_follows {follow : Option String → Progress → String → Progress × Except Failure Unit}
    {a : Arrival} {s : Schema} (hp : p.Orderly) (hnew : a.uri ∉ p.requested) (hdepth : a.depth ≤ limit)
    (hread : read a.uri a.space = some s) (hlocation : s.location = some a.uri)
    (hfollow : ∀ p uri, p.Orderly → ∃ order, Follows read limit p [⟨uri,s.targetNamespace,a.depth+1⟩] order
      (follow s.targetNamespace p uri)) :
    ∃ order, Follows read limit p [a] order (convertBy follow (p.request a.uri) s) := by
  obtain ⟨below,h⟩ := inTurn_follows hfollow s.locations (hp.request a.uri)
  obtain ⟨q,hq⟩ : ∃ q, inTurn (follow s.targetNamespace) (p.request a.uri) s.locations = (q,.ok ()) :=
    ⟨_,Prod.ext rfl h.ok⟩
  rw [hq] at h
  have hconvert : convertBy follow (p.request a.uri) s = (q.record a.uri s,.ok ()) :=
    convertBy_of_inTurn hq hlocation
  have htour : Tour read limit (p.requested ++ [a.uri]) (onward read a) below := onward_of_read hread ▸ h.tour
  have hbelow : a.uri ∉ uris below := fun hmem => htour.not_mem_seen _ hmem (by simp)
  rw [hconvert]
  refine ⟨a :: below,rfl,.single hnew hdepth htour,?_,?_,?_⟩
  · change q.requested = _
    rw [h.requested]
    simp [Progress.request]
  · intro b hb
    change (q.corpus.record a.uri s.classes).get? b.uri = _
    rw [Corpus.get?_record]
    rcases List.mem_cons.mp hb with rfl | hb
    · have hempty : q.corpus.get? b.uri = none := (h.kept b.uri hbelow).trans (hp.get?_eq_none hnew)
      simp [hempty,hread]
    · have hne : b.uri ≠ a.uri := fun he => hbelow (mem_uris.mpr ⟨b,hb,he⟩)
      rw [if_neg hne]
      exact h.recorded b hb
  · intro uri huri
    rw [uris_cons,List.mem_cons,not_or] at huri
    change (q.corpus.record a.uri s.classes).get? uri = _
    rw [Corpus.get?_record,if_neg huri.1]
    exact h.kept uri huri.2

/-- A visit with as many levels left as the limit leaves at its depth follows a tour within the limit. -/
theorem visit_follows (hlocation : ∀ uri space s, read uri space = some s → s.location = some uri) (bound : Nat)
    (levels depth : Nat) (hlevels : levels = bound+1-depth) (space : Option String) (p : Progress) (uri : String)
    (hp : p.Orderly) :
    ∃ order, Follows read bound p [⟨uri,space,depth⟩] order (visit read levels space p uri) := by
  induction levels generalizing depth space p uri with
  | zero =>
    exact ⟨[],Follows.passed (.beyond (Nat.cast_lt.mpr (show bound < depth by omega)))⟩
  | succ levels ih =>
    by_cases hseen : uri ∈ p.requested
    · simp only [visit,hseen,if_true]
      exact ⟨[],Follows.passed (.again hseen .done)⟩
    · simp only [visit,hseen,if_false]
      have hdepth : (depth : ℕ∞) ≤ bound := Nat.cast_le.mpr (by omega)
      cases hread : read uri space with
      | none =>
        refine ⟨_,rfl,.unread hseen hdepth hread,rfl,?_,fun _ _ => rfl⟩
        intro a ha
        rw [List.mem_singleton.mp ha,hread]
        exact hp.get?_eq_none hseen
      | some s =>
        exact convertBy_follows (a:=⟨uri,space,depth⟩) hp hseen hdepth hread (hlocation uri space s hread)
          fun p uri hp => ih (depth+1) (by omega) s.targetNamespace p uri hp

end Resolution
end SchemaBinding
