import SchemaBinding.Proofs.Resolution.Schemas

/-! Which documents a session resolves. Main statements: under a limit that is no smaller than the number of
documents within reach, every document within reach is asked for once, and those that can be read are recorded;
under any limit, what is recorded is what the tour within the limit visits, and that is all that chains of
references within the limit lead to unless a document is first met at the limit, although a shorter chain leads
to it, and hides what it leads on to. -/
namespace SchemaBinding
namespace Session
open Resolution

variable (disk : Disk) (s : Session) (entries : List String)

/-- Taking up entry points follows the tour from them within the limit. -/
theorem takeSchemas_follows : ∃ order, Follows (s.readSchema? disk) s.settings.limits.maxIncludeDepth {}
    (entering none entries) order
    ((s.fresh.takeSchemas disk entries).1.progress,(s.fresh.takeSchemas disk entries).2) := by
  have horderly : ({} : Progress).Orderly := by
    intro uri huri
    cases huri
  refine inTurn_follows ?_ entries horderly
  intro p uri hp
  exact visit_follows (fun _ _ _ => s.location_readSchema? disk) _ _ 0 rfl none p uri hp

/-- A limit that is no smaller than the number of documents within reach is never met. -/
theorem suffices_of_encard_le
    (hlimit : {uri | Reach (s.readSchema? disk) entries uri}.encard ≤ s.settings.limits.maxIncludeDepth) :
    Suffices (s.readSchema? disk) s.settings.limits.maxIncludeDepth (entering none entries) := by
  obtain ⟨order,h⟩ := s.takeSchemas_follows disk entries
  have hreadable : {uri | Reach (s.readSchema? disk) entries uri ∧
      (s.readSchema? disk uri none).isSome}.encard ≤ s.settings.limits.maxIncludeDepth :=
    (Set.encard_le_encard fun uri huri => huri.1).trans hlimit
  exact ⟨order,h.tour.unlimited (s.steady_readSchema? disk) hreadable (.start _ entries none),h.tour.depth_le⟩

/-- If the limit is never met, taking up entry points follows the tour that knows no limit. -/
theorem takeSchemas_follows_unlimited
    (hlimit : Suffices (s.readSchema? disk) s.settings.limits.maxIncludeDepth (entering none entries)) :
    ∃ order, Tour (s.readSchema? disk) ⊤ [] (entering none entries) order ∧
      Follows (s.readSchema? disk) s.settings.limits.maxIncludeDepth {} (entering none entries) order
        ((s.fresh.takeSchemas disk entries).1.progress,(s.fresh.takeSchemas disk entries).2) := by
  obtain ⟨order,htour,hdepth⟩ := hlimit
  obtain ⟨followed,h⟩ := s.takeSchemas_follows disk entries
  obtain rfl := (htour.limited hdepth).unique h.tour
  exact ⟨order,htour,h⟩

variable {disk s entries}

theorem mem_uris_takeSchemas {order : List Arrival} {limit : ℕ∞} {run : Session × Except Failure Unit}
    (h : Follows (s.readSchema? disk) limit {} (entering none entries) order (run.1.progress,run.2)) (uri : String) :
    uri ∈ run.1.corpus.uris ↔ uri ∈ uris order ∧ (s.readSchema? disk uri none).isSome :=
  h.mem_uris (s.steady_readSchema? disk) rfl uri

/-- The element of a document, as a session reads it. -/
def root? (disk : Disk) (s : Session) (uri : String) : Option Xml.Element :=
  ((s.supply.fetch disk uri).bind Xml.Element.parse).toOption.join

theorem exists_root_of_readSchema? {uri : String} {space : Option String} {S : Schema}
    (h : s.readSchema? disk uri space = some S) :
    ∃ root, s.root? disk uri = some root ∧ Schema.ofElement (s.reading disk uri space) root = .ok S := by
  unfold readSchema? at h
  unfold root?
  cases hfetch : s.supply.fetch disk uri with
  | error failure =>
    rw [hfetch] at h
    cases h
  | ok bytes =>
    rw [hfetch] at h
    change (Schema.read (s.reading disk uri space) bytes).toOption = some S at h
    cases hread : Schema.read (s.reading disk uri space) bytes with
    | error failure =>
      rw [hread] at h
      cases h
    | ok T =>
      rw [hread] at h
      obtain rfl := Option.some.inj h
      obtain ⟨root,hparse,hofElement⟩ := Schema.exists_element_of_read hread
      refine ⟨root,?_,hofElement⟩
      change (Xml.Element.parse bytes).toOption.join = some root
      rw [hparse]
      rfl

/-- The classes that are recorded of a document are those of a schema that is read from its element. -/
theorem exists_root_of_get? {uri : String} {classes : List Class}
    (h : (s.fresh.takeSchemas disk entries).1.corpus.get? uri = some classes) :
    ∃ root space S, s.root? disk uri = some root ∧ Schema.ofElement (s.reading disk uri space) root = .ok S ∧
      S.classes = classes := by
  obtain ⟨order,hfollows⟩ := s.takeSchemas_follows disk entries
  have huri := ((mem_uris_takeSchemas hfollows uri).mp (Corpus.isSome_get?.mp (by rw [h]; rfl))).1
  obtain ⟨a,ha,rfl⟩ := mem_uris.mp huri
  have hrecorded := hfollows.recorded a ha
  obtain ⟨S,hread,hclasses⟩ := Option.map_eq_some_iff.mp (hrecorded.symm.trans h)
  obtain ⟨root,hroot,hofElement⟩ := exists_root_of_readSchema? hread
  exact ⟨root,a.space,S,hroot,hofElement,hclasses⟩

variable (disk s entries)

/-- The entries of a tour are handed no namespace, and each other document the namespace of the document whose
reference is met first; that namespace decides how the document is read for its classes. -/
theorem takeSchemas_resolves_reach
    (hlimit : {uri | Reach (s.readSchema? disk) entries uri}.encard ≤ s.settings.limits.maxIncludeDepth) :
    let run := s.fresh.takeSchemas disk entries
    ∃ order, Tour (s.readSchema? disk) ⊤ [] (entering none entries) order ∧
      run.2 = .ok () ∧
      run.1.progress.requested = uris order ∧ (uris order).Nodup ∧
      (∀ uri, uri ∈ uris order ↔ Reach (s.readSchema? disk) entries uri) ∧
      (∀ uri, uri ∈ run.1.corpus.uris ↔
        Reach (s.readSchema? disk) entries uri ∧ (s.readSchema? disk uri none).isSome) ∧
      ∀ a ∈ order, run.1.corpus.get? a.uri = (s.readSchema? disk a.uri a.space).map Schema.classes := by
  intro run
  have hs := s.steady_readSchema? disk
  obtain ⟨order,h⟩ := s.takeSchemas_follows disk entries
  have hreadable : {uri | Reach (s.readSchema? disk) entries uri ∧
      (s.readSchema? disk uri none).isSome}.encard ≤ s.settings.limits.maxIncludeDepth :=
    (Set.encard_le_encard fun uri huri => huri.1).trans hlimit
  have htour := h.tour.unlimited hs hreadable (.start _ entries none)
  have hreach := htour.mem_iff_reach hs
  refine ⟨order,htour,h.ok,by simpa using h.requested,htour.nodup,hreach,?_,h.recorded⟩
  intro uri
  rw [mem_uris_takeSchemas h,hreach]

/-- Two documents that refer to each other, one that is no schema, and one that is missing. -/
def ring : Session := serving { maxIncludeDepth := 4 } [
  ("file:///a","<schema targetNamespace='n'><include schemaLocation='b'/><include schemaLocation='c'/></schema>"),
  ("file:///b","<schema><include schemaLocation='a'/><import schemaLocation='d'/><complexType name='B'/></schema>"),
  ("file:///c","<x/>")]

theorem encard_reach_ring :
    {uri | Reach (ring.readSchema? {}) ["file:///a","file:///a"] uri}.encard ≤ (4 : Nat) := by
  apply encard_le_length ["file:///a","file:///b","file:///c","file:///d"]
  intro uri huri
  exact huri.mem_of_closed (by decide) (by decide +kernel)

/-- Each is asked for once, and the two schemas are recorded, the second with the namespace of the first. -/
theorem takeSchemas_resolves_ring :
    {uri | Reach (ring.readSchema? {}) ["file:///a","file:///a"] uri}.encard ≤ (4 : Nat) ∧
    let run := ring.fresh.takeSchemas {} ["file:///a","file:///a"]
    run.1.progress.requested = ["file:///a","file:///b","file:///d","file:///c"] ∧
    run.1.corpus.documents.entries.map (fun e => (e.1,e.2.map fun c => (c.space,c.name))) =
      [("file:///b",[(some "n","B")]),("file:///a",[])] ∧
    ∃ order, Tour (ring.readSchema? {}) ⊤ [] (entering none ["file:///a","file:///a"]) order ∧
      run.2 = .ok () ∧
      run.1.progress.requested = uris order ∧ (uris order).Nodup ∧
      (∀ uri, uri ∈ uris order ↔ Reach (ring.readSchema? {}) ["file:///a","file:///a"] uri) ∧
      (∀ uri, uri ∈ run.1.corpus.uris ↔
        Reach (ring.readSchema? {}) ["file:///a","file:///a"] uri ∧ (ring.readSchema? {} uri none).isSome) ∧
      ∀ a ∈ order, run.1.corpus.get? a.uri = (ring.readSchema? {} a.uri a.space).map Schema.classes :=
  ⟨encard_reach_ring,by decide +kernel,by decide +kernel,
    takeSchemas_resolves_reach {} ring ["file:///a","file:///a"] encard_reach_ring⟩

/-! ## Documents behind the limit -/

/-- What is recorded under a limit. A document is recorded only where a chain of references within the limit
leads, and everything readable there is recorded if and only if the tour is unobstructed. -/
theorem takeSchemas_resolves_near_iff :
    let run := s.fresh.takeSchemas disk entries
    let bound := s.settings.limits.maxIncludeDepth
    ∃ order, Tour (s.readSchema? disk) bound [] (entering none entries) order ∧
      (∀ uri, uri ∈ run.1.corpus.uris ↔ uri ∈ uris order ∧ (s.readSchema? disk uri none).isSome) ∧
      (∀ uri ∈ run.1.corpus.uris, Near (s.readSchema? disk) entries bound uri) ∧
      ((∀ uri, (s.readSchema? disk uri none).isSome →
          (uri ∈ run.1.corpus.uris ↔ Near (s.readSchema? disk) entries bound uri)) ↔
        Unobstructed (s.readSchema? disk) entries bound order) := by
  intro run bound
  have hs := s.steady_readSchema? disk
  obtain ⟨order,h⟩ := s.takeSchemas_follows disk entries
  have hrecorded := mem_uris_takeSchemas h
  have hnear : ∀ uri ∈ run.1.corpus.uris, Near (s.readSchema? disk) entries bound uri :=
    fun uri huri => h.tour.near hs ((hrecorded uri).mp huri).1
  refine ⟨order,h.tour,hrecorded,hnear,?_⟩
  constructor
  · intro hall a _ _ n hn hchain b hb hread
    obtain ⟨d,hreada,hlocation,_⟩ := hs.read_of_mem_onward hb
    have hnext : Near (s.readSchema? disk) entries bound b.uri := ⟨n+1,hn,.next hchain hreada hlocation⟩
    exact ((hrecorded b.uri).mp ((hall b.uri hread).mpr hnext)).1
  · intro hopen uri hread
    exact ⟨hnear uri,fun hb => (hrecorded uri).mpr ⟨h.tour.visits_near hs hopen hb hread,hread⟩⟩

/-- A document refers to two others, the first of which refers to the second, and that to a third. -/
def detour : Session := serving { maxIncludeDepth := 2 } [
  ("file:///a","<schema><include schemaLocation='b'/><include schemaLocation='c'/></schema>"),
  ("file:///b","<schema><include schemaLocation='c'/></schema>"),
  ("file:///c","<schema><include schemaLocation='d'/></schema>"),("file:///d","<schema/>")]

/-- The way over both hides what the direct way to the second leads to. -/
theorem detour_hides_near : ¬ ∀ uri, (detour.readSchema? {} uri none).isSome →
    (uri ∈ (detour.fresh.takeSchemas {} ["file:///a"]).1.corpus.uris ↔
      Near (detour.readSchema? {}) ["file:///a"] 2 uri) := by
  intro hall
  have ha : (detour.readSchema? {} "file:///a" none).map Schema.locations = some ["file:///b","file:///c"] := by
    decide +kernel
  have hc : (detour.readSchema? {} "file:///c" none).map Schema.locations = some ["file:///d"] := by
    decide +kernel
  obtain ⟨a,hreada,hfroma⟩ := Option.map_eq_some_iff.mp ha
  obtain ⟨c,hreadc,hfromc⟩ := Option.map_eq_some_iff.mp hc
  have hchain : Chain (detour.readSchema? {}) ["file:///a"] 2 "file:///d" :=
    .next (.next (.entry (by simp)) hreada (show _ ∈ a.locations by simp [hfroma])) hreadc
      (show _ ∈ c.locations by simp [hfromc])
  have hmissed : "file:///d" ∉ (detour.fresh.takeSchemas {} ["file:///a"]).1.corpus.uris := by decide +kernel
  exact hmissed ((hall "file:///d" (by decide +kernel)).mpr ⟨2,le_rfl,hchain⟩)

end Session
end SchemaBinding
