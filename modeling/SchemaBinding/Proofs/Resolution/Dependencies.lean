import SchemaBinding.Proofs.Resolution.Coverage

/-! The order in which documents are recorded. At any time the documents that have been asked for and are not recorded
yet lead to the one that is being visited; so a document that is met again is recorded already, or leads back to the
one that refers to it. Main statement: where no document leads back to itself, every document is recorded behind all
that it refers to. -/
namespace SchemaBinding
namespace Resolution

section Leads
variable {α : Type} [Linked α]

/-- A document that can be read refers to another. -/
def Refers (read : Reader α) (uri location : String) : Prop :=
  ∃ d, read uri none = some d ∧ location ∈ Linked.locations d

/-- A document leads to another by one reference or more. -/
def Leads (read : Reader α) : String → String → Prop := Relation.TransGen (Refers read)

/-- Where all references lead down a rank, so does every chain of them. -/
theorem Leads.rank_lt {read : Reader α} {us : List String} {rank : String → Nat}
    (hclosed : ∀ uri ∈ us, ∀ location ∈ ((read uri none).map Linked.locations).getD [],
      location ∈ us ∧ rank location < rank uri)
    {uri other : String} (h : Leads read uri other) (huri : uri ∈ us) : other ∈ us ∧ rank other < rank uri := by
  have hstep : ∀ u ∈ us, ∀ v, Refers read u v → v ∈ us ∧ rank v < rank u := by
    rintro u hu v ⟨d,hread,hrefers⟩
    exact hclosed u hu v (by simpa [hread] using hrefers)
  induction h with
  | single hrefers => exact hstep _ huri _ hrefers
  | tail _ hrefers ih =>
    obtain ⟨hmem,hlt⟩ := hstep _ ih.1 _ hrefers
    exact ⟨hmem,hlt.trans ih.2⟩

end Leads

variable {read : Reader Schema} {bound : Nat} {p q : Progress} {a : Arrival} {ahead order : List Arrival} {s : Schema}
  {uri : String}

namespace Progress

/-- A document that was asked for and can be read, and is not recorded yet. -/
def Open (read : Reader Schema) (p : Progress) (uri : String) : Prop :=
  uri ∈ p.requested ∧ (read uri none).isSome ∧ uri ∉ p.corpus.uris

/-- Recorded documents stand behind all readable documents they refer to that do not lead back to them. -/
def Ordered (read : Reader Schema) (p : Progress) : Prop :=
  ∀ before uri after, p.corpus.uris = before ++ uri :: after → ∀ location, Refers read uri location →
    (read location none).isSome → location ∈ before ∨ Leads read location uri

theorem uris_record (h : uri ∉ p.corpus.uris) : (p.record uri s).corpus.uris = p.corpus.uris ++ [uri] := by
  rw [record,Corpus.uris_record,if_neg h]

theorem open_request {other : String} : (p.request uri).Open read other ↔
    p.Open read other ∨ other = uri ∧ (read uri none).isSome ∧ uri ∉ p.corpus.uris := by
  simp only [Open,request,List.mem_append,List.mem_singleton]
  constructor
  · rintro ⟨hother | rfl,hread,hnew⟩
    · exact Or.inl ⟨hother,hread,hnew⟩
    · exact Or.inr ⟨rfl,hread,hnew⟩
  · rintro (⟨hother,hread,hnew⟩ | ⟨rfl,hread,hnew⟩)
    · exact ⟨Or.inl hother,hread,hnew⟩
    · exact ⟨Or.inr rfl,hread,hnew⟩

theorem open_record {other : String} (h : uri ∉ p.corpus.uris) :
    (p.record uri s).Open read other ↔ p.Open read other ∧ other ≠ uri := by
  simp only [Open,uris_record h,List.mem_append,List.mem_singleton,not_or]
  exact ⟨fun ⟨hrequested,hread,hnew,hne⟩ => ⟨⟨hrequested,hread,hnew⟩,hne⟩,
    fun ⟨⟨hrequested,hread,hnew⟩,hne⟩ => ⟨hrequested,hread,hnew,hne⟩⟩

/-- A document is recorded in order if all it refers to is recorded or leads back to it. -/
theorem Ordered.record (h : p.Ordered read) (hnew : uri ∉ p.corpus.uris)
    (hall : ∀ location, Refers read uri location → (read location none).isSome →
      location ∈ p.corpus.uris ∨ Leads read location uri) : (p.record uri s).Ordered read := by
  intro before u after hsplit location hrefers hread
  rw [uris_record hnew] at hsplit
  rcases List.eq_nil_or_concat after with rfl | ⟨rest,last,rfl⟩
  · obtain ⟨hbefore,hu⟩ := List.append_inj' hsplit rfl
    obtain rfl : uri = u := by simpa using hu
    exact hbefore ▸ hall location hrefers hread
  · have hold : p.corpus.uris ++ [uri] = (before ++ u :: rest) ++ [last] := by simpa using hsplit
    exact h before u rest (List.append_inj' hold rfl).1 location hrefers hread

end Progress

/-! ## Walks -/

/-- Visits a document on request. -/
def arrive (read : Reader Schema) (bound : Nat) (p : Progress) (a : Arrival) : Progress × Except Failure Unit :=
  visit read (bound+1-a.depth) a.space p a.uri

theorem inTurn_map {σ α β : Type} (step : σ → β → σ × Except Failure Unit) (f : α → β) (s : σ) (as : List α) :
    inTurn step s (as.map f) = inTurn (fun s a => step s (f a)) s as := by
  induction as generalizing s with
  | nil => rfl
  | cons a as ih => simp only [List.map_cons,inTurn,ih]

theorem inTurn_cons_of_ok {σ α : Type} {step : σ → α → σ × Except Failure Unit} {s t : σ} {a : α}
    (h : step s a = (t,.ok ())) (as : List α) : inTurn step s (a :: as) = inTurn step t as := by
  simp only [inTurn,h]

theorem arrive_of_mem (h : a.uri ∈ p.requested) : arrive read bound p a = (p,.ok ()) := by
  unfold arrive
  cases bound+1-a.depth with
  | zero => rfl
  | succ levels => simp only [visit,h,if_true]

theorem arrive_of_not_mem (hnew : a.uri ∉ p.requested) (hdepth : a.depth ≤ bound) :
    arrive read bound p a = match read a.uri a.space with
      | none => (p.request a.uri,.ok ())
      | some s => convertBy (visit read (bound-a.depth)) (p.request a.uri) s := by
  rw [arrive,show bound+1-a.depth = (bound-a.depth)+1 by omega]
  exact if_neg hnew

/-- A document that can be read is recorded when all it gives rise to has been visited. -/
theorem arrive_of_read (hnew : a.uri ∉ p.requested) (hdepth : a.depth ≤ bound) (hread : read a.uri a.space = some s)
    (hlocation : s.location = some a.uri)
    (h : inTurn (arrive read bound) (p.request a.uri) (onward read a) = (q,.ok ())) :
    arrive read bound p a = (q.record a.uri s,.ok ()) := by
  rw [arrive_of_not_mem hnew hdepth,hread]
  refine convertBy_of_inTurn ?_ hlocation
  rw [onward_of_read hread,inTurn_map] at h
  simp only [arrive,Nat.add_sub_add_right] at h
  exact h

/-- A walk that ends well, has recorded all it was asked for but what was open before, in order, and has left nothing
else open. -/
structure Settles (read : Reader Schema) (p : Progress) (ahead order : List Arrival)
    (outcome : Progress × Except Failure Unit) : Prop where
  ok : outcome.2 = .ok ()
  requested : outcome.1.requested = p.requested ++ uris order
  orderly : outcome.1.Orderly
  ordered : outcome.1.Ordered read
  opened : ∀ uri, outcome.1.Open read uri ↔ p.Open read uri
  kept : ∀ uri ∈ p.corpus.uris, uri ∈ outcome.1.corpus.uris
  recorded : ∀ a ∈ ahead, (read a.uri none).isSome → a.uri ∈ outcome.1.corpus.uris ∨ p.Open read a.uri

namespace Settles
variable {outcome : Progress × Except Failure Unit}

theorem done (hp : p.Orderly) (ho : p.Ordered read) : Settles read p [] [] (p,.ok ()) :=
  ⟨rfl,by simp,hp,ho,fun _ => Iff.rfl,fun _ h => h,by simp⟩

/-- A document that was asked for before is recorded or open. -/
theorem again (hseen : a.uri ∈ p.requested) (h : Settles read p ahead order outcome) :
    Settles read p (a :: ahead) order outcome where
  ok := h.ok
  requested := h.requested
  orderly := h.orderly
  ordered := h.ordered
  opened := h.opened
  kept := h.kept
  recorded := by
    intro b hb hread
    rcases List.mem_cons.mp hb with rfl | hb
    · by_cases hrecorded : b.uri ∈ p.corpus.uris
      · exact Or.inl (h.kept _ hrecorded)
      · exact Or.inr ⟨hseen,hread,hrecorded⟩
    · exact h.recorded b hb hread

theorem append {behind after : List Arrival} (h : Settles read p ahead order (q,.ok ()))
    (hb : Settles read q behind after outcome) : Settles read p (ahead ++ behind) (order ++ after) outcome where
  ok := hb.ok
  requested := by rw [hb.requested,h.requested,uris_append,List.append_assoc]
  orderly := hb.orderly
  ordered := hb.ordered
  opened uri := (hb.opened uri).trans (h.opened uri)
  kept uri huri := hb.kept uri (h.kept uri huri)
  recorded := by
    intro a ha hread
    rcases List.mem_append.mp ha with ha | ha
    · exact (h.recorded a ha hread).imp_left (hb.kept _)
    · exact (hb.recorded a ha hread).imp_right (h.opened _).mp

/-- A document that cannot be read is never open. -/
theorem unread (hp : p.Orderly) (ho : p.Ordered read) (hread : read a.uri none = none) :
    Settles read p [a] [a] (p.request a.uri,.ok ()) where
  ok := rfl
  requested := rfl
  orderly := hp.request a.uri
  ordered := ho
  opened uri := by simp [Progress.open_request,hread]
  kept _ h := h
  recorded := by
    intro b hb hsome
    rw [List.mem_singleton.mp hb,hread] at hsome
    cases hsome

/-- A document that can be read is open while all it refers to is visited, and then recorded. -/
theorem record (hp : p.Orderly) (hnew : a.uri ∉ p.requested) (hsome : (read a.uri none).isSome)
    (hleads : ∀ uri, p.Open read uri → Leads read uri a.uri) {below : List Arrival}
    (hall : ∀ location, Refers read a.uri location → ∃ b ∈ onward read a, b.uri = location)
    (h : Settles read (p.request a.uri) (onward read a) below (q,.ok ())) :
    Settles read p [a] (a :: below) (q.record a.uri s,.ok ()) := by
  have hunrecorded : a.uri ∉ p.corpus.uris := fun h => hnew (hp _ h)
  have hopen : q.Open read a.uri := (h.opened _).mpr (Progress.open_request.mpr (Or.inr ⟨rfl,hsome,hunrecorded⟩))
  have huris : (q.record a.uri s).corpus.uris = q.corpus.uris ++ [a.uri] := Progress.uris_record hopen.2.2
  constructor
  · rfl
  · change q.requested = _
    rw [h.requested]
    simp [Progress.request]
  · intro uri huri
    rw [huris,List.mem_append] at huri
    rcases huri with huri | huri
    · exact h.orderly uri huri
    · exact List.mem_singleton.mp huri ▸ hopen.1
  · refine h.ordered.record hopen.2.2 fun location hrefers hread => ?_
    obtain ⟨b,hb,rfl⟩ := hall location hrefers
    refine (h.recorded b hb hread).imp_right fun hbopen => ?_
    rcases Progress.open_request.mp hbopen with hbopen | ⟨heq,_⟩
    · exact hleads _ hbopen
    · exact .single (heq ▸ hrefers)
  · intro uri
    have hother : p.Open read uri → uri ≠ a.uri := fun huri heq => hnew (heq ▸ huri.1)
    rw [Progress.open_record hopen.2.2,h.opened,Progress.open_request]
    constructor
    · rintro ⟨huri | huri,hne⟩
      · exact huri
      · exact absurd huri.1 hne
    · exact fun huri => ⟨Or.inl huri,hother huri⟩
  · intro uri huri
    rw [huris]
    exact List.mem_append_left _ (h.kept uri huri)
  · intro b hb _
    rw [List.mem_singleton.mp hb,huris]
    exact Or.inl (by simp)

end Settles

/-- A walk that goes along a tour settles. While a document is visited it is the last that is open, and it leads to all
that is asked for next, so the invariant that every open document leads to what lies ahead is kept. -/
theorem inTurn_settles (hs : Steady read) (hlocation : ∀ uri space s, read uri space = some s → s.location = some uri)
    {seen : List String} (h : Tour read ⊤ seen ahead order) (hdepth : ∀ a ∈ order, a.depth ≤ bound)
    (hseen : p.requested = seen) (hp : p.Orderly) (ho : p.Ordered read)
    (hleads : ∀ a ∈ ahead, ∀ uri, p.Open read uri → Leads read uri a.uri) :
    Settles read p ahead order (inTurn (arrive read bound) p ahead) := by
  induction h generalizing p with
  | done => exact .done hp ho
  | again hmem _ ih =>
    rw [inTurn_cons_of_ok (arrive_of_mem (hseen ▸ hmem))]
    exact (ih hdepth hseen hp ho fun b hb => hleads b (List.mem_cons_of_mem _ hb)).again (hseen ▸ hmem)
  | deep _ hdeep _ _ => exact absurd hdeep not_top_lt
  | @first seen a ahead below order hnew _ hbelow _ ihbelow ihrest =>
    subst hseen
    have ha : a.depth ≤ bound := hdepth a (by simp)
    have hrest : ∀ b ∈ ahead, ∀ uri, p.Open read uri → Leads read uri b.uri := fun b hb =>
      hleads b (List.mem_cons_of_mem _ hb)
    have hafter : ∀ b ∈ order, b.depth ≤ bound := fun b hb => hdepth b (List.mem_append_right _ hb)
    cases hread : read a.uri a.space with
    | none =>
      obtain rfl : below = [] := by
        rw [onward_of_unread hread] at hbelow
        exact hbelow.unique .done
      have hnone : read a.uri none = none := by
        rw [← Option.not_isSome_iff_eq_none,← hs.isSome a.space,hread]
        exact Bool.false_ne_true
      have hfirst : Settles read p [a] [a] (p.request a.uri,.ok ()) := .unread hp ho hnone
      have harrive : arrive read bound p a = (p.request a.uri,.ok ()) := by
        rw [arrive_of_not_mem hnew ha,hread]
      rw [inTurn_cons_of_ok harrive]
      refine hfirst.append (ihrest hafter hfirst.requested hfirst.orderly hfirst.ordered ?_)
      exact fun b hb uri huri => hrest b hb uri ((hfirst.opened uri).mp huri)
    | some s =>
      have hsome : (read a.uri none).isSome := by
        rw [← hs.isSome a.space,hread]
        rfl
      have hinner : Settles read (p.request a.uri) (onward read a) below
          (inTurn (arrive read bound) (p.request a.uri) (onward read a)) := by
        refine ihbelow (fun b hb => hdepth b ?_) rfl (hp.request a.uri) ho fun b hb uri huri => ?_
        · exact List.mem_append_left _ (List.mem_cons_of_mem _ hb)
        · obtain ⟨d,hd,hrefers,_⟩ := hs.read_of_mem_onward hb
          have hnext : Refers read a.uri b.uri := ⟨d,hd,hrefers⟩
          rcases Progress.open_request.mp huri with huri | ⟨rfl,_⟩
          · exact (hleads a (by simp) uri huri).tail hnext
          · exact .single hnext
      obtain ⟨q,hq⟩ : ∃ q, inTurn (arrive read bound) (p.request a.uri) (onward read a) = (q,.ok ()) :=
        ⟨_,Prod.ext rfl hinner.ok⟩
      have hall : ∀ location, Refers read a.uri location → ∃ b ∈ onward read a, b.uri = location := by
        rintro location ⟨d,hd,hrefers⟩
        obtain ⟨b,hb,huri,_⟩ := hs.exists_onward hd hrefers
        exact ⟨b,hb,huri⟩
      have hfirst : Settles read p [a] (a :: below) (q.record a.uri s,.ok ()) :=
        .record hp hnew hsome (hleads a (by simp)) hall (hq ▸ hinner)
      rw [inTurn_cons_of_ok (arrive_of_read hnew ha hread (hlocation _ _ _ hread) hq)]
      refine hfirst.append (ihrest hafter hfirst.requested hfirst.orderly hfirst.ordered ?_)
      exact fun b hb uri huri => hrest b hb uri ((hfirst.opened uri).mp huri)

end Resolution

/-- Documents that stand one before the other have their classes one before the other. -/
theorem Corpus.exists_allClasses_eq {c : Corpus} {u v : String} {us vs : List Class} {before between after : List String}
    (h : c.uris = before ++ v :: between ++ u :: after) (hv : c.get? v = some vs) (hu : c.get? u = some us) :
    ∃ before between after, c.allClasses = before ++ vs ++ between ++ us ++ after := by
  obtain ⟨first,last,hentries,hfirst,hlast⟩ := List.map_eq_append_iff.mp h
  obtain ⟨bs,es,rfl,_,hes⟩ := List.map_eq_append_iff.mp hfirst
  obtain ⟨⟨v,vs'⟩,ms,rfl,rfl,_⟩ := List.map_eq_cons_iff.mp hes
  obtain ⟨⟨u,us'⟩,as,rfl,rfl,_⟩ := List.map_eq_cons_iff.mp hlast
  have hv' : c.get? v = some vs' := OrderedMap.get?_eq_some_iff.mpr (by simp [hentries])
  have hu' : c.get? u = some us' := OrderedMap.get?_eq_some_iff.mpr (by simp [hentries])
  obtain rfl : vs = vs' := Option.some.inj (hv.symm.trans hv')
  obtain rfl : us = us' := Option.some.inj (hu.symm.trans hu')
  refine ⟨(bs.map Prod.snd).flatten,(ms.map Prod.snd).flatten,(as.map Prod.snd).flatten,?_⟩
  simp [Corpus.allClasses,OrderedMap.values,hentries]

namespace Session
open Resolution

variable (disk : Disk) (s : Session) (entries : List String)

/-- Taking up entry points settles if the limit is never met. -/
theorem takeSchemas_settles
    (hlimit : Suffices (s.readSchema? disk) s.settings.limits.maxIncludeDepth (entering none entries)) :
    ∃ order, Settles (s.readSchema? disk) {} (entering none entries) order
      ((s.fresh.takeSchemas disk entries).1.progress,(s.fresh.takeSchemas disk entries).2) := by
  obtain ⟨order,htour,hdepth⟩ := hlimit
  have hbound : ∀ a ∈ order, a.depth ≤ s.settings.limits.maxIncludeDepth := fun a ha => by
    exact_mod_cast hdepth a ha
  have hordered : ({} : Progress).Ordered (s.readSchema? disk) := by
    intro before uri after hsplit
    exact absurd hsplit.symm (List.append_ne_nil_of_right_ne_nil before (List.cons_ne_nil uri after))
  have h := inTurn_settles (p:={}) (s.steady_readSchema? disk) (fun _ _ _ => s.location_readSchema? disk) htour hbound
    rfl (fun uri huri => nomatch huri) hordered fun a ha uri huri => nomatch huri.1
  rw [entering,inTurn_map] at h
  exact ⟨order,h⟩

/-- What is recorded is within reach and can be read. -/
theorem reach_of_mem_uris {uri : String} (huri : uri ∈ (s.fresh.takeSchemas disk entries).1.corpus.uris) :
    Reach (s.readSchema? disk) entries uri ∧ (s.readSchema? disk uri none).isSome := by
  obtain ⟨order,h⟩ := s.takeSchemas_follows disk entries
  obtain ⟨hvisited,hread⟩ := (mem_uris_takeSchemas h uri).mp huri
  obtain ⟨a,ha,rfl⟩ := mem_uris.mp hvisited
  exact ⟨(h.tour.chain (s.steady_readSchema? disk) a ha).reach,hread⟩

/-- Where no document within reach leads back to itself, a recorded document stands behind all recorded documents it
refers to, and so do its classes. -/
theorem takeSchemas_dependencies_first
    (hlimit : Suffices (s.readSchema? disk) s.settings.limits.maxIncludeDepth (entering none entries))
    (hacyclic : ∀ uri, Reach (s.readSchema? disk) entries uri → ¬ Leads (s.readSchema? disk) uri uri) :
    let run := s.fresh.takeSchemas disk entries
    run.2 = .ok () ∧
      ∀ u ∈ run.1.corpus.uris, ∀ v ∈ run.1.corpus.uris, Refers (s.readSchema? disk) u v →
        (∃ before between after, run.1.corpus.uris = before ++ v :: between ++ u :: after) ∧
        ∀ vs us, run.1.corpus.get? v = some vs → run.1.corpus.get? u = some us →
          ∃ before between after, run.1.corpus.allClasses = before ++ vs ++ between ++ us ++ after := by
  intro run
  obtain ⟨order,h⟩ := s.takeSchemas_settles disk entries hlimit
  refine ⟨h.ok,fun u hu v hv hrefers => ?_⟩
  obtain ⟨hreach,_⟩ := s.reach_of_mem_uris disk entries hu
  obtain ⟨_,hread⟩ := s.reach_of_mem_uris disk entries hv
  obtain ⟨front,after,hu⟩ := List.append_of_mem hu
  have hv : v ∈ front :=
    (h.ordered front u after hu v hrefers hread).resolve_right fun hback => hacyclic u hreach (.head hrefers hback)
  obtain ⟨before,between,rfl⟩ := List.append_of_mem hv
  exact ⟨⟨before,between,after,hu⟩,fun vs us => Corpus.exists_allClasses_eq hu⟩

/-- A document that refers to two others, both of which refer to a fourth. -/
def diamond : Session := serving { maxIncludeDepth := 4 } [
  ("file:///a","<schema><include schemaLocation='b'/><import schemaLocation='c'/></schema>"),
  ("file:///b","<schema><include schemaLocation='d'/><complexType name='B'/></schema>"),
  ("file:///c","<schema><include schemaLocation='d'/></schema>"),
  ("file:///d","<schema><complexType name='D'/></schema>")]

/-- The fourth is recorded first, and the first, which leads to all others, last. -/
theorem takeSchemas_dependencies_first_diamond :
    Suffices (diamond.readSchema? {}) 4 (entering none ["file:///c","file:///a"]) ∧
    (∀ uri, Reach (diamond.readSchema? {}) ["file:///c","file:///a"] uri → ¬ Leads (diamond.readSchema? {}) uri uri) ∧
    let run := diamond.fresh.takeSchemas {} ["file:///c","file:///a"]
    run.1.corpus.uris = ["file:///d","file:///c","file:///b","file:///a"] ∧
    run.1.corpus.allClasses.map Class.name = ["D","B"] ∧
    run.2 = .ok () ∧
      ∀ u ∈ run.1.corpus.uris, ∀ v ∈ run.1.corpus.uris, Refers (diamond.readSchema? {}) u v →
        (∃ before between after, run.1.corpus.uris = before ++ v :: between ++ u :: after) ∧
        ∀ vs us, run.1.corpus.get? v = some vs → run.1.corpus.get? u = some us →
          ∃ before between after, run.1.corpus.allClasses = before ++ vs ++ between ++ us ++ after := by
  let us := ["file:///d","file:///b","file:///c","file:///a"]
  have hclosed : ∀ uri ∈ us, ∀ location ∈ ((diamond.readSchema? {} uri none).map Linked.locations).getD [],
      location ∈ us ∧ us.idxOf location < us.idxOf uri := by
    decide +kernel
  have hreach : ∀ uri, Reach (diamond.readSchema? {}) ["file:///c","file:///a"] uri → uri ∈ us := fun uri huri =>
    huri.mem_of_closed (by decide) fun uri huri location hlocation => (hclosed uri huri location hlocation).1
  have hlimit : Suffices (diamond.readSchema? {}) 4 (entering none ["file:///c","file:///a"]) :=
    diamond.suffices_of_encard_le {} _ (encard_le_length us hreach)
  have hacyclic : ∀ uri, Reach (diamond.readSchema? {}) ["file:///c","file:///a"] uri →
      ¬ Leads (diamond.readSchema? {}) uri uri := fun uri huri hleads =>
    absurd (hleads.rank_lt hclosed (hreach uri huri)).2 (lt_irrefl _)
  exact ⟨hlimit,hacyclic,by decide +kernel,by decide +kernel,
    takeSchemas_dependencies_first {} diamond _ hlimit hacyclic⟩

end Session
end SchemaBinding
