import SchemaBinding.Proofs.Resolution.Definitions

/-! What a session asks for. Whatever the limit, a document is asked for as the entry point or because one that was asked
for before and was read leads to it: definitions lead to what they import and to what their schemas refer to.
Main statement: what holds of the entry point, and with a document that is read of all it leads to, holds of all that is
read. -/
namespace SchemaBinding
namespace Resolution

/-- What a document leads to, if it can be read. -/
def leads {α : Type} [Linked α] (read : Reader α) (uri : String) : List String :=
  ((read uri none).map Linked.locations).getD []

/-- Documents are asked for after others. What holds of the entries, and with one of these documents of all it leads to,
holds of all of them. -/
def Asks (follow : String → List String) (entries before after : List String) : Prop :=
  ∃ new, after = before ++ new ∧ ∀ P : String → Prop, (∀ uri ∈ entries, P uri) →
    (∀ uri ∈ new, P uri → ∀ location ∈ follow uri, P location) → ∀ uri ∈ new, P uri

section
variable {follow : String → List String} {entries entries' us vs ws : List String}

theorem Asks.refl (follow : String → List String) (entries us : List String) : Asks follow entries us us :=
  ⟨[],by simp,by simp⟩

theorem Asks.mono (h : Asks follow entries us vs) (hsub : entries ⊆ entries') : Asks follow entries' us vs := by
  obtain ⟨new,hnew,hleast⟩ := h
  exact ⟨new,hnew,fun P hentries => hleast P fun uri huri => hentries uri (hsub huri)⟩

theorem Asks.trans (h : Asks follow entries us vs) (h' : Asks follow entries' vs ws) :
    Asks follow (entries ++ entries') us ws := by
  obtain ⟨new,rfl,hleast⟩ := h
  obtain ⟨new',rfl,hleast'⟩ := h'
  refine ⟨new ++ new',by simp,fun P hentries hstep => ?_⟩
  obtain ⟨hfirst,hrest⟩ := List.forall_mem_append.mp hentries
  obtain ⟨hstep,hstep'⟩ := List.forall_mem_append.mp hstep
  exact List.forall_mem_append.mpr ⟨hleast P hfirst hstep,hleast' P hrest hstep'⟩

theorem Asks.around {uri : String} (h : Asks follow (follow uri) (us ++ [uri]) vs) : Asks follow [uri] us vs := by
  obtain ⟨new,rfl,hleast⟩ := h
  refine ⟨uri :: new,by simp,fun P hentries hstep => ?_⟩
  obtain ⟨hown,hstep⟩ := List.forall_mem_cons.mp hstep
  have hfirst := hentries uri (by simp)
  exact List.forall_mem_cons.mpr ⟨hfirst,hleast P (hown hfirst) hstep⟩

theorem Asks.of_nil (h : Asks follow entries [] us) {P : String → Prop} (hentries : ∀ uri ∈ entries, P uri)
    (hstep : ∀ uri ∈ us, P uri → ∀ location ∈ follow uri, P location) : ∀ uri ∈ us, P uri := by
  obtain ⟨new,hnew,hleast⟩ := h
  rw [List.nil_append] at hnew
  subst hnew
  exact hleast P hentries hstep

end

theorem Steady.leads_eq {α : Type} [Linked α] {read : Reader α} (hs : Steady read) (uri : String) (space : Option String) :
    leads read uri = ((read uri space).map Linked.locations).getD [] := by
  rw [leads,hs uri space]

theorem Tour.asks {α : Type} [Linked α] {read : Reader α} {limit : ℕ∞} {seen : List String} {ahead order : List Arrival}
    (hs : Steady read) (h : Tour read limit seen ahead order) :
    Asks (leads read) (uris ahead) seen (seen ++ uris order) := by
  induction h with
  | done => simpa using Asks.refl (leads read) (uris []) _
  | again _ _ ih | deep _ _ _ ih => exact ih.mono (List.subset_cons_self _ _)
  | @first seen a ahead below order _ _ _ _ ihbelow ihrest =>
    have honward : uris (onward read a) = leads read a.uri := by
      rw [hs.leads_eq a.uri a.space,onward]
      cases read a.uri a.space <;> simp [uris,Function.comp_def]
    rw [honward] at ihbelow
    have hall := ihbelow.around.trans (by simpa using ihrest)
    simpa using hall

/-! ## Schemas -/

section
variable {read : Reader Schema}

theorem inTurn_asks {α : Type} {follow : String → List String} {step : Progress → α → Progress × Except Failure Unit}
    (request : α → List String) (hstep : ∀ p a, Asks follow (request a) p.requested (step p a).1.requested) (as : List α)
    (p : Progress) : Asks follow (as.flatMap request) p.requested (inTurn step p as).1.requested := by
  induction as generalizing p with
  | nil => exact .refl _ _ _
  | cons a as ih =>
    have hfirst := hstep p a
    rw [inTurn,List.flatMap_cons]
    rcases hone : step p a with ⟨q,failure | _⟩
    · rw [hone] at hfirst
      exact hfirst.mono (List.subset_append_left _ _)
    · rw [hone] at hfirst
      exact hfirst.trans (ih q)

theorem convertBy_asks {follow : String → List String}
    {visit : Option String → Progress → String → Progress × Except Failure Unit}
    (hvisit : ∀ space p uri, Asks follow [uri] p.requested (visit space p uri).1.requested) (p : Progress) (s : Schema) :
    Asks follow s.locations p.requested (convertBy visit p s).1.requested := by
  have hbelow := inTurn_asks (fun uri => [uri]) (hvisit s.targetNamespace) s.locations p
  rw [List.flatMap_singleton'] at hbelow
  rw [convertBy]
  rcases hone : inTurn (visit s.targetNamespace) p s.locations with ⟨q,failure | _⟩
  · rwa [hone] at hbelow
  · rw [hone] at hbelow
    cases s.location <;> exact hbelow

theorem visit_asks (hs : Steady read) (levels : ℕ) (space : Option String) (p : Progress) (uri : String) :
    Asks (leads read) [uri] p.requested (visit read levels space p uri).1.requested := by
  induction levels generalizing space p uri with
  | zero => exact .refl _ _ _
  | succ levels ih =>
    rw [visit]
    split
    · exact .refl _ _ _
    · refine .around ?_
      rw [hs.leads_eq uri space]
      cases read uri space with
      | none => exact .refl _ _ _
      | some s => exact convertBy_asks ih (p.request uri) s

end
end Resolution

/-! ## Documents that are read -/

namespace Session
open Resolution

variable (disk : Disk) (s : Session)

/-- The documents that were read, as definitions or as schemas. -/
def documentsRead : List String :=
  readable (s.readDefinitions? disk) s.merged ++ readable (s.readSchema? disk) s.progress.requested

/-- What a document leads to as it is read: definitions to what their schemas refer to and to what they import. -/
def follows (uri : String) : List String :=
  match s.readDefinitions? disk uri none with
  | some d => d.schemas.flatMap Schema.locations ++ d.locations
  | none => leads (s.readSchema? disk) uri

/-- Definitions are asked for along a tour, and then what their schemas refer to. -/
theorem resolveDefinitions_asks (root : String) :
    let run := (s.fresh.resolveDefinitions disk root).1
    ∃ order, Tour (s.readDefinitions? disk) s.settings.limits.maxIncludeDepth [] [⟨root,none,0⟩] order ∧
      run.merged = uris order ∧ run.readSchema? disk = s.readSchema? disk ∧
      run.readDefinitions? disk = s.readDefinitions? disk ∧
      Asks (leads (s.readSchema? disk))
        ((parts (s.readDefinitions? disk) order).flatMap fun d => d.schemas.flatMap Schema.locations) []
        run.progress.requested := by
  intro run
  obtain ⟨order,htour,hfound⟩ : Collects (s.readDefinitions? disk) s.settings.limits.maxIncludeDepth [] ⟨root,none,0⟩ _ :=
    gather_collects s.settings.limits.maxIncludeDepth _ 0 rfl none [] root
  have hgather : s.fresh.unmerged.gatherDefinitions disk root none 0 =
      ({ s.fresh with merged := uris order },Definitions.mergeAll (parts (s.readDefinitions? disk) order)) :=
    congrArg (fun found : List String × Option Definitions =>
      (({ s.fresh with merged := found.1 },found.2) : Session × Option Definitions)) hfound
  refine ⟨order,htour,?_⟩
  cases hparts : parts (s.readDefinitions? disk) order with
  | nil =>
    have hrun : run = { s.fresh with merged := uris order } := by
      change (s.fresh.resolveDefinitions disk root).1 = _
      rw [resolveDefinitions,hgather,hparts]
      rfl
    rw [hrun]
    exact ⟨rfl,rfl,rfl,.refl _ _ _⟩
  | cons own others =>
    let d := others.foldl Definitions.merge own
    have hrun : run = (({ s.fresh with merged := uris order } : Session).convertSchemas disk d.schemas 1).1 := by
      change (s.fresh.resolveDefinitions disk root).1 = _
      rw [resolveDefinitions,hgather,hparts]
      rfl
    have hinline : (own :: others).flatMap (fun d => d.schemas.flatMap Schema.locations) =
        d.schemas.flatMap Schema.locations := by
      rw [(own.assembled_foldl_merge others).schemas,List.flatMap_assoc]
    rw [hrun,hinline]
    refine ⟨rfl,rfl,rfl,?_⟩
    exact inTurn_asks Schema.locations
      (convertBy_asks (visit_asks (s.steady_readSchema? disk) (s.settings.limits.levelsLeft 2))) d.schemas {}

variable {disk s}

theorem name_of_readSchema? {uri : String} {space : Option String} (h : (s.readSchema? disk uri space).isSome) :
    ∃ bytes e, s.supply.fetch disk uri = .ok bytes ∧ Xml.Element.parse bytes = .ok (some e) ∧ e.name = "schema" := by
  unfold readSchema? at h
  cases hfetch : s.supply.fetch disk uri with
  | error failure => simp [hfetch,Except.bind,Except.toOption] at h
  | ok bytes =>
    cases hparse : Xml.Element.parse bytes with
    | error fault => simp [hfetch,Except.bind,Except.toOption,Schema.read,hparse,bind] at h
    | ok root =>
      cases root with
      | none => simp [hfetch,Except.bind,Except.toOption,Schema.read,hparse,bind,Reading.fail] at h
      | some e =>
        refine ⟨bytes,e,rfl,hparse,?_⟩
        by_contra hname
        simp [hfetch,Except.bind,Except.toOption,Schema.read,hparse,bind,Reading.fail,Schema.ofElement,hname] at h

/-- No document is a schema and definitions. -/
theorem readDefinitions?_eq_none {uri : String} {space : Option String} (h : (s.readSchema? disk uri space).isSome)
    (other : Option String) : s.readDefinitions? disk uri other = none := by
  obtain ⟨bytes,e,hfetch,hparse,hname⟩ := name_of_readSchema? h
  simp [readDefinitions?,hfetch,Except.bind,Except.toOption,Definitions.read,hparse,bind,Reading.fail,
    Definitions.ofElement,hname]

theorem follows_of_readDefinitions? {uri : String} {d : Definitions} (h : s.readDefinitions? disk uri none = some d) :
    s.follows disk uri = d.schemas.flatMap Schema.locations ++ d.locations := by
  simp only [follows,h]

theorem follows_of_readSchema? {uri : String} (h : (s.readSchema? disk uri none).isSome) :
    s.follows disk uri = leads (s.readSchema? disk) uri := by
  simp only [follows,readDefinitions?_eq_none h]

section
variable {P : String → Prop}

/-- What schemas are asked for, after what led to them. -/
theorem least_of_asks {t : Session} {entries : List String}
    (h : Asks (leads (s.readSchema? disk)) entries [] t.progress.requested)
    (hread : t.readSchema? disk = s.readSchema? disk) (hentries : ∀ uri ∈ entries, P uri)
    (hstep : ∀ uri ∈ t.documentsRead disk, P uri → ∀ location ∈ s.follows disk uri, P location) :
    ∀ uri ∈ t.progress.requested, P uri := by
  refine h.of_nil hentries fun uri huri hP location hlocation => ?_
  cases hsome : s.readSchema? disk uri none with
  | none => simp [leads,hsome] at hlocation
  | some schema =>
    have hisSome : (s.readSchema? disk uri none).isSome := by simp [hsome]
    refine hstep uri (List.mem_append_right _ (List.mem_filter.mpr ⟨huri,?_⟩)) hP location ?_
    · rwa [hread]
    · rwa [follows_of_readSchema? hisSome]

theorem takeSchema_least (root : String) :
    let run := (s.fresh.unmerged.takeSchema disk root none 0).1
    P root → (∀ uri ∈ run.documentsRead disk, P uri → ∀ location ∈ s.follows disk uri, P location) →
      ∀ uri ∈ run.documentsRead disk, P uri := by
  intro run hroot hstep uri huri
  have hasks : Asks (leads (s.readSchema? disk)) [root] [] run.progress.requested :=
    visit_asks (s.steady_readSchema? disk) (s.settings.limits.levelsLeft 0) none {} root
  have hrequested := least_of_asks hasks rfl (by simpa using hroot) hstep
  rcases List.mem_append.mp huri with huri | huri
  · cases huri
  · exact hrequested uri (List.mem_filter.mp huri).1

theorem resolveDefinitions_least (root : String) :
    let run := (s.fresh.resolveDefinitions disk root).1
    P root → (∀ uri ∈ run.documentsRead disk, P uri → ∀ location ∈ s.follows disk uri, P location) →
      ∀ uri ∈ run.documentsRead disk, P uri := by
  intro run hroot hstep uri huri
  obtain ⟨order,htour,hmerged,hschema,hdefinitions,hasks⟩ := s.resolveDefinitions_asks disk root
  have hfollowed : ∀ a ∈ order, P a.uri → ∀ d, s.readDefinitions? disk a.uri none = some d →
      ∀ location ∈ d.schemas.flatMap Schema.locations ++ d.locations, P location := by
    intro a ha hP d hread
    have hthere : a.uri ∈ run.documentsRead disk := by
      refine List.mem_append_left _ (List.mem_filter.mpr ⟨hmerged ▸ mem_uris.mpr ⟨a,ha,rfl⟩,?_⟩)
      rw [hdefinitions,hread]
      rfl
    rw [← follows_of_readDefinitions? hread]
    exact hstep a.uri hthere hP
  have hvisited : ∀ uri ∈ uris order, P uri := by
    have hvisits := htour.asks (s.steady_readDefinitions? disk)
    rw [List.nil_append] at hvisits
    refine hvisits.of_nil (by simpa using hroot) fun uri huri hP location hlocation => ?_
    obtain ⟨a,ha,rfl⟩ := mem_uris.mp huri
    cases hread : s.readDefinitions? disk a.uri none with
    | none => simp [leads,hread] at hlocation
    | some d =>
      rw [leads,hread] at hlocation
      exact hfollowed a ha hP d hread location (List.mem_append_right _ hlocation)
  have hinline : ∀ location ∈ (parts (s.readDefinitions? disk) order).flatMap fun d => d.schemas.flatMap Schema.locations,
      P location := by
    intro location hlocation
    obtain ⟨d,hd,hlocation⟩ := List.mem_flatMap.mp hlocation
    obtain ⟨a,ha,hread⟩ := List.mem_filterMap.mp hd
    rw [s.readDefinitions?_adopt disk a.uri a.space] at hread
    obtain ⟨own,hown,rfl⟩ := Option.map_eq_some_iff.mp hread
    exact hfollowed a ha (hvisited a.uri (mem_uris.mpr ⟨a,ha,rfl⟩)) own hown location (List.mem_append_left _ hlocation)
  rcases List.mem_append.mp huri with huri | huri
  · exact hvisited uri (hmerged ▸ (List.mem_filter.mp huri).1)
  · exact least_of_asks hasks hschema hinline hstep uri (List.mem_filter.mp huri).1

end
end Session
end SchemaBinding
