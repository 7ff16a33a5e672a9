import SchemaBinding.Proofs.Resolution.Tour

/-! What chains of references lead to, and how far a tour gets. The namespace handed on to a document decides
neither whether the document can be read nor where it leads, so chains are chains of documents alone. -/
namespace SchemaBinding
namespace Resolution

/-- Those of some documents that can be read. -/
def readable {α : Type} (read : Reader α) (uris : List String) : List String :=
  uris.filter fun uri => (read uri none).isSome

theorem readable_append {α : Type} (read : Reader α) (us vs : List String) :
    readable read (us ++ vs) = readable read us ++ readable read vs := by simp [readable]

section Reach
variable {α : Type} [Linked α]

/-- Reading where the namespace handed on does not decide what can be read and where it leads. -/
def Steady (read : Reader α) : Prop :=
  ∀ uri space, (read uri space).map Linked.locations = (read uri none).map Linked.locations

/-- A document that a chain of `n` references leads to from an entry point, through documents that can be
read. -/
inductive Chain (read : Reader α) (entries : List String) : Nat → String → Prop
  | entry {uri : String} : uri ∈ entries → Chain read entries 0 uri
  | next {n : Nat} {uri location : String} {d : α} : Chain read entries n uri → read uri none = some d →
      location ∈ Linked.locations d → Chain read entries (n+1) location

/-- The least set of documents that holds the entry points and, with a document that can be read, all it
refers to. -/
inductive Reach (read : Reader α) (entries : List String) : String → Prop
  | entry {uri : String} : uri ∈ entries → Reach read entries uri
  | next {uri location : String} {d : α} : Reach read entries uri → read uri none = some d →
      location ∈ Linked.locations d → Reach read entries location

variable {read : Reader α} {entries : List String} {space : Option String} {limit : ℕ∞} {order : List Arrival}

theorem Chain.reach {n : Nat} {uri : String} (h : Chain read entries n uri) : Reach read entries uri := by
  induction h with
  | entry huri => exact .entry huri
  | next _ hread hlocation ih => exact .next ih hread hlocation

theorem Steady.exists_read {uri : String} {d : α} (hs : Steady read) (hread : read uri space = some d) :
    ∃ e, read uri none = some e ∧ Linked.locations e = Linked.locations d := by
  have h := hs uri space
  rw [hread] at h
  simpa using h.symm

theorem Steady.isSome {uri : String} (hs : Steady read) (space : Option String) :
    (read uri space).isSome = (read uri none).isSome := by
  simpa using congrArg Option.isSome (hs uri space)

/-- Where a readable document leads, a request for it leads too. -/
theorem Steady.exists_onward {a : Arrival} {location : String} {d : α} (hs : Steady read)
    (hread : read a.uri none = some d) (hlocation : location ∈ Linked.locations d) :
    ∃ b ∈ onward read a, b.uri = location ∧ b.depth = a.depth+1 := by
  have h := hs a.uri a.space
  rw [hread] at h
  obtain ⟨e,he,hlocations⟩ := Option.map_eq_some_iff.mp h
  refine ⟨⟨location,Linked.space e,a.depth+1⟩,mem_onward.mpr ⟨e,he,?_,rfl,rfl⟩,rfl,rfl⟩
  rwa [hlocations]

/-- A document leads to what can be read from any request for it. -/
theorem Steady.read_of_mem_onward {a b : Arrival} (hs : Steady read) (hb : b ∈ onward read a) :
    ∃ d, read a.uri none = some d ∧ b.uri ∈ Linked.locations d ∧ b.depth = a.depth+1 := by
  obtain ⟨d,hread,hlocation,_,hdepth⟩ := mem_onward.mp hb
  obtain ⟨e,he,hlocations⟩ := hs.exists_read hread
  exact ⟨e,he,hlocations ▸ hlocation,hdepth⟩

/-- A tour stays within reach. -/
theorem Tour.within {seen : List String} {ahead : List Arrival} (hs : Steady read)
    (h : Tour read limit seen ahead order) (hahead : ∀ a ∈ ahead, Reach read entries a.uri) :
    ∀ uri ∈ uris order, Reach read entries uri := by
  intro uri huri
  obtain ⟨a,ha,rfl⟩ := mem_uris.mp huri
  refine h.invariant (P:=fun a => Reach read entries a.uri) ?_ hahead a ha
  intro a ha b hb
  obtain ⟨d,hread,hlocation,_⟩ := hs.read_of_mem_onward hb
  exact .next ha hread hlocation

/-- The requests for entry points, all of them handed the same namespace. -/
def entering (space : Option String) (uris : List String) : List Arrival := uris.map fun uri => { uri, space }

theorem mem_entering {a : Arrival} :
    a ∈ entering space entries ↔ ∃ uri ∈ entries, ({ uri, space } : Arrival) = a := by
  simp [entering]

/-- A visit is led to by as many references as it is deep. -/
theorem Tour.chain (hs : Steady read) (h : Tour read limit [] (entering space entries) order) :
    ∀ a ∈ order, Chain read entries a.depth a.uri := by
  apply h.invariant (P:=fun a => Chain read entries a.depth a.uri)
  · intro a ha b hb
    obtain ⟨d,hread,hlocation,hdepth⟩ := hs.read_of_mem_onward hb
    rw [hdepth]
    exact .next ha hread hlocation
  · intro a ha
    obtain ⟨uri,huri,rfl⟩ := mem_entering.mp ha
    exact .entry huri

/-- A tour without a limit visits what can be reached and nothing else. -/
theorem Tour.mem_iff_reach (hs : Steady read) (h : Tour read ⊤ [] (entering space entries) order) (uri : String) :
    uri ∈ uris order ↔ Reach read entries uri := by
  constructor
  · intro huri
    obtain ⟨a,ha,rfl⟩ := mem_uris.mp huri
    exact (h.chain hs a ha).reach
  · intro hreach
    induction hreach with
    | entry huri => simpa using h.visits _ (mem_entering.mpr ⟨_,huri,rfl⟩) le_top
    | next _ hread hlocation ih =>
      obtain ⟨a,ha,rfl⟩ := mem_uris.mp ih
      obtain ⟨b,hb,rfl,_⟩ := hs.exists_onward hread hlocation
      simpa using h.closed a ha b hb le_top

/-- Documents that hold the entry points and all that they refer to themselves are all that can be reached. -/
theorem Reach.mem_of_closed {us : List String} {uri : String} (hentries : ∀ uri ∈ entries, uri ∈ us)
    (hclosed : ∀ uri ∈ us, ∀ location ∈ ((read uri none).map Linked.locations).getD [], location ∈ us)
    (h : Reach read entries uri) : uri ∈ us := by
  induction h with
  | entry huri => exact hentries _ huri
  | next _ hread hlocation ih => exact hclosed _ ih _ (by simpa [hread] using hlocation)

theorem encard_le_length {s : Set String} (us : List String) (h : ∀ uri ∈ s, uri ∈ us) :
    s.encard ≤ us.length := by
  have hsubset : s ⊆ (us.toFinset : Set String) := fun uri huri => by simpa using h uri huri
  refine (Set.encard_le_encard hsubset).trans ?_
  rw [Set.encard_coe_eq_coe_finsetCard]
  exact Nat.cast_le.mpr us.toFinset_card_le

/-! ## Limits that are never met -/

/-- What holds all through a tour from entry points: documents are seen once and within reach, and a request is
never deeper than the number of readable documents seen. -/
structure Shallow (read : Reader α) (entries seen : List String) (ahead : List Arrival) : Prop where
  nodup : seen.Nodup
  within : ∀ uri ∈ seen, Reach read entries uri
  requested : ∀ a ∈ ahead, Reach read entries a.uri ∧ a.depth ≤ (readable read seen).length

namespace Shallow
variable {seen : List String} {a : Arrival} {ahead : List Arrival}

theorem start (read : Reader α) (entries : List String) (space : Option String) :
    Shallow read entries [] (entering space entries) where
  nodup := .nil
  within := by simp
  requested := by
    intro a ha
    obtain ⟨uri,huri,rfl⟩ := mem_entering.mp ha
    exact ⟨.entry huri,Nat.zero_le _⟩

theorem skip (h : Shallow read entries seen (a :: ahead)) : Shallow read entries seen ahead :=
  ⟨h.nodup,h.within,fun b hb => h.requested b (by simp [hb])⟩

theorem enter (hs : Steady read) (h : Shallow read entries seen (a :: ahead)) (hnew : a.uri ∉ seen) :
    Shallow read entries (seen ++ [a.uri]) (onward read a) where
  nodup := List.nodup_append'.mpr ⟨h.nodup,List.nodup_singleton _,by simpa using hnew⟩
  within := by
    intro uri huri
    rcases List.mem_append.mp huri with huri | huri
    · exact h.within uri huri
    · rw [List.mem_singleton.mp huri]
      exact (h.requested a (by simp)).1
  requested := by
    intro b hb
    obtain ⟨d,hread,hlocation,hdepth⟩ := hs.read_of_mem_onward hb
    have ha := h.requested a (by simp)
    refine ⟨.next ha.1 hread hlocation,?_⟩
    have hone : readable read [a.uri] = [a.uri] := by simp [readable,hread]
    rw [readable_append,hone,List.length_append,List.length_singleton,hdepth]
    exact Nat.add_le_add_right ha.2 1

theorem leave (hs : Steady read) (h : Shallow read entries seen (a :: ahead)) (hnew : a.uri ∉ seen)
    {below : List Arrival} (hbelow : Tour read limit (seen ++ [a.uri]) (onward read a) below) :
    Shallow read entries (seen ++ a.uri :: uris below) ahead where
  nodup := by
    have hinner := (h.enter hs hnew).nodup
    have hapart := hbelow.not_mem_seen
    rw [show seen ++ a.uri :: uris below = seen ++ [a.uri] ++ uris below by simp]
    exact List.nodup_append'.mpr ⟨hinner,hbelow.nodup,fun uri hseen huri => hapart uri huri hseen⟩
  within := by
    have hinner := h.enter hs hnew
    intro uri huri
    rw [show seen ++ a.uri :: uris below = seen ++ [a.uri] ++ uris below by simp] at huri
    rcases List.mem_append.mp huri with huri | huri
    · exact hinner.within uri huri
    · exact hbelow.within hs (fun b hb => (hinner.requested b hb).1) uri huri
  requested := by
    intro b hb
    have hrequest := h.requested b (by simp [hb])
    refine ⟨hrequest.1,hrequest.2.trans ?_⟩
    rw [readable_append,List.length_append]
    exact Nat.le_add_right _ _

theorem length_readable_le (h : Shallow read entries seen ahead) :
    ((readable read seen).length : ℕ∞) ≤ {uri | Reach read entries uri ∧ (read uri none).isSome}.encard := by
  have hnodup : (readable read seen).Nodup := h.nodup.filter _
  rw [← List.toFinset_card_of_nodup hnodup,← Set.encard_coe_eq_coe_finsetCard]
  apply Set.encard_le_encard
  intro uri huri
  simp only [readable,List.coe_toFinset,List.mem_filter,Set.mem_ofPred_eq] at huri
  exact ⟨h.within uri huri.1,huri.2⟩

end Shallow

/-- A limit that is no smaller than the number of readable documents within reach changes nothing. -/
theorem Tour.unlimited (hs : Steady read)
    (hlimit : {uri | Reach read entries uri ∧ (read uri none).isSome}.encard ≤ limit) {seen : List String}
    {ahead : List Arrival} (h : Tour read limit seen ahead order) (hshallow : Shallow read entries seen ahead) :
    Tour read ⊤ seen ahead order := by
  induction h with
  | done => exact .done
  | again hseen _ ih => exact .again hseen (ih hshallow.skip)
  | @deep seen a ahead order hnew hdeep _ ih =>
    have hcount := hshallow.length_readable_le.trans hlimit
    have hdepth := (hshallow.requested a (by simp)).2
    exact absurd (hdeep.trans_le (Nat.cast_le.mpr hdepth)) (not_lt.mpr hcount)
  | first hnew _ hbelow _ ihbelow ihrest =>
    exact .first hnew le_top (ihbelow (hshallow.enter hs hnew)) (ihrest (hshallow.leave hs hnew hbelow))

/-- A limit that requests never meet: the tour that knows no limit goes no deeper. -/
def Suffices (read : Reader α) (limit : ℕ∞) (ahead : List Arrival) : Prop :=
  ∃ order, Tour read ⊤ [] ahead order ∧ ∀ a ∈ order, (a.depth : ℕ∞) ≤ limit

/-- A tour that stays within a limit is the tour within that limit. -/
theorem Tour.limited {seen : List String} {ahead : List Arrival} (h : Tour read ⊤ seen ahead order)
    (hdepth : ∀ a ∈ order, (a.depth : ℕ∞) ≤ limit) : Tour read limit seen ahead order := by
  induction h with
  | done => exact .done
  | again hseen _ ih => exact .again hseen (ih hdepth)
  | deep _ hdeep _ _ => exact absurd hdeep not_top_lt
  | first hnew _ _ _ ihbelow ihrest =>
    refine .first hnew (hdepth _ (by simp)) (ihbelow fun a ha => hdepth a ?_) (ihrest fun a ha => hdepth a ?_)
    · exact List.mem_cons_of_mem _ (List.mem_append_left _ ha)
    · exact List.mem_cons_of_mem _ (List.mem_append_right _ ha)

/-! ## Limits that are met -/

/-- What a chain of at most `bound` references leads to. -/
def Near (read : Reader α) (entries : List String) (bound : Nat) (uri : String) : Prop :=
  ∃ n ≤ bound, Chain read entries n uri

/-- A document that is first visited at the limit, though a shorter chain leads to it as well, leads to no readable
document that is not visited. -/
def Unobstructed (read : Reader α) (entries : List String) (bound : Nat) (order : List Arrival) : Prop :=
  ∀ a ∈ order, a.depth = bound → ∀ n < bound, Chain read entries n a.uri →
    ∀ b ∈ onward read a, (read b.uri none).isSome → b.uri ∈ uris order

variable {bound : Nat} {uri : String}

theorem Tour.near (hs : Steady read) (h : Tour read bound [] (entering space entries) order)
    (huri : uri ∈ uris order) : Near read entries bound uri := by
  obtain ⟨a,ha,rfl⟩ := mem_uris.mp huri
  exact ⟨a.depth,Nat.cast_le.mp (h.depth_le a ha),h.chain hs a ha⟩

/-- A tour that is unobstructed visits what is near: along a chain, a document visited short of the limit brings
in the next, and one visited at the limit does so because the chain to it is shorter and it obstructs nothing. -/
theorem Tour.visits_near (hs : Steady read) (h : Tour read bound [] (entering space entries) order)
    (hopen : Unobstructed read entries bound order) (hnear : Near read entries bound uri)
    (hread : (read uri none).isSome) : uri ∈ uris order := by
  obtain ⟨n,hn,hchain⟩ := hnear
  induction hchain with
  | entry huri => simpa using h.visits _ (mem_entering.mpr ⟨_,huri,rfl⟩) (by simp)
  | @next n uri location d hchain hreaduri hlocation ih =>
    obtain ⟨a,ha,rfl⟩ := mem_uris.mp (ih (by simp [hreaduri]) (by omega))
    obtain ⟨b,hb,rfl,hdepth⟩ := hs.exists_onward hreaduri hlocation
    have hle : a.depth ≤ bound := Nat.cast_le.mp (h.depth_le a ha)
    by_cases hlimit : a.depth = bound
    · exact hopen a ha hlimit n hn hchain b hb hread
    · have hshort : (b.depth : ℕ∞) ≤ bound := Nat.cast_le.mpr (by omega)
      simpa using h.closed a ha b hb hshort

end Reach
end Resolution
end SchemaBinding
