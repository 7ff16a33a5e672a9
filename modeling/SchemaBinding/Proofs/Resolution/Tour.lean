import Mathlib.Data.Set.Card
import SchemaBinding.Resolution

/-! The order in which documents are asked for, said apart from any walk that keeps a record of them. A tour
lists first visits: a document, then what it leads to, then what stands behind it. Main statements: a tour
visits no document twice; without a limit it visits exactly what can be reached; and a limit that is no
smaller than the number of readable documents within reach is no limit at all. -/
namespace SchemaBinding
namespace Resolution

/-- Documents that lead to others and hand a namespace on to them. -/
class Linked (α : Type) where
  locations : α → List String
  space : α → Option String

instance : Linked Schema := ⟨Schema.locations,Schema.targetNamespace⟩

instance : Linked Definitions := ⟨Definitions.locations,Definitions.targetNamespace⟩

/-- A request for a document, with the namespace handed on to it and the number of references that led from
an entry point to it. -/
structure Arrival where
  uri : String
  space : Option String := none
  depth : Nat := 0

def uris (as : List Arrival) : List String := as.map Arrival.uri

@[simp] theorem uris_nil : uris [] = [] := rfl

@[simp] theorem uris_cons (a : Arrival) (as : List Arrival) : uris (a :: as) = a.uri :: uris as := rfl

@[simp] theorem uris_append (as bs : List Arrival) : uris (as ++ bs) = uris as ++ uris bs := by
  simp [uris]

theorem mem_uris {as : List Arrival} {uri : String} : uri ∈ uris as ↔ ∃ a ∈ as, a.uri = uri := by
  simp [uris]

section Tours
variable {α : Type} [Linked α]

/-- The requests that a document gives rise to; one that cannot be read gives rise to none. -/
def onward (read : Reader α) (a : Arrival) : List Arrival :=
  match read a.uri a.space with
  | none => []
  | some d => (Linked.locations d).map fun uri => { uri, space := Linked.space d, depth := a.depth + 1 }

/-- The first visits that requests lead to when the documents `seen` have been visited before. Requests for a
document seen before, and requests more than `limit` references deep, lead to none. -/
inductive Tour (read : Reader α) (limit : ℕ∞) : List String → List Arrival → List Arrival → Prop
  | done {seen : List String} : Tour read limit seen [] []
  | again {seen : List String} {a : Arrival} {ahead order : List Arrival} :
      a.uri ∈ seen → Tour read limit seen ahead order → Tour read limit seen (a :: ahead) order
  | deep {seen : List String} {a : Arrival} {ahead order : List Arrival} :
      a.uri ∉ seen → limit < a.depth → Tour read limit seen ahead order →
      Tour read limit seen (a :: ahead) order
  | first {seen : List String} {a : Arrival} {ahead below order : List Arrival} :
      a.uri ∉ seen → a.depth ≤ limit → Tour read limit (seen ++ [a.uri]) (onward read a) below →
      Tour read limit (seen ++ a.uri :: uris below) ahead order →
      Tour read limit seen (a :: ahead) (a :: below ++ order)

variable {read : Reader α} {limit : ℕ∞} {seen : List String} {ahead order : List Arrival}

theorem onward_of_unread {a : Arrival} (hread : read a.uri a.space = none) : onward read a = [] := by
  simp only [onward,hread]

theorem onward_of_read {a : Arrival} {d : α} (hread : read a.uri a.space = some d) :
    onward read a = (Linked.locations d).map fun uri => ⟨uri,Linked.space d,a.depth+1⟩ := by
  simp only [onward,hread]

theorem mem_onward {a b : Arrival} : b ∈ onward read a ↔
    ∃ d, read a.uri a.space = some d ∧ b.uri ∈ Linked.locations d ∧ b.space = Linked.space d ∧
      b.depth = a.depth + 1 := by
  cases hread : read a.uri a.space with
  | none => simp [onward_of_unread hread]
  | some d =>
    rw [onward_of_read hread]
    constructor
    · intro hb
      obtain ⟨uri,huri,rfl⟩ := List.mem_map.mp hb
      exact ⟨d,rfl,huri,rfl,rfl⟩
    · rintro ⟨e,he,huri,hspace,hdepth⟩
      obtain rfl := Option.some.inj he
      refine List.mem_map.mpr ⟨b.uri,huri,?_⟩
      cases b
      simp_all

namespace Tour

/-- The tour through a single request. -/
theorem single {a : Arrival} {below : List Arrival} (hnew : a.uri ∉ seen) (hdepth : a.depth ≤ limit)
    (h : Tour read limit (seen ++ [a.uri]) (onward read a) below) : Tour read limit seen [a] (a :: below) := by
  simpa using first hnew hdepth h done

theorem exists_below {a : Arrival} (h : Tour read ⊤ [] [a] order) :
    ∃ below, order = a :: below ∧ Tour read ⊤ [a.uri] (onward read a) below := by
  cases h with
  | again hseen _ => cases hseen
  | deep _ hdeep _ => exact absurd hdeep not_top_lt
  | first _ _ hbelow hrest =>
    cases hrest
    exact ⟨_,List.append_nil _,hbelow⟩

/-- A request that is too deep leads to no visit. -/
theorem beyond {a : Arrival} (hdeep : limit < a.depth) : Tour read limit seen [a] [] := by
  by_cases hseen : a.uri ∈ seen
  · exact again hseen done
  · exact deep hseen hdeep done

/-- A document that cannot be read is visited, and leads no further. -/
theorem unread {a : Arrival} (hnew : a.uri ∉ seen) (hdepth : a.depth ≤ limit)
    (hread : read a.uri a.space = none) : Tour read limit seen [a] [a] := by
  refine single hnew hdepth ?_
  rw [onward_of_unread hread]
  exact done

/-- A tour goes on with what stands behind it. -/
theorem append {behind after : List Arrival} (h : Tour read limit seen ahead order)
    (hb : Tour read limit (seen ++ uris order) behind after) :
    Tour read limit seen (ahead ++ behind) (order ++ after) := by
  induction h with
  | done => simpa using hb
  | again hseen _ ih => exact again hseen (ih hb)
  | deep hnew hdeep _ ih => exact deep hnew hdeep (ih hb)
  | first hnew hdepth hbelow _ _ ih =>
    have hrest := ih (by simpa using hb)
    simpa using first hnew hdepth hbelow hrest

/-- Requests lead to one tour only. -/
theorem unique (h : Tour read limit seen ahead order) {other : List Arrival}
    (hother : Tour read limit seen ahead other) : order = other := by
  induction h generalizing other with
  | done =>
    cases hother
    rfl
  | again hseen _ ih =>
    cases hother with
    | again _ hrest => exact ih hrest
    | deep hnew _ _ => exact absurd hseen hnew
    | first hnew _ _ _ => exact absurd hseen hnew
  | deep hnew hdeep _ ih =>
    cases hother with
    | again hseen _ => exact absurd hseen hnew
    | deep _ _ hrest => exact ih hrest
    | first _ hdepth _ _ => exact absurd hdepth (not_le.mpr hdeep)
  | first hnew hdepth _ _ ihbelow ihrest =>
    cases hother with
    | again hseen _ => exact absurd hseen hnew
    | deep _ hdeep _ => exact absurd hdepth (not_le.mpr hdeep)
    | first _ _ hbelow hrest =>
      obtain rfl := ihbelow hbelow
      rw [ihrest hrest]

theorem not_mem_seen (h : Tour read limit seen ahead order) : ∀ uri ∈ uris order, uri ∉ seen := by
  induction h with
  | done => simp
  | again _ _ ih => exact ih
  | deep _ _ _ ih => exact ih
  | first hnew _ _ _ ihbelow ihrest =>
    intro uri huri
    simp only [uris_append,uris_cons,List.cons_append,List.mem_cons,List.mem_append] at huri
    rcases huri with rfl | huri | huri
    · exact hnew
    · exact fun hs => ihbelow uri huri (by simp [hs])
    · exact fun hs => ihrest uri huri (by simp [hs])

/-- No document is visited twice. -/
theorem nodup (h : Tour read limit seen ahead order) : (uris order).Nodup := by
  induction h with
  | done => simp
  | again _ _ ih => exact ih
  | deep _ _ _ ih => exact ih
  | @first seen a ahead below order hnew _ hbelow hrest ihbelow ihrest =>
    have hb := hbelow.not_mem_seen
    have hr := hrest.not_mem_seen
    have hcons : (uris (a :: below)).Nodup := by
      rw [uris_cons,List.nodup_cons]
      exact ⟨fun ha => hb a.uri ha (by simp),ihbelow⟩
    rw [uris_append]
    refine List.nodup_append'.mpr ⟨hcons,ihrest,fun uri huri huri' => hr uri huri' ?_⟩
    exact List.mem_append_right _ huri

theorem depth_le (h : Tour read limit seen ahead order) : ∀ a ∈ order, (a.depth : ℕ∞) ≤ limit := by
  induction h with
  | done => simp
  | again _ _ ih => exact ih
  | deep _ _ _ ih => exact ih
  | first _ hdepth _ _ ihbelow ihrest =>
    intro b hb
    simp only [List.cons_append,List.mem_cons,List.mem_append] at hb
    rcases hb with rfl | hb | hb
    · exact hdepth
    · exact ihbelow b hb
    · exact ihrest b hb

/-- What holds of the requests, and with a document of all it leads to, holds of the visits. -/
theorem invariant {P : Arrival → Prop} (hstep : ∀ a, P a → ∀ b ∈ onward read a, P b)
    (h : Tour read limit seen ahead order) (hahead : ∀ a ∈ ahead, P a) : ∀ a ∈ order, P a := by
  induction h with
  | done => simp
  | again _ _ ih => exact ih fun a ha => hahead a (by simp [ha])
  | deep _ _ _ ih => exact ih fun a ha => hahead a (by simp [ha])
  | @first seen a ahead below order _ _ _ _ ihbelow ihrest =>
    have ha := hahead a (by simp)
    intro b hb
    simp only [List.cons_append,List.mem_cons,List.mem_append] at hb
    rcases hb with rfl | hb | hb
    · exact ha
    · exact ihbelow (hstep a ha) b hb
    · exact ihrest (fun a ha => hahead a (by simp [ha])) b hb

/-- A visit comes from a request made at the start, or from one that another visit gives rise to. -/
theorem origin (h : Tour read limit seen ahead order) :
    ∀ b ∈ order, b ∈ ahead ∨ ∃ a ∈ order, b ∈ onward read a := by
  induction h with
  | done => simp
  | again _ _ ih => exact fun b hb => (ih b hb).imp_left (List.mem_cons_of_mem _)
  | deep _ _ _ ih => exact fun b hb => (ih b hb).imp_left (List.mem_cons_of_mem _)
  | @first seen a ahead below order _ _ _ _ ihbelow ihrest =>
    intro b hb
    rcases List.mem_append.mp hb with hb | hb
    · rcases List.mem_cons.mp hb with rfl | hb
      · exact Or.inl (by simp)
      · rcases ihbelow b hb with hfrom | ⟨c,hc,hfrom⟩
        · exact Or.inr ⟨a,by simp,hfrom⟩
        · exact Or.inr ⟨c,by simp [hc],hfrom⟩
    · rcases ihrest b hb with hfrom | ⟨c,hc,hfrom⟩
      · exact Or.inl (List.mem_cons_of_mem _ hfrom)
      · exact Or.inr ⟨c,by simp [hc],hfrom⟩

/-- A request that is not too deep leads to a visit, if there has been none. -/
theorem visits (h : Tour read limit seen ahead order) :
    ∀ a ∈ ahead, (a.depth : ℕ∞) ≤ limit → a.uri ∈ seen ++ uris order := by
  induction h with
  | done => simp
  | again hseen _ ih =>
    intro b hb hdepth
    rcases List.mem_cons.mp hb with rfl | hb
    · simp [hseen]
    · exact ih b hb hdepth
  | deep _ hdeep _ ih =>
    intro b hb hdepth
    rcases List.mem_cons.mp hb with rfl | hb
    · exact absurd hdepth (not_le.mpr hdeep)
    · exact ih b hb hdepth
  | first _ _ _ _ _ ihrest =>
    intro b hb hdepth
    rcases List.mem_cons.mp hb with rfl | hb
    · simp
    · simpa using ihrest b hb hdepth

/-- With a document, all it leads to is visited that is not too deep. -/
theorem closed (h : Tour read limit seen ahead order) :
    ∀ a ∈ order, ∀ b ∈ onward read a, (b.depth : ℕ∞) ≤ limit → b.uri ∈ seen ++ uris order := by
  induction h with
  | done => simp
  | again _ _ ih => exact ih
  | deep _ _ _ ih => exact ih
  | @first seen a ahead below order _ _ hbelow _ ihbelow ihrest =>
    intro c hc b hb hdepth
    simp only [List.cons_append,List.mem_cons,List.mem_append] at hc
    have hmem : b.uri ∈ seen ++ [a.uri] ++ uris below ∨
        b.uri ∈ (seen ++ a.uri :: uris below) ++ uris order := by
      rcases hc with rfl | hc | hc
      · exact Or.inl (hbelow.visits b hb hdepth)
      · exact Or.inl (ihbelow c hc b hb hdepth)
      · exact Or.inr (ihrest c hc b hb hdepth)
    simp only [uris_append,uris_cons,List.cons_append,List.mem_append,List.mem_cons] at hmem ⊢
    tauto

end Tour
end Tours
end Resolution
end SchemaBinding
