/-! A map that remembers the order in which its keys were first written. Writing a key again keeps
its place, so the keys after `insert` are the old ones, or the old ones and the new key at the end. -/
namespace SchemaBinding

structure OrderedMap (κ α : Type) where
  entries : List (κ × α)
  nodup : (entries.map Prod.fst).Nodup

namespace OrderedMap

variable {κ α β : Type}

def empty : OrderedMap κ α := ⟨[],by simp⟩

instance : EmptyCollection (OrderedMap κ α) := ⟨empty⟩

instance : Inhabited (OrderedMap κ α) := ⟨empty⟩

@[ext] theorem ext {m n : OrderedMap κ α} (h : m.entries = n.entries) : m = n := by
  cases m; cases n; cases h; rfl

instance [DecidableEq κ] [DecidableEq α] : DecidableEq (OrderedMap κ α) := fun m n =>
  decidable_of_iff (m.entries = n.entries) ⟨ext,fun h => h ▸ rfl⟩

def keys (m : OrderedMap κ α) : List κ := m.entries.map Prod.fst

def values (m : OrderedMap κ α) : List α := m.entries.map Prod.snd

def size (m : OrderedMap κ α) : Nat := m.entries.length

def isEmpty (m : OrderedMap κ α) : Bool := m.entries.isEmpty

theorem keys_nodup (m : OrderedMap κ α) : m.keys.Nodup := m.nodup

theorem length_le_size {m : OrderedMap κ α} {ks : List κ} (hnodup : ks.Nodup) (hkeys : ks ⊆ m.keys) :
    ks.length ≤ m.size := by
  have hlength := hnodup.length_le_of_subset hkeys
  rwa [keys,List.length_map] at hlength

def map (f : κ → α → β) (m : OrderedMap κ α) : OrderedMap κ β where
  entries := m.entries.map fun e => (e.1,f e.1 e.2)
  nodup := by simpa [List.map_map,Function.comp_def] using m.nodup

@[simp] theorem keys_map (f : κ → α → β) (m : OrderedMap κ α) : (m.map f).keys = m.keys := by
  simp [keys,map,List.map_map,Function.comp_def]

theorem values_map (f : α → β) (m : OrderedMap κ α) : (m.map fun _ => f).values = m.values.map f := by
  simp [values,map,List.map_map,Function.comp_def]

variable [DecidableEq κ]

def get? (m : OrderedMap κ α) (k : κ) : Option α := m.entries.lookup k

def contains (m : OrderedMap κ α) (k : κ) : Bool := decide (k ∈ m.keys)

/-- Changes the value of one key, in place. -/
def adjust (m : OrderedMap κ α) (k : κ) (f : α → α) : OrderedMap κ α where
  entries := m.entries.map fun e => (e.1,if e.1 = k then f e.2 else e.2)
  nodup := by simpa [List.map_map,Function.comp_def] using m.nodup

/-- Adds a key at the end if it is new, and changes nothing otherwise. -/
def insertNew (m : OrderedMap κ α) (k : κ) (v : α) : OrderedMap κ α :=
  if h : k ∈ m.keys then m
  else ⟨m.entries ++ [(k,v)],by
    have := m.nodup
    simp only [keys,List.mem_map,Prod.exists,exists_and_right,exists_eq_right] at h
    simp only [List.map_append,List.map_cons,List.map_nil,List.nodup_append,List.mem_map,
      Prod.exists,exists_and_right,exists_eq_right,List.mem_cons,List.not_mem_nil,or_false]
    exact ⟨this,by simp,fun a ha b hb hab => h (hb ▸ hab ▸ ha)⟩⟩

def insert (m : OrderedMap κ α) (k : κ) (v : α) : OrderedMap κ α :=
  (m.insertNew k v).adjust k fun _ => v

def ofList (entries : List (κ × α)) : OrderedMap κ α :=
  entries.foldl (fun m e => m.insert e.1 e.2) empty

/-- The first of each key. -/
def firsts (key : α → κ) (xs : List α) : OrderedMap κ α :=
  xs.foldl (fun m x => m.insertNew (key x) x) empty

@[simp] theorem keys_adjust (m : OrderedMap κ α) (k : κ) (f : α → α) : (m.adjust k f).keys = m.keys := by
  simp [keys,adjust,List.map_map,Function.comp_def]

theorem keys_insertNew (m : OrderedMap κ α) (k : κ) (v : α) :
    (m.insertNew k v).keys = if k ∈ m.keys then m.keys else m.keys ++ [k] := by
  unfold insertNew
  split <;> simp_all [keys]

theorem keys_insert (m : OrderedMap κ α) (k : κ) (v : α) :
    (m.insert k v).keys = if k ∈ m.keys then m.keys else m.keys ++ [k] := by
  simp [insert,keys_insertNew]

@[simp] theorem mem_keys_insert {m : OrderedMap κ α} {k j : κ} {v : α} :
    j ∈ (m.insert k v).keys ↔ j = k ∨ j ∈ m.keys := by
  rw [keys_insert]
  split
  · constructor
    · exact Or.inr
    · rintro (rfl | h) <;> assumption
  · simp [or_comm]

theorem get?_eq_none_iff {m : OrderedMap κ α} {k : κ} : m.get? k = none ↔ k ∉ m.keys := by
  simp only [get?,keys,List.lookup_eq_none_iff,List.mem_map,bne_iff_ne]
  constructor
  · rintro h ⟨e,he,rfl⟩
    exact h e he rfl
  · exact fun h e he hk => h ⟨e,he,hk.symm⟩

theorem isSome_get? {m : OrderedMap κ α} {k : κ} : (m.get? k).isSome ↔ k ∈ m.keys := by
  rw [Option.isSome_iff_ne_none,Ne,get?_eq_none_iff,Decidable.not_not]

theorem get?_adjust (m : OrderedMap κ α) (k j : κ) (f : α → α) :
    (m.adjust k f).get? j = if j = k then (m.get? j).map f else m.get? j := by
  simp only [get?,adjust]
  induction m.entries with
  | nil => simp
  | cons e es ih =>
    obtain ⟨i,w⟩ := e
    by_cases hi : j = i
    · subst hi
      by_cases hk : j = k <;> simp [hk]
    · simpa [List.lookup_cons,beq_eq_false_iff_ne.mpr hi] using ih

theorem get?_map (f : κ → α → β) (m : OrderedMap κ α) (k : κ) : (m.map f).get? k = (m.get? k).map (f k) := by
  simp only [get?,map]
  induction m.entries with
  | nil => rfl
  | cons e es ih =>
    obtain ⟨i,v⟩ := e
    by_cases hk : k = i
    · subst hk
      simp
    · simpa [List.lookup_cons,beq_eq_false_iff_ne.mpr hk] using ih

theorem get?_insertNew (m : OrderedMap κ α) (k j : κ) (v : α) :
    (m.insertNew k v).get? j = (m.get? j).or (if j = k then some v else none) := by
  unfold insertNew
  split
  · by_cases hj : j = k
    · subst hj
      obtain ⟨w,hw⟩ := Option.isSome_iff_exists.mp (isSome_get?.mpr ‹j ∈ m.keys›)
      simp [hw]
    · simp [hj]
  · by_cases hj : j = k
    · simp [get?,List.lookup_append,hj]
    · simp [get?,List.lookup_append,List.lookup_cons,hj,beq_eq_false_iff_ne.mpr hj]

/-- A list that is longer at the end, or begins with what it gets. -/
theorem get?_adjust_insertNew (m : OrderedMap κ (List α)) (k j : κ) (more : List α) :
    ((m.insertNew k []).adjust k (· ++ more)).get? j =
      if j = k then some ((m.get? k).getD [] ++ more) else m.get? j := by
  simp only [get?_adjust,get?_insertNew]
  by_cases hj : j = k
  · subst hj
    cases m.get? j <;> simp
  · simp [hj]

theorem get?_insert (m : OrderedMap κ α) (k j : κ) (v : α) :
    (m.insert k v).get? j = if j = k then some v else m.get? j := by
  rw [insert,get?_adjust,get?_insertNew]
  by_cases hj : j = k
  · subst hj
    cases m.get? j <;> simp
  · simp [hj]

theorem insertNew_of_mem {m : OrderedMap κ α} {k : κ} (hk : k ∈ m.keys) (v : α) : m.insertNew k v = m :=
  dif_pos hk

theorem entries_insertNew_of_not_mem {m : OrderedMap κ α} {k : κ} (hk : k ∉ m.keys) (v : α) :
    (m.insertNew k v).entries = m.entries ++ [(k,v)] := by
  rw [insertNew,dif_neg hk]

theorem values_insertNew_of_not_mem {m : OrderedMap κ α} {k : κ} (hk : k ∉ m.keys) (v : α) :
    (m.insertNew k v).values = m.values ++ [v] := by
  rw [values,entries_insertNew_of_not_mem hk,List.map_append]
  rfl

theorem map_insertNew (f : κ → α → β) (m : OrderedMap κ α) (k : κ) (v : α) :
    (m.insertNew k v).map f = (m.map f).insertNew k (f k v) := by
  by_cases hk : k ∈ m.keys
  · rw [insertNew_of_mem hk,insertNew_of_mem (by simpa using hk)]
  · have hmap : k ∉ (m.map f).keys := by simpa using hk
    apply ext
    rw [entries_insertNew_of_not_mem hmap]
    simp [map,entries_insertNew_of_not_mem hk]

/-- A change in place is seen through a map that turns it into another. -/
theorem map_adjust {f : κ → α → β} {k : κ} {g : α → α} {h : β → β} (hgh : ∀ v, f k (g v) = h (f k v))
    (m : OrderedMap κ α) : (m.adjust k g).map f = (m.map f).adjust k h := by
  apply ext
  simp only [map,adjust,List.map_map]
  refine List.map_congr_left fun e _ => ?_
  by_cases hk : e.1 = k
  · subst hk
    simp [hgh]
  · simp [hk]

theorem get?_eq_some_iff {m : OrderedMap κ α} {k : κ} {v : α} : m.get? k = some v ↔ (k,v) ∈ m.entries := by
  obtain ⟨es,hnodup⟩ := m
  change es.lookup k = some v ↔ (k,v) ∈ es
  induction es with
  | nil => simp
  | cons e es ih =>
    obtain ⟨i,w⟩ := e
    rw [List.map_cons,List.nodup_cons] at hnodup
    by_cases hk : k = i
    · subst hk
      have hnew : (k,v) ∉ es := fun h => hnodup.1 (List.mem_map.mpr ⟨(k,v),h,rfl⟩)
      simp [hnew,eq_comm]
    · simp [List.lookup_cons,beq_eq_false_iff_ne.mpr hk,ih hnodup.2,hk]

theorem mem_values {m : OrderedMap κ α} {v : α} : v ∈ m.values ↔ ∃ k, m.get? k = some v := by
  simp only [values,List.mem_map,get?_eq_some_iff,Prod.exists,exists_eq_right]

theorem get?_firsts (key : α → κ) (xs : List α) (k : κ) :
    (firsts key xs).get? k = xs.find? fun x => key x = k := by
  have h (m : OrderedMap κ α) : (xs.foldl (fun m x => m.insertNew (key x) x) m).get? k =
      (m.get? k).or (xs.find? fun x => key x = k) := by
    induction xs generalizing m with
    | nil => simp
    | cons x xs ih =>
      rw [List.foldl_cons,ih,get?_insertNew,Option.or_assoc]
      by_cases hk : k = key x
      · simp [hk]
      · simp [hk,Ne.symm hk]
  have hempty : (empty : OrderedMap κ α).get? k = none := rfl
  rw [firsts,h,hempty,Option.none_or]

theorem key_of_mem_firsts {key : α → κ} {xs : List α} {e : κ × α} (he : e ∈ (firsts key xs).entries) :
    key e.2 = e.1 := by
  have hfound := get?_eq_some_iff.mpr he
  rw [get?_firsts] at hfound
  simpa using List.find?_some hfound

theorem map_values_firsts (key : α → κ) (xs : List α) : (firsts key xs).values.map key = (firsts key xs).keys := by
  rw [values,List.map_map,keys]
  exact List.map_congr_left fun e he => key_of_mem_firsts he

theorem mem_keys_firsts {key : α → κ} {xs : List α} {k : κ} : k ∈ (firsts key xs).keys ↔ ∃ x ∈ xs, key x = k := by
  simp [← isSome_get?,get?_firsts]

/-- The values are what is left of a list when each that has the key of an earlier one goes. -/
theorem values_firsts (key : α → κ) (xs : List α) :
    (firsts key xs).values = xs.eraseDupsBy fun x y => key x = key y := by
  have h (m : OrderedMap κ α) : (xs.foldl (fun m x => m.insertNew (key x) x) m).values =
      m.values ++ (xs.filter fun x => key x ∉ m.keys).eraseDupsBy fun x y => key x = key y := by
    induction xs generalizing m with
    | nil => simp
    | cons x xs ih =>
      rw [List.foldl_cons,ih]
      by_cases hx : key x ∈ m.keys
      · simp [insertNew_of_mem hx,hx]
      · have hlater : (xs.filter fun y => key y ∉ (m.insertNew (key x) x).keys) =
            (xs.filter fun y => key y ∉ m.keys).filter fun y => decide (key y = key x) = false := by
          rw [List.filter_filter]
          exact List.filter_congr fun y _ => by simp [keys_insertNew,hx,and_comm]
        rw [hlater,List.filter_cons_of_pos (by simpa using hx),List.eraseDupsBy_cons]
        rw [values_insertNew_of_not_mem hx,List.append_assoc]
        rfl
  have hnone : (xs.filter fun x => key x ∉ (empty : OrderedMap κ α).keys) = xs :=
    List.filter_eq_self.mpr fun x _ => by simp [keys,empty]
  rw [firsts,h,hnone]
  rfl

theorem values_firsts_sublist (key : α → κ) (xs : List α) : (firsts key xs).values.Sublist xs := by
  have h (m : OrderedMap κ α) : (xs.foldl (fun m x => m.insertNew (key x) x) m).values.Sublist (m.values ++ xs) := by
    induction xs generalizing m with
    | nil => simp
    | cons x xs ih =>
      rw [List.foldl_cons]
      by_cases hx : key x ∈ m.keys
      · rw [insertNew_of_mem hx]
        exact (ih m).trans ((List.sublist_cons_self x xs).append_left m.values)
      · have hrest := ih (m.insertNew (key x) x)
        rwa [values_insertNew_of_not_mem hx,List.append_assoc] at hrest
  exact h empty

/-- Steps that add a value under its key if that is new keep all values, where no key comes twice. -/
theorem values_foldl_of_nodup {step : OrderedMap κ α → α → OrderedMap κ α} {key : α → κ}
    (hstep : ∀ m x, key x ∉ m.keys → step m x = m.insertNew (key x) x) {xs : List α} (h : (xs.map key).Nodup) :
    (xs.foldl step empty).values = xs := by
  have hfold (m : OrderedMap κ α) (hm : (m.keys ++ xs.map key).Nodup) : (xs.foldl step m).values = m.values ++ xs := by
    clear h
    induction xs generalizing m with
    | nil => simp
    | cons x xs ih =>
      have hx : key x ∉ m.keys := fun hmem => (List.nodup_append.mp hm).2.2 _ hmem _ (by simp) rfl
      have hkeys : (m.insertNew (key x) x).keys = m.keys ++ [key x] := by rw [keys_insertNew,if_neg hx]
      rw [List.foldl_cons,hstep m x hx,ih _ (by simpa [hkeys] using hm),values_insertNew_of_not_mem hx,
        List.append_assoc]
      rfl
  exact hfold empty h

/-- Where no key comes twice, all is kept. -/
theorem values_firsts_of_nodup {key : α → κ} {xs : List α} (h : (xs.map key).Nodup) : (firsts key xs).values = xs :=
  values_foldl_of_nodup (fun _ _ _ => rfl) h

/-- A value is kept if it is the first of its key. -/
theorem mem_values_firsts {key : α → κ} {xs : List α} {x : α} :
    x ∈ (firsts key xs).values ↔ xs.find? (fun y => key y = key x) = some x := by
  rw [mem_values]
  constructor
  · rintro ⟨k,hk⟩
    rw [get?_firsts] at hk
    have hx : key x = k := by simpa using List.find?_some hk
    rwa [hx]
  · exact fun h => ⟨key x,by rwa [get?_firsts]⟩

theorem mem_of_mem_values_firsts {key : α → κ} {xs : List α} {x : α} (hx : x ∈ (firsts key xs).values) : x ∈ xs :=
  (values_firsts_sublist key xs).subset hx

/-- The first value that passes a test is kept, if the test only looks at keys. -/
theorem find?_values_firsts_of_key {key : α → κ} {test : α → Bool} (htest : ∀ x y, key x = key y → test x = test y)
    (xs : List α) : (firsts key xs).values.find? test = xs.find? test := by
  rw [values_firsts]
  induction hlength : xs.length using Nat.strongRecOn generalizing xs with
  | ind n ih =>
    cases xs with
    | nil => rfl
    | cons x xs =>
      rw [List.eraseDupsBy_cons,List.find?_cons,List.find?_cons]
      cases hx : test x with
      | true => rfl
      | false =>
        let later := xs.filter fun y => decide (key y = key x) = false
        have hshorter : later.length < n := by
          rw [← hlength]
          exact Nat.lt_succ_of_le (List.length_filter_le _ xs)
        have hrest : later.find? test = xs.find? test := by
          rw [List.find?_filter]
          congr 1
          funext y
          by_cases hy : key y = key x
          · simp [htest y x hy,hx]
          · simp [hy]
        exact (ih _ hshorter later rfl).trans hrest

/-- What is kept for a key is the first of that key. -/
theorem find?_values_firsts (key : α → κ) (xs : List α) (k : κ) :
    (firsts key xs).values.find? (fun x => key x = k) = xs.find? fun x => key x = k :=
  find?_values_firsts_of_key (fun _ _ h => by rw [h]) xs

theorem map_firsts (f : α → β) (key : α → κ) (xs : List α) :
    (firsts key xs).map (fun _ => f) = xs.foldl (fun m x => m.insertNew (key x) (f x)) empty :=
  (List.foldl_hom (fun m : OrderedMap κ α => m.map fun _ => f) fun m x =>
    (map_insertNew (fun _ => f) m (key x) x).symm).symm

end OrderedMap
end SchemaBinding
