import Mathlib.Data.List.Perm.Subperm
import SchemaBinding.Proofs.Downloads.Copies

/-! The walk without a bound. Its rules say when a document is passed over, when it is kept, and that a kept one is written
after all it refers to; a derivation from them is a walk that comes to an end.
Main statements: a walk with levels for all documents there are that are not kept yet follows the rules to an end, and there
is no other end. -/
namespace SchemaBinding
namespace Download

theorem Progress.kept_write (p : Progress) (target : Path) (text : String) : (p.write target text).kept = p.kept := by
  unfold write
  split
  · rfl
  · split <;> rfl

theorem Progress.failure_of_write {p : Progress} {target : Path} {text : String}
    (h : (p.write target text).failure = none) : p.failure = none := by
  by_contra hfailed
  have hstopped : p.write target text = p := if_pos (Option.isSome_iff_ne_none.mpr hfailed)
  exact hfailed (hstopped ▸ h)

/-- A walk that was asked for documents, with what it keeps, to its end. -/
inductive Visits (supply : Supply) (catalog : Catalog) (root : Path) :
    Progress → List (String × Path) → List Copy → Progress → Prop where
  | done (p : Progress) : Visits supply catalog root p [] [] p
  | passed {p q : Progress} {uri : String} {target : Path} {rest : List (String × Path)} {copies : List Copy} :
      p.failure.isSome || p.kept.contains uri → Visits supply catalog root p rest copies q →
      Visits supply catalog root p ((uri,target) :: rest) copies q
  | absent {p q : Progress} {uri : String} {target : Path} {rest : List (String × Path)} {copies : List Copy}
      {failure : Failure} : ¬ (p.failure.isSome || p.kept.contains uri) → supply.fetch p.disk uri = .error failure →
      Visits supply catalog root p rest copies q → Visits supply catalog root p ((uri,target) :: rest) copies q
  | kept {p q r : Progress} {uri : String} {target : Path} {bytes : Bytes} {rest : List (String × Path)}
      {inner outer : List Copy} : ¬ (p.failure.isSome || p.kept.contains uri) → supply.fetch p.disk uri = .ok bytes →
      Visits supply catalog root { p with kept := p.kept.insert uri target }
        (p.copy catalog root uri target bytes).requests inner q →
      Visits supply catalog root (q.write target (p.copy catalog root uri target bytes).text) rest outer r →
      Visits supply catalog root p ((uri,target) :: rest) (p.copy catalog root uri target bytes :: inner ++ outer) r

section
variable {supply : Supply} {catalog : Catalog} {root : Path} {p q r : Progress}
  {requests requests' : List (String × Path)} {copies copies' : List Copy}

theorem Visits.append (h : Visits supply catalog root p requests copies q)
    (h' : Visits supply catalog root q requests' copies' r) :
    Visits supply catalog root p (requests ++ requests') (copies ++ copies') r := by
  induction h with
  | done p => exact h'
  | passed hskip _ ih => exact .passed hskip (ih h')
  | absent hskip hread _ ih => exact .absent hskip hread (ih h')
  | kept hskip hread hinner _ _ ih =>
    rw [List.append_assoc]
    exact .kept hskip hread hinner (ih h')

/-- The rules leave no choice. -/
theorem Visits.unique (h : Visits supply catalog root p requests copies q)
    (h' : Visits supply catalog root p requests copies' r) : copies' = copies ∧ r = q := by
  induction h generalizing copies' r with
  | done p =>
    cases h'
    exact ⟨rfl,rfl⟩
  | passed hskip _ ih =>
    cases h' with
    | passed _ hrest => exact ih hrest
    | absent hskip' => exact absurd hskip hskip'
    | kept hskip' => exact absurd hskip hskip'
  | absent hskip hread _ ih =>
    cases h' with
    | passed hskip' => exact absurd hskip' hskip
    | absent _ _ hrest => exact ih hrest
    | kept _ hread' => simp [hread] at hread'
  | kept hskip hread _ _ ihinner ihouter =>
    cases h' with
    | passed hskip' => exact absurd hskip' hskip
    | absent _ hread' => simp [hread] at hread'
    | kept _ hread' hinner' houter' =>
      obtain rfl : _ = _ := Except.ok.inj (hread.symm.trans hread')
      obtain ⟨rfl,rfl⟩ := ihinner hinner'
      obtain ⟨rfl,rfl⟩ := ihouter houter'
      exact ⟨rfl,rfl⟩

/-- What a walk keeps it was asked for, by the walk or by a document that is kept. -/
theorem Visits.walked (h : Visits supply catalog root p requests copies q) :
    ∃ written, Walked supply catalog root requests p q copies written := by
  have hpass (p : Progress) (request : String × Path) := Walked.refl supply catalog root [request] p
  induction h with
  | done p => exact ⟨[],.refl supply catalog root [] p⟩
  | passed _ _ ih | absent _ _ _ ih =>
    obtain ⟨written,hrest⟩ := ih
    exact ⟨written,(hpass _ _).trans hrest⟩
  | @kept p q r uri target bytes _ inner outer hskip hread _ _ ihinner ihouter =>
    obtain ⟨written,hinner⟩ := ihinner
    obtain ⟨written',houter⟩ := ihouter
    have haround :=
      Walked.around (c := p.copy catalog root uri target bytes) rfl rfl rfl hread (Progress.running hskip).2 hinner
    exact ⟨_,haround.trans houter⟩

end

/-! ## Enough levels -/

/-- Progress but for the URIs of what could not be fetched, which no rule looks at. -/
def Progress.core (p : Progress) : Progress := { p with missing := [] }

theorem Progress.core_write (p : Progress) (target : Path) (text : String) :
    (p.write target text).core = p.core.write target text := by
  unfold write core
  split
  · rfl
  · split <;> simp_all

section
variable {supply : Supply} {known : List String} {catalog : Catalog} {root : Path}

/-- How many of the documents with some URIs are kept. -/
def Progress.served (known : List String) (p : Progress) : ℕ := (p.kept.keys.filter fun uri => uri ∈ known).length

theorem Progress.served_le (known : List String) {p q : Progress} (h : ∃ more, q.kept.keys = p.kept.keys ++ more) :
    p.served known ≤ q.served known := by
  obtain ⟨more,hmore⟩ := h
  simp [served,hmore]

theorem Progress.served_insert {p : Progress} {uri : String} (hnew : uri ∉ p.kept.keys) (hknown : uri ∈ known)
    (target : Path) : ({ p with kept := p.kept.insert uri target } : Progress).served known = p.served known + 1 := by
  simp [served,OrderedMap.keys_insert,hnew,hknown]

theorem Progress.served_lt {p : Progress} {uri : String} (hnew : uri ∉ p.kept.keys) (hknown : uri ∈ known) :
    p.served known < known.length := by
  have hnodup : (uri :: p.kept.keys.filter fun uri => uri ∈ known).Nodup :=
    List.nodup_cons.mpr ⟨fun h => hnew (List.mem_filter.mp h).1,p.kept.keys_nodup.filter _⟩
  have hsubset : uri :: p.kept.keys.filter (fun uri => uri ∈ known) ⊆ known :=
    List.cons_subset.mpr ⟨hknown,fun other h => by simpa using (List.mem_filter.mp h).2⟩
  have hlength := (List.subperm_of_subset hnodup hsubset).length_le
  rw [List.length_cons] at hlength
  exact hlength

theorem Walked.keys {requests : List (String × Path)} {p q : Progress} {copies written : List Copy}
    (h : Walked supply catalog root requests p q copies written) : q.kept.keys = p.kept.keys ++ copies.map Copy.uri := by
  rw [OrderedMap.keys,h.kept,List.map_append,List.map_map]
  rfl

/-- Walks that follow the rules do so one after another, since what one keeps the next need not. -/
theorem visits_foldl (levels : ℕ) (hfetch : ∀ (p : Progress) (uri : String) (target : Path),
      known.length ≤ levels + p.served known → ∃ copies, Visits supply catalog root p.core [(uri,target)] copies
        (fetch supply catalog root levels p uri target).core) (requests : List (String × Path))
    (p : Progress) (hlevels : known.length ≤ levels + p.served known) :
    ∃ copies, Visits supply catalog root p.core requests copies
      (requests.foldl (fun p request => fetch supply catalog root levels p request.1 request.2) p).core := by
  induction requests generalizing p with
  | nil => exact ⟨[],.done _⟩
  | cons request requests ih =>
    obtain ⟨copies,hfirst⟩ := hfetch p request.1 request.2 hlevels
    obtain ⟨_,_,hwalked⟩ := fetch_walked supply catalog root levels p request.1 request.2
    have hmore := Progress.served_le known ⟨_,hwalked.keys⟩
    obtain ⟨copies',hrest⟩ := ih (fetch supply catalog root levels p request.1 request.2) (by omega)
    exact ⟨copies ++ copies',hfirst.append hrest⟩

/-- A document at each level, unless there is none left. -/
theorem visits_fetch (hserves : supply.Serves known) (catalog : Catalog) (root : Path) (levels : ℕ) (p : Progress)
    (uri : String) (target : Path) (hlevels : known.length ≤ levels + p.served known) :
    ∃ copies, Visits supply catalog root p.core [(uri,target)] copies
      (fetch supply catalog root levels p uri target).core := by
  induction levels generalizing p uri target with
  | zero =>
    by_cases hskip : p.failure.isSome || p.kept.contains uri
    · exact ⟨[],.passed hskip (.done _)⟩
    · cases hread : supply.fetch p.disk uri with
      | error _ => exact ⟨[],.absent hskip hread (.done _)⟩
      | ok bytes =>
        have hlt := Progress.served_lt (Progress.running hskip).2 (hserves _ _ _ hread)
        omega
  | succ levels ih =>
    by_cases hskip : p.failure.isSome || p.kept.contains uri
    · rw [fetch,if_pos hskip]
      exact ⟨[],.passed hskip (.done _)⟩
    · cases hread : supply.fetch p.disk uri with
      | error _ =>
        rw [fetch,if_neg hskip,hread]
        exact ⟨[],.absent hskip hread (.done _)⟩
      | ok bytes =>
        -- the level that is lost is made up for by the document that is kept
        have hstart := Progress.served_insert (Progress.running hskip).2 (hserves _ _ _ hread) target
        obtain ⟨inner,hinner⟩ := visits_foldl levels ih (p.copy catalog root uri target bytes).requests
          { p with kept := p.kept.insert uri target } (by omega)
        rw [fetch_of_read levels hskip hread,Progress.core_write]
        exact ⟨_,.kept hskip hread hinner (.done _)⟩

end

/-- A walk with levels for all documents of its supply follows the rules, to the one end they have. -/
theorem visits_walk (disk : Disk) (d : Download) {known : List String} (hserves : d.supply.Serves known)
    (hlevels : known.length ≤ d.supply.levels) (uris : List String) (package : String) :
    ∃ copies, Visits d.supply d.catalog (d.rootOf package) { disk, kept := d.kept } (entryRequests (d.rootOf package) uris)
      copies (d.walk disk uris package).core := by
  have hall := visits_foldl d.supply.levels
    (visits_fetch hserves d.catalog (d.rootOf package) d.supply.levels) (entryRequests (d.rootOf package) uris)
    { disk, kept := d.kept } (by omega)
  rw [entryRequests,List.foldl_map] at hall
  exact hall

theorem visits_walk_memory (disk : Disk) (d : Download) {documents : OrderedMap String Bytes}
    (h : d.supply = .memory documents) (uris : List String) (package : String) :
    ∃ copies, Visits d.supply d.catalog (d.rootOf package) { disk, kept := d.kept } (entryRequests (d.rootOf package) uris)
      copies (d.walk disk uris package).core := by
  have hserves : d.supply.Serves documents.keys := h ▸ Supply.serves_memory documents
  have hlevels : documents.keys.length ≤ d.supply.levels := by simp [h,Supply.memory,OrderedMap.keys,OrderedMap.size]
  exact d.visits_walk disk hserves hlevels uris package

end Download
end SchemaBinding
