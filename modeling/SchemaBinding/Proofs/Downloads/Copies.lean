import Mathlib.Data.List.Nodup
import SchemaBinding.Download
import SchemaBinding.Proofs.Downloads.Written

/-! What a walk keeps. Every document that is kept was asked for, by the walk or by a document that is kept, and it was
read before anything below it. It is written after all it refers to, and all are written unless writing fails.
Main statement: a walk, from any progress, keeps and writes copies in this way. Those it writes are noted as it goes. -/
namespace SchemaBinding

theorem OrderedMap.entries_insert_of_not_mem {κ α : Type} [DecidableEq κ] {m : OrderedMap κ α} {k : κ}
    (hk : k ∉ m.keys) (v : α) : (m.insert k v).entries = m.entries ++ [(k,v)] := by
  have hold : ∀ e ∈ m.entries, (e.1,if e.1 = k then v else e.2) = e := by
    intro e he
    have hne : e.1 ≠ k := fun h => hk (List.mem_map.mpr ⟨e,he,h⟩)
    simp [hne]
  simp only [insert,adjust,entries_insertNew_of_not_mem hk,List.map_append]
  rw [List.map_congr_left hold]
  simp

namespace Download

/-- A document that is kept: where it is, its file and the root above it, and what was read of it at the time. -/
structure Copy where
  uri : String
  target : Path
  root : Path
  resolver : Resolver
  bytes : Bytes

namespace Copy

def entry (c : Copy) : String × Path := (c.uri,c.target)

def links (c : Copy) : List Link := Download.links c.resolver c.uri c.bytes

def directory (c : Copy) : Path := c.target.parent?.getD c.root

/-- The documents a copy asks for, each with the file it is to be kept in. -/
def requests (c : Copy) : List (String × Path) :=
  c.links.map fun l => (l.uri,l.target c.resolver.disk c.root c.directory)

def text (c : Copy) : String := (relocate c.resolver.disk (Utf8.decodeLossy c.bytes) c.links).text

def content (c : Copy) : Bytes := Utf8.encodeString c.text

def file (c : Copy) : Path × Bytes := (c.target,c.content)

end Copy

/-- What is kept and, in order, written between two points of progress. -/
structure Stored (supply : Supply) (catalog : Catalog) (p q : Progress) (copies written : List Copy) : Prop where
  kept : q.kept.entries = p.kept.entries ++ copies.map Copy.entry
  read : ∀ c ∈ copies, c.resolver.catalog = catalog ∧ supply.fetch c.resolver.disk c.uri = .ok c.bytes
  during : ∀ c ∈ copies, p.disk.Grows c.resolver.disk ∧ c.resolver.disk.Grows q.disk
  among : written ⊆ copies
  distinct : (written.map Copy.uri).Nodup
  wrote : p.disk.Wrote (written.map Copy.file) q.disk

section
variable {supply : Supply} {catalog : Catalog} {p q r : Progress} {copies copies' written written' : List Copy}

theorem Stored.refl (supply : Supply) (catalog : Catalog) (p : Progress) : Stored supply catalog p p [] [] :=
  ⟨by simp,by simp,by simp,by simp,by simp,.refl _⟩

theorem Stored.disjoint (h : Stored supply catalog p q copies written)
    (h' : Stored supply catalog q r copies' written') : (copies.map Copy.uri).Disjoint (copies'.map Copy.uri) := by
  have hnodup := r.kept.nodup
  rw [h'.kept,h.kept,List.append_assoc,← List.map_append,List.map_append,List.map_map] at hnodup
  have hnew := (List.nodup_append'.mp hnodup).2.1
  rw [List.map_append] at hnew
  exact List.disjoint_of_nodup_append hnew

theorem Stored.trans (h : Stored supply catalog p q copies written)
    (h' : Stored supply catalog q r copies' written') :
    Stored supply catalog p r (copies ++ copies') (written ++ written') where
  kept := by rw [h'.kept,h.kept,List.map_append,List.append_assoc]
  read := fun c hc => (List.mem_append.mp hc).elim (h.read c) (h'.read c)
  during := by
    intro c hc
    rcases List.mem_append.mp hc with hc | hc
    · exact ⟨(h.during c hc).1,(h.during c hc).2.trans h'.wrote.grows⟩
    · exact ⟨h.wrote.grows.trans (h'.during c hc).1,(h'.during c hc).2⟩
  among := List.append_subset.mpr
    ⟨List.subset_append_of_subset_left _ h.among,List.subset_append_of_subset_right _ h'.among⟩
  distinct := by
    have hdisjoint : (written.map Copy.uri).Disjoint (written'.map Copy.uri) := fun uri hw hw' =>
      h.disjoint h' (List.map_subset _ h.among hw) (List.map_subset _ h'.among hw')
    rw [List.map_append]
    exact List.nodup_append'.mpr ⟨h.distinct,h'.distinct,hdisjoint⟩
  wrote := by
    rw [List.map_append]
    exact h.wrote.trans h'.wrote

/-- All are written of two lists that were kept one after the other if all are of each. -/
theorem Stored.append_subset_iff (h : Stored supply catalog p q copies written)
    (h' : Stored supply catalog q r copies' written') :
    copies ++ copies' ⊆ written ++ written' ↔ copies ⊆ written ∧ copies' ⊆ written' := by
  have hapart : ∀ c ∈ copies, c ∉ copies' := fun c hc hc' =>
    h.disjoint h' (List.mem_map_of_mem hc) (List.mem_map_of_mem hc')
  constructor
  · intro hall
    have hboth := List.append_subset.mp hall
    constructor
    · intro c hc
      exact (List.mem_append.mp (hboth.1 hc)).resolve_right fun hw => hapart c hc (h'.among hw)
    · intro c hc
      exact (List.mem_append.mp (hboth.2 hc)).resolve_left fun hw => hapart c (h.among hw) hc
  · intro hboth
    exact List.append_subset.mpr
      ⟨List.subset_append_of_subset_left _ hboth.1,List.subset_append_of_subset_right _ hboth.2⟩

/-- A document is kept before it is written. -/
theorem stored_keep (p : Progress) {c : Copy} (hcatalog : c.resolver.catalog = catalog)
    (hdisk : c.resolver.disk = p.disk) (hread : supply.fetch c.resolver.disk c.uri = .ok c.bytes) (hnew : c.uri ∉ p.kept.keys) :
    Stored supply catalog p { p with kept := p.kept.insert c.uri c.target } [c] [] where
  kept := OrderedMap.entries_insert_of_not_mem hnew c.target
  read := by simp [hcatalog,hread]
  during := by simp [hdisk,Disk.Grows.refl]
  among := by simp
  distinct := by simp
  wrote := .refl _

theorem Stored.write (h : Stored supply catalog p q copies written) {c : Copy} (hc : c ∈ copies)
    (hnew : c.uri ∉ written.map Copy.uri) (hfailure : q.failure = none) :
    ((q.write c.target c.text).failure = none ∧
        Stored supply catalog p (q.write c.target c.text) copies (written ++ [c])) ∨
      (q.write c.target c.text).failure ≠ none ∧ Stored supply catalog p (q.write c.target c.text) copies written := by
  have hrunning : ¬ q.failure.isSome := by simp [hfailure]
  have hduring {ws : List (Path × Bytes)} {e : Disk} (he : q.disk.Wrote ws e) :
      ∀ b ∈ copies, p.disk.Grows b.resolver.disk ∧ b.resolver.disk.Grows e :=
    fun b hb => ⟨(h.during b hb).1,(h.during b hb).2.trans he.grows⟩
  rcases q.disk.wrote_place c.target c.content with ⟨e,he,hwrote⟩ | ⟨e,failure,he,hwrote⟩
  · have hq : q.write c.target c.text = { q with disk := e } := by
      rw [Copy.content] at he
      rw [Progress.write,if_neg hrunning,he]
    refine .inl ⟨by rw [hq,hfailure],?_⟩
    rw [hq]
    refine ⟨h.kept,h.read,hduring hwrote,?_,?_,?_⟩
    · exact List.append_subset.mpr ⟨h.among,by simpa using hc⟩
    · rw [List.map_append]
      exact List.nodup_append'.mpr ⟨h.distinct,by simp,by simpa using hnew⟩
    · rw [List.map_append]
      exact h.wrote.trans hwrote
  · have hq : q.write c.target c.text = { q with disk := e, failure := some failure } := by
      rw [Copy.content] at he
      rw [Progress.write,if_neg hrunning,he]
    have hfiles := h.wrote.trans hwrote
    rw [List.append_nil] at hfiles
    rw [hq]
    exact .inr ⟨by simp,h.kept,h.read,hduring hwrote,h.among,h.distinct,hfiles⟩

end

/-- A walk below a root that was asked for documents. -/
structure Walked (supply : Supply) (catalog : Catalog) (root : Path) (requests : List (String × Path))
    (p q : Progress) (copies written : List Copy) : Prop extends Stored supply catalog p q copies written where
  below : ∀ c ∈ copies, c.root = root
  asked : ∀ c ∈ copies, c.entry ∈ requests ∨ ∃ b ∈ copies, c.entry ∈ b.requests
  complete : q.failure = none ↔ p.failure = none ∧ copies ⊆ written

section
variable {supply : Supply} {catalog : Catalog} {root : Path} {p q r : Progress}
  {requests requests' : List (String × Path)} {copies copies' written written' : List Copy}

theorem Walked.refl (supply : Supply) (catalog : Catalog) (root : Path) (requests : List (String × Path))
    (p : Progress) : Walked supply catalog root requests p p [] [] :=
  ⟨.refl supply catalog p,by simp,by simp,by simp⟩

theorem Walked.trans (h : Walked supply catalog root requests p q copies written)
    (h' : Walked supply catalog root requests' q r copies' written') :
    Walked supply catalog root (requests ++ requests') p r (copies ++ copies') (written ++ written') where
  toStored := h.toStored.trans h'.toStored
  below := fun c hc => (List.mem_append.mp hc).elim (h.below c) (h'.below c)
  asked := by
    intro c hc
    rcases List.mem_append.mp hc with hc | hc
    · rcases h.asked c hc with hrequest | ⟨b,hb,hrequest⟩
      · exact .inl (List.mem_append_left _ hrequest)
      · exact .inr ⟨b,List.mem_append_left _ hb,hrequest⟩
    · rcases h'.asked c hc with hrequest | ⟨b,hb,hrequest⟩
      · exact .inl (List.mem_append_right _ hrequest)
      · exact .inr ⟨b,List.mem_append_right _ hb,hrequest⟩
  complete := by
    rw [h'.complete,h.complete,h.toStored.append_subset_iff h'.toStored,and_assoc]

/-- A document is kept, then all it asks for, and then it is written. -/
theorem Walked.around {c : Copy} (hcatalog : c.resolver.catalog = catalog) (hdisk : c.resolver.disk = p.disk)
    (hroot : c.root = root) (hread : supply.fetch c.resolver.disk c.uri = .ok c.bytes) (hnew : c.uri ∉ p.kept.keys)
    (h : Walked supply catalog root c.requests { p with kept := p.kept.insert c.uri c.target } q copies written) :
    Walked supply catalog root [c.entry] p (q.write c.target c.text) (c :: copies)
      (if (q.write c.target c.text).failure.isSome then written else written ++ [c]) := by
  have hkeep := stored_keep p hcatalog hdisk hread hnew
  have hstored : Stored supply catalog p q (c :: copies) written := hkeep.trans h.toStored
  have happart : c.uri ∉ copies.map Copy.uri := by simpa using hkeep.disjoint h.toStored
  have hunwritten : c.uri ∉ written.map Copy.uri := fun hc => happart (List.map_subset _ h.among hc)
  have hbelow : ∀ b ∈ c :: copies, b.root = root := List.forall_mem_cons.mpr ⟨hroot,h.below⟩
  have hasked : ∀ b ∈ c :: copies, b.entry ∈ [c.entry] ∨ ∃ a ∈ c :: copies, b.entry ∈ a.requests := by
    refine List.forall_mem_cons.mpr ⟨.inl (by simp),fun b hb => .inr ?_⟩
    rcases h.asked b hb with hrequest | ⟨a,ha,hrequest⟩
    · exact ⟨c,by simp,hrequest⟩
    · exact ⟨a,by simp [ha],hrequest⟩
  have hpartial : ¬ c :: copies ⊆ written := fun hall => hunwritten (List.mem_map_of_mem (hall (by simp)))
  by_cases hfailure : q.failure = none
  · have hcomplete : p.failure = none ∧ copies ⊆ written := h.complete.mp hfailure
    rcases hstored.write (by simp) hunwritten hfailure with ⟨hnone,hwritten⟩ | ⟨hsome,hwritten⟩
    · have hall : c :: copies ⊆ written ++ [c] :=
        List.cons_subset.mpr ⟨by simp,List.subset_append_of_subset_left _ hcomplete.2⟩
      rw [if_neg (by simp [hnone])]
      exact ⟨hwritten,hbelow,hasked,by simp [hnone,hall,hcomplete.1]⟩
    · rw [if_pos (Option.isSome_iff_ne_none.mpr hsome)]
      exact ⟨hwritten,hbelow,hasked,by simp [hsome,hpartial]⟩
  · have hstopped : q.write c.target c.text = q := if_pos (Option.isSome_iff_ne_none.mpr hfailure)
    rw [hstopped,if_pos (Option.isSome_iff_ne_none.mpr hfailure)]
    exact ⟨hstored,hbelow,hasked,by simp [hfailure,hpartial]⟩

end

/-! ## What is written, noted -/

/-- A document as it is kept. -/
def Progress.copy (p : Progress) (catalog : Catalog) (root : Path) (uri : String) (target : Path) (bytes : Bytes) : Copy :=
  { uri, target, root, resolver := { disk := p.disk, catalog }, bytes }

theorem Progress.running {p : Progress} {uri : String} (h : ¬ (p.failure.isSome || p.kept.contains uri)) :
    p.failure = none ∧ uri ∉ p.kept.keys := by
  simpa [OrderedMap.contains] using h

/-- A document that is read is kept, then all it asks for, and then it is written. -/
theorem fetch_of_read {supply : Supply} {catalog : Catalog} {root : Path} (levels : ℕ) {p : Progress} {uri : String}
    {target : Path} {bytes : Bytes} (h : ¬ (p.failure.isSome || p.kept.contains uri))
    (hread : supply.fetch p.disk uri = .ok bytes) :
    let c := p.copy catalog root uri target bytes
    fetch supply catalog root (levels + 1) p uri target =
      (c.requests.foldl (fun p request => fetch supply catalog root levels p request.1 request.2)
        { p with kept := p.kept.insert uri target }).write target c.text := by
  intro c
  rw [fetch,if_neg h,hread,Copy.requests,List.foldl_map]
  rfl

/-- A walk as far as it has come, with the copies it has written. -/
structure Trace where
  progress : Progress
  written : List Copy := []

/-- Writes a copy and notes it, unless that fails or the walk has failed before. -/
def Trace.write (t : Trace) (c : Copy) : Trace :=
  let p := t.progress.write c.target c.text
  { progress := p, written := if p.failure.isSome then t.written else t.written ++ [c] }

theorem Trace.written_write (t : Trace) (c : Copy) : (t.write c).written =
    if (t.progress.write c.target c.text).failure.isSome then t.written else t.written ++ [c] := rfl

/-- `fetch`, with each copy noted when it is written. -/
def fetchTraced (supply : Supply) (catalog : Catalog) (root : Path) : ℕ → Trace → String × Path → Trace
  | 0, t, _ => t
  | levels + 1, t, (uri,target) =>
    if t.progress.failure.isSome || t.progress.kept.contains uri then t
    else match supply.fetch t.progress.disk uri with
      | .error _ => { t with progress := { t.progress with missing := t.progress.missing ++ [uri] } }
      | .ok bytes =>
        let c := t.progress.copy catalog root uri target bytes
        (c.requests.foldl (fetchTraced supply catalog root levels)
          { t with progress := { t.progress with kept := t.progress.kept.insert uri target } }).write c

theorem progress_foldl {supply : Supply} {catalog : Catalog} {root : Path} {levels : ℕ}
    (hfetch : ∀ t request, (fetchTraced supply catalog root levels t request).progress =
      fetch supply catalog root levels t.progress request.1 request.2) (requests : List (String × Path)) (t : Trace) :
    (requests.foldl (fetchTraced supply catalog root levels) t).progress =
      requests.foldl (fun p request => fetch supply catalog root levels p request.1 request.2) t.progress :=
  (List.foldl_hom Trace.progress fun t request => (hfetch t request).symm).symm

/-- The notes change nothing. -/
theorem progress_fetchTraced (supply : Supply) (catalog : Catalog) (root : Path) (levels : ℕ) (t : Trace)
    (request : String × Path) : (fetchTraced supply catalog root levels t request).progress =
      fetch supply catalog root levels t.progress request.1 request.2 := by
  induction levels generalizing t request with
  | zero => rfl
  | succ levels ih =>
    rw [fetchTraced]
    by_cases hskip : t.progress.failure.isSome || t.progress.kept.contains request.1
    · rw [if_pos hskip,fetch,if_pos hskip]
    · rw [if_neg hskip]
      cases hread : supply.fetch t.progress.disk request.1 with
      | error _ => rw [fetch,if_neg hskip,hread]
      | ok bytes =>
        rw [fetch_of_read levels hskip hread]
        simp only [Trace.write]
        rw [progress_foldl ih]
        rfl

/-- What a walk does that was asked for documents, by what it notes. -/
def Traced (supply : Supply) (catalog : Catalog) (root : Path) (requests : List (String × Path)) (t u : Trace) : Prop :=
  ∃ copies written, u.written = t.written ++ written ∧
    Walked supply catalog root requests t.progress u.progress copies written

section
variable {supply : Supply} {catalog : Catalog} {root : Path}

theorem Traced.refl (requests : List (String × Path)) (t : Trace) : Traced supply catalog root requests t t :=
  ⟨[],[],by simp,.refl supply catalog root requests t.progress⟩

/-- Requests one after another. -/
theorem traced_foldl (step : Trace → String × Path → Trace) (requests : List (String × Path))
    (hstep : ∀ t, ∀ request, Traced supply catalog root [request] t (step t request)) (t : Trace) :
    Traced supply catalog root requests t (requests.foldl step t) := by
  induction requests generalizing t with
  | nil => exact .refl [] t
  | cons request requests ih =>
    obtain ⟨copies,written,hnoted,hfirst⟩ := hstep t request
    obtain ⟨copies',written',hnoted',hrest⟩ := ih (step t request)
    exact ⟨copies ++ copies',written ++ written',by rw [List.foldl_cons,hnoted',hnoted,List.append_assoc],hfirst.trans hrest⟩

/-- The walk from one document keeps copies, and writes those it notes, however far it may go. -/
theorem fetchTraced_traced (levels : ℕ) (t : Trace) (request : String × Path) :
    Traced supply catalog root [request] t (fetchTraced supply catalog root levels t request) := by
  induction levels generalizing t request with
  | zero => exact .refl _ t
  | succ levels ih =>
    obtain ⟨uri,target⟩ := request
    rw [fetchTraced]
    by_cases hskip : t.progress.failure.isSome || t.progress.kept.contains uri
    · rw [if_pos hskip]
      exact .refl _ t
    · rw [if_neg hskip]
      cases hread : supply.fetch t.progress.disk uri with
      | error _ => exact ⟨[],[],by simp,⟨by simp,by simp,by simp,by simp,by simp,.refl _⟩,by simp,by simp,by simp⟩
      | ok bytes =>
        let c := t.progress.copy catalog root uri target bytes
        obtain ⟨copies,written,hnoted,hwalked⟩ := traced_foldl (fetchTraced supply catalog root levels) c.requests
          ih { t with progress := { t.progress with kept := t.progress.kept.insert uri target } }
        refine ⟨c :: copies,_,?_,Walked.around (c := c) rfl rfl rfl hread (Progress.running hskip).2 hwalked⟩
        rw [Trace.written_write,hnoted]
        split
        · rfl
        · exact List.append_assoc _ _ _

end

theorem foldl_fetchTraced_traced (supply : Supply) (catalog : Catalog) (root : Path) (levels : ℕ)
    (requests : List (String × Path)) (t : Trace) :
    Traced supply catalog root requests t (requests.foldl (fetchTraced supply catalog root levels) t) :=
  traced_foldl _ requests (fetchTraced_traced levels) t

theorem fetch_walked (supply : Supply) (catalog : Catalog) (root : Path) (levels : ℕ) (p : Progress) (uri : String)
    (target : Path) : ∃ copies written,
      Walked supply catalog root [(uri,target)] p (fetch supply catalog root levels p uri target) copies written := by
  obtain ⟨copies,written,-,hwalked⟩ := fetchTraced_traced levels { progress := p } (uri,target)
  rw [progress_fetchTraced] at hwalked
  exact ⟨copies,written,hwalked⟩

theorem foldl_walked (supply : Supply) (catalog : Catalog) (root : Path) (levels : ℕ) (requests : List (String × Path))
    (p : Progress) : ∃ copies written, Walked supply catalog root requests p
      (requests.foldl (fun p request => fetch supply catalog root levels p request.1 request.2) p) copies written := by
  obtain ⟨copies,written,-,hwalked⟩ := foldl_fetchTraced_traced supply catalog root levels requests { progress := p }
  rw [progress_foldl (progress_fetchTraced supply catalog root levels)] at hwalked
  exact ⟨copies,written,hwalked⟩

/-! ## Calls -/

/-- The documents a call asks for. -/
def entryRequests (root : Path) (uris : List String) : List (String × Path) :=
  uris.map fun uri => (uri,root / ⟨Location.fileName uri⟩)

/-- The copies that a call writes, in order. -/
def writtenBy (disk : Disk) (d : Download) (uris : List String) (package : String) : List Copy :=
  ((entryRequests (d.rootOf package) uris).foldl
    (fetchTraced d.supply d.catalog (d.rootOf package) d.supply.levels)
    { progress := { disk, kept := d.kept } }).written

theorem walk_writtenBy (disk : Disk) (d : Download) (uris : List String) (package : String) : ∃ copies,
    Walked d.supply d.catalog (d.rootOf package) (entryRequests (d.rootOf package) uris)
      { disk, kept := d.kept } (d.walk disk uris package) copies (d.writtenBy disk uris package) := by
  obtain ⟨copies,written,hnoted,hwalked⟩ := foldl_fetchTraced_traced d.supply d.catalog (d.rootOf package)
    d.supply.levels (entryRequests (d.rootOf package) uris) { progress := { disk, kept := d.kept } }
  rw [progress_foldl (progress_fetchTraced d.supply d.catalog (d.rootOf package) _),entryRequests,List.foldl_map] at hwalked
  rw [List.nil_append] at hnoted
  rw [writtenBy,hnoted]
  exact ⟨copies,hwalked⟩

theorem walk_walked (disk : Disk) (d : Download) (uris : List String) (package : String) : ∃ copies written,
    Walked d.supply d.catalog (d.rootOf package) (entryRequests (d.rootOf package) uris)
      { disk, kept := d.kept } (d.walk disk uris package) copies written :=
  (d.walk_writtenBy disk uris package).imp fun _ h => ⟨_,h⟩

theorem process_isOk_iff_walk (disk : Disk) (d : Download) (uris : List String) (package : String) :
    (d.process disk uris package).2.2.isOk ↔ (d.walk disk uris package).failure = none := by
  rw [process]
  cases (d.walk disk uris package).failure <;> simp [Except.isOk,Except.toBool]

/-- A call ends well if and only if all that it keeps is written. -/
theorem process_isOk_iff {disk : Disk} {d : Download} {uris : List String} {package : String} {copies written : List Copy}
    (h : Walked d.supply d.catalog (d.rootOf package) (entryRequests (d.rootOf package) uris) { disk, kept := d.kept }
      (d.walk disk uris package) copies written) : (d.process disk uris package).2.2.isOk ↔ copies ⊆ written := by
  have hcomplete : (d.walk disk uris package).failure = none ↔ copies ⊆ written := by simpa using h.complete
  rw [process_isOk_iff_walk,hcomplete]

end Download
end SchemaBinding
