import SchemaBinding.Proofs.Downloads.Beneath
import SchemaBinding.Proofs.Downloads.Complete

/-! Downloads into two directories. Both walks ask for the same documents in the same order, and as long as each document
is asked for at the same place below either root, what is written below the roots is the same.
Main statement: two downloads of the same documents leave the same files below their roots if the roots have no detours or
both have some, unless a reference leaves a root and comes back to it by the names of its directories. -/
namespace SchemaBinding

/-- Nothing is at or below the place that a path leads to. -/
def Disk.Fresh (d : Disk) (p : Path) : Prop := ∀ place, d.files.get? (d.destination p ++ place) = none

namespace Download
open SchemaBinding.Path (At below)

/-- A reference leaves the root, or names the root itself, and is taken to lie below it, by the names of directories. -/
def Link.Strays (l : Link) (disk : Disk) (root directory : Path) : Prop :=
  (directory / ⟨l.relative disk⟩).normalize.startsWith root ∧
    ∃ here, At root directory here ∧ (below here (⟨l.relative disk⟩ : Path).components).getD [] = []

theorem Link.not_strays {l : Link} {disk : Disk} {root directory : Path} {here : List String}
    (hat : At root directory here)
    (hbelow : (below here (⟨l.relative disk⟩ : Path).components).getD [] ≠ []) : ¬ l.Strays disk root directory := by
  rintro ⟨_,there,hthere,hleaves⟩
  rw [hat.unique hthere] at hbelow
  exact hbelow hleaves

/-- Two walks that are to be compared. What is fetched and what it refers to is the same at all points of both, the roots
both have detours or neither has any, and no document that is kept has a reference that strays. -/
structure Comparable (supply : Supply) (catalog : Catalog) (disk : Disk) (root₁ root₂ : Path) (after₁ after₂ : Disk)
    (kept₁ kept₂ : OrderedMap String Path) : Prop where
  text₁ : root₁.text ≠ ""
  text₂ : root₂.text ≠ ""
  straight : root₁.IsStraight ↔ root₂.IsStraight
  fetched : ∀ now₁ now₂, disk.Grows now₁ → now₁.Grows after₁ → disk.Grows now₂ → now₂.Grows after₂ →
    ∀ uri, (supply.fetch now₁ uri).toOption = (supply.fetch now₂ uri).toOption
  linked : ∀ now₁ now₂, disk.Grows now₁ → now₁.Grows after₁ → disk.Grows now₂ → now₂.Grows after₂ →
    ∀ uri bytes, supply.fetch now₁ uri = .ok bytes →
      links { disk := now₁, catalog } uri bytes = links { disk := now₂, catalog } uri bytes
  stays₁ : ∀ entry ∈ kept₁.entries, ∀ bytes, supply.fetch disk entry.1 = .ok bytes →
    ∀ l ∈ links { disk, catalog } entry.1 bytes, ¬ l.Strays disk root₁ (entry.2.parent?.getD root₁)
  stays₂ : ∀ entry ∈ kept₂.entries, ∀ bytes, supply.fetch disk entry.1 = .ok bytes →
    ∀ l ∈ links { disk, catalog } entry.1 bytes, ¬ l.Strays disk root₂ (entry.2.parent?.getD root₂)

/-! ## Files at one place -/

/-- Files for one document below two roots: at the same place, or nowhere. -/
inductive Twin (root₁ root₂ target₁ target₂ : Path) : Prop where
  | place {place : List String} : place ≠ [] → At root₁ target₁ place → At root₂ target₂ place →
      Twin root₁ root₂ target₁ target₂
  | nowhere : (∀ name, target₁.pieces.getLast? = some name → ¬ Disk.isEntryName name) → Twin root₁ root₂ target₁ target₂

section
variable {root₁ root₂ directory₁ directory₂ : Path}

theorem twin_fileName (hroot₁ : root₁.text ≠ "") (uri : String) :
    Twin root₁ root₂ (root₁ / ⟨Location.fileName uri⟩) (root₂ / ⟨Location.fileName uri⟩) := by
  by_cases hname : Path.IsName (Location.fileName uri)
  · have hplace : [Location.fileName uri] ≠ [] := by simp
    exact .place hplace (Path.at_div_name root₁ hname) (Path.at_div_name root₂ hname)
  · exact .nowhere fun _ hlast hentry => hname (isName_fileName hroot₁ uri hlast hentry)

/-- A reference that does not stray leads to one place below either root, or leaves both. -/
theorem Link.twin {l : Link} {disk : Disk} {here : List String} (hroot₁ : root₁.text ≠ "") (hroot₂ : root₂.text ≠ "")
    (hstraight : root₁.IsStraight ↔ root₂.IsStraight) (h₁ : At root₁ directory₁ here) (h₂ : At root₂ directory₂ here)
    (hstays₁ : ¬ l.Strays disk root₁ directory₁) (hstays₂ : ¬ l.Strays disk root₂ directory₂) :
    Twin root₁ root₂ (l.target disk root₁ directory₁) (l.target disk root₂ directory₂) := by
  by_cases hplace : (below here (⟨l.relative disk⟩ : Path).components).getD [] = []
  · rw [Link.target_of_not_startsWith fun hinside => hstays₁ ⟨hinside,here,h₁,hplace⟩,
      Link.target_of_not_startsWith fun hinside => hstays₂ ⟨hinside,here,h₂,hplace⟩]
    exact twin_fileName hroot₁ l.uri
  · obtain ⟨place,hbelow⟩ : ∃ place, below here (⟨l.relative disk⟩ : Path).components = some place := by
      cases hbelow : below here (⟨l.relative disk⟩ : Path).components with
      | none => simp [hbelow] at hplace
      | some place => exact ⟨place,rfl⟩
    have hne : place ≠ [] := by simpa [hbelow] using hplace
    by_cases hdetours : root₁.IsStraight
    · exact .place hne ((l.at_target_iff hroot₁ h₁ hbelow hne).mpr (.inl hdetours))
        ((l.at_target_iff hroot₂ h₂ hbelow hne).mpr (.inl (hstraight.mp hdetours)))
    · rw [Link.target_of_not_startsWith fun hinside => hdetours (Path.isStraight_of_startsWith hinside),
        Link.target_of_not_startsWith fun hinside => hdetours (hstraight.mpr (Path.isStraight_of_startsWith hinside))]
      exact twin_fileName hroot₁ l.uri

end

/-! ## Stretches of walks -/

/-- Writing that does not fail puts the text at the destination of a path that ends in the name of an entry. -/
theorem Progress.write_of_ok {p : Progress} {target : Path} {text : String} (h : (p.write target text).failure = none) :
    (∃ name, target.pieces.getLast? = some name ∧ Disk.isEntryName name) ∧ p.disk.Grows (p.write target text).disk ∧
      (p.write target text).disk.files =
        p.disk.files.insert (p.disk.destination target) (Utf8.encodeString text) := by
  have hrunning : ¬ p.failure.isSome := by simp [Progress.failure_of_write h]
  rcases p.disk.place_destination target (Utf8.encodeString text) with
    ⟨e,failure,he,_⟩ | ⟨e,name,hlast,hname,he,hfiles⟩
  · simp [Progress.write,hrunning,he] at h
  · have hgrows : p.disk.Grows e := by
      rcases p.disk.wrote_place target (Utf8.encodeString text) with ⟨e',he',hwrote⟩ | ⟨e',failure,he',hwrote⟩
      · rw [he] at he'
        cases he'
        exact hwrote.grows
      · rw [he] at he'
        cases he'
    have hwrite : p.write target text = { p with disk := e } := by rw [Progress.write,if_neg hrunning,he]
    rw [hwrite]
    exact ⟨⟨name,hlast,hname⟩,hgrows,hfiles⟩

/-- A stretch of a walk that ends well. -/
structure Part (disk after : Disk) (kept : OrderedMap String Path) (p q : Progress) : Prop where
  before : disk.Grows p.disk
  after : q.disk.Grows after
  kept : q.kept.entries ⊆ kept.entries
  ok : q.failure = none

theorem Part.split {supply : Supply} {catalog : Catalog} {root : Path} {requests requests' : List (String × Path)}
    {disk after : Disk} {kept : OrderedMap String Path} {p q r : Progress} {copies copies' written written' : List Copy}
    (h : Part disk after kept p r) (hfirst : Walked supply catalog root requests p q copies written)
    (hrest : Walked supply catalog root requests' q r copies' written') :
    Part disk after kept p q ∧ Part disk after kept q r := by
  refine ⟨⟨h.before,hrest.wrote.grows.trans h.after,fun entry hentry => h.kept ?_,(hrest.complete.mp h.ok).1⟩,
    h.before.trans hfirst.wrote.grows,h.after,h.kept,h.ok⟩
  rw [hrest.kept]
  exact List.mem_append_left _ hentry

/-- The stretch between keeping a document and writing it. -/
theorem Part.inner {supply : Supply} {catalog : Catalog} {root : Path} {requests : List (String × Path)}
    {disk after : Disk} {kept : OrderedMap String Path} {p q : Progress} {uri text : String} {target : Path}
    {copies written : List Copy} (h : Part disk after kept p (q.write target text)) (hnew : uri ∉ p.kept.keys)
    (hwalked : Walked supply catalog root requests { p with kept := p.kept.insert uri target } q copies written) :
    Part disk after kept { p with kept := p.kept.insert uri target } q ∧ (uri,target) ∈ kept.entries := by
  have hkept : q.kept.entries ⊆ kept.entries := by
    have hsame := h.kept
    rwa [Progress.kept_write] at hsame
  refine ⟨⟨h.before,(Progress.write_of_ok h.ok).2.1.trans h.after,hkept,Progress.failure_of_write h.ok⟩,hkept ?_⟩
  rw [hwalked.kept]
  refine List.mem_append_left _ ?_
  rw [OrderedMap.entries_insert_of_not_mem hnew]
  simp

/-- Walks that have kept the same documents, with the same files below their roots. -/
structure Alike (root₁ root₂ : Path) (p₁ p₂ : Progress) : Prop where
  kept : p₁.kept.keys = p₂.kept.keys
  files : ∀ place, p₁.disk.files.get? (p₁.disk.destination root₁ ++ place) =
    p₂.disk.files.get? (p₂.disk.destination root₂ ++ place)

/-- The same text is written at one place below either root. -/
theorem Alike.write {root₁ root₂ target₁ target₂ : Path} {p₁ p₂ : Progress} (h : Alike root₁ root₂ p₁ p₂)
    {place : List String} (h₁ : At root₁ target₁ place) (h₂ : At root₂ target₂ place) {text : String}
    (hok₁ : (p₁.write target₁ text).failure = none) (hok₂ : (p₂.write target₂ text).failure = none) :
    Alike root₁ root₂ (p₁.write target₁ text) (p₂.write target₂ text) where
  kept := by rw [Progress.kept_write,Progress.kept_write,h.kept]
  files := by
    obtain ⟨_,hgrows₁,hfiles₁⟩ := Progress.write_of_ok hok₁
    obtain ⟨_,hgrows₂,hfiles₂⟩ := Progress.write_of_ok hok₂
    intro other
    rw [hfiles₁,hfiles₂,hgrows₁.destination_eq,hgrows₂.destination_eq,h₁.destination,h₂.destination,
      OrderedMap.get?_insert,OrderedMap.get?_insert,h.files other]
    simp only [List.append_cancel_left_eq]

section
variable {supply : Supply} {catalog : Catalog} {disk : Disk} {root₁ root₂ : Path} {after₁ after₂ : Disk}
  {kept₁ kept₂ : OrderedMap String Path}

/-- Requests for the same documents, in files that are twins. -/
def Requests (root₁ root₂ : Path) : List (String × Path) → List (String × Path) → Prop :=
  List.Forall₂ fun r₁ r₂ => r₁.1 = r₂.1 ∧ Twin root₁ root₂ r₁.2 r₂.2

/-- Walks from one document that go on alike. -/
def GoesAlike (supply : Supply) (catalog : Catalog) (disk : Disk) (root₁ root₂ : Path) (after₁ after₂ : Disk)
    (kept₁ kept₂ : OrderedMap String Path) (levels : ℕ) : Prop :=
  ∀ (p₁ p₂ : Progress) (uri : String) (target₁ target₂ : Path), Alike root₁ root₂ p₁ p₂ →
    Twin root₁ root₂ target₁ target₂ →
    Part disk after₁ kept₁ p₁ (fetch supply catalog root₁ levels p₁ uri target₁) →
    Part disk after₂ kept₂ p₂ (fetch supply catalog root₂ levels p₂ uri target₂) →
    Alike root₁ root₂ (fetch supply catalog root₁ levels p₁ uri target₁)
      (fetch supply catalog root₂ levels p₂ uri target₂)

theorem foldl_alike {levels : ℕ} (hfetch : GoesAlike supply catalog disk root₁ root₂ after₁ after₂ kept₁ kept₂ levels)
    {requests₁ requests₂ : List (String × Path)} (hrequests : Requests root₁ root₂ requests₁ requests₂) {p₁ p₂ : Progress}
    (h : Alike root₁ root₂ p₁ p₂)
    (hpart₁ : Part disk after₁ kept₁ p₁
      (requests₁.foldl (fun p request => fetch supply catalog root₁ levels p request.1 request.2) p₁))
    (hpart₂ : Part disk after₂ kept₂ p₂
      (requests₂.foldl (fun p request => fetch supply catalog root₂ levels p request.1 request.2) p₂)) :
    Alike root₁ root₂ (requests₁.foldl (fun p request => fetch supply catalog root₁ levels p request.1 request.2) p₁)
      (requests₂.foldl (fun p request => fetch supply catalog root₂ levels p request.1 request.2) p₂) := by
  induction hrequests generalizing p₁ p₂ with
  | nil => exact h
  | @cons r₁ r₂ rest₁ rest₂ hr _ ih =>
    obtain ⟨uri₁,target₁⟩ := r₁
    obtain ⟨uri₂,target₂⟩ := r₂
    obtain ⟨rfl,htwin⟩ : uri₁ = uri₂ ∧ Twin root₁ root₂ target₁ target₂ := hr
    obtain ⟨_,_,hfirst₁⟩ := fetch_walked supply catalog root₁ levels p₁ uri₁ target₁
    obtain ⟨_,_,hfirst₂⟩ := fetch_walked supply catalog root₂ levels p₂ uri₁ target₂
    obtain ⟨_,_,hrest₁⟩ := foldl_walked supply catalog root₁ levels rest₁
      (fetch supply catalog root₁ levels p₁ uri₁ target₁)
    obtain ⟨_,_,hrest₂⟩ := foldl_walked supply catalog root₂ levels rest₂
      (fetch supply catalog root₂ levels p₂ uri₁ target₂)
    obtain ⟨hone₁,hothers₁⟩ := hpart₁.split hfirst₁ hrest₁
    obtain ⟨hone₂,hothers₂⟩ := hpart₂.split hfirst₂ hrest₂
    exact ih (hfetch p₁ p₂ uri₁ target₁ target₂ h htwin hone₁ hone₂) hothers₁ hothers₂

/-- A document that is read in one walk is the document that the other reads, and refers to the same. -/
theorem Comparable.read (h : Comparable supply catalog disk root₁ root₂ after₁ after₂ kept₁ kept₂) {now₁ now₂ : Disk}
    (hbetween₁ : disk.Grows now₁ ∧ now₁.Grows after₁) (hbetween₂ : disk.Grows now₂ ∧ now₂.Grows after₂) {uri : String}
    {bytes : Bytes} (hread : supply.fetch now₁ uri = .ok bytes) : supply.fetch now₂ uri = .ok bytes ∧
      links { disk := now₁, catalog } uri bytes = links { disk := now₂, catalog } uri bytes := by
  have hsame := h.fetched now₁ now₂ hbetween₁.1 hbetween₁.2 hbetween₂.1 hbetween₂.2 uri
  rw [hread] at hsame
  refine ⟨?_,h.linked now₁ now₂ hbetween₁.1 hbetween₁.2 hbetween₂.1 hbetween₂.2 uri bytes hread⟩
  cases hfetch : supply.fetch now₂ uri with
  | error _ => simp [hfetch,Except.toOption] at hsame
  | ok found =>
    have hfound : bytes = found := by simpa [hfetch,Except.toOption] using hsame
    rw [hfound]

/-- The documents that a kept document asks for are twins again. -/
theorem Comparable.requests (h : Comparable supply catalog disk root₁ root₂ after₁ after₂ kept₁ kept₂) {p₁ p₂ : Progress}
    {uri : String} {target₁ target₂ : Path} {bytes : Bytes} {place : List String} (hplace : place ≠ [])
    (hat₁ : At root₁ target₁ place) (hat₂ : At root₂ target₂ place)
    (hbetween₁ : disk.Grows p₁.disk ∧ p₁.disk.Grows after₁) (hbetween₂ : disk.Grows p₂.disk ∧ p₂.disk.Grows after₂)
    (hread : supply.fetch p₁.disk uri = .ok bytes) (hkept₁ : (uri,target₁) ∈ kept₁.entries)
    (hkept₂ : (uri,target₂) ∈ kept₂.entries) :
    Requests root₁ root₂ (p₁.copy catalog root₁ uri target₁ bytes).requests
      (p₂.copy catalog root₂ uri target₂ bytes).requests := by
  have hstart₂ : disk.Grows disk ∧ disk.Grows after₂ := ⟨.refl disk,hbetween₂.1.trans hbetween₂.2⟩
  obtain ⟨hinitial,hlinks₁⟩ := h.read hbetween₁ hstart₂ hread
  have hlinks₂ : links { disk := p₂.disk, catalog } uri bytes = links { disk, catalog } uri bytes := by
    rw [← hlinks₁,(h.read hbetween₁ hbetween₂ hread).2]
  change List.Forall₂ _ ((links { disk := p₁.disk, catalog } uri bytes).map _)
    ((links { disk := p₂.disk, catalog } uri bytes).map _)
  rw [hlinks₁,hlinks₂,List.forall₂_map_left_iff,List.forall₂_map_right_iff,List.forall₂_same]
  intro l hl
  refine ⟨rfl,?_⟩
  have htwin := l.twin h.text₁ h.text₂ h.straight (hat₁.directory hplace root₁) (hat₂.directory hplace root₂)
    (h.stays₁ _ hkept₁ bytes hinitial l hl) (h.stays₂ _ hkept₂ bytes hinitial l hl)
  rwa [l.target_disk disk p₁.disk,l.target_disk disk p₂.disk] at htwin

/-- What is between the start and the end of a call when a document is taken up. -/
theorem Part.between {root : Path} {after : Disk} {kept : OrderedMap String Path} {levels : ℕ} {p : Progress} {uri : String}
    {target : Path} (h : Part disk after kept p (fetch supply catalog root levels p uri target)) :
    disk.Grows p.disk ∧ p.disk.Grows after ∧ p.failure = none := by
  obtain ⟨_,_,hwalked⟩ := fetch_walked supply catalog root levels p uri target
  exact ⟨h.before,hwalked.wrote.grows.trans h.after,(hwalked.complete.mp h.ok).1⟩

/-- A document that both walks read is kept and written by both at one place, after all it refers to. -/
theorem kept_alike (h : Comparable supply catalog disk root₁ root₂ after₁ after₂ kept₁ kept₂) {levels : ℕ}
    (hfetch : GoesAlike supply catalog disk root₁ root₂ after₁ after₂ kept₁ kept₂ levels) {p₁ p₂ : Progress} {uri : String}
    {target₁ target₂ : Path} {bytes : Bytes} (halike : Alike root₁ root₂ p₁ p₂) (htwin : Twin root₁ root₂ target₁ target₂)
    (hpart₁ : Part disk after₁ kept₁ p₁ (fetch supply catalog root₁ (levels + 1) p₁ uri target₁))
    (hpart₂ : Part disk after₂ kept₂ p₂ (fetch supply catalog root₂ (levels + 1) p₂ uri target₂))
    (hnew₁ : ¬ (p₁.failure.isSome || p₁.kept.contains uri)) (hnew₂ : ¬ (p₂.failure.isSome || p₂.kept.contains uri))
    (hread : supply.fetch p₁.disk uri = .ok bytes) :
    Alike root₁ root₂ (fetch supply catalog root₁ (levels + 1) p₁ uri target₁)
      (fetch supply catalog root₂ (levels + 1) p₂ uri target₂) := by
  obtain ⟨hbefore₁,hafter₁,_⟩ := hpart₁.between
  obtain ⟨hbefore₂,hafter₂,_⟩ := hpart₂.between
  obtain ⟨hread₂,hlinks⟩ := h.read ⟨hbefore₁,hafter₁⟩ ⟨hbefore₂,hafter₂⟩ hread
  let c₁ := p₁.copy catalog root₁ uri target₁ bytes
  let c₂ := p₂.copy catalog root₂ uri target₂ bytes
  have htext : c₁.text = c₂.text := by
    change (relocate p₁.disk (Utf8.decodeLossy bytes) (links { disk := p₁.disk, catalog } uri bytes)).text =
      (relocate p₂.disk (Utf8.decodeLossy bytes) (links { disk := p₂.disk, catalog } uri bytes)).text
    rw [hlinks,relocate_disk p₁.disk p₂.disk]
  rw [fetch_of_read levels hnew₁ hread] at hpart₁ ⊢
  rw [fetch_of_read levels hnew₂ hread₂] at hpart₂ ⊢
  obtain ⟨_,_,hfold₁⟩ := foldl_walked supply catalog root₁ levels c₁.requests
    { p₁ with kept := p₁.kept.insert uri target₁ }
  obtain ⟨_,_,hfold₂⟩ := foldl_walked supply catalog root₂ levels c₂.requests
    { p₂ with kept := p₂.kept.insert uri target₂ }
  obtain ⟨hinner₁,hkept₁⟩ := hpart₁.inner (Progress.running hnew₁).2 hfold₁
  obtain ⟨hinner₂,hkept₂⟩ := hpart₂.inner (Progress.running hnew₂).2 hfold₂
  cases htwin with
  | nowhere hnone =>
    -- such a file could not be written, and the call would not have ended well
    obtain ⟨⟨name,hlast,hentry⟩,_⟩ := Progress.write_of_ok hpart₁.ok
    exact absurd hentry (hnone name hlast)
  | place hplace hat₁ hat₂ =>
    have hrequests : Requests root₁ root₂ c₁.requests c₂.requests :=
      h.requests hplace hat₁ hat₂ ⟨hbefore₁,hafter₁⟩ ⟨hbefore₂,hafter₂⟩ hread hkept₁ hkept₂
    have hstart : Alike root₁ root₂ { p₁ with kept := p₁.kept.insert uri target₁ }
        { p₂ with kept := p₂.kept.insert uri target₂ } :=
      ⟨by rw [OrderedMap.keys_insert,OrderedMap.keys_insert,halike.kept],halike.files⟩
    have hinside := foldl_alike hfetch hrequests hstart hinner₁ hinner₂
    have hwritten₂ : Part disk after₂ kept₂ p₂ (Progress.write _ target₂ c₁.text) := htext ▸ hpart₂
    have hwritten := hinside.write hat₁ hat₂ hpart₁.ok hwritten₂.ok
    exact htext ▸ hwritten

/-- Both walks pass a document over, or find none, or keep it together with what it refers to. -/
theorem fetch_alike (h : Comparable supply catalog disk root₁ root₂ after₁ after₂ kept₁ kept₂) (levels : ℕ) :
    GoesAlike supply catalog disk root₁ root₂ after₁ after₂ kept₁ kept₂ levels := by
  induction levels with
  | zero => exact fun _ _ _ _ _ halike _ _ _ => halike
  | succ levels ih =>
    intro p₁ p₂ uri target₁ target₂ halike htwin hpart₁ hpart₂
    obtain ⟨hbefore₁,hafter₁,hrunning₁⟩ := hpart₁.between
    obtain ⟨hbefore₂,hafter₂,hrunning₂⟩ := hpart₂.between
    have hsame : (p₁.failure.isSome || p₁.kept.contains uri) = (p₂.failure.isSome || p₂.kept.contains uri) := by
      rw [hrunning₁,hrunning₂,OrderedMap.contains,OrderedMap.contains,halike.kept]
    by_cases hskip₁ : p₁.failure.isSome || p₁.kept.contains uri
    · rw [fetch,fetch,if_pos hskip₁,if_pos (hsame ▸ hskip₁)]
      exact halike
    · have hskip₂ : ¬ (p₂.failure.isSome || p₂.kept.contains uri) := by rwa [← hsame]
      cases hread₁ : supply.fetch p₁.disk uri with
      | ok bytes => exact kept_alike h ih halike htwin hpart₁ hpart₂ hskip₁ hskip₂ hread₁
      | error _ =>
        have hfetched := h.fetched p₁.disk p₂.disk hbefore₁ hafter₁ hbefore₂ hafter₂ uri
        cases hread₂ : supply.fetch p₂.disk uri with
        | ok _ => simp [hread₁,hread₂,Except.toOption] at hfetched
        | error _ =>
          rw [fetch,fetch,if_neg hskip₁,if_neg hskip₂,hread₁,hread₂]
          exact ⟨halike.kept,halike.files⟩

end

/-! ## Calls -/

theorem entryRequests_twins {root₁ root₂ : Path} (hroot₁ : root₁.text ≠ "") (uris : List String) :
    Requests root₁ root₂ (entryRequests root₁ uris) (entryRequests root₂ uris) := by
  rw [Requests,entryRequests,entryRequests,List.forall₂_map_left_iff,List.forall₂_map_right_iff,List.forall₂_same]
  exact fun uri _ => ⟨rfl,twin_fileName hroot₁ uri⟩

theorem walk_eq_foldl (disk : Disk) {d : Download} (hnew : d.kept = {}) (uris : List String) (package : String) :
    d.walk disk uris package = (entryRequests (d.rootOf package) uris).foldl (fun p request =>
      fetch d.supply d.catalog (d.rootOf package) d.supply.levels p request.1 request.2) { disk } := by
  rw [entryRequests,List.foldl_map,walk,hnew]

/-- A call that ends well is a stretch of its own. -/
theorem part_walk {disk : Disk} {d : Download} {uris : List String} {package : String}
    (hok : (d.process disk uris package).2.2.isOk) :
    Part disk (d.process disk uris package).2.1 (d.process disk uris package).1.kept { disk }
      (d.walk disk uris package) :=
  ⟨.refl disk,.refl _,List.Subset.refl _,(d.process_isOk_iff_walk disk uris package).mp hok⟩

/-- Downloads of the same documents into directories of any spelling. The file of a reference that leads to a place below
the root is at this place if and only if the root has no detours, or the place is an entry of the root with the name that
the URI ends in. And two calls that end well, each with nothing at its root before, leave the same files below their roots
if neither root has detours or both have some, no reference strays, and what is fetched stays the same. -/
theorem process_relocated (supply : Supply) (catalog : Catalog) (disk : Disk) (uris : List String) (package : String) :
    let root (output : Path) := rootOf { supply, catalog, directory := output } package
    let run (output : Path) := process disk { supply, catalog, directory := output } uris package
    (∀ output directory here, (root output).text ≠ "" → At (root output) directory here → ∀ (l : Link) place,
      below here (⟨l.relative disk⟩ : Path).components = some place → place ≠ [] →
        (At (root output) (l.target disk (root output) directory) place ↔
          (root output).IsStraight ∨ place = [Location.fileName l.uri])) ∧
    ∀ output₁ output₂, (run output₁).2.2.isOk → (run output₂).2.2.isOk →
      disk.Fresh (root output₁) → disk.Fresh (root output₂) →
      Comparable supply catalog disk (root output₁) (root output₂) (run output₁).2.1 (run output₂).2.1
        (run output₁).1.kept (run output₂).1.kept →
      ∀ place, (run output₁).2.1.files.get? (disk.destination (root output₁) ++ place) =
        (run output₂).2.1.files.get? (disk.destination (root output₂) ++ place) := by
  intro root run
  refine ⟨fun output directory here hroot hdirectory l place => Link.at_target_iff hroot hdirectory,?_⟩
  intro output₁ output₂ hok₁ hok₂ hfresh₁ hfresh₂ h place
  let d (output : Path) : Download := { supply, catalog, directory := output }
  have hstart : Alike (root output₁) (root output₂) { disk } { disk } :=
    ⟨rfl,fun place => (hfresh₁ place).trans (hfresh₂ place).symm⟩
  have hwalks : Alike (root output₁) (root output₂) ((d output₁).walk disk uris package)
      ((d output₂).walk disk uris package) := by
    have hpart₁ : Part disk _ _ _ ((d output₁).walk disk uris package) := part_walk hok₁
    have hpart₂ : Part disk _ _ _ ((d output₂).walk disk uris package) := part_walk hok₂
    rw [walk_eq_foldl disk rfl] at hpart₁ hpart₂ ⊢
    rw [walk_eq_foldl disk rfl]
    exact foldl_alike (fetch_alike h supply.levels) (entryRequests_twins h.text₁ uris) hstart hpart₁ hpart₂
  have hafter (output : Path) : disk.Grows ((d output).walk disk uris package).disk := by
    obtain ⟨_,_,hwalked⟩ := (d output).walk_walked disk uris package
    exact hwalked.wrote.grows
  have hfiles := hwalks.files place
  rwa [(hafter output₁).destination_eq,(hafter output₂).destination_eq] at hfiles

/-- A document that refers to one in a directory below. -/
def nestedText : String := "<schema><include schemaLocation='x/e.xsd'/></schema>"

def nested : Supply := .memory (.ofList [
  ("file:///s/m.xsd",Utf8.encodeString nestedText),("file:///s/x/e.xsd",Utf8.encodeString "<schema/>")])

def nestedRoot (output : Path) : Path := rootOf { supply := nested, directory := output } "p"

def nestedRun (output : Path) : Download × Disk × Except Failure (List Path) :=
  process {} { supply := nested, directory := output } ["file:///s/m.xsd"] "p"

theorem nested_stays (output target other : Path)
    (hkept : (nestedRun output).1.kept.entries = [("file:///s/m.xsd",target),("file:///s/x/e.xsd",other)])
    (hat : At (nestedRoot output) (target.parent?.getD (nestedRoot output)) []) :
    ∀ entry ∈ (nestedRun output).1.kept.entries, ∀ bytes, nested.fetch {} entry.1 = .ok bytes →
      ∀ l ∈ links { disk := {} } entry.1 bytes,
        ¬ l.Strays {} (nestedRoot output) (entry.2.parent?.getD (nestedRoot output)) := by
  have hread : nested.fetch {} "file:///s/m.xsd" = .ok (Utf8.encodeString nestedText) ∧
      nested.fetch {} "file:///s/x/e.xsd" = .ok (Utf8.encodeString "<schema/>") := by decide +kernel
  have hlinks : links { disk := {} } "file:///s/m.xsd" (Utf8.encodeString nestedText) =
        [⟨"file:///s/x/e.xsd","x/e.xsd"⟩] ∧
      links { disk := {} } "file:///s/x/e.xsd" (Utf8.encodeString "<schema/>") = [] := by
    decide +kernel
  rw [hkept]
  refine List.forall_mem_cons.mpr ⟨fun bytes hbytes l hl => ?_,List.forall_mem_singleton.mpr fun bytes hbytes l hl => ?_⟩
  · obtain rfl := Except.ok.inj (hread.1.symm.trans hbytes)
    rw [hlinks.1,List.mem_singleton] at hl
    subst hl
    exact Link.not_strays hat (by decide +kernel)
  · obtain rfl := Except.ok.inj (hread.2.symm.trans hbytes)
    rw [hlinks.2] at hl
    cases hl

/-- Into directories without detours it is put in the same way. -/
theorem nested_relocated :
    (nestedRun ⟨"out"⟩).2.2.isOk ∧ (nestedRun ⟨"/mnt/copy"⟩).2.2.isOk ∧
      ({} : Disk).Fresh (nestedRoot ⟨"out"⟩) ∧ ({} : Disk).Fresh (nestedRoot ⟨"/mnt/copy"⟩) ∧
      Comparable nested {} {} (nestedRoot ⟨"out"⟩) (nestedRoot ⟨"/mnt/copy"⟩) (nestedRun ⟨"out"⟩).2.1
        (nestedRun ⟨"/mnt/copy"⟩).2.1 (nestedRun ⟨"out"⟩).1.kept (nestedRun ⟨"/mnt/copy"⟩).1.kept ∧
      ∀ place, (nestedRun ⟨"out"⟩).2.1.files.get? (({} : Disk).destination (nestedRoot ⟨"out"⟩) ++ place) =
        (nestedRun ⟨"/mnt/copy"⟩).2.1.files.get? (({} : Disk).destination (nestedRoot ⟨"/mnt/copy"⟩) ++ place) := by
  have hurls : ∀ uri ∈ ["file:///s/m.xsd","file:///s/x/e.xsd"], Location.IsUrl uri := by decide +kernel
  have hok : (nestedRun ⟨"out"⟩).2.2.isOk ∧ (nestedRun ⟨"/mnt/copy"⟩).2.2.isOk := by decide +kernel
  have hcomparable : Comparable nested {} {} (nestedRoot ⟨"out"⟩) (nestedRoot ⟨"/mnt/copy"⟩) (nestedRun ⟨"out"⟩).2.1
      (nestedRun ⟨"/mnt/copy"⟩).2.1 (nestedRun ⟨"out"⟩).1.kept (nestedRun ⟨"/mnt/copy"⟩).1.kept :=
    { text₁ := by decide
      text₂ := by decide
      straight := by decide
      fetched := fun _ _ _ _ _ _ _ => rfl
      linked := by
        intro now₁ now₂ _ _ _ _ uri bytes hread
        have huri := Supply.serves_memory _ _ _ _ hread
        exact links_of_isUrl (hurls uri huri) now₁ now₂ {} bytes
      stays₁ := nested_stays ⟨"out"⟩ ⟨"out/p/m.xsd"⟩ ⟨"out/p/x/e.xsd"⟩ (by decide +kernel) (by decide)
      stays₂ := nested_stays ⟨"/mnt/copy"⟩ ⟨"/mnt/copy/p/m.xsd"⟩ ⟨"/mnt/copy/p/x/e.xsd"⟩ (by decide +kernel) (by decide) }
  refine ⟨hok.1,hok.2,fun _ => rfl,fun _ => rfl,hcomparable,?_⟩
  exact (process_relocated nested {} {} ["file:///s/m.xsd"] "p").2 ⟨"out"⟩ ⟨"/mnt/copy"⟩ hok.1 hok.2 (fun _ => rfl)
    (fun _ => rfl) hcomparable

/-- Below the working directory, written as `.`, it is put next to the document, and elsewhere in a directory below. -/
theorem nested_flattens :
    (nestedRun ⟨"."⟩).2.2 = .ok [⟨"./p/m.xsd"⟩,⟨"./p/e.xsd"⟩] ∧
      (nestedRun ⟨"out"⟩).2.2 = .ok [⟨"out/p/m.xsd"⟩,⟨"out/p/x/e.xsd"⟩] ∧
      (∀ output : Path, ({} : Disk).Fresh (nestedRoot output)) ∧
      ¬ ∀ place, (nestedRun ⟨"."⟩).2.1.files.get? (({} : Disk).destination (nestedRoot ⟨"."⟩) ++ place) =
        (nestedRun ⟨"out"⟩).2.1.files.get? (({} : Disk).destination (nestedRoot ⟨"out"⟩) ++ place) := by
  refine ⟨by decide +kernel,by decide +kernel,fun _ _ => rfl,fun hsame => ?_⟩
  have hthere := hsame ["x","e.xsd"]
  revert hthere
  decide +kernel

end Download
end SchemaBinding
