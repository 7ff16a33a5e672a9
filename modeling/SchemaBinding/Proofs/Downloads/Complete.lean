import SchemaBinding.Proofs.Downloads.Visits
import SchemaBinding.Proofs.Reading.Located

/-! All that is referred to. A walk that does not fail keeps every document it is asked for, if there is such a document,
and it is asked for all that a document it keeps refers to. It keeps no others, since nothing else is asked for.
Main statement: a call on a new download comes to an end, and if it ends well it has kept what can be reached from its
URIs and nothing else. -/
namespace SchemaBinding
namespace Download

section
variable {documents : OrderedMap String Bytes} {catalog : Catalog} {root : Path} {p q : Progress}
  {requests : List (String × Path)} {copies : List Copy}

/-- What holds of all that a walk is asked for, and of what a document refers to if it holds of the document, holds of all
that the walk keeps. -/
theorem Visits.least {supply : Supply} (h : Visits supply catalog root p requests copies q) {P : String → Prop}
    (hrequests : ∀ request ∈ requests, P request.1)
    (hlinks : ∀ c ∈ copies, P c.uri → ∀ request ∈ c.requests, P request.1) : ∀ c ∈ copies, P c.uri := by
  induction h with
  | done p => simp
  | passed _ _ ih | absent _ _ _ ih =>
    exact ih (List.forall_mem_cons.mp hrequests).2 hlinks
  | kept _ _ _ _ ihinner ihouter =>
    obtain ⟨hfirst,hrest⟩ := List.forall_mem_cons.mp hrequests
    obtain ⟨⟨hown,hinner⟩,houter⟩ :=
      (List.forall_mem_append.mp hlinks).imp_left List.forall_mem_cons.mp
    refine List.forall_mem_append.mpr ⟨List.forall_mem_cons.mpr ⟨hfirst,?_⟩,ihouter hrest houter⟩
    exact ihinner (hown hfirst) hinner

/-- Unless a walk fails it keeps all it is asked for, and all that the documents it keeps refer to. -/
theorem Visits.covers (h : Visits (.memory documents) catalog root p requests copies q) (hfailure : q.failure = none) :
    (∀ request ∈ requests, request.1 ∈ documents.keys → request.1 ∈ q.kept.keys) ∧
      ∀ c ∈ copies, ∀ request ∈ c.requests, request.1 ∈ documents.keys → request.1 ∈ q.kept.keys := by
  induction h with
  | done p => simp
  | @passed p q uri target rest copies hskip hrest ih =>
    obtain ⟨written,hwalked⟩ := hrest.walked
    have hkept : uri ∈ p.kept.keys := by
      simpa [(hwalked.complete.mp hfailure).1,OrderedMap.contains] using hskip
    have hfirst : uri ∈ q.kept.keys := by
      rw [hwalked.keys]
      exact List.mem_append_left _ hkept
    exact (ih hfailure).imp_left fun hrequests => List.forall_mem_cons.mpr ⟨fun _ => hfirst,hrequests⟩
  | @absent p q uri target rest copies failure hskip hread hrest ih =>
    have hnone : uri ∉ documents.keys := by
      intro hserved
      obtain ⟨bytes,hbytes⟩ := Option.isSome_iff_exists.mp (OrderedMap.isSome_get?.mpr hserved)
      rw [Supply.fetch_memory_eq_ok_iff.mpr hbytes] at hread
      cases hread
    exact (ih hfailure).imp_left fun hrequests => List.forall_mem_cons.mpr ⟨fun h => absurd h hnone,hrequests⟩
  | @kept p q r uri target bytes rest inner outer hskip hread hinner houter ihinner ihouter =>
    obtain ⟨written,hwalked⟩ := hinner.walked
    obtain ⟨written',hwalked'⟩ := houter.walked
    have hbefore : q.failure = none := Progress.failure_of_write (hwalked'.complete.mp hfailure).1
    have hlater : ∀ other ∈ q.kept.keys, other ∈ r.kept.keys := by
      intro other hother
      rw [hwalked'.keys,Progress.kept_write]
      exact List.mem_append_left _ hother
    have hfirst : uri ∈ r.kept.keys := by
      refine hlater uri ?_
      rw [hwalked.keys]
      exact List.mem_append_left _ (OrderedMap.mem_keys_insert.mpr (.inl rfl))
    obtain ⟨hown,hbelow⟩ := ihinner hbefore
    obtain ⟨hrest,hafter⟩ := ihouter hfailure
    refine ⟨List.forall_mem_cons.mpr ⟨fun _ => hfirst,hrest⟩,?_⟩
    refine List.forall_mem_append.mpr ⟨List.forall_mem_cons.mpr ⟨?_,?_⟩,hafter⟩
    · exact fun request hrequest hserved => hlater _ (hown request hrequest hserved)
    · exact fun c hc request hrequest hserved => hlater _ (hbelow c hc request hrequest hserved)

end

/-! ## What can be reached -/

/-- What is reached from URIs where the documents that there are refer to others. -/
inductive Reached (documents : OrderedMap String Bytes) (report : String → List Link) (uris : List String) :
    String → Prop where
  | entry {uri : String} : uri ∈ uris → Reached documents report uris uri
  | link {uri : String} {l : Link} : Reached documents report uris uri → uri ∈ documents.keys → l ∈ report uri →
      Reached documents report uris l.uri

/-- Whether a document can be read as what its URI says that it is. -/
def isReadable (r : Resolver) (uri : String) (bytes : Bytes) : Bool :=
  let reading : Reading := { resolver := r, location := some uri }
  if isService uri then (Definitions.read reading bytes).isOk else (Schema.read reading bytes).isOk

theorem links_of_service {uri : String} (h : isService uri) {r : Resolver} {bytes : Bytes} : links r uri bytes =
    ((Definitions.read { resolver := r, location := some uri } bytes).toOption.map definitionLinks).getD [] := by
  unfold links
  rw [if_pos h]
  cases Definitions.read { resolver := r, location := some uri } bytes <;> rfl

theorem links_of_schema {uri : String} (h : ¬ isService uri) {r : Resolver} {bytes : Bytes} : links r uri bytes =
    ((Schema.read { resolver := r, location := some uri } bytes).toOption.map schemaLinks).getD [] := by
  unfold links
  rw [if_neg h]
  cases Schema.read { resolver := r, location := some uri } bytes <;> rfl

theorem links_eq_nil {r : Resolver} {uri : String} {bytes : Bytes} (h : ¬ isReadable r uri bytes) :
    links r uri bytes = [] := by
  have hnone {α : Type} {read : Except Failure α} (h : ¬ read.isOk) : read.toOption = none := by
    cases read with
    | ok a => exact absurd rfl h
    | error e => rfl
  unfold isReadable at h
  by_cases hservice : isService uri
  · rw [if_pos hservice] at h
    rw [links_of_service hservice,hnone h]
    rfl
  · rw [if_neg hservice] at h
    rw [links_of_schema hservice,hnone h]
    rfl

theorem links_of_isUrl {uri : String} (h : Location.IsUrl uri) (disk disk' : Disk) (catalog : Catalog) (bytes : Bytes) :
    links { disk, catalog } uri bytes = links { disk := disk', catalog } uri bytes := by
  have hsame := Reading.same_of_isUrl h catalog disk disk' none
  by_cases hservice : isService uri
  · rw [links_of_service hservice,links_of_service hservice,Definitions.read_same hsame]
  · rw [links_of_schema hservice,links_of_schema hservice,Schema.read_same hsame]

/-- What a walk keeps is what can be reached. -/
theorem Visits.mem_kept_iff {documents : OrderedMap String Bytes} {catalog : Catalog} {root : Path} {disk : Disk}
    {uris : List String} {copies : List Copy} {q : Progress}
    (h : Visits (.memory documents) catalog root { disk } (entryRequests root uris) copies q) (hfailure : q.failure = none)
    {report : String → List Link} (hreport : ∀ c ∈ copies, c.links = report c.uri) (uri : String) :
    uri ∈ q.kept.keys ↔ uri ∈ documents.keys ∧ Reached documents report uris uri := by
  obtain ⟨written,hwalked⟩ := h.walked
  have hkeys : q.kept.keys = copies.map Copy.uri := hwalked.keys
  have hserved : ∀ c ∈ copies, c.uri ∈ documents.keys := fun c hc =>
    Supply.serves_memory documents _ _ _ (hwalked.read c hc).2
  obtain ⟨hentries,hlinks⟩ := h.covers hfailure
  constructor
  · intro hkept
    rw [hkeys] at hkept
    obtain ⟨c,hc,rfl⟩ := List.mem_map.mp hkept
    refine ⟨hserved c hc,h.least (P := Reached documents report uris) ?_ ?_ c hc⟩
    · intro request hrequest
      obtain ⟨uri,huri,rfl⟩ := List.mem_map.mp hrequest
      exact .entry huri
    · intro c hc hreached request hrequest
      obtain ⟨l,hl,rfl⟩ := List.mem_map.mp hrequest
      exact .link hreached (hserved c hc) (hreport c hc ▸ hl)
  · rintro ⟨hthere,hreached⟩
    induction hreached with
    | entry huri => exact hentries _ (List.mem_map_of_mem huri) hthere
    | @link base l _ hbase hl ih =>
      have hkept := ih hbase
      rw [hkeys] at hkept
      obtain ⟨c,hc,rfl⟩ := List.mem_map.mp hkept
      rw [← hreport c hc] at hl
      exact hlinks c hc _ (List.mem_map_of_mem hl) hthere

/-- What the documents refer to: as they were read, and as they would be read for those that were not. -/
def reportOf (disk : Disk) (catalog : Catalog) (documents : OrderedMap String Bytes) (copies : List Copy) (uri : String) :
    List Link :=
  match copies.find? fun c => c.uri = uri with
  | some c => c.links
  | none => links { disk, catalog } uri ((documents.get? uri).getD [])

theorem reportOf_eq {disk : Disk} {catalog : Catalog} {documents : OrderedMap String Bytes} {copies : List Copy}
    (hdistinct : (copies.map Copy.uri).Nodup) {c : Copy} (hc : c ∈ copies) :
    reportOf disk catalog documents copies c.uri = c.links := by
  have hfound : copies.find? (fun b => b.uri = c.uri) = some c := by
    have hthere : (copies.find? fun b => b.uri = c.uri).isSome := List.find?_isSome.mpr ⟨c,hc,by simp⟩
    obtain ⟨b,hb⟩ := Option.isSome_iff_exists.mp hthere
    have hsame : b.uri = c.uri := by simpa using List.find?_some hb
    rwa [List.inj_on_of_nodup_map hdistinct (List.mem_of_find?_eq_some hb) hc hsame] at hb
  rw [reportOf,hfound]

/-- A call on a new download with documents in memory. The walk has one end, by the rules that set no bound to it, and the
call gives what there is at that end. Every document that is recorded is recorded once, with what it refers to, and one
that cannot be read refers to nothing and keeps its text. If the call ends well they are all written, and they are those
documents that can be reached from the URIs. -/
theorem process_complete (documents : OrderedMap String Bytes) (catalog : Catalog) (directory : Path) (disk : Disk)
    (uris : List String) (package : String) :
    let start : Download := { supply := .memory documents, catalog, directory }
    let root := start.rootOf package
    let d := (start.process disk uris package).1
    let after := (start.process disk uris package).2.1
    let answer := (start.process disk uris package).2.2
    ∃ (copies written : List Copy) (last : Progress) (report : String → List Link),
      Visits (.memory documents) catalog root { disk } (entryRequests root uris) copies last ∧
      (∀ others other, Visits (.memory documents) catalog root { disk } (entryRequests root uris) others other →
        others = copies ∧ other = last) ∧
      d.kept = last.kept ∧ after = last.disk ∧ (answer.isOk ↔ last.failure = none) ∧
      d.kept.entries = copies.map Copy.entry ∧ (copies.map Copy.uri).Nodup ∧
      (∀ c ∈ copies, documents.get? c.uri = some c.bytes ∧ c.links = report c.uri ∧
        (¬ isReadable c.resolver c.uri c.bytes → c.links = [] ∧ c.text = Utf8.decodeLossy c.bytes)) ∧
      (∀ uri bytes, documents.get? uri = some bytes →
        (∃ now, disk.Grows now ∧ now.Grows after ∧ report uri = links { disk := now, catalog } uri bytes) ∧
        (Location.IsUrl uri → report uri = links { disk, catalog } uri bytes)) ∧
      written ⊆ copies ∧ disk.Wrote (written.map Copy.file) after ∧
      (answer.isOk → copies ⊆ written ∧
        ∀ uri, uri ∈ d.kept.keys ↔ uri ∈ documents.keys ∧ Reached documents report uris uri) := by
  let d : Download := { supply := .memory documents, catalog, directory }
  let p := d.walk disk uris package
  obtain ⟨copies,hvisits⟩ := d.visits_walk_memory disk rfl uris package
  obtain ⟨written,h⟩ := hvisits.walked
  have hanswer : (d.process disk uris package).2.2.isOk ↔ p.core.failure = none := d.process_isOk_iff_walk disk uris package
  have hdistinct : (copies.map Copy.uri).Nodup := by
    have hkeys : p.core.kept.keys = copies.map Copy.uri := h.keys
    exact hkeys ▸ p.core.kept.keys_nodup
  have hread : ∀ c ∈ copies, documents.get? c.uri = some c.bytes := fun c hc => Supply.fetch_memory_eq_ok_iff.mp (h.read c hc).2
  have hreport : ∀ c ∈ copies, c.links = reportOf disk catalog documents copies c.uri :=
    fun c hc => (reportOf_eq hdistinct hc).symm
  have hlinks {c : Copy} (hc : c ∈ copies) : c.links = links { disk := c.resolver.disk, catalog } c.uri c.bytes := by
    have hcatalog : c.resolver.catalog = catalog := (h.read c hc).1
    rw [Copy.links,← hcatalog]
  refine ⟨copies,written,p.core,reportOf disk catalog documents copies,hvisits,fun _ _ => hvisits.unique,rfl,rfl,hanswer,
    h.kept,hdistinct,fun c hc => ⟨hread c hc,hreport c hc,fun hunread => ?_⟩,fun uri bytes hserved => ?_,h.among,h.wrote,
    fun hok => ⟨(h.complete.mp (hanswer.mp hok)).2,hvisits.mem_kept_iff (hanswer.mp hok) hreport⟩⟩
  · have hnone : c.links = [] := links_eq_nil hunread
    exact ⟨hnone,by rw [Copy.text,hnone]; rfl⟩
  · by_cases hkept : uri ∈ copies.map Copy.uri
    · obtain ⟨c,hc,rfl⟩ := List.mem_map.mp hkept
      obtain rfl : c.bytes = bytes := Option.some.inj ((hread c hc).symm.trans hserved)
      rw [← hreport c hc,hlinks hc]
      exact ⟨⟨_,(h.during c hc).1,(h.during c hc).2,rfl⟩,fun hurl => links_of_isUrl hurl _ _ catalog c.bytes⟩
    · have hnone : copies.find? (fun c => c.uri = uri) = none := by
        rw [List.find?_eq_none]
        exact fun c hc => by simpa using fun huri => hkept (List.mem_map.mpr ⟨c,hc,huri⟩)
      have hinitial : reportOf disk catalog documents copies uri = links { disk, catalog } uri bytes := by
        simp only [reportOf,hnone,hserved,Option.getD_some]
      exact ⟨⟨disk,.refl disk,h.wrote.grows,hinitial⟩,fun _ => hinitial⟩

end Download
end SchemaBinding
