import SchemaBinding.Proofs.Downloads.Complete
import SchemaBinding.Proofs.Reading.Exchanged
import SchemaBinding.Proofs.Resolution.Asked

/-! Downloads and sessions. A session is told what a document is, while a download takes it from the end of the URI; a
document that the download takes for the other kind refers to nothing there.
Main statement: a download keeps every document that a session reads if and only if it keeps those that documents it takes
for the other kind refer to. -/
namespace SchemaBinding

/-! ## References of the two kinds of documents -/

namespace Download

/-- A reference leads nowhere unless it is written. -/
theorem map_uri_filterMap_of {α : Type} (location written : α → Option String) (resolve : String → Option String)
    (xs : List α) (h : ∀ x ∈ xs, location x = (written x).bind resolve) :
    (xs.filterMap fun x => Link.of? (location x) (written x)).map Link.uri = xs.filterMap location := by
  rw [List.map_filterMap]
  refine List.filterMap_congr fun x hx => ?_
  have hx := h x hx
  cases hwritten : written x with
  | none =>
    rw [hwritten] at hx
    rw [hx]
    rfl
  | some text => cases location x <;> rfl

theorem map_uri_schemaLinks {r : Reading} {s : Schema} (h : s.Resolved r) : (schemaLinks s).map Link.uri = s.locations :=
  map_uri_filterMap_of SchemaReference.location SchemaReference.written r.resolve? s.references h

theorem map_uri_definitionLinks {r : Reading} {d : Definitions} (h : d.Resolved r) :
    (definitionLinks d).map Link.uri = d.schemas.flatMap Schema.locations ++ d.locations := by
  have hschemas : (d.schemas.flatMap schemaLinks).map Link.uri = d.schemas.flatMap Schema.locations := by
    rw [List.map_flatMap]
    exact List.flatMap_congr fun s hs => map_uri_schemaLinks (h.schemas s hs)
  have himports : (d.imports.filterMap fun i => Link.of? i.location i.written).map Link.uri = d.locations :=
    map_uri_filterMap_of Import.location Import.written r.resolve? d.imports h.imports
  rw [definitionLinks,List.map_append,hschemas,himports]

end Download

namespace Session
open Resolution Download

variable {disk : Disk} {s : Session} {uri : String}

theorem map_uri_links_of_service (hservice : isService uri) {bytes : Bytes}
    (hfetch : s.supply.fetch disk uri = .ok bytes) :
    (links { disk, catalog := s.catalog } uri bytes).map Link.uri = ((s.readDefinitions? disk uri none).map fun d =>
      d.schemas.flatMap Schema.locations ++ d.locations).getD [] := by
  have hresolved := Definitions.resolved_read (s.reading disk uri none) bytes
  have hread : s.readDefinitions? disk uri none = (Definitions.read (s.reading disk uri none) bytes).toOption := by
    rw [readDefinitions?,hfetch]
    rfl
  rw [links_of_service hservice,hread]
  change (((Definitions.read (s.reading disk uri none) bytes).toOption.map definitionLinks).getD []).map Link.uri = _
  cases hread : Definitions.read (s.reading disk uri none) bytes with
  | error _ => rfl
  | ok d => exact map_uri_definitionLinks (hresolved d hread)

theorem map_uri_links_of_schema (hservice : ¬ isService uri) {bytes : Bytes}
    (hfetch : s.supply.fetch disk uri = .ok bytes) :
    (links { disk, catalog := s.catalog } uri bytes).map Link.uri = leads (s.readSchema? disk) uri := by
  have hresolved := Schema.resolved_read (s.reading disk uri none) bytes
  have hread : s.readSchema? disk uri none = (Schema.read (s.reading disk uri none) bytes).toOption := by
    rw [readSchema?,hfetch]
    rfl
  rw [links_of_schema hservice,leads,hread]
  change (((Schema.read (s.reading disk uri none) bytes).toOption.map schemaLinks).getD []).map Link.uri = _
  cases hread : Schema.read (s.reading disk uri none) bytes with
  | error _ => rfl
  | ok schema => exact map_uri_schemaLinks (hresolved schema hread)

variable (disk s) in
/-- A document that is not what the end of its URI says. -/
def Misjudged (uri : String) : Prop := isService uri ≠ (s.readDefinitions? disk uri none).isSome

instance : DecidablePred (s.Misjudged disk) := fun _ => inferInstanceAs (Decidable (_ ≠ _))

/-- A download finds what a session follows, and nothing in a document that is not what its URI says. -/
theorem map_uri_links {bytes : Bytes} (hfetch : s.supply.fetch disk uri = .ok bytes)
    (hread : (s.readDefinitions? disk uri none).isSome ∨ (s.readSchema? disk uri none).isSome) :
    (links { disk, catalog := s.catalog } uri bytes).map Link.uri =
      if s.Misjudged disk uri then [] else s.follows disk uri := by
  rcases Option.eq_none_or_eq_some (s.readDefinitions? disk uri none) with hdefinitions | ⟨d,hdefinitions⟩
  · have hschema : (s.readSchema? disk uri none).isSome := by simpa [hdefinitions] using hread
    by_cases hservice : isService uri
    · simp [Misjudged,map_uri_links_of_service hservice hfetch,hservice,hdefinitions]
    · simp [Misjudged,map_uri_links_of_schema hservice hfetch,hservice,hdefinitions,follows_of_readSchema? hschema]
  · have hschema : s.readSchema? disk uri none = none := by
      by_contra hsome
      simp [readDefinitions?_eq_none (Option.isSome_iff_ne_none.mpr hsome)] at hdefinitions
    by_cases hservice : isService uri
    · simp [Misjudged,map_uri_links_of_service hservice hfetch,follows_of_readDefinitions? hdefinitions,hservice,
        hdefinitions]
    · simp [Misjudged,map_uri_links_of_schema hservice hfetch,hservice,leads,hschema,hdefinitions]

/-- The sessions that have taken up one document, as a schema and as definitions. -/
def runsFrom (disk : Disk) (s : Session) (root : String) : List Session :=
  [(s.fresh.unmerged.takeSchema disk root none 0).1,(s.fresh.resolveDefinitions disk root).1]

variable {root : String} {run : Session}

theorem readers_of_mem_runsFrom (hrun : run ∈ s.runsFrom disk root) :
    run.readSchema? disk = s.readSchema? disk ∧ run.readDefinitions? disk = s.readDefinitions? disk := by
  rcases List.mem_cons.mp hrun with rfl | hrun
  · exact ⟨rfl,rfl⟩
  · obtain rfl := List.mem_singleton.mp hrun
    obtain ⟨_,_,_,hschema,hdefinitions,_⟩ := s.resolveDefinitions_asks disk root
    exact ⟨hschema,hdefinitions⟩

/-- What is read can be fetched. -/
theorem exists_fetch_of_mem_documentsRead (hrun : run ∈ s.runsFrom disk root) (h : uri ∈ run.documentsRead disk) :
    (∃ bytes, s.supply.fetch disk uri = .ok bytes) ∧
      ((s.readDefinitions? disk uri none).isSome ∨ (s.readSchema? disk uri none).isSome) := by
  obtain ⟨hschema,hdefinitions⟩ := readers_of_mem_runsFrom hrun
  have hread : (s.readDefinitions? disk uri none).isSome ∨ (s.readSchema? disk uri none).isSome := by
    rw [documentsRead,hdefinitions,hschema] at h
    rcases List.mem_append.mp h with h | h
    · exact .inl (List.mem_filter.mp h).2
    · exact .inr (List.mem_filter.mp h).2
  refine ⟨?_,hread⟩
  cases hfetch : s.supply.fetch disk uri with
  | ok bytes => exact ⟨bytes,rfl⟩
  | error failure => simp [readDefinitions?,readSchema?,hfetch,Except.bind,Except.toOption] at hread

theorem least_of_mem_runsFrom (hrun : run ∈ s.runsFrom disk root) {P : String → Prop} (hroot : P root)
    (hstep : ∀ uri ∈ run.documentsRead disk, P uri → ∀ location ∈ s.follows disk uri, P location) :
    ∀ uri ∈ run.documentsRead disk, P uri := by
  rcases List.mem_cons.mp hrun with rfl | hrun
  · exact takeSchema_least root hroot hstep
  · obtain rfl := List.mem_singleton.mp hrun
    exact resolveDefinitions_least root hroot hstep

end Session

namespace Download

/-- A call on a new download that ends well keeps its URIs, and with a document what it refers to, if there are documents
there. -/
theorem process_closed (disk : Disk) (d : Download) (hnew : d.kept = {}) {documents : OrderedMap String Bytes}
    (hsupply : d.supply = .memory documents) (uris : List String) (package : String)
    (hok : (d.process disk uris package).2.2.isOk) :
    let kept := (d.process disk uris package).1.kept.keys
    (∀ uri ∈ uris, uri ∈ documents.keys → uri ∈ kept) ∧
      ∀ uri ∈ kept, ∀ bytes, documents.get? uri = some bytes →
        ∃ now, disk.Grows now ∧ now.Grows (d.process disk uris package).2.1 ∧
          ∀ l ∈ links { disk := now, catalog := d.catalog } uri bytes, l.uri ∈ documents.keys → l.uri ∈ kept := by
  intro kept
  obtain ⟨copies,hvisits⟩ := d.visits_walk_memory disk hsupply uris package
  rw [hsupply,hnew] at hvisits
  obtain ⟨written,h⟩ := hvisits.walked
  have hfailure : (d.walk disk uris package).core.failure = none := (d.process_isOk_iff_walk disk uris package).mp hok
  have hkeys : kept = copies.map Copy.uri := h.keys
  obtain ⟨hentries,hlinks⟩ := hvisits.covers hfailure
  refine ⟨fun uri huri hthere => hentries _ (List.mem_map_of_mem huri) hthere,fun uri hkept bytes hbytes => ?_⟩
  rw [hkeys] at hkept
  obtain ⟨c,hc,rfl⟩ := List.mem_map.mp hkept
  have hread : documents.get? c.uri = some c.bytes := Supply.fetch_memory_eq_ok_iff.mp (h.read c hc).2
  obtain rfl : c.bytes = bytes := Option.some.inj (hread.symm.trans hbytes)
  have hcatalog : c.resolver.catalog = d.catalog := (h.read c hc).1
  refine ⟨c.resolver.disk,(h.during c hc).1,(h.during c hc).2,fun l hl hthere => ?_⟩
  rw [← hcatalog] at hl
  exact hlinks c hc (l.uri,l.target c.resolver.disk c.root c.directory) (List.mem_map_of_mem hl) hthere

/-- A download from one URI, of documents in memory whose references do not change while it writes, that ends well. In
either kind of walk through them from there, under any limit, a session follows the references that the download finds, but
for documents that are not what their URIs say, where the download finds none. So the download keeps all documents that are
read if and only if it keeps those that are read and referred to by such documents. -/
theorem process_keeps_read_iff (disk : Disk) (s : Session) (directory : Path) (root package : String)
    {documents : OrderedMap String Bytes} (hsupply : s.supply = .memory documents)
    (hok : (process disk { supply := s.supply, catalog := s.catalog, directory } [root] package).2.2.isOk)
    (hsame : ∀ uri bytes now, documents.get? uri = some bytes → disk.Grows now →
      now.Grows (process disk { supply := s.supply, catalog := s.catalog, directory } [root] package).2.1 →
      links { disk := now, catalog := s.catalog } uri bytes = links { disk, catalog := s.catalog } uri bytes) :
    let kept := (process disk { supply := s.supply, catalog := s.catalog, directory } [root] package).1.kept.keys
    ∀ run ∈ s.runsFrom disk root,
      (∀ uri ∈ run.documentsRead disk, ∃ bytes, documents.get? uri = some bytes ∧
        (links { disk, catalog := s.catalog } uri bytes).map Link.uri =
          if s.Misjudged disk uri then [] else s.follows disk uri) ∧
      ((∀ uri ∈ run.documentsRead disk, uri ∈ kept) ↔
        ∀ uri ∈ run.documentsRead disk, uri ∈ kept → s.Misjudged disk uri →
          ∀ location ∈ s.follows disk uri, location ∈ run.documentsRead disk → location ∈ kept) := by
  intro kept run hrun
  obtain ⟨hentry,hclosed⟩ := process_closed disk
    { supply := s.supply, catalog := s.catalog, directory } rfl hsupply [root] package hok
  have hserved : ∀ uri ∈ run.documentsRead disk, ∃ bytes, documents.get? uri = some bytes ∧
      (links { disk, catalog := s.catalog } uri bytes).map Link.uri =
        if s.Misjudged disk uri then [] else s.follows disk uri := by
    intro uri huri
    obtain ⟨⟨bytes,hfetch⟩,hread⟩ := Session.exists_fetch_of_mem_documentsRead hrun huri
    exact ⟨bytes,Supply.fetch_memory_eq_ok_iff.mp (hsupply ▸ hfetch),Session.map_uri_links hfetch hread⟩
  have hthere : ∀ uri ∈ run.documentsRead disk, uri ∈ documents.keys := by
    intro uri huri
    obtain ⟨bytes,hbytes,_⟩ := hserved uri huri
    exact OrderedMap.isSome_get?.mp (by simp [hbytes])
  refine ⟨hserved,fun hall uri _ _ _ location _ hlocation => hall location hlocation,fun hmisjudged uri huri => ?_⟩
  -- the documents that are read are led to from the root, and what leads to them is kept before them
  refine Session.least_of_mem_runsFrom (P := fun uri => uri ∈ run.documentsRead disk → uri ∈ kept) hrun ?_ ?_ uri huri huri
  · exact fun hroot => hentry root (List.mem_singleton_self root) (hthere root hroot)
  · intro uri huri hkept location hlocation hread
    obtain ⟨bytes,hbytes,hfound⟩ := hserved uri huri
    by_cases hwrong : s.Misjudged disk uri
    · exact hmisjudged uri huri (hkept huri) hwrong location hlocation hread
    · rw [if_neg hwrong] at hfound
      obtain ⟨now,hbefore,hafter,hlinks⟩ := hclosed uri (hkept huri) bytes hbytes
      rw [← hfound,← hsame uri bytes now hbytes hbefore hafter] at hlocation
      obtain ⟨l,hl,rfl⟩ := List.mem_map.mp hlocation
      exact hlinks l hl (hthere l.uri hread)

/-- Definitions at a URI that does not end as those of definitions do, and definitions that they import. -/
def stock : Session :=
  let text (parts : String) := "<definitions xmlns='http://schemas.xmlsoap.org/wsdl/'>" ++ parts ++ "</definitions>"
  Session.serving {} [("file:///s/Stock.WSDL",text "<import location='Quotes.wsdl'/>"),("file:///s/Quotes.wsdl",text "")]

def stockRun : Download × Disk × Except Failure (List Path) :=
  process {} { supply := stock.supply, catalog := stock.catalog, directory := ⟨"out"⟩ } ["file:///s/Stock.WSDL"] "p"

/-- Of the two documents that a walk through definitions reads, the first is not what its URI says, and alone is kept. -/
theorem process_keeps_read_iff_stock :
    stockRun.2.2.isOk ∧ stockRun.1.kept.keys = ["file:///s/Stock.WSDL"] ∧
    (stock.runsFrom {} "file:///s/Stock.WSDL").map (fun run => run.documentsRead {}) =
      [[],["file:///s/Stock.WSDL","file:///s/Quotes.wsdl"]] ∧
    ["file:///s/Stock.WSDL","file:///s/Quotes.wsdl"].filter (stock.Misjudged {} ·) = ["file:///s/Stock.WSDL"] ∧
    ∀ run ∈ stock.runsFrom {} "file:///s/Stock.WSDL",
      (∀ uri ∈ run.documentsRead {}, uri ∈ stockRun.1.kept.keys) ↔
        ∀ uri ∈ run.documentsRead {}, uri ∈ stockRun.1.kept.keys → stock.Misjudged {} uri →
          ∀ location ∈ stock.follows {} uri, location ∈ run.documentsRead {} → location ∈ stockRun.1.kept.keys := by
  have hok : stockRun.2.2.isOk := by decide +kernel
  have hurls : ∀ uri ∈ ["file:///s/Stock.WSDL","file:///s/Quotes.wsdl"], Location.IsUrl uri := by decide +kernel
  refine ⟨hok,by decide +kernel,by decide +kernel,by decide +kernel,fun run hrun =>
    (process_keeps_read_iff {} stock ⟨"out"⟩ "file:///s/Stock.WSDL" "p" rfl hok ?_ run hrun).2⟩
  intro uri bytes now hbytes _ _
  have huri := OrderedMap.isSome_get?.mp (Option.isSome_of_eq_some hbytes)
  exact links_of_isUrl (hurls uri huri) now {} _ bytes

/-- The session reads both, and the download keeps the first. -/
theorem stock_loses_import :
    stockRun.2.2 = .ok [⟨"out/p/Stock.WSDL"⟩] ∧
      (stock.fresh.resolveDefinitions {} "file:///s/Stock.WSDL").2 = .ok () ∧
      "file:///s/Quotes.wsdl" ∈ (stock.fresh.resolveDefinitions {} "file:///s/Stock.WSDL").1.documentsRead {} ∧
      "file:///s/Quotes.wsdl" ∉ stockRun.1.kept.keys := by
  decide +kernel

end Download
end SchemaBinding
