import SchemaBinding.Proofs.Downloads.Copies
import SchemaBinding.Proofs.Downloads.Normalized

/-! Where references lead. A document is asked for in the file its reference names, if that lies below the root, and else
under the root by the end of its URI; it is kept in the first file it was asked for.
Main statement: a reference names the file of its document if and only if it names the file that was asked for, and the
document is kept there. -/
namespace SchemaBinding
namespace Download

/-! ## References as they are read -/

def schemaReferences (s : Schema) : List (Option String × Option String) :=
  s.references.map fun r => (r.location,r.written)

/-- The references of a document: where each leads, if anywhere, and how it is written. -/
def references (r : Resolver) (uri : String) (bytes : Bytes) : List (Option String × Option String) :=
  let reading : Reading := { resolver := r, location := some uri }
  if isService uri then
    match Definitions.read reading bytes with
    | .ok d => d.schemas.flatMap schemaReferences ++ d.imports.map fun i => (i.location,i.written)
    | .error _ => []
  else
    match Schema.read reading bytes with
    | .ok s => schemaReferences s
    | .error _ => []

theorem links_eq_filterMap (r : Resolver) (uri : String) (bytes : Bytes) :
    links r uri bytes = (references r uri bytes).filterMap fun e => Link.of? e.1 e.2 := by
  have hschema (s : Schema) : schemaLinks s = (schemaReferences s).filterMap fun e => Link.of? e.1 e.2 := by
    rw [schemaLinks,schemaReferences,List.filterMap_map]
    rfl
  by_cases hservice : isService uri
  · simp only [links,references,if_pos hservice]
    cases Definitions.read { resolver := r, location := some uri } bytes with
    | error _ => rfl
    | ok d =>
      have hschemas : d.schemas.flatMap schemaLinks =
          (d.schemas.flatMap schemaReferences).filterMap fun e => Link.of? e.1 e.2 := by
        rw [List.filterMap_flatMap]
        exact List.flatMap_congr fun s _ => hschema s
      simp only [definitionLinks,List.filterMap_append,hschemas,List.filterMap_map]
      rfl
  · simp only [links,references,if_neg hservice]
    cases Schema.read { resolver := r, location := some uri } bytes with
    | error _ => rfl
    | ok s => exact hschema s

theorem mem_links_iff {r : Resolver} {uri : String} {bytes : Bytes} {l : Link} :
    l ∈ links r uri bytes ↔ (some l.uri,some l.written) ∈ references r uri bytes := by
  rw [links_eq_filterMap,List.mem_filterMap]
  constructor
  · rintro ⟨⟨location,written⟩,he,hl⟩
    cases location with
    | none => cases hl
    | some location =>
      cases written with
      | none => cases hl
      | some written =>
        cases hl
        exact he
  · exact fun h => ⟨_,h,rfl⟩

namespace Copy

def references (c : Copy) : List (Option String × Option String) := Download.references c.resolver c.uri c.bytes

/-- What is read of the text that is written. -/
def rewritten (c : Copy) : List (Option String × Option String) := Download.references c.resolver c.uri c.content

/-- How a reference is written in the text that is kept. -/
def reads (c : Copy) (i : ℕ) : Option String := (c.rewritten[i]?).bind Prod.snd

/-- The file that a location in a copy names. -/
def names (c : Copy) (written : String) : Path := (c.directory / ⟨written⟩).normalize

end Copy

/-! ## Files asked for -/

/-- A file that a document can be asked for in: under the root by the end of its URI, or where a reference leads. -/
def Placed (root : Path) (uri : String) (target : Path) : Prop :=
  target = root / ⟨Location.fileName uri⟩ ∨ target.normalize = target ∧ target.startsWith root

theorem Link.placed_target (l : Link) (disk : Disk) (root directory : Path) :
    Placed root l.uri (l.target disk root directory) := by
  by_cases hinside : (directory / ⟨l.relative disk⟩).normalize.startsWith root
  · have htarget : l.target disk root directory = (directory / ⟨l.relative disk⟩).normalize := if_pos hinside
    rw [htarget]
    exact .inr ⟨Path.normalize_normalize _,hinside⟩
  · exact .inl (if_neg hinside)

theorem Walked.placed {supply : Supply} {catalog : Catalog} {root : Path} {uris : List String} {p q : Progress}
    {copies written : List Copy} (h : Walked supply catalog root (entryRequests root uris) p q copies written)
    {c : Copy} (hc : c ∈ copies) : Placed root c.uri c.target := by
  rcases h.asked c hc with hentry | ⟨b,hb,hlink⟩
  · obtain ⟨uri,_,hrequest⟩ := List.mem_map.mp hentry
    obtain ⟨huri,htarget⟩ := Prod.mk.inj hrequest
    exact .inl (by rw [← htarget,huri])
  · obtain ⟨l,_,hrequest⟩ := List.mem_map.mp hlink
    obtain ⟨huri,htarget⟩ := Prod.mk.inj hrequest
    have hplaced := l.placed_target b.resolver.disk b.root b.directory
    rwa [htarget,huri,h.below b hb] at hplaced

/-- The file a reference names is that of a document that may be asked for in it if and only if the reference names the
file it asks for, and that is the file of the document. -/
theorem Link.names_iff (l : Link) (disk : Disk) {root directory target : Path} (h : Placed root l.uri target) :
    (directory / ⟨l.relative disk⟩).normalize = target.normalize ↔
      (l.target disk root directory).normalize = (directory / ⟨l.relative disk⟩).normalize ∧
        (l.target disk root directory).normalize = target.normalize := by
  constructor
  · intro hnames
    by_cases hinside : (directory / ⟨l.relative disk⟩).normalize.startsWith root
    · have hasked : l.target disk root directory = (directory / ⟨l.relative disk⟩).normalize := if_pos hinside
      have hsame := Path.normalize_normalize (directory / ⟨l.relative disk⟩)
      rw [hasked,hsame]
      exact ⟨rfl,hnames⟩
    · have hasked : l.target disk root directory = root / ⟨Location.fileName l.uri⟩ := if_neg hinside
      rcases h with htarget | ⟨hnormal,hbelow⟩
      · rw [hasked,← htarget]
        exact ⟨hnames.symm,rfl⟩
      · rw [hnames,hnormal] at hinside
        exact absurd hbelow hinside
  · intro h
    exact h.1.symm.trans h.2

end Download
end SchemaBinding
