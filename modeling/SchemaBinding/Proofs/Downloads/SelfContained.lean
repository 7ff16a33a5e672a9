import SchemaBinding.Proofs.Downloads.Rewritten

/-! Where the references in kept documents lead. A reference is rewritten by what it looks like, its document is asked
for in the file that the rewritten reference names or under the root, and it is kept where it was asked for first.
Main statement: a reference as it is rewritten names the file of its document if and only if it names the file that was
asked for, and the document is kept there; and plain copies have their references rewritten. -/
namespace SchemaBinding
namespace Download

/-- After a call on a new download: what is recorded was read and, if the call ended well, written with its references
rewritten. A reference to a recorded document then leads to the file of that document if and only if its file was asked
for where the reference leads, and no other file was asked for first. -/
theorem process_names_iff (supply : Supply) (catalog : Catalog) (directory : Path) (disk : Disk) (uris : List String)
    (package : String) :
    let root := rootOf { supply, catalog, directory } package
    let (d,after,answer) := process disk { supply, catalog, directory } uris package
    ∃ copies written : List Copy,
      d.kept.entries = copies.map Copy.entry ∧
      (∀ c ∈ copies, c.root = root ∧ c.resolver.catalog = catalog ∧ supply.fetch c.resolver.disk c.uri = .ok c.bytes) ∧
      (∀ c ∈ copies, disk.Grows c.resolver.disk ∧ c.resolver.disk.Grows after) ∧
      written ⊆ copies ∧ (answer.isOk ↔ copies ⊆ written) ∧ disk.Wrote (written.map Copy.file) after ∧
      (∀ c ∈ copies, c.Plain → ∀ l ∈ c.links, l.written ≠ l.relative c.resolver.disk → ∀ spelling ∈ spellings,
        ¬ HasAttribute c.text.toList (spelled spelling.1 spelling.2 l.written)) ∧
      ∀ c ∈ copies, ∀ (i : ℕ) (l : Link) (target : Path), c.references[i]? = some (some l.uri,some l.written) →
        d.kept.get? l.uri = some target →
        let now := c.names (l.relative c.resolver.disk)
        let asked := (l.target c.resolver.disk root c.directory).normalize
        (now = target.normalize ↔ asked = now ∧ asked = target.normalize) ∧
          (c.Plain → c.reads i = some (l.relative c.resolver.disk) ∨ c.reads i = some l.written) := by
  let d : Download := { supply, catalog, directory }
  let root := d.rootOf package
  obtain ⟨copies,written,h⟩ := d.walk_walked disk uris package
  have hkept : (d.walk disk uris package).kept.entries = copies.map Copy.entry := h.kept
  have hread : ∀ c ∈ copies,
      c.root = root ∧ c.resolver.catalog = catalog ∧ supply.fetch c.resolver.disk c.uri = .ok c.bytes :=
    fun c hc => ⟨h.below c hc,h.read c hc⟩
  have hrewritten : ∀ c ∈ copies, c.Plain → ∀ l ∈ c.links, l.written ≠ l.relative c.resolver.disk →
      ∀ spelling ∈ spellings, ¬ HasAttribute c.text.toList (spelled spelling.1 spelling.2 l.written) :=
    fun c _ hplain l hl hne spelling hspelling => hplain.not_hasAttribute hl hne hspelling
  refine ⟨copies,written,hkept,hread,h.during,h.among,process_isOk_iff h,h.wrote,hrewritten,?_⟩
  intro c hc i l target hi htarget
  have hentry := OrderedMap.get?_eq_some_iff.mp htarget
  rw [hkept] at hentry
  obtain ⟨b,hb,hsame⟩ := List.mem_map.mp hentry
  obtain ⟨huri,rfl⟩ := Prod.mk.inj hsame
  have hplaced := h.placed hb
  rw [huri] at hplaced
  refine ⟨l.names_iff c.resolver.disk hplaced,fun hplain => ?_⟩
  obtain ⟨now,hnow,rfl | rfl⟩ := hplain.reads hi
  · exact .inl hnow
  · exact .inr hnow

/-- A document that refers to another one by its path and then by its URL. -/
def twice : Supply := .memory (.ofList [
  ("file:///s/m.xsd",Utf8.encodeString
    "<schema><include schemaLocation='x/e.xsd'/><import schemaLocation='file:///s/x/e.xsd'/></schema>"),
  ("file:///s/x/e.xsd",Utf8.encodeString "<schema/>")])

def twiceRun : Download × Disk × Except Failure (List Path) :=
  process {} { supply := twice, directory := ⟨"out"⟩ } ["file:///s/m.xsd"] "p"

/-- The text that is kept of it. -/
def twiceKept : Bytes :=
  Utf8.encodeString "<schema><include schemaLocation='x/e.xsd'/><import schemaLocation='e.xsd'/></schema>"

/-- By its URL the document would be found next to the other one, but it had been kept in a directory below by then. -/
theorem twice_misnames :
    twiceRun.2.2 = .ok [⟨"out/p/m.xsd"⟩,⟨"out/p/x/e.xsd"⟩] ∧
      twiceRun.1.kept.entries = [("file:///s/m.xsd",⟨"out/p/m.xsd"⟩),("file:///s/x/e.xsd",⟨"out/p/x/e.xsd"⟩)] ∧
      twiceRun.2.1.read ⟨"out/p/m.xsd"⟩ = .ok twiceKept ∧
      ((twice.fetch {} "file:///s/m.xsd").map fun bytes => (references { disk := {} } "file:///s/m.xsd" bytes)[1]?) =
        .ok (some (some "file:///s/x/e.xsd",some "file:///s/x/e.xsd")) ∧
      ((references { disk := {} } "file:///s/m.xsd" twiceKept)[1]?).bind Prod.snd = some "e.xsd" ∧
      (((⟨"out/p/m.xsd"⟩ : Path).parent?.getD ⟨"out/p"⟩) / ⟨"e.xsd"⟩).normalize ≠ (⟨"out/p/x/e.xsd"⟩ : Path).normalize := by
  decide +kernel

end Download
end SchemaBinding
