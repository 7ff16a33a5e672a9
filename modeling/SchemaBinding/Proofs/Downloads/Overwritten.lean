import SchemaBinding.Proofs.Downloads.Copies

/-! Files that are shared. A download knows its documents by their URIs, but it names their files by what the URIs and
the references end in, so documents from different places can be kept in one file.
Main statement: after any calls, a file holds the text that was written there last, and every document is found in its
file if and only if documents whose files are the same have the same text. -/
namespace SchemaBinding
namespace Download

/-- Calls on one download, one after another, with all their answers. -/
def run (disk : Disk) (d : Download) : List (List String × String) → Download × Disk × List (Except Failure (List Path))
  | [] => (d,disk,[])
  | (uris,package) :: calls =>
    let (d,disk,answer) := d.process disk uris package
    let (d,disk,answers) := run disk d calls
    (d,disk,answer :: answers)

/-- Where a walk begins. -/
def start (disk : Disk) (d : Download) : Progress := { disk, kept := d.kept }

/-- The copies that calls on one download write, in order. -/
def runWritten (disk : Disk) (d : Download) : List (List String × String) → List Copy
  | [] => []
  | (uris,package) :: calls =>
    let (e,after,_) := d.process disk uris package
    d.writtenBy disk uris package ++ runWritten after e calls

theorem process_writtenBy (disk : Disk) (d : Download) (uris : List String) (package : String) :
    let (e,after,answer) := d.process disk uris package
    ∃ copies, Stored d.supply d.catalog (d.start disk) (e.start after) copies (d.writtenBy disk uris package) ∧
      (answer.isOk ↔ copies ⊆ d.writtenBy disk uris package) := by
  obtain ⟨copies,h⟩ := d.walk_writtenBy disk uris package
  exact ⟨copies,⟨h.kept,h.read,h.during,h.among,h.distinct,h.wrote⟩,process_isOk_iff h⟩

theorem run_runWritten (disk : Disk) (d : Download) (calls : List (List String × String)) :
    let (e,after,answers) := d.run disk calls
    ∃ copies, Stored d.supply d.catalog (d.start disk) (e.start after) copies (runWritten disk d calls) ∧
      ((∀ answer ∈ answers, answer.isOk) ↔ copies ⊆ runWritten disk d calls) := by
  induction calls generalizing disk d with
  | nil => exact ⟨[],.refl _ _ _,by simp⟩
  | cons call calls ih =>
    obtain ⟨copies,hfirst,hanswer⟩ := d.process_writtenBy disk call.1 call.2
    obtain ⟨copies',hrest,hanswers⟩ := ih (d.process disk call.1 call.2).2.1 (d.process disk call.1 call.2).1
    refine ⟨copies ++ copies',hfirst.trans hrest,?_⟩
    rw [runWritten,hfirst.append_subset_iff hrest,← hanswer,← hanswers]
    exact List.forall_mem_cons

theorem run_stored (disk : Disk) (d : Download) (calls : List (List String × String)) :
    let (e,after,answers) := d.run disk calls
    ∃ copies written, Stored d.supply d.catalog (d.start disk) (e.start after) copies written ∧
      ((∀ answer ∈ answers, answer.isOk) ↔ copies ⊆ written) :=
  (run_runWritten disk d calls).imp fun _ h => ⟨_,h⟩

/-- After any calls on a new download, with whatever answers: what is recorded was read and, unless a call failed,
written; a file holds what was written there last; and so each document is found in its file if and only if those that
are kept in one file are the same. -/
theorem run_files_iff (supply : Supply) (catalog : Catalog) (directory : Path) (disk : Disk)
    (calls : List (List String × String)) :
    let (d,after,answers) := run disk { supply, catalog, directory } calls
    ∃ copies written : List Copy,
      d.kept.entries = copies.map Copy.entry ∧
      (∀ c ∈ copies, c.resolver.catalog = catalog ∧ supply.fetch c.resolver.disk c.uri = .ok c.bytes) ∧
      (∀ c ∈ copies, disk.Grows c.resolver.disk ∧ c.resolver.disk.Grows after) ∧
      written ⊆ copies ∧ (written.map Copy.uri).Nodup ∧
      ((∀ answer ∈ answers, answer.isOk) ↔ copies ⊆ written) ∧
      (∀ c ∈ written, ∃ b, (written.reverse.find? fun b => after.locate? b.target = after.locate? c.target) = some b ∧
        after.read c.target = .ok b.content) ∧
      ((∀ c ∈ written, after.read c.target = .ok c.content) ↔
        ∀ b ∈ written, ∀ c ∈ written, after.locate? b.target = after.locate? c.target → b.content = c.content) := by
  obtain ⟨copies,written,h,hanswers⟩ := run_stored disk { supply, catalog, directory } calls
  let after := (run disk { supply, catalog, directory } calls).2.1
  have hlast : ∀ c ∈ written, ∃ b,
      (written.reverse.find? fun b => after.locate? b.target = after.locate? c.target) = some b ∧
        after.read c.target = .ok b.content := by
    intro c hc
    obtain ⟨file,hfile,hread⟩ := h.wrote.read_eq (List.mem_map_of_mem hc)
    rw [← List.map_reverse,List.find?_map,Option.map_eq_some_iff] at hfile
    obtain ⟨b,hb,rfl⟩ := hfile
    exact ⟨b,hb,hread⟩
  have hfiles : (∀ c ∈ written, after.read c.target = .ok c.content) ↔
      ∀ b ∈ written, ∀ c ∈ written, after.locate? b.target = after.locate? c.target → b.content = c.content := by
    constructor
    · intro hown b hb c hc hplace
      obtain ⟨b',hb',hread⟩ := hlast b hb
      obtain ⟨c',hc',hread'⟩ := hlast c hc
      have hsame : b' = c' := by
        rw [hplace,hc'] at hb'
        exact (Option.some.inj hb').symm
      rw [hown b hb] at hread
      rw [hown c hc] at hread'
      rw [Except.ok.inj hread,Except.ok.inj hread',hsame]
    · intro hsame c hc
      obtain ⟨b,hb,hread⟩ := hlast c hc
      have hplace : after.locate? b.target = after.locate? c.target := by simpa using List.find?_some hb
      have hwritten : b ∈ written := List.mem_reverse.mp (List.mem_of_find?_eq_some hb)
      rw [hread,hsame b hwritten c hc hplace]
  exact ⟨copies,written,h.kept,h.read,h.during,h.among,h.distinct,hanswers,hlast,hfiles⟩

/-- Two documents of one name, from different places. -/
def namesakes : Supply := .memory (.ofList [
  ("file:///one/t.xsd",Utf8.encodeString "<schema targetNamespace='urn:one'/>"),
  ("file:///two/t.xsd",Utf8.encodeString "<schema targetNamespace='urn:two'/>")])

def namesakesRun : Download × Disk × List (Except Failure (List Path)) :=
  run {} { supply := namesakes, directory := ⟨"out"⟩ } [(["file:///one/t.xsd","file:///two/t.xsd"],"p")]

/-- Both are recorded with the same file, which holds the second. -/
theorem namesakes_share_file :
    namesakesRun.2.2 = [.ok [⟨"out/p/t.xsd"⟩,⟨"out/p/t.xsd"⟩]] ∧
      namesakesRun.1.kept.get? "file:///one/t.xsd" = some ⟨"out/p/t.xsd"⟩ ∧
      namesakesRun.1.kept.get? "file:///two/t.xsd" = some ⟨"out/p/t.xsd"⟩ ∧
      namesakesRun.2.1.read ⟨"out/p/t.xsd"⟩ = .ok (Utf8.encodeString "<schema targetNamespace='urn:two'/>") ∧
      Utf8.encodeString "<schema targetNamespace='urn:one'/>" ≠ Utf8.encodeString "<schema targetNamespace='urn:two'/>" := by
  decide +kernel

end Download
end SchemaBinding
