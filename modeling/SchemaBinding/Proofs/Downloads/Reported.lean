import SchemaBinding.Proofs.Downloads.Overwritten

/-! What a call reports. A document is recorded before anything below it is looked at and long before it is written, and it
stays recorded when the call fails; later calls take it for one that is there.
Main statement: a call that ends well reports only what was written, by it or before, if and only if none before failed. -/
namespace SchemaBinding
namespace Download

theorem answer_of_process {disk : Disk} {d : Download} {uris : List String} {package : String} {paths : List Path}
    (h : (d.process disk uris package).2.2 = .ok paths) : paths = (d.process disk uris package).1.kept.values := by
  rw [process] at h ⊢
  cases hfailure : (d.walk disk uris package).failure with
  | none =>
    rw [hfailure] at h
    exact (Except.ok.inj h).symm
  | some failure =>
    rw [hfailure] at h
    cases h

/-- Calls change nothing of a download but what it has kept. -/
theorem run_settings (disk : Disk) (d : Download) (calls : List (List String × String)) :
    (d.run disk calls).1 = { d with kept := (d.run disk calls).1.kept } := by
  induction calls generalizing disk d with
  | nil => rfl
  | cons call calls ih => exact ih (d.process disk call.1 call.2).2.1 (d.process disk call.1 call.2).1

/-- After any calls on a new download, with whatever answers, one more call: what is recorded then was read, and of this
the copies that the calls wrote were written in turn, no document twice. If the call ends well, it reports the files of all
that is recorded; and all of this has been written if and only if every call before ended well too. -/
theorem run_reports_iff (supply : Supply) (catalog : Catalog) (directory : Path) (disk : Disk)
    (calls : List (List String × String)) (uris : List String) (package : String) :
    let d : Download := { supply, catalog, directory }
    let (e,between,answers) := d.run disk calls
    let (f,after,answer) := e.process between uris package
    let written := runWritten disk d calls ++ e.writtenBy between uris package
    ∃ copies : List Copy,
      f.kept.entries = copies.map Copy.entry ∧
      (∀ c ∈ copies, c.resolver.catalog = catalog ∧ supply.fetch c.resolver.disk c.uri = .ok c.bytes) ∧
      written ⊆ copies ∧ (written.map Copy.uri).Nodup ∧ disk.Wrote (written.map Copy.file) after ∧
      ∀ paths, answer = .ok paths →
        paths = copies.map Copy.target ∧ (copies ⊆ written ↔ ∀ earlier ∈ answers, earlier.isOk) := by
  let d : Download := { supply, catalog, directory }
  let e := (d.run disk calls).1
  let between := (d.run disk calls).2.1
  obtain ⟨old,hold,hanswers⟩ := run_runWritten disk d calls
  obtain ⟨new,hnew,hanswer⟩ := e.process_writtenBy between uris package
  have hsettings : e.supply = supply ∧ e.catalog = catalog := by
    have he : e = { d with kept := e.kept } := run_settings disk d calls
    rw [he]
    exact ⟨rfl,rfl⟩
  rw [hsettings.1,hsettings.2] at hnew
  have hall : Stored supply catalog (d.start disk) _ (old ++ new) _ := hold.trans hnew
  refine ⟨old ++ new,hall.kept,hall.read,hall.among,hall.distinct,hall.wrote,fun paths hpaths => ⟨?_,?_⟩⟩
  · rw [answer_of_process hpaths,OrderedMap.values]
    have hkept : (e.process between uris package).1.kept.entries = (old ++ new).map Copy.entry := hall.kept
    rw [hkept,List.map_map]
    rfl
  · have hok : (e.process between uris package).2.2.isOk := by
      rw [show (e.process between uris package).2.2 = .ok paths from hpaths]
      rfl
    rw [hold.append_subset_iff hnew,← hanswers]
    exact and_iff_left (hanswer.mp hok)

/-- Two documents, and a directory where the first of them is to be written. -/
def pair : Supply := .memory (.ofList [
  ("file:///s/a.xsd",Utf8.encodeString "<schema/>"),("file:///s/b.xsd",Utf8.encodeString "<schema/>")])

def blocked : Disk where
  directories := [["out"],["out","p"],["out","p","a.xsd"]]

def blockedCalls : List (List String × String) := [(["file:///s/a.xsd"],"p"),(["file:///s/b.xsd"],"p")]

/-- The second call reports the document that the first one could not write. -/
theorem blocked_reports_unwritten :
    let d : Download := { supply := pair, directory := ⟨"out"⟩ }
    (d.run blocked blockedCalls).2.2 = [.error .io,.ok [⟨"out/p/a.xsd"⟩,⟨"out/p/b.xsd"⟩]] ∧
      (runWritten blocked d blockedCalls).map Copy.entry = [("file:///s/b.xsd",⟨"out/p/b.xsd"⟩)] ∧
      ¬ (d.run blocked blockedCalls).2.1.isFile ⟨"out/p/a.xsd"⟩ := by
  decide +kernel

end Download
end SchemaBinding
