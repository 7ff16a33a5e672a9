import SchemaBinding.Proofs.Packages.Runs

/-! The packages of a corpus. Every document is in a group, so the classes of every document are put in a
package, and which one depends on the URIs of the corpus alone. Whatever package a class was in before is
written over, at every depth; so a corpus is put in packages as if it had been in none. -/
namespace SchemaBinding

namespace Class

mutual

/-- The package a class is put in last is the one it is in. -/
theorem assignPackage_assignPackage (p q : String) : ∀ c : Class, (c.assignPackage q).assignPackage p = c.assignPackage p
  | { inner, .. } => by
    have hinner := assignPackages_assignPackages p q inner
    simp only [assignPackage,hinner]

theorem assignPackages_assignPackages (p q : String) :
    ∀ cs : List Class, assignPackages p (assignPackages q cs) = assignPackages p cs
  | [] => rfl
  | c :: cs => by
    have hc := assignPackage_assignPackage p q c
    have hcs := assignPackages_assignPackages p q cs
    simp only [assignPackages,hc,hcs]

end

theorem length_assignPackages (p : String) (cs : List Class) : (assignPackages p cs).length = cs.length := by
  rw [assignPackages_eq_map,List.length_map]

theorem assignPackages_append (p : String) (cs ds : List Class) :
    assignPackages p (cs ++ ds) = assignPackages p cs ++ assignPackages p ds := by
  simp only [assignPackages_eq_map,List.map_append]

end Class

namespace Packages

/-- Every document has a package. -/
theorem exists_lookup_assignments {uris : List String} {uri : String} (huri : uri ∈ uris) (package : String)
    (common? : Option String) : ∃ p, (assignments uris package common?).lookup uri = some p := by
  obtain ⟨n,us,hn,hmem⟩ := exists_inGroup_iff.mpr huri
  have hus : us ∈ (group uris common?).values := OrderedMap.mem_values.mpr ⟨n,hn⟩
  have hassigned : (uri,packageOf (baseOf us) package uri) ∈ assignments uris package common? :=
    List.mem_flatMap.mpr ⟨us,hus,List.mem_map_of_mem hmem⟩
  cases hlookup : (assignments uris package common?).lookup uri with
  | some p => exact ⟨p,rfl⟩
  | none => simpa using List.lookup_eq_none_iff.mp hlookup _ hassigned

/-- The package of a document among others. -/
def documentPackage (uris : List String) (package : String) (common? : Option String) (uri : String) : String :=
  ((assignments uris package common?).lookup uri).getD package

end Packages

namespace Corpus
open Packages (documentPackage)

/-- The classes of every document are put in its package. -/
theorem documents_assignPackages (c : Corpus) (package : String) (common? : Option String) :
    (c.assignPackages package common?).documents = c.documents.map fun uri classes =>
      Class.assignPackages (documentPackage c.uris package common? uri) classes := by
  apply OrderedMap.ext
  refine List.map_congr_left fun e he => ?_
  have huri : e.1 ∈ c.uris := List.mem_map_of_mem he
  obtain ⟨p,hp⟩ := Packages.exists_lookup_assignments huri package common?
  simp only [documentPackage,hp,Option.getD_some]

@[simp] theorem uris_assignPackages (c : Corpus) (package : String) (common? : Option String) :
    (c.assignPackages package common?).uris = c.uris := by
  rw [uris,documents_assignPackages,OrderedMap.keys_map]
  rfl

theorem get?_assignPackages (c : Corpus) (package : String) (common? : Option String) (uri : String) :
    (c.assignPackages package common?).get? uri =
      (c.get? uri).map (Class.assignPackages (documentPackage c.uris package common? uri)) := by
  rw [get?,documents_assignPackages,OrderedMap.get?_map]
  rfl

/-! ## Corpora without regard to packages -/

/-- A corpus with all its classes in one package, whatever packages they were in. -/
def gathered (c : Corpus) : Corpus where
  documents := c.documents.map fun _ => Class.assignPackages ""

@[simp] theorem uris_gathered (c : Corpus) : c.gathered.uris = c.uris :=
  OrderedMap.keys_map _ _

theorem gathered_assignPackages (c : Corpus) (package : String) (common? : Option String) :
    (c.assignPackages package common?).gathered = c.gathered := by
  have hdocuments : (c.assignPackages package common?).gathered.documents = c.gathered.documents := by
    rw [gathered,documents_assignPackages]
    apply OrderedMap.ext
    simp only [gathered,OrderedMap.map,List.map_map]
    exact List.map_congr_left fun e _ => by simp [Class.assignPackages_assignPackages]
  exact congrArg Corpus.mk hdocuments

theorem assignPackages_gathered (c : Corpus) (package : String) (common? : Option String) :
    c.gathered.assignPackages package common? = c.assignPackages package common? := by
  have hdocuments : (c.gathered.assignPackages package common?).documents =
      (c.assignPackages package common?).documents := by
    rw [documents_assignPackages,documents_assignPackages,uris_gathered]
    apply OrderedMap.ext
    simp only [gathered,OrderedMap.map,List.map_map]
    exact List.map_congr_left fun e _ => by simp [Class.assignPackages_assignPackages]
  exact congrArg Corpus.mk hdocuments

theorem gathered_record (c : Corpus) (uri : String) (classes : List Class) :
    (c.record uri classes).gathered = c.gathered.record uri (Class.assignPackages "" classes) := by
  have hdocuments : (c.record uri classes).gathered.documents =
      (c.gathered.record uri (Class.assignPackages "" classes)).documents := by
    have hadjust := OrderedMap.map_adjust (f:=fun _ => Class.assignPackages "") (k:=uri) (g:=(· ++ classes))
      (h:=(· ++ Class.assignPackages "" classes)) (fun v => Class.assignPackages_append "" v classes)
    rw [gathered,record,hadjust,OrderedMap.map_insertNew]
    rfl
  exact congrArg Corpus.mk hdocuments

theorem count_main_gathered (c : Corpus) : c.gathered.count.main = c.count.main := by
  have hlength : c.gathered.allClasses.length = c.allClasses.length := by
    rw [allClasses,gathered,OrderedMap.values_map,List.length_flatten,List.map_map,allClasses,List.length_flatten]
    exact congrArg List.sum (List.map_congr_left fun cs _ => Class.length_assignPackages "" cs)
  exact hlength

end Corpus
end SchemaBinding
