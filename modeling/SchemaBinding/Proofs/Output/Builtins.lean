import SchemaBinding.Proofs.Classes.Retained
import SchemaBinding.Proofs.Occurrences.Declared
import SchemaBinding.Proofs.Output.Imports
import SchemaBinding.Proofs.Packages.Precedence

/-! Built-in types among imports. What a name is bound to where it is written is not kept, so a built-in type counts as any
other of its name. Main statement: a module of resolved documents imports a class for a reference that is written in it if
and only if the first document that declares a class of that name is in another package; so built-in types are not imported
if and only if no name of one is first declared in a package other than that of a module where it is written. -/
namespace SchemaBinding

/-! ## References as they are written -/

namespace Output

/-- The types a class uses itself, as they are written. -/
def writtenOf (c : Class) : List String :=
  c.extensions ++ (c.fields.filter (!·.forward)).flatMap fun f => Blank.fields f.type

/-- A type is written in classes, at any depth. -/
def Writes (cs : List Class) (reference : String) : Prop := ∃ c ∈ cs, ∃ d, d.Within c ∧ reference ∈ writtenOf d

theorem typesOf_eq (c : Class) : typesOf c = (writtenOf c).map Prefixed.localPart ++ typesOfAll c.inner := by
  have hfields (fs : List Field) : fs.flatMap typesOfField =
      ((fs.filter (!·.forward)).flatMap fun f => Blank.fields f.type).map Prefixed.localPart := by
    induction fs with
    | nil => rfl
    | cons f fs ih =>
      rw [List.flatMap_cons,ih,typesOfField]
      cases hforward : f.forward <;> simp [hforward]
  cases c
  rw [typesOf,writtenOf,List.map_append,hfields]

theorem mem_typesOf {c : Class} {name : String} :
    name ∈ typesOf c ↔ ∃ d, d.Within c ∧ ∃ reference ∈ writtenOf d, Prefixed.localPart reference = name := by
  induction c using Class.inductionOnInner with
  | step c ih =>
    rw [typesOf_eq,List.mem_append,List.mem_map,typesOfAll_eq_flatMap,List.mem_flatMap]
    constructor
    · rintro (hown | ⟨i,hi,hname⟩)
      · exact ⟨c,.self c,hown⟩
      · obtain ⟨d,hd,hwritten⟩ := (ih i hi).mp hname
        exact ⟨d,.inner hi hd,hwritten⟩
    · rintro ⟨d,hd,hwritten⟩
      cases hd with
      | self => exact .inl hwritten
      | inner hi hd => exact .inr ⟨_,hi,(ih _ hi).mpr ⟨d,hd,hwritten⟩⟩

/-- The names of types are the local parts of the references that are written. -/
theorem mem_typesOfAll {cs : List Class} {name : String} :
    name ∈ typesOfAll cs ↔ ∃ reference, Writes cs reference ∧ Prefixed.localPart reference = name := by
  rw [typesOfAll_eq_flatMap,List.mem_flatMap]
  simp only [mem_typesOf,Writes]
  grind

end Output

/-- A reference to a type in a document, whose prefix stands for the namespace of schemas where it is written. -/
def Xml.Element.RefersToBuiltin (root : Xml.Element) (reference : String) : Prop :=
  ∃ x : Xml.Element, x.Below root ∧ (x.resolve reference).isBuiltin ∧
    ∃ name ∈ ["type","base","itemType","memberTypes"], ∃ value ∈ x.attribute? name,
      reference = value ∨ reference ∈ Blank.fields value

/-! ## First declarations -/

theorem Output.Format.map_package_find? (format : Format) (taken : List (Option String × String)) (cs : List Class)
    (name : String) : ((format.designateClasses taken cs).find? (·.name = name)).map Class.package =
      (cs.find? (·.name = name)).map Class.package := by
  induction cs generalizing taken with
  | nil => rfl
  | cons c cs ih =>
    rw [designateClasses,List.find?_cons,List.find?_cons,name_designateClass]
    split
    · rw [Option.map_some,package_designateClass,Option.map_some]
    · exact ih _

/-- Simplification keeps the first class of a name that is no group. -/
theorem Simplify.map_package_find? (cs : List Class) (name : String) :
    ((classes cs).find? (·.name = name)).map Class.package =
      (cs.find? fun d => !d.kind.isGroup && d.name = name).map Class.package := by
  have hfirst (ds : List Class) : (distinct ds).find? (·.name = name) = ds.find? (·.name = name) := by
    refine OrderedMap.find?_values_firsts_of_key (fun b c hkey => ?_) ds
    rw [show b.name = c.name from congrArg ClassKey.name hkey]
  have hpackage (ds : Definitions) : Class.package ∘ simplified ds = Class.package := by
    funext c
    rw [Function.comp_apply,simplified_eq]
  rw [classes_eq_map,List.find?_map,Option.map_map,hpackage]
  simp only [Function.comp_def,name_simplified]
  rw [hfirst,List.find?_filter]
  simp

namespace Corpus
open Packages (documentPackage)

/-- The first class of a name that is no group, with its document. -/
def named? (c : Corpus) (name : String) : Option (String × Class) :=
  c.declaration? fun d => !d.kind.isGroup && d.name = name

/-- A name is first declared in a document of another package. -/
def DeclaredElsewhere (c : Corpus) (base : String) (common? : Option String) (name package : String) : Prop :=
  ∃ uri d, c.named? name = some (uri,d) ∧ documentPackage c.uris base common? uri ≠ package

theorem named?_assignPackages (c : Corpus) (base : String) (common? : Option String) (name : String) :
    (c.assignPackages base common?).named? name =
      (c.named? name).map fun e => (e.1,e.2.assignPackage (documentPackage c.uris base common? e.1)) := by
  have htest (package : String) (d : Class) : (!(d.assignPackage package).kind.isGroup &&
      decide ((d.assignPackage package).name = name)) = (!d.kind.isGroup && d.name = name) := by
    cases d
    rfl
  rw [named?,declaration?,documents_assignPackages,OrderedMap.map,List.findSome?_map,named?,declaration?,
    List.map_findSome?]
  simp only [Function.comp_def,Class.assignPackages_eq_map,List.find?_map,htest,Option.map_map]

/-- Of the classes that are compiled, the first of a name is in the package of the document that declares it first. -/
theorem map_package_find?_compiled (c : Corpus) (base : String) (common? : Option String) (format : Output.Format)
    (name : String) :
    ((format.designateClasses [] (Simplify.classes (c.assignPackages base common?).allClasses)).find?
      (·.name = name)).map Class.package = (c.named? name).map fun e => some (documentPackage c.uris base common? e.1) := by
  rw [format.map_package_find?,Simplify.map_package_find?,find?_allClasses,← named?,named?_assignPackages,Option.map_map,
    Option.map_map]
  simp only [Function.comp_def,Simplify.package_assignPackage]

theorem package_isSome_assignPackages (c : Corpus) (base : String) (common? : Option String) :
    ∀ d ∈ (c.assignPackages base common?).allClasses, d.package.isSome := by
  rw [allClasses,documents_assignPackages]
  intro d hd
  obtain ⟨_,hclasses,hd⟩ := List.mem_flatten.mp hd
  simp only [OrderedMap.values,OrderedMap.map,List.map_map,Class.assignPackages_eq_map] at hclasses
  obtain ⟨e,_,rfl⟩ := List.mem_map.mp hclasses
  obtain ⟨b,_,rfl⟩ := List.mem_map.mp hd
  rw [Simplify.package_assignPackage]
  rfl

end Corpus

theorem Output.Format.package_isSome_compiled (format : Format) (c : Corpus) (base : String) (common? : Option String) :
    ∀ d ∈ format.designateClasses [] (Simplify.classes (c.assignPackages base common?).allClasses), d.package.isSome := by
  refine format.package_isSome_designateClasses (fun d hd => ?_) []
  rw [Simplify.classes_eq_map] at hd
  obtain ⟨b,hb,rfl⟩ := List.mem_map.mp hd
  have hmem := (List.mem_filter.mp (Simplify.mem_of_mem_distinct hb)).1
  rw [Simplify.simplified_eq]
  exact c.package_isSome_assignPackages base common? b hmem

namespace Session
open Output (Format Module modules Writes)

/-- A reference to a built-in type in one of the documents that were resolved. -/
def RefersToBuiltin (disk : Disk) (s : Session) (reference : String) : Prop :=
  ∃ uri ∈ s.corpus.uris, ∃ root ∈ s.root? disk uri, root.RefersToBuiltin reference

variable (disk : Disk) (s : Session)

section
variable {common? : Option String} {format : Format} (hsimplify : s.simplify = Simplify.classes)
  (hcommon : s.settings.commonUri disk = .ok common?) (hformat : s.writer.format s.settings.output = .ok format)
include hsimplify hcommon hformat

theorem compile_eq_designateClasses (hclasses : s.corpus.allClasses ≠ []) : (s.compile disk).2 =
    .ok (format.designateClasses [] (Simplify.classes (s.corpus.assignPackages s.settings.package common?).allClasses)) := by
  rw [compile_eq_designate disk hcommon hclasses,hsimplify,Output.designate_eq hformat]

theorem compile_takeSchemas {uris : List String} (hclasses : (s.fresh.takeSchemas disk uris).1.corpus.allClasses ≠ []) :
    ((s.fresh.takeSchemas disk uris).1.compile disk).2 = .ok (format.designateClasses []
      (Simplify.classes ((s.fresh.takeSchemas disk uris).1.corpus.assignPackages s.settings.package common?).allClasses)) :=
  compile_eq_designateClasses disk (s.fresh.takeSchemas disk uris).1 hsimplify hcommon hformat hclasses

theorem compile_imports :
    ∃ ds, (s.compile disk).2 = .ok ds ∧ s.writer.render ds s.settings.output = .ok ((modules ds).map format.file) ∧
      ∀ m ∈ modules ds, ∀ name, m.ImportsNamed ds name ↔ (∃ reference, Writes m.classes reference ∧
        Prefixed.localPart reference = name) ∧ s.corpus.DeclaredElsewhere s.settings.package common? name m.package := by
  by_cases hclasses : s.corpus.allClasses = []
  · have hcount : s.corpus.count.main = 0 := by
      rw [Corpus.count,hclasses]
      rfl
    refine ⟨[],by rw [compile,if_pos hcount],Output.render_eq hformat [],fun m hm => by cases hm⟩
  · have hcompile := s.compile_eq_designateClasses disk hsimplify hcommon hformat hclasses
    refine ⟨_,hcompile,Output.render_eq hformat _,fun m hm name => ?_⟩
    have hnamed := s.corpus.map_package_find?_compiled s.settings.package common? format name
    rw [Output.importsNamed_iff (format.package_isSome_compiled _ _ _) (format.nodup_designateClasses [] _).1 hm,
      Output.mem_typesOfAll]
    refine and_congr_right fun _ => ⟨?_,?_⟩
    · rintro ⟨d,hd,hclasses⟩
      rw [hd] at hnamed
      obtain ⟨⟨uri,e⟩,he,hpackage⟩ := Option.map_eq_some_iff.mp hnamed.symm
      refine ⟨uri,e,he,fun hsame => hclasses ((Output.mem_classes_iff hm).mpr ⟨(Output.find?_name hd).1,?_⟩)⟩
      rw [Output.packageName,← hpackage,Option.getD_some,hsame]
    · rintro ⟨uri,e,he,hother⟩
      rw [he] at hnamed
      obtain ⟨d,hd,hpackage⟩ := Option.map_eq_some_iff.mp hnamed
      refine ⟨d,hd,fun hclasses => hother ?_⟩
      rw [← ((Output.mem_classes_iff hm).mp hclasses).2,Output.packageName,hpackage,Option.getD_some]

/-- After documents are resolved and compiled, a module imports a class for a reference if and only if the first document
that declares its name is in another package. Whether the reference is to a built-in type does not count. -/
theorem imports_builtin_iff (uris : List String) :
    let run := s.fresh.takeSchemas disk uris
    let elsewhere := run.1.corpus.DeclaredElsewhere s.settings.package common?
    ∃ ds, run.2 = .ok () ∧ (run.1.compile disk).2 = .ok ds ∧
      s.writer.render ds s.settings.output = .ok ((modules ds).map format.file) ∧
      (∀ m ∈ modules ds, ∀ name, m.ImportsNamed ds name ↔
        (∃ reference, Writes m.classes reference ∧ Prefixed.localPart reference = name) ∧ elsewhere name m.package) ∧
      ((∀ reference, run.1.RefersToBuiltin disk reference → ∀ m ∈ modules ds, Writes m.classes reference →
          ¬ m.ImportsNamed ds (Prefixed.localPart reference)) ↔
        ∀ reference, run.1.RefersToBuiltin disk reference → ∀ m ∈ modules ds, Writes m.classes reference →
          ¬ elsewhere (Prefixed.localPart reference) m.package) := by
  intro run elsewhere
  obtain ⟨order,hfollows⟩ := s.takeSchemas_follows disk uris
  obtain ⟨ds,hcompile,hrender,himports⟩ := compile_imports disk run.1 hsimplify hcommon hformat
  refine ⟨ds,hfollows.ok,hcompile,hrender,himports,?_⟩
  refine forall₂_congr fun reference _ => forall₃_congr fun m hm hwrites => not_congr ?_
  exact (himports m hm _).trans (and_iff_right ⟨reference,hwrites,rfl⟩)

end

/-- A type with the name of a built-in one, and an element of the built-in type in another directory. -/
def homonymous : Session := serving {} [
  ("file:///s/x/a","<schema xmlns:xs='http://www.w3.org/2001/XMLSchema'><element name='e' type='xs:string'/></schema>"),
  ("file:///s/y/b","<schema><complexType name='string'/></schema>")]

theorem compile_homonymous : ∃ ds,
    ((homonymous.fresh.takeSchemas {} ["file:///s/x/a","file:///s/y/b"]).1.compile {}).2 = .ok ds ∧
      (modules ds).map (fun m => (m.package,m.classes.map Class.localName,m.imports.map fun i => (i.package,i.name))) =
        [("generated.x",["E"],[("generated.y","String")]),("generated.y",["String"],[])] ∧
      ∃ m ∈ modules ds, (∃ c ∈ m.classes, "xs:string" ∈ Output.writtenOf c) ∧
        ∃ i ∈ m.imports, ∃ d ∈ ds, i.Of d ∧ d.name = "string" := by
  let run := homonymous.fresh.takeSchemas {} ["file:///s/x/a","file:///s/y/b"]
  have huris : run.1.corpus.uris = ["file:///s/x/a","file:///s/y/b"] := by decide +kernel
  have hassigned : Packages.assignments ["file:///s/x/a","file:///s/y/b"] "generated" none =
      [("file:///s/x/a","generated.x"),("file:///s/y/b","generated.y")] := by
    rw [Packages.assignments,Packages.group,List.mergeSort_of_pairwise (by decide +kernel)]
    decide +kernel
  have hclasses : run.1.corpus.allClasses ≠ [] := by
    rw [← List.length_pos_iff]
    decide +kernel
  have hcommon : homonymous.settings.commonUri {} = .ok none := rfl
  have hformat : homonymous.writer.format homonymous.settings.output = .ok .json := rfl
  refine ⟨_,homonymous.compile_takeSchemas {} rfl hcommon hformat hclasses,?_⟩
  rw [show homonymous.settings.package = "generated" from rfl,Corpus.assignPackages,huris,hassigned]
  decide +kernel

/-- The module of the element imports the type. -/
theorem imports_builtin_iff_homonymous :
    let run := homonymous.fresh.takeSchemas {} ["file:///s/x/a","file:///s/y/b"]
    let elsewhere := run.1.corpus.DeclaredElsewhere homonymous.settings.package none
    ∃ ds, run.2 = .ok () ∧ (run.1.compile {}).2 = .ok ds ∧
      (modules ds).map (fun m => (m.package,m.classes.map Class.localName,m.imports.map fun i => (i.package,i.name))) =
        [("generated.x",["E"],[("generated.y","String")]),("generated.y",["String"],[])] ∧
      homonymous.writer.render ds homonymous.settings.output = .ok ((modules ds).map Format.json.file) ∧
      (∀ m ∈ modules ds, ∀ name, m.ImportsNamed ds name ↔
        (∃ reference, Writes m.classes reference ∧ Prefixed.localPart reference = name) ∧ elsewhere name m.package) ∧
      ((∀ reference, run.1.RefersToBuiltin {} reference → ∀ m ∈ modules ds, Writes m.classes reference →
          ¬ m.ImportsNamed ds (Prefixed.localPart reference)) ↔
        ∀ reference, run.1.RefersToBuiltin {} reference → ∀ m ∈ modules ds, Writes m.classes reference →
          ¬ elsewhere (Prefixed.localPart reference) m.package) := by
  intro run elsewhere
  obtain ⟨ds,hok,hcompile,himports⟩ := imports_builtin_iff {} homonymous rfl rfl rfl ["file:///s/x/a","file:///s/y/b"]
  obtain ⟨compiled,hcompiled,hview,_⟩ := compile_homonymous
  obtain rfl : compiled = ds := Except.ok.inj (hcompiled.symm.trans hcompile)
  exact ⟨compiled,hok,hcompile,hview,himports⟩

/-- The module of the element imports the type. -/
theorem homonymous_imported :
    let run := homonymous.fresh.takeSchemas {} ["file:///s/x/a","file:///s/y/b"]
    run.1.RefersToBuiltin {} "xs:string" ∧ ∃ ds, (run.1.compile {}).2 = .ok ds ∧ ∃ m ∈ modules ds,
      Writes m.classes "xs:string" ∧ m.ImportsNamed ds (Prefixed.localPart "xs:string") := by
  intro run
  have huris : run.1.corpus.uris = ["file:///s/x/a","file:///s/y/b"] := by decide +kernel
  constructor
  · have hroot : (run.1.root? {} "file:///s/x/a").map (fun root => root.children.map fun x =>
        ((x.resolve "xs:string").isBuiltin,x.attribute? "type")) = some [(true,some "xs:string")] := by
      decide +kernel
    obtain ⟨root,hread,hchildren⟩ := Option.map_eq_some_iff.mp hroot
    obtain ⟨x,hx,hspec⟩ := List.mem_map.mp (hchildren ▸ List.mem_singleton_self _)
    obtain ⟨hbuiltin,htype⟩ := Prod.mk.inj hspec
    exact ⟨_,huris ▸ List.mem_cons_self,root,hread,x,.child hx .self,hbuiltin,"type",List.mem_cons_self,_,htype,.inl rfl⟩
  · obtain ⟨ds,hcompile,_,m,hm,⟨c,hc,hwritten⟩,himported⟩ := compile_homonymous
    exact ⟨ds,hcompile,m,hm,⟨c,hc,c,.self c,hwritten⟩,himported⟩

end Session
end SchemaBinding
