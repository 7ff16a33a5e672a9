import SchemaBinding.Proofs.Output.Bindings

/-! What modules import. Types are known by bare names, and of the classes that have a name the first counts, whatever
module uses it. Main statement: a module imports one class for each name that it uses and does not declare, and imports a
class for a name that it does declare if and only if the first class of that name is in another package. -/
namespace SchemaBinding
namespace Output

/-- An import is of a class. -/
def Imported.Of (i : Imported) (d : Class) : Prop := d.package = some i.package ∧ d.localName = i.name

instance (i : Imported) (d : Class) : Decidable (i.Of d) :=
  inferInstanceAs (Decidable (d.package = some i.package ∧ d.localName = i.name))

namespace Module

/-- A module imports a class of a name. -/
def ImportsNamed (ds : List Class) (m : Module) (name : String) : Prop := ∃ i ∈ m.imports, ∃ d ∈ ds, i.Of d ∧ d.name = name

/-- What a module imports of classes. -/
structure ImportsFrom (ds : List Class) (m : Module) : Prop where
  distinct : (m.imports.map fun i => (i.package,i.name)).Nodup
  one : ∀ i ∈ m.imports, ∃! d, d ∈ ds ∧ i.Of d
  /-- An import is of a class of another package, with a name that the module uses. -/
  used : ∀ i ∈ m.imports, ∀ d ∈ ds, i.Of d → d.name ∈ typesOfAll m.classes ∧ d.package ≠ some m.package
  /-- For a name that only others declare there is one import. -/
  foreign : ∀ name ∈ typesOfAll m.classes, name ∉ m.classes.map Class.name → name ∈ ds.map Class.name →
    ∃! i, i ∈ m.imports ∧ ∃ d ∈ ds, i.Of d ∧ d.name = name
  /-- For a name that the module declares there is one if the first class of that name is none of its own. -/
  own : ∀ c ∈ m.classes, c.name ∈ typesOfAll m.classes →
    (m.ImportsNamed ds c.name ↔ ∀ d, ds.find? (·.name = c.name) = some d → d ∉ m.classes)

end Module

/-- The place of a class; one without a package is in that of the empty name. -/
def placeOf (c : Class) : Place := ⟨packageName c,c.localName⟩

theorem get?_typeIndex {cs : List Class} (hpackages : ∀ c ∈ cs, c.package.isSome) (name : String) :
    (typeIndex cs).get? name = (cs.find? (·.name = name)).map placeOf := by
  induction cs using List.reverseRecOn with
  | nil => rfl
  | append_singleton cs c ih =>
    obtain ⟨hcs,hc⟩ := List.forall_mem_append.mp hpackages
    obtain ⟨package,hpackage⟩ := Option.isSome_iff_exists.mp (hc c (List.mem_singleton_self c))
    have hstep : typeIndex (cs ++ [c]) = (typeIndex cs).insertNew c.name (placeOf c) := by
      rw [typeIndex,List.foldl_append,List.foldl_cons,List.foldl_nil,hpackage,placeOf,packageName,hpackage]
      rfl
    rw [hstep,OrderedMap.get?_insertNew,List.find?_append,ih hcs]
    cases cs.find? (·.name = name) <;> by_cases hname : name = c.name <;> simp [hname,eq_comm]

theorem mem_placesUsed {index : OrderedMap String Place} {package : String} {cs : List Class} {p : Place} :
    p ∈ placesUsed index package cs ↔ p.package ≠ package ∧ ∃ name ∈ typesOfAll cs, index.get? name = some p := by
  have hfold (qs ps : List Place) : p ∈ qs.foldl (fun ps q => if q ∈ ps then ps else ps ++ [q]) ps ↔ p ∈ ps ∨ p ∈ qs := by
    induction qs generalizing ps with
    | nil => simp
    | cons q qs ih =>
      rw [List.foldl_cons,ih]
      split <;> grind
  rw [placesUsed,hfold,List.mem_filter,List.mem_filterMap,decide_eq_true_iff]
  simp [and_comm]

theorem find?_name {ds : List Class} {name : String} {d : Class} (h : ds.find? (fun c => c.name = name) = some d) :
    d ∈ ds ∧ d.name = name := by
  have hname := List.find?_some h
  exact ⟨List.mem_of_find?_eq_some h,by simpa using hname⟩

section
variable {ds : List Class} {m : Module}

theorem mem_imports_iff (hpackages : ∀ d ∈ ds, d.package.isSome) (hm : m ∈ modules ds) {i : Imported} : i ∈ m.imports ↔
    ∃ d, ds.find? (·.name = d.name) = some d ∧ d.name ∈ typesOfAll m.classes ∧ d ∉ m.classes ∧
      i = importOf (placesUsed (typeIndex ds) m.package m.classes) m.classes (placeOf d) := by
  have helsewhere {d : Class} (hd : d ∈ ds) : (placeOf d).package ≠ m.package ↔ d ∉ m.classes := by
    rw [mem_classes_iff hm,and_iff_right hd]
    rfl
  rw [(modules_spec hm).2.2,importsOf,List.mem_map]
  constructor
  · rintro ⟨p,hp,rfl⟩
    obtain ⟨hpackage,name,hname,hget⟩ := mem_placesUsed.mp hp
    rw [get?_typeIndex hpackages,Option.map_eq_some_iff] at hget
    obtain ⟨d,hd,rfl⟩ := hget
    obtain ⟨hmem,rfl⟩ := find?_name hd
    exact ⟨d,hd,hname,(helsewhere hmem).mp hpackage,rfl⟩
  · rintro ⟨d,hd,hname,hclasses,rfl⟩
    have hpackage := (helsewhere (find?_name hd).1).mpr hclasses
    refine ⟨placeOf d,mem_placesUsed.mpr ⟨hpackage,d.name,hname,?_⟩,rfl⟩
    rw [get?_typeIndex hpackages,hd]
    rfl

theorem of_importOf (places : List Place) (classes : List Class) {d : Class} (hpackage : d.package.isSome) :
    (importOf places classes (placeOf d)).Of d := by
  obtain ⟨package,hpackage⟩ := Option.isSome_iff_exists.mp hpackage
  exact ⟨by rw [hpackage,importOf,placeOf,packageName,hpackage]; rfl,rfl⟩

/-- Classes are told apart by their packages and names, so an import is of no more than one. -/
theorem Imported.Of.unique (hnodup : (ds.map fun d => (d.package,d.localName)).Nodup) {i : Imported} {d e : Class}
    (hd : d ∈ ds) (he : e ∈ ds) (hid : i.Of d) (hie : i.Of e) : d = e :=
  List.inj_on_of_nodup_map hnodup hd he (by rw [hid.1,hid.2,hie.1,hie.2])

section
variable (hpackages : ∀ d ∈ ds, d.package.isSome) (hnodup : (ds.map fun d => (d.package,d.localName)).Nodup)
  (hm : m ∈ modules ds)
include hpackages hnodup hm

/-- The class of an import is the first of its name, used by the module and none of its own. -/
theorem spec_of_import {i : Imported} (hi : i ∈ m.imports) {d : Class} (hd : d ∈ ds) (hof : i.Of d) :
    ds.find? (·.name = d.name) = some d ∧ d.name ∈ typesOfAll m.classes ∧ d ∉ m.classes ∧
      i = importOf (placesUsed (typeIndex ds) m.package m.classes) m.classes (placeOf d) := by
  obtain ⟨e,he,hused,hclasses,hi⟩ := (mem_imports_iff hpackages hm).mp hi
  have hmem := (find?_name he).1
  obtain rfl := hof.unique hnodup hd hmem (hi ▸ of_importOf _ _ (hpackages e hmem))
  exact ⟨he,hused,hclasses,hi⟩

/-- A name makes a module import a class if the module uses it and the first class of that name is elsewhere. -/
theorem importsNamed_iff (name : String) : m.ImportsNamed ds name ↔
    name ∈ typesOfAll m.classes ∧ ∃ d, ds.find? (·.name = name) = some d ∧ d ∉ m.classes := by
  constructor
  · rintro ⟨i,hi,d,hd,hof,rfl⟩
    obtain ⟨hfirst,hused,hclasses,_⟩ := spec_of_import hpackages hnodup hm hi hd hof
    exact ⟨hused,d,hfirst,hclasses⟩
  · rintro ⟨hused,d,hfirst,hclasses⟩
    obtain ⟨hmem,rfl⟩ := find?_name hfirst
    exact ⟨_,(mem_imports_iff hpackages hm).mpr ⟨d,hfirst,hused,hclasses,rfl⟩,d,hmem,of_importOf _ _ (hpackages d hmem),rfl⟩

/-- No two imports are of classes of one name. -/
theorem import_unique {i j : Imported} (hi : i ∈ m.imports) (hj : j ∈ m.imports) {d e : Class} (hd : d ∈ ds) (he : e ∈ ds)
    (hid : i.Of d) (hje : j.Of e) (hname : d.name = e.name) : i = j := by
  obtain ⟨hdfirst,_,_,rfl⟩ := spec_of_import hpackages hnodup hm hi hd hid
  obtain ⟨hefirst,_,_,rfl⟩ := spec_of_import hpackages hnodup hm hj he hje
  rw [hname,hefirst] at hdfirst
  rw [Option.some.inj hdfirst]

theorem importsFrom_modules : m.ImportsFrom ds := by
  refine ⟨(bindings_of_nodup hm (nodup_localNames hnodup hpackages hm)).imports,?_,?_,?_,?_⟩
  · intro i hi
    obtain ⟨d,hd,_,_,rfl⟩ := (mem_imports_iff hpackages hm).mp hi
    have hmem := (find?_name hd).1
    have hof := of_importOf (placesUsed (typeIndex ds) m.package m.classes) m.classes (hpackages d hmem)
    exact ⟨d,⟨hmem,hof⟩,fun e he => he.2.unique hnodup he.1 hmem hof⟩
  · intro i hi d hd hof
    obtain ⟨_,hused,hclasses,_⟩ := spec_of_import hpackages hnodup hm hi hd hof
    refine ⟨hused,fun hpackage => hclasses ((mem_classes_iff hm).mpr ⟨hd,?_⟩)⟩
    rw [packageName,hpackage,Option.getD_some]
  · intro name hused hnone hsome
    obtain ⟨d,hd⟩ : ∃ d, ds.find? (·.name = name) = some d := by
      obtain ⟨e,he,rfl⟩ := List.mem_map.mp hsome
      exact Option.isSome_iff_exists.mp (List.find?_isSome.mpr ⟨e,he,by simp⟩)
    have hclasses : d ∉ m.classes := fun h => hnone (List.mem_map.mpr ⟨d,h,(find?_name hd).2⟩)
    obtain ⟨i,hi,hof⟩ := (importsNamed_iff hpackages hnodup hm name).mpr ⟨hused,d,hd,hclasses⟩
    refine ⟨i,⟨hi,hof⟩,?_⟩
    rintro j ⟨hj,e,he,hje,rfl⟩
    obtain ⟨b,hb,hib,hname⟩ := hof
    exact import_unique hpackages hnodup hm hj hi he hb hje hib hname.symm
  · intro c hc hused
    obtain ⟨d,hd⟩ : ∃ d, ds.find? (·.name = c.name) = some d :=
      Option.isSome_iff_exists.mp (List.find?_isSome.mpr ⟨c,((mem_classes_iff hm).mp hc).1,by simp⟩)
    rw [importsNamed_iff hpackages hnodup hm,and_iff_right hused,hd]
    simp

end
end

/-- After names are given, what a module imports is told by the first classes of the names it uses. -/
theorem designate_imports {w : Writer} {name : String} {format : Format} (hformat : w.format name = .ok format)
    {cs : List Class} (hpackages : ∀ c ∈ cs, c.package.isSome) :
    ∃ ds, w.designate cs name = .ok ds ∧ w.render ds name = .ok ((modules ds).map format.file) ∧
      ∀ m ∈ modules ds, m.ImportsFrom ds :=
  ⟨_,designate_eq hformat cs,render_eq hformat _,fun _ hm =>
    importsFrom_modules (format.package_isSome_designateClasses hpackages []) (format.nodup_designateClasses [] cs).1 hm⟩

/-- Two classes of one name, and a class that uses that name in the package of the second. -/
def namesakes : List Class :=
  let type (package : String) : Class := { name := "T", kind := .complexType, isRoot := true, package := some package }
  let user : Class :=
    { name := "C", kind := .complexType, isRoot := true, package := some "b"
      fields := [{ name := "p", type := "T", kind := .element }] }
  [type "a",type "b",user]

/-- The module of the user imports the first, although the second is in it. -/
theorem designate_imports_namesakes : ∃ ds, ({} : Writer).designate namesakes "json" = .ok ds ∧
    (modules ds).map (fun m => (m.package,m.classes.map Class.localName,m.imports.map fun i => (i.package,i.name))) =
      [("a",["T"],[]),("b",["T","C"],[("a","T")])] ∧
    ({} : Writer).render ds "json" = .ok ((modules ds).map Format.json.file) ∧ ∀ m ∈ modules ds, m.ImportsFrom ds := by
  have hformat : ({} : Writer).format "json" = .ok .json := rfl
  have hpackages : ∀ c ∈ namesakes, c.package.isSome := by decide +kernel
  obtain ⟨ds,hds,hrender,himports⟩ := designate_imports hformat hpackages
  have hview : (({} : Writer).designate namesakes "json").toOption.map (fun ds => (modules ds).map fun m =>
      (m.package,m.classes.map Class.localName,m.imports.map fun i => (i.package,i.name))) =
        some [("a",["T"],[]),("b",["T","C"],[("a","T")])] := by
    decide +kernel
  rw [hds] at hview
  exact ⟨ds,hds,Option.some.inj hview,hrender,himports⟩

/-- The second declares the name, and its module imports the first on account of it. -/
theorem namesakes_imported : (∀ c ∈ namesakes, c.package.isSome) ∧
    ∃ ds, ({} : Writer).designate namesakes "json" = .ok ds ∧ ∃ m ∈ modules ds, ∃ c ∈ m.classes,
      c.name ∈ typesOfAll m.classes ∧ m.ImportsNamed ds c.name :=
  have hformat : ({} : Writer).format "json" = .ok .json := rfl
  ⟨by decide +kernel,_,designate_eq hformat namesakes,by unfold Module.ImportsNamed; decide +kernel⟩

end Output
end SchemaBinding
