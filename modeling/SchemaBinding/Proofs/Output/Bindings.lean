import SchemaBinding.Proofs.Output.Designated
import SchemaBinding.Proofs.Output.Modules

/-! Names that modules bind: those of their own classes, and those under which they import others. Classes have names of
their own in a module, and an import keeps its name only if nothing else in the module has it. Main statement: the names a
module binds are distinct if and only if the aliases of its imports are, and none of them is a name that the module binds
otherwise. -/
namespace SchemaBinding
namespace Output

/-- The name under which a module binds an import. -/
def Imported.bound (i : Imported) : String := i.alias?.getD i.name

namespace Module

def aliases (m : Module) : List String := m.imports.filterMap Imported.alias?

/-- The names of the classes of a module, and of its imports that keep theirs. -/
def plainNames (m : Module) : List String :=
  m.classes.map Class.localName ++ (m.imports.filter (·.alias?.isNone)).map Imported.name

/-- All names that a module binds. -/
def boundNames (m : Module) : List String := m.classes.map Class.localName ++ m.imports.map Imported.bound

/-- How a module comes to its names. -/
structure Bindings (m : Module) : Prop where
  classes : (m.classes.map Class.localName).Nodup
  imports : (m.imports.map fun i => (i.package,i.name)).Nodup
  /-- An import gets an alias if and only if another one or a class of the module has its name. -/
  clashes : ∀ i ∈ m.imports, i.alias?.isSome ↔
    (∃ j ∈ m.imports, j.package ≠ i.package ∧ j.name = i.name) ∨ ∃ c ∈ m.classes, c.localName = i.name
  /-- The alias is said by the last part of the package and the name. -/
  named : ∀ i ∈ m.imports, ∀ a ∈ i.alias?, a = Words.pascalCase (lastPart i.package) ++ i.name

theorem perm_map_bound (is : List Imported) : (is.map Imported.bound).Perm
    ((is.filter (·.alias?.isNone)).map Imported.name ++ is.filterMap Imported.alias?) := by
  induction is with
  | nil => exact .nil
  | cons i is ih =>
    cases halias : i.alias? with
    | none => simpa [Imported.bound,halias] using ih
    | some a => simpa [Imported.bound,halias] using (ih.cons a).trans List.perm_middle.symm

theorem perm_boundNames (m : Module) : m.boundNames.Perm (m.plainNames ++ m.aliases) := by
  rw [boundNames,plainNames,List.append_assoc]
  exact (perm_map_bound m.imports).append_left _

/-- Names that are not aliases are distinct. -/
theorem Bindings.nodup_plainNames {m : Module} (h : m.Bindings) : m.plainNames.Nodup := by
  have hfree {i : Imported} (hi : i ∈ m.imports.filter (·.alias?.isNone)) : i ∈ m.imports ∧ ¬ i.alias?.isSome := by
    simpa using List.mem_filter.mp hi
  have hkept : ((m.imports.filter (·.alias?.isNone)).map Imported.name).Nodup := by
    have hpairs := h.imports.sublist ((List.filter_sublist (p:=(·.alias?.isNone)) (l:=m.imports)).map _)
    refine List.pairwise_map.mpr (List.Pairwise.imp_of_mem ?_ (List.pairwise_map.mp hpairs))
    intro i j hi hj hpair hname
    obtain ⟨hi,hplain⟩ := hfree hi
    refine hplain ((h.clashes i hi).mpr (.inl ⟨j,(hfree hj).1,fun hpackage => hpair ?_,hname.symm⟩))
    rw [hpackage,hname]
  refine List.nodup_append.mpr ⟨h.classes,hkept,?_⟩
  intro name hname other hother heq
  obtain ⟨c,hc,rfl⟩ := List.mem_map.mp hname
  obtain ⟨i,hi,rfl⟩ := List.mem_map.mp hother
  obtain ⟨hi,hplain⟩ := hfree hi
  exact hplain ((h.clashes i hi).mpr (.inr ⟨c,hc,heq⟩))

/-- Only aliases can be in the way of other names, or of each other. -/
theorem Bindings.nodup_boundNames_iff {m : Module} (h : m.Bindings) :
    m.boundNames.Nodup ↔ m.aliases.Nodup ∧ ∀ a ∈ m.aliases, a ∉ m.plainNames := by
  rw [m.perm_boundNames.nodup_iff,List.nodup_append',and_iff_right h.nodup_plainNames]
  exact and_congr_right fun _ => ⟨fun hdisjoint a ha hplain => hdisjoint hplain ha,fun hfree a hplain ha => hfree a ha hplain⟩

end Module

/-! ## Imports -/

theorem nodup_placesUsed (index : OrderedMap String Place) (package : String) (cs : List Class) :
    (placesUsed index package cs).Nodup := by
  refine List.foldlRecOn _ _ List.nodup_nil fun ps hps p _ => ?_
  split
  · exact hps
  · rename_i hp
    exact List.nodup_append.mpr ⟨hps,List.nodup_singleton p,by rintro q hq _ hp' rfl; simp_all⟩

/-- Several places have the name of one of them if another has it. -/
theorem one_lt_length_filter_iff {places : List Place} (h : places.Nodup) {p : Place} (hp : p ∈ places) :
    1 < (places.filter (·.name = p.name)).length ↔ ∃ q ∈ places, q.package ≠ p.package ∧ q.name = p.name := by
  have hmem : p ∈ places.filter (·.name = p.name) := List.mem_filter.mpr ⟨hp,by simp⟩
  have hlonger : 1 < (places.filter (·.name = p.name)).length ↔ places.filter (·.name = p.name) ≠ [p] := by
    refine ⟨fun hlength heq => by simp [heq] at hlength,fun hne => ?_⟩
    by_contra hshort
    have hpositive := List.length_pos_of_mem hmem
    obtain ⟨q,hq⟩ : ∃ q, places.filter (·.name = p.name) = [q] := List.length_eq_one_iff.mp (by omega)
    obtain rfl : p = q := List.mem_singleton.mp (hq ▸ hmem)
    exact hne hq
  rw [hlonger,(h.filter _).ne_singleton_iff,or_iff_right (List.ne_nil_of_mem hmem)]
  constructor
  · rintro ⟨q,hq,hne⟩
    obtain ⟨hq,hname⟩ := List.mem_filter.mp hq
    have hname : q.name = p.name := of_decide_eq_true hname
    refine ⟨q,hq,fun hpackage => hne ?_,hname⟩
    cases p
    cases q
    simp_all
  · rintro ⟨q,hq,hpackage,hname⟩
    exact ⟨q,List.mem_filter.mpr ⟨hq,by simpa using hname⟩,fun heq => hpackage (heq ▸ rfl)⟩

theorem alias?_importOf (places : List Place) (classes : List Class) (p : Place) :
    (importOf places classes p).alias? =
      if 1 < (places.filter (·.name = p.name)).length ∨ ∃ c ∈ classes, c.localName = p.name then
        some (Words.pascalCase (lastPart p.package) ++ p.name)
      else none := by
  simp [importOf]

theorem bindings_of_nodup {cs : List Class} {m : Module} (hm : m ∈ modules cs)
    (hclasses : (m.classes.map Class.localName).Nodup) : m.Bindings := by
  obtain ⟨_,_,himports⟩ := modules_spec hm
  let places := placesUsed (typeIndex cs) m.package m.classes
  have hplaces : places.Nodup := nodup_placesUsed _ _ _
  have himports : m.imports = places.map (importOf places m.classes) := himports
  refine ⟨hclasses,?_,?_,?_⟩
  · rw [himports,List.map_map]
    refine hplaces.map fun p q h => ?_
    cases p
    cases q
    simpa [importOf] using h
  · intro i hi
    rw [himports] at hi ⊢
    obtain ⟨p,hp,rfl⟩ := List.mem_map.mp hi
    have hclash : (importOf places m.classes p).alias?.isSome ↔
        1 < (places.filter (·.name = p.name)).length ∨ ∃ c ∈ m.classes, c.localName = p.name := by
      rw [alias?_importOf]
      split <;> simp_all
    rw [hclash,one_lt_length_filter_iff hplaces hp]
    simp [importOf]
  · intro i hi a ha
    rw [himports] at hi
    obtain ⟨p,_,rfl⟩ := List.mem_map.mp hi
    rw [alias?_importOf,Option.mem_def] at ha
    split at ha
    · exact (Option.some.inj ha).symm
    · cases ha

/-- Classes of a module that are all in its package have names of their own if those in one package have. -/
theorem nodup_localNames {cs : List Class} (hnodup : (cs.map fun c => (c.package,c.localName)).Nodup)
    (hpackages : ∀ c ∈ cs, c.package.isSome) {m : Module} (hm : m ∈ modules cs) :
    (m.classes.map Class.localName).Nodup := by
  obtain ⟨_,hclasses,_⟩ := modules_spec hm
  have hpackage {c : Class} (hc : c ∈ m.classes) : c.package = some m.package := by
    obtain ⟨hc,hname⟩ := (mem_classes_iff hm).mp hc
    obtain ⟨package,hpackage⟩ := Option.isSome_iff_exists.mp (hpackages c hc)
    simpa [packageName,hpackage] using hname
  have hpairs : (m.classes.map fun c => (c.package,c.localName)).Nodup := by
    rw [hclasses]
    exact hnodup.sublist (List.filter_sublist.map _)
  refine List.pairwise_map.mpr (List.Pairwise.imp_of_mem ?_ (List.pairwise_map.mp hpairs))
  intro c d hc hd hpair hname
  exact hpair (by rw [hpackage hc,hpackage hd,hname])

/-- After names are given, only aliases can be in the way of other names that a module binds. -/
theorem designate_bindings {w : Writer} {name : String} {format : Format} (hformat : w.format name = .ok format)
    {cs : List Class} (hpackages : ∀ c ∈ cs, c.package.isSome) :
    ∃ ds, w.designate cs name = .ok ds ∧ w.render ds name = .ok ((modules ds).map format.file) ∧
      ∀ m ∈ modules ds, m.Bindings ∧ (m.boundNames.Nodup ↔ m.aliases.Nodup ∧ ∀ a ∈ m.aliases, a ∉ m.plainNames) := by
  have hdesignate : w.designate cs name = .ok (format.designateClasses [] cs) := by
    rw [Writer.designate,hformat]
    rfl
  refine ⟨_,hdesignate,render_eq hformat _,fun m hm => ?_⟩
  have hbindings : m.Bindings := by
    have hnamed : ∀ d ∈ format.designateClasses [] cs, d.package.isSome := by
      intro d hd
      have hpackage : d.package ∈ (format.designateClasses [] cs).map Class.package := List.mem_map_of_mem hd
      rw [format.map_package_designateClasses] at hpackage
      obtain ⟨c,hc,heq⟩ := List.mem_map.mp hpackage
      exact heq ▸ hpackages c hc
    exact bindings_of_nodup hm (nodup_localNames (format.nodup_designateClasses [] cs).1 hnamed hm)
  exact ⟨hbindings,hbindings.nodup_boundNames_iff⟩

/-- A class that uses two others, whose packages end alike. -/
def alike : List Class :=
  let user : Class :=
    { name := "C", kind := .complexType, isRoot := true, package := some "m"
      fields := [{ name := "p", type := "T", kind := .element },{ name := "q", type := "t", kind := .element }] }
  [user,{ name := "T", kind := .complexType, isRoot := true, package := some "m.a.x" },
    { name := "t", kind := .complexType, isRoot := true, package := some "m.b.x" }]

theorem boundNames_alike :
    (({} : Writer).designate alike "json").toOption.map (fun ds => (modules ds).map fun m => (m.package,m.boundNames)) =
      some [("m",["C","XT","XT"]),("m.a.x",["T"]),("m.b.x",["T"])] := by
  decide +kernel

/-- Both are imported as `XT`. -/
theorem designate_bindings_alike : ∃ ds, ({} : Writer).designate alike "json" = .ok ds ∧
    (modules ds).map (fun m => (m.package,m.boundNames)) = [("m",["C","XT","XT"]),("m.a.x",["T"]),("m.b.x",["T"])] ∧
    ({} : Writer).render ds "json" = .ok ((modules ds).map Format.json.file) ∧
    ∀ m ∈ modules ds, m.Bindings ∧ (m.boundNames.Nodup ↔ m.aliases.Nodup ∧ ∀ a ∈ m.aliases, a ∉ m.plainNames) := by
  have hformat : ({} : Writer).format "json" = .ok .json := rfl
  have hpackages : ∀ c ∈ alike, c.package.isSome := by decide +kernel
  obtain ⟨ds,hds,hrender,hbindings⟩ := designate_bindings hformat hpackages
  have hnames := boundNames_alike
  rw [hds] at hnames
  exact ⟨ds,hds,Option.some.inj hnames,hrender,hbindings⟩

/-- The aliases of the two are the same. -/
theorem alike_bound_twice : (∀ c ∈ alike, c.package.isSome) ∧
    (({} : Writer).designate alike "json").toOption.map (fun ds => (modules ds).map fun m => (m.package,m.boundNames)) =
      some [("m",["C","XT","XT"]),("m.a.x",["T"]),("m.b.x",["T"])] :=
  ⟨by decide +kernel,boundNames_alike⟩

end Output
end SchemaBinding
