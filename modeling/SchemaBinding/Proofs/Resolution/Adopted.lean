import SchemaBinding.Proofs.Resolution.Coverage

/-! Which namespace the components of a document are in that declares none. A document is read once, for the first
request that leads to it, and all its classes are in the namespace handed on with that request. Main statement: they
are in the namespace of a document that refers to it if and only if the first request handed on the same, or there are
none. -/
namespace SchemaBinding

namespace Build
variable {space : Option String}

/-- A class that is made for a component with a name has its key from the kind of component. -/
theorem keyOf_named {name? : Option String} {make : String → Class} {kind : Kind}
    (hmake : ∀ name, Simplify.keyOf (make name) = ⟨kind,space,name⟩) :
    (name?.map make).map Simplify.keyOf = name?.map (⟨kind,space,·⟩) := by
  rw [Option.map_map]
  exact congrArg (name?.map ·) (funext hmake)

theorem keyOf_elementClass? (e : ElementDeclaration) :
    (elementClass? space e).map Simplify.keyOf = e.name.map (⟨.element,space,·⟩) := by
  refine keyOf_named fun name => ?_
  dsimp only
  split <;> rfl

theorem keyOf_complexTypeClass? (t : ComplexType) :
    (complexTypeClass? space t).map Simplify.keyOf = t.name.map (⟨.complexType,space,·⟩) :=
  keyOf_named fun _ => rfl

theorem keyOf_simpleTypeClass? (t : SimpleType) :
    (simpleTypeClass? space t).map Simplify.keyOf = t.name.map (⟨.simpleType,space,·⟩) := by
  refine keyOf_named fun name => ?_
  dsimp only
  split <;> rfl

theorem keyOf_attributeClass? (a : AttributeDeclaration) :
    (attributeClass? space a).map Simplify.keyOf = a.name.map (⟨.attribute,space,·⟩) :=
  keyOf_named fun _ => rfl

end Build

namespace Schema

/-- The kinds and names of the components that a schema declares. -/
def declared (s : Schema) : List (Kind × String) :=
  s.elements.filterMap (fun e => e.name.map (.element,·)) ++
    s.complexTypes.filterMap (fun t => t.name.map (.complexType,·)) ++
    s.simpleTypes.filterMap (fun t => t.name.map (.simpleType,·)) ++
    s.groups.map (fun g => (.group,g.name)) ++
    s.attributeGroups.map (fun g => (.attributeGroup,g.name)) ++
    s.attributes.filterMap fun a => a.name.map (.attribute,·)

/-- Among some classes, there is one in a namespace for each component that a schema declares. -/
def Appears (s : Schema) (classes : List Class) (space : Option String) : Prop :=
  ∀ d ∈ s.declared, ∃ c ∈ classes, c.kind = d.1 ∧ c.name = d.2 ∧ c.space = space

/-- The classes of a schema are made from its components one by one, all in its namespace. -/
theorem map_keyOf_classes (s : Schema) :
    s.classes.map Simplify.keyOf = s.declared.map fun d => ⟨d.1,s.targetNamespace,d.2⟩ := by
  simp only [classes,declared,List.map_append,List.map_filterMap,List.map_map,Build.keyOf_elementClass?,
    Build.keyOf_complexTypeClass?,Build.keyOf_simpleTypeClass?,Build.keyOf_attributeClass?,Option.map_map]
  rfl

theorem space_of_mem_classes {s : Schema} {c : Class} (hc : c ∈ s.classes) : c.space = s.targetNamespace := by
  have hkey : Simplify.keyOf c ∈ s.classes.map Simplify.keyOf := List.mem_map_of_mem hc
  rw [map_keyOf_classes] at hkey
  obtain ⟨d,_,hd⟩ := List.mem_map.mp hkey
  exact (congrArg Simplify.GroupKey.space hd).symm

theorem appears_classes (s : Schema) : s.Appears s.classes s.targetNamespace := by
  intro d hd
  have hkey : (⟨d.1,s.targetNamespace,d.2⟩ : Simplify.GroupKey) ∈ s.classes.map Simplify.keyOf := by
    rw [map_keyOf_classes]
    exact List.mem_map_of_mem hd
  obtain ⟨c,hc,hc'⟩ := List.mem_map.mp hkey
  exact ⟨c,hc,congrArg Simplify.GroupKey.kind hc',congrArg Simplify.GroupKey.name hc',
    congrArg Simplify.GroupKey.space hc'⟩

/-- What a schema declares appears among its own classes in its own namespace and in no other. -/
theorem appears_classes_iff (s : Schema) (space : Option String) :
    s.Appears s.classes space ↔ s.targetNamespace = space ∨ s.declared = [] := by
  constructor
  · intro h
    refine or_iff_not_imp_right.mpr fun hne => ?_
    obtain ⟨d,hd⟩ := List.exists_mem_of_ne_nil _ hne
    obtain ⟨c,hc,_,_,hspace⟩ := h d hd
    exact (space_of_mem_classes hc).symm.trans hspace
  · rintro (rfl | hnil)
    · exact s.appears_classes
    · intro d hd
      rw [hnil] at hd
      cases hd

/-- What a schema without a namespace declares appears in the one that it takes and in no other. -/
theorem appears_classes_adopt {s : Schema} (hnone : s.targetNamespace = none) (space other : Option String) :
    s.Appears (s.adopt space).classes other ↔ space = other ∨ s.declared = [] := by
  have hspace : (s.adopt space).targetNamespace = space := by
    simp [adopt,hnone]
  have h := (s.adopt space).appears_classes_iff other
  rw [hspace] at h
  exact h

end Schema

namespace Session
open Resolution

variable (disk : Disk) (s : Session) (entries : List String)

/-- A document that declares no namespace, and to which a visited document refers in whatever way, is visited once: for
an entry point, which hands on no namespace, or for the first document that refers to it, which hands on its own. What
it declares appears in the namespace of the one that refers to it if and only if that is the namespace handed on, or it
declares nothing. -/
theorem takeSchemas_adopts_iff
    (hlimit : Suffices (s.readSchema? disk) s.settings.limits.maxIncludeDepth (entering none entries)) :
    let run := s.fresh.takeSchemas disk entries
    ∃ order, Tour (s.readSchema? disk) ⊤ [] (entering none entries) order ∧ run.2 = .ok () ∧
      (∀ uri ∈ run.1.corpus.uris, uri ∈ uris order) ∧
      ∀ a ∈ order, ∀ P, s.readSchema? disk a.uri a.space = some P →
        run.1.corpus.get? a.uri = some P.classes ∧
        ∀ r ∈ P.references, ∀ u U, r.location = some u → s.readSchema? disk u none = some U →
          U.targetNamespace = none →
          ∃ b ∈ order, b.uri = u ∧
            (b ∈ entering none entries ∨ ∃ c ∈ order, b ∈ onward (s.readSchema? disk) c) ∧
            ∃ classes, run.1.corpus.get? u = some classes ∧ U.Appears classes b.space ∧
              (U.Appears classes P.targetNamespace ↔ b.space = P.targetNamespace ∨ U.declared = []) := by
  intro run
  obtain ⟨order,htour,h⟩ := s.takeSchemas_follows_unlimited disk entries hlimit
  have hrecorded : ∀ a ∈ order, ∀ d, s.readSchema? disk a.uri a.space = some d →
      run.1.corpus.get? a.uri = some d.classes := by
    intro a ha d hd
    exact (h.recorded a ha).trans (by rw [hd]; rfl)
  refine ⟨order,htour,h.ok,fun uri huri => ((mem_uris_takeSchemas h uri).mp huri).1,fun a ha P hP => ?_⟩
  refine ⟨hrecorded a ha P hP,fun r hr u U hu hU hnone => ?_⟩
  have honward : (⟨u,P.targetNamespace,a.depth+1⟩ : Arrival) ∈ onward (s.readSchema? disk) a :=
    mem_onward.mpr ⟨P,hP,List.mem_filterMap.mpr ⟨r,hr,hu⟩,rfl,rfl⟩
  obtain ⟨b,hb,rfl⟩ := mem_uris.mp (htour.closed a ha _ honward le_top)
  have hread : s.readSchema? disk b.uri b.space = some (U.adopt b.space) := by
    rw [readSchema?_adopt,hU]
    rfl
  have happears := Schema.appears_classes_adopt hnone b.space
  exact ⟨b,hb,rfl,htour.origin b hb,_,hrecorded b hb _ hread,(happears _).mpr (Or.inl rfl),happears _⟩

/-- Two documents in different namespaces that include the same document, which declares none. -/
def shared : Session := serving { maxIncludeDepth := 3 } [
  ("file:///p","<schema targetNamespace='urn:1'><include schemaLocation='u'/></schema>"),
  ("file:///q","<schema targetNamespace='urn:2'><include schemaLocation='u'/></schema>"),
  ("file:///u","<schema><complexType name='T'/></schema>")]

theorem suffices_shared :
    Suffices (shared.readSchema? {}) 3 (entering none ["file:///p","file:///q"]) := by
  refine shared.suffices_of_encard_le {} _ (encard_le_length ["file:///p","file:///q","file:///u"] ?_)
  exact fun uri huri => huri.mem_of_closed (by decide) (by decide +kernel)

theorem takeSchemas_adopts_iff_shared :
    Suffices (shared.readSchema? {}) 3 (entering none ["file:///p","file:///q"]) ∧
    let run := shared.fresh.takeSchemas {} ["file:///p","file:///q"]
    ∃ order, Tour (shared.readSchema? {}) ⊤ [] (entering none ["file:///p","file:///q"]) order ∧
      run.2 = .ok () ∧ (∀ uri ∈ run.1.corpus.uris, uri ∈ uris order) ∧
      ∀ a ∈ order, ∀ P, shared.readSchema? {} a.uri a.space = some P →
        run.1.corpus.get? a.uri = some P.classes ∧
        ∀ r ∈ P.references, ∀ u U, r.location = some u → shared.readSchema? {} u none = some U →
          U.targetNamespace = none →
          ∃ b ∈ order, b.uri = u ∧ (b ∈ entering none ["file:///p","file:///q"] ∨
              ∃ c ∈ order, b ∈ onward (shared.readSchema? {}) c) ∧
            ∃ classes, run.1.corpus.get? u = some classes ∧ U.Appears classes b.space ∧
              (U.Appears classes P.targetNamespace ↔ b.space = P.targetNamespace ∨ U.declared = []) :=
  ⟨suffices_shared,takeSchemas_adopts_iff {} shared _ suffices_shared⟩

/-- The second of them finds nothing in its namespace. -/
theorem shared_misses_second :
    Suffices (shared.readSchema? {}) 3 (entering none ["file:///p","file:///q"]) ∧
    let c := (shared.fresh.takeSchemas {} ["file:///p","file:///q"]).1.corpus
    "file:///q" ∈ c.uris ∧
      ¬ ∀ P r u U classes, shared.readSchema? {} "file:///q" none = some P → r ∈ P.references →
        r.kind = .including → r.location = some u → shared.readSchema? {} u none = some U → U.targetNamespace = none →
        c.get? u = some classes → U.Appears classes P.targetNamespace := by
  have hq : (shared.readSchema? {} "file:///q" none).map (fun P =>
      (P.targetNamespace,P.references.map fun r => (r.kind,r.location))) =
        some (some "urn:2",[(.including,some "file:///u")]) := by
    decide +kernel
  have hu : (shared.readSchema? {} "file:///u" none).map (fun U => (U.targetNamespace,U.declared)) =
      some (none,[(.complexType,"T")]) := by
    decide +kernel
  have hc : let c := (shared.fresh.takeSchemas {} ["file:///p","file:///q"]).1.corpus
      "file:///q" ∈ c.uris ∧ (c.get? "file:///u").map (List.map Class.space) = some [some "urn:1"] := by
    decide +kernel
  obtain ⟨P,hP,hparts⟩ := Option.map_eq_some_iff.mp hq
  obtain ⟨hspace,hreferences⟩ := Prod.mk.inj hparts
  obtain ⟨r,hr,hreference⟩ := List.mem_map.mp (hreferences ▸ List.mem_singleton_self _)
  obtain ⟨hkind,hlocation⟩ := Prod.mk.inj hreference
  obtain ⟨U,hU,hparts⟩ := Option.map_eq_some_iff.mp hu
  obtain ⟨hnone,hdeclared⟩ := Prod.mk.inj hparts
  obtain ⟨classes,hclasses,hspaces⟩ := Option.map_eq_some_iff.mp hc.2
  refine ⟨suffices_shared,hc.1,fun hall => ?_⟩
  have happears := hall P r _ U classes hP hr hkind hlocation hU hnone hclasses
  obtain ⟨d,hd,_,_,hd'⟩ := happears (.complexType,"T") (by simp [hdeclared])
  have hfirst : d.space ∈ classes.map Class.space := List.mem_map_of_mem hd
  rw [hspaces,hd',hspace] at hfirst
  simp at hfirst

end Session
end SchemaBinding
