import Mathlib.Data.List.Basic
import SchemaBinding.Schema.Reader

/-! What a schema is read from. On each element the reader looks up attributes of a few names, which the local name of
the element decides, and it goes on to the text and the children; prefixes and declarations it only hands on.
Main statements: a change of elements, at every depth, that keeps what is looked up changes nothing in a schema but the
declarations that are handed on; if it keeps what is looked up but for locations, it changes no more than the locations
of references besides. -/
namespace SchemaBinding
namespace Xml
namespace Element

/-- The local names of the attributes that are looked up on elements of a local name. -/
def attributesRead : String → List String
  | "schema" => ["targetNamespace"]
  | "import" | "include" | "redefine" | "override" => ["schemaLocation","namespace"]
  | "element" => ["name","ref","type","minOccurs","maxOccurs","default","fixed","nillable","abstract"]
  | "attribute" => ["name","ref","type","use","default","fixed"]
  | "complexType" => ["name","mixed","abstract"]
  | "simpleType" => ["name"]
  | "group" => ["name","ref","minOccurs","maxOccurs"]
  | "attributeGroup" => ["name","ref"]
  | "sequence" | "choice" | "all" => ["minOccurs","maxOccurs"]
  | "any" => ["namespace","minOccurs","maxOccurs"]
  | "complexContent" | "simpleContent" => ["mixed"]
  | "extension" | "restriction" => ["base"]
  | "list" => ["itemType"]
  | "union" => ["memberTypes"]
  | "enumeration" | "pattern" | "whiteSpace" | "minExclusive" | "minInclusive" | "maxExclusive" | "maxInclusive"
  | "minLength" | "maxLength" | "length" | "totalDigits" | "fractionDigits" => ["value"]
  | _ => []

/-- Those of them that hold no location. -/
def attributesUnlocated (name : String) : List String := (attributesRead name).filter (· ≠ "schemaLocation")

theorem name_of_mem_childrenNamed {e child : Element} {name : String} (h : child ∈ e.childrenNamed name) :
    child.name = name := by
  simpa using (List.mem_filter.mp h).2

theorem name_of_child? {e child : Element} {name : String} (h : e.child? name = some child) : child.name = name :=
  name_of_mem_childrenNamed (List.mem_of_mem_head? (Option.mem_def.mpr h))

/-- What holds of an element if it holds of its children holds of every element. -/
theorem inductionOnChildren {P : Element → Prop} (step : ∀ e, (∀ c ∈ e.children, P c) → P e) (e : Element) : P e :=
  step e fun c _ => inductionOnChildren step c
termination_by e
decreasing_by
  have hchildren : sizeOf e.children < sizeOf e := by
    cases e
    simp only [Element.mk.sizeOf_spec]
    omega
  exact Nat.lt_trans (List.sizeOf_lt_of_mem ‹c ∈ e.children›) hchildren

theorem textContent_eq (e : Element) : e.textContent = joinContents (e.text.getD "") e.children := by
  cases e
  rfl

theorem joinContents_map {g : Element → Element} (text : String) {es : List Element}
    (h : ∀ e ∈ es, (g e).textContent = e.textContent) : joinContents text (es.map g) = joinContents text es := by
  induction es generalizing text with
  | nil => rfl
  | cons e es ih =>
    obtain ⟨he,hes⟩ := List.forall_mem_cons.mp h
    rw [List.map_cons,joinContents,joinContents,he,ih _ hes]

/-- A change of elements, at every depth, that keeps what schemas are read from. -/
structure PreservesRead (g : Element → Element) : Prop where
  name : ∀ e, (g e).name = e.name
  text : ∀ e, (g e).text = e.text
  attribute? : ∀ {e : Element} {n : String}, n ∈ attributesRead e.name → (g e).attribute? n = e.attribute? n
  children : ∀ e, (g e).children = e.children.map g

/-- A change of elements, at every depth, that keeps what schemas are read from but for locations. -/
structure PreservesUnlocated (g : Element → Element) : Prop where
  name : ∀ e, (g e).name = e.name
  text : ∀ e, (g e).text = e.text
  attribute? : ∀ {e : Element} {n : String}, n ∈ attributesUnlocated e.name → (g e).attribute? n = e.attribute? n
  children : ∀ e, (g e).children = e.children.map g

theorem PreservesRead.unlocated {g : Element → Element} (hg : PreservesRead g) : PreservesUnlocated g where
  name := hg.name
  text := hg.text
  attribute? h := hg.attribute? (List.mem_filter.mp h).1
  children := hg.children

theorem preservesRead_id : PreservesRead id where
  name _ := rfl
  text _ := rfl
  attribute? _ := rfl
  children e := (List.map_id e.children).symm

section Preserved
variable {g : Element → Element} (hg : PreservesUnlocated g)
include hg

/-! ## Values of attributes -/

section Values
variable {e : Element} {name : String} (h : name ∈ attributesUnlocated e.name)
include h

theorem flag_preserved : (g e).flag name = e.flag name := by
  rw [flag,hg.attribute? h,flag]

theorem natural?_preserved : (g e).natural? name = e.natural? name := by
  rw [natural?,hg.attribute? h,natural?]

theorem double?_preserved : (g e).double? name = e.double? name := by
  rw [double?,hg.attribute? h,double?]

end Values

theorem occurrence_preserved {e : Element} (hmin : "minOccurs" ∈ attributesUnlocated e.name)
    (hmax : "maxOccurs" ∈ attributesUnlocated e.name) : (g e).occurrence = e.occurrence := by
  simp only [occurrence,maxOccurs?,hg.attribute? hmax,natural?_preserved hg hmax,natural?_preserved hg hmin]

theorem childrenNamed_preserved (e : Element) (name : String) :
    (g e).childrenNamed name = (e.childrenNamed name).map g := by
  simp only [childrenNamed,hg.children,List.filter_map,Function.comp_def,hg.name]

theorem child?_preserved (e : Element) (name : String) : (g e).child? name = (e.child? name).map g := by
  rw [child?,childrenNamed_preserved hg,List.head?_map,child?]

theorem textContent_preserved (e : Element) : (g e).textContent = e.textContent := by
  induction e using inductionOnChildren with
  | step e ih => rw [textContent_eq,textContent_eq,hg.text,hg.children,joinContents_map _ ih]

theorem documentation?_preserved (e : Element) : (g e).documentation? = e.documentation? := by
  have hfound : ((g e).childrenNamed "annotation").flatMap (·.childrenNamed "documentation") =
      ((e.childrenNamed "annotation").flatMap (·.childrenNamed "documentation")).map g := by
    rw [childrenNamed_preserved hg,List.flatMap_map,List.map_flatMap]
    simp only [childrenNamed_preserved hg]
  simp only [documentation?,hfound,List.map_map,Function.comp_def,textContent_preserved hg]

/-! ## Simple types and attributes -/

theorem takeFacet_preserved (f : Facets) (e : Element) : takeFacet f (g e) = takeFacet f e := by
  simp only [takeFacet,hg.name]
  split
  · rw [hg.attribute? (by rw [‹e.name = _›]; decide)]
  all_goals first
    | rw [double?_preserved hg (by rw [‹e.name = _›]; decide)]
    | rw [natural?_preserved hg (by rw [‹e.name = _›]; decide)]
    | rfl

theorem valuesOf_preserved (e : Element) {name : String} (h : "value" ∈ attributesUnlocated name) :
    (g e).valuesOf name = e.valuesOf name := by
  rw [valuesOf,childrenNamed_preserved hg,List.filterMap_map,valuesOf]
  refine List.filterMap_congr fun child hchild => ?_
  exact hg.attribute? (by rwa [name_of_mem_childrenNamed hchild])

theorem facets_preserved (e : Element) (f : Facets) : (g e).facets f = e.facets f := by
  have hfold : (g e).children.foldl takeFacet f = e.children.foldl takeFacet f := by
    rw [hg.children,List.foldl_map]
    simp only [takeFacet_preserved hg]
  rw [facets,hfold,valuesOf_preserved hg e (by decide),facets]

theorem takeDerivation_preserved (t : SimpleType) (e : Element) : takeDerivation t (g e) = takeDerivation t e := by
  simp only [takeDerivation,hg.name,facets_preserved hg]
  split
  · rw [hg.attribute? (by rw [‹e.name = _›]; decide),valuesOf_preserved hg e (by decide)]
  · rw [hg.attribute? (by rw [‹e.name = _›]; decide)]
  · rw [hg.attribute? (by rw [‹e.name = _›]; decide)]
  · rfl

theorem simpleType_preserved {e : Element} (h : e.name = "simpleType") : (g e).simpleType = e.simpleType := by
  rw [simpleType,hg.children,List.foldl_map,hg.attribute? (by rw [h]; decide),documentation?_preserved hg,
    simpleType]
  simp only [takeDerivation_preserved hg]

theorem simpleTypeChild_preserved (e : Element) :
    ((g e).child? "simpleType").map simpleType = (e.child? "simpleType").map simpleType := by
  rw [child?_preserved hg,Option.map_map]
  cases hchild : e.child? "simpleType" with
  | none => rfl
  | some child => exact congrArg some (simpleType_preserved hg (name_of_child? hchild))

theorem attributeDeclaration_preserved {e : Element} (h : e.name = "attribute") :
    (g e).attributeDeclaration = e.attributeDeclaration := by
  have hnames : ∀ name ∈ ["name","ref","type","use","default","fixed"], name ∈ attributesUnlocated e.name := by
    rw [h]
    decide
  have hread := fun name hname => hg.attribute? (hnames name hname)
  simp only [List.forall_mem_cons] at hread
  simp only [attributeDeclaration,hread,documentation?_preserved hg,simpleTypeChild_preserved hg]

theorem takeAttributeMember_preserved (a : AttributeGroup) (e : Element) :
    takeAttributeMember a (g e) = takeAttributeMember a e := by
  simp only [takeAttributeMember,hg.name]
  split
  · rw [attributeDeclaration_preserved hg ‹_›]
  · rw [hg.attribute? (by rw [‹e.name = _›]; decide)]
  · rfl
  · rfl

theorem attributeGroup_preserved {e : Element} (h : e.name = "attributeGroup") :
    (g e).attributeGroup = e.attributeGroup := by
  rw [attributeGroup,hg.children,List.foldl_map,hg.attribute? (by rw [h]; decide),documentation?_preserved hg,
    attributeGroup]
  simp only [takeAttributeMember_preserved hg]

/-! ## Content models -/

theorem occurrence_preserved_of_isCompositor {e : Element} (h : isCompositor e.name) :
    (g e).occurrence = e.occurrence := by
  simp only [isCompositor,Bool.or_eq_true,decide_eq_true_eq] at h
  rcases h with (h | h) | h <;> exact occurrence_preserved hg (by rw [h]; decide) (by rw [h]; decide)

theorem surroundings_preserved {e : Element} (h : isCompositor e.name) (outer : Surroundings) :
    (g e).surroundings outer = e.surroundings outer := by
  rw [surroundings,hg.name,occurrence_preserved_of_isCompositor hg h,surroundings]

theorem groupParticle?_preserved {e : Element} (h : e.name = "group") (around : Surroundings) :
    (g e).groupParticle? around = e.groupParticle? around := by
  rw [groupParticle?,hg.attribute? (by rw [h]; decide),
    occurrence_preserved hg (by rw [h]; decide) (by rw [h]; decide),groupParticle?]

theorem anyParticle_preserved {e : Element} (h : e.name = "any") (around : Surroundings) :
    (g e).anyParticle around = e.anyParticle around := by
  rw [anyParticle,hg.attribute? (by rw [h]; decide),
    occurrence_preserved hg (by rw [h]; decide) (by rw [h]; decide),anyParticle]

theorem plainDeclaration_preserved {e : Element} (h : e.name = "element") :
    (g e).plainDeclaration = e.plainDeclaration := by
  have hnames : ∀ name ∈ ["name","ref","type","default","fixed"], name ∈ attributesUnlocated e.name := by
    rw [h]
    decide
  have hread := fun name hname => hg.attribute? (hnames name hname)
  simp only [List.forall_mem_cons] at hread
  have hoccurs : (g e).occurrence = e.occurrence :=
    occurrence_preserved hg (by rw [h]; decide) (by rw [h]; decide)
  have hnillable : (g e).flag "nillable" = e.flag "nillable" := flag_preserved hg (by rw [h]; decide)
  have habstract : (g e).flag "abstract" = e.flag "abstract" := flag_preserved hg (by rw [h]; decide)
  simp only [plainDeclaration,hread,hoccurs,hnillable,habstract,documentation?_preserved hg,simpleTypeChild_preserved hg]

theorem bareComplexType_preserved {e : Element} (h : e.name = "complexType") :
    (g e).bareComplexType = e.bareComplexType := by
  rw [bareComplexType,hg.attribute? (by rw [h]; decide),documentation?_preserved hg,
    flag_preserved hg (by rw [h]; decide),flag_preserved hg (by rw [h]; decide),bareComplexType]

theorem takePlainMember_preserved (t : ComplexType) (e : Element) : takePlainMember t (g e) = takePlainMember t e := by
  simp only [takePlainMember,hg.name]
  split
  · rw [groupParticle?_preserved hg ‹_›]
  · rw [attributeDeclaration_preserved hg ‹_›]
  · rw [hg.attribute? (by rw [‹e.name = _›]; decide)]
  · rfl
  · rfl

theorem takeContentKind_preserved {e : Element} (h : e.name = "complexContent" ∨ e.name = "simpleContent")
    (t : ComplexType) : takeContentKind t (g e) = takeContentKind t e := by
  have hmixed : (g e).flag "mixed" = e.flag "mixed" := by
    rcases h with h | h <;> exact flag_preserved hg (by rw [h]; decide)
  rw [takeContentKind,hg.name,hmixed,takeContentKind]

end Preserved

/-- What is read from an element, in each of the places where it may stand, is read from it as it is changed. -/
structure ReadsAlike (g : Element → Element) (e : Element) : Prop where
  particles : ∀ around, (g e).particles around = e.particles around
  member : ∀ t, (g e).takeMember t = e.takeMember t
  derivation : ∀ t, (g e).takeTypeDerivation t = e.takeTypeDerivation t
  complexType : e.name = "complexType" → (g e).complexType = e.complexType

namespace ReadsAlike
variable {g : Element → Element} {es : List Element} (h : ∀ e ∈ es, ReadsAlike g e)
include h

theorem particlesAmong (around : Surroundings) : particlesAmong around (es.map g) = particlesAmong around es := by
  rw [particlesAmong_eq_flatMap,particlesAmong_eq_flatMap,List.flatMap_map]
  exact List.flatMap_congr fun e he => (h e he).particles around

theorem takeMembers (t : ComplexType) : takeMembers t (es.map g) = takeMembers t es := by
  rw [takeMembers_eq_foldl,takeMembers_eq_foldl,List.foldl_map]
  exact List.foldl_ext _ _ t fun t e he => (h e he).member t

theorem takeTypeDerivations (t : ComplexType) : takeTypeDerivations t (es.map g) = takeTypeDerivations t es := by
  rw [takeTypeDerivations_eq_foldl,takeTypeDerivations_eq_foldl,List.foldl_map]
  exact List.foldl_ext _ _ t fun t e he => (h e he).derivation t

theorem firstComplexType (hg : PreservesUnlocated g) : firstComplexType (es.map g) = firstComplexType es := by
  simp only [firstComplexType_eq,List.find?_map,Function.comp_def,hg.name]
  cases hfound : es.find? (·.name = "complexType") with
  | none => rfl
  | some e =>
    have hname : e.name = "complexType" := by simpa using List.find?_some hfound
    exact congrArg some ((h e (List.mem_of_find?_eq_some hfound)).complexType hname)

end ReadsAlike

section Preserved
variable {g : Element → Element} (hg : PreservesUnlocated g)
include hg

theorem readsAlike (e : Element) : ReadsAlike g e := by
  induction e using inductionOnChildren with
  | step e ih =>
    constructor
    · intro around
      rw [particles_eq,particles_eq,hg.name,hg.children]
      split
      · rw [surroundings_preserved hg ‹_›,ReadsAlike.particlesAmong ih]
      · split
        · rw [plainDeclaration_preserved hg ‹_›,ReadsAlike.firstComplexType ih hg]
        · split
          · rw [groupParticle?_preserved hg ‹_›]
          · split
            · rw [anyParticle_preserved hg ‹_›]
            · rfl
    · intro t
      rw [takeMember_eq,takeMember_eq,hg.name,hg.children,takePlainMember_preserved hg]
      split
      · rw [surroundings_preserved hg ‹_›,ReadsAlike.particlesAmong ih]
      · split
        · rw [takeContentKind_preserved hg (by simp_all),ReadsAlike.takeTypeDerivations ih]
        · rfl
    · intro t
      rw [takeTypeDerivation_eq,takeTypeDerivation_eq,hg.name,hg.children]
      split
      · rename_i hderivation
        have hbase : "base" ∈ attributesUnlocated e.name := by
          simp only [Bool.or_eq_true,decide_eq_true_eq] at hderivation
          rcases hderivation with h | h <;> (rw [h]; decide)
        rw [hg.attribute? hbase,ReadsAlike.takeMembers ih]
      · rfl
    · intro h
      rw [complexType_eq,complexType_eq,hg.children,bareComplexType_preserved hg h,ReadsAlike.takeMembers ih]

theorem elementDeclaration_preserved {e : Element} (h : e.name = "element") :
    (g e).elementDeclaration = e.elementDeclaration := by
  rw [elementDeclaration,plainDeclaration_preserved hg h,hg.children,
    ReadsAlike.firstComplexType (fun e _ => readsAlike hg e) hg,elementDeclaration]

theorem group_preserved {e : Element} (h : e.name = "group") : (g e).group = e.group := by
  have hparticles : ((g e).children.filter (isCompositor ·.name)).flatMap (particles {}) =
      (e.children.filter (isCompositor ·.name)).flatMap (particles {}) := by
    rw [hg.children,List.filter_map,List.flatMap_map]
    simp only [Function.comp_def,hg.name]
    exact List.flatMap_congr fun e _ => (readsAlike hg e).particles {}
  rw [group,hg.attribute? (by rw [h]; decide),documentation?_preserved hg,hparticles,group]

end Preserved
end Element
end Xml

namespace Schema
open Xml (Element)
open Xml.Element

/-- A change of schemas that leaves alone what is declared and referred to can be made before or after a child. -/
theorem addChild_hom {f : Schema → Schema} (hcomponent : ∀ s e, (f s).addComponent e = f (s.addComponent e))
    (hreferences : ∀ s, (f s).references = s.references)
    (hrefer : ∀ s references, { f s with references } = f { s with references }) (r : Reading) (s : Schema) (e : Element) :
    addChild r (f s) e = f (addChild r s e) := by
  unfold addChild
  cases ReferenceKind.ofName? e.name with
  | none => exact hcomponent s e
  | some kind =>
    dsimp only
    rw [hreferences,hrefer]
    split
    · exact List.foldl_hom f hcomponent
    · rfl

/-- A schema with other declarations. -/
def declaring (scope : Scope) (s : Schema) : Schema := { s with scope }

theorem addComponent_declaring (scope : Scope) (s : Schema) (e : Element) :
    (s.declaring scope).addComponent e = (s.addComponent e).declaring scope := by
  unfold addComponent
  split <;> rfl

theorem addChild_declaring (r : Reading) (scope : Scope) (s : Schema) (e : Element) :
    addChild r (s.declaring scope) e = (addChild r s e).declaring scope :=
  addChild_hom (addComponent_declaring scope) (fun _ => rfl) (fun _ _ => rfl) r s e

/-- A schema whose references lead nowhere. -/
def unlocated (s : Schema) : Schema :=
  { s with references := s.references.map fun r => { r with location := none, written := none } }

theorem addComponent_unlocated (s : Schema) (e : Element) : s.unlocated.addComponent e = (s.addComponent e).unlocated := by
  unfold addComponent
  split <;> rfl

@[simp] theorem unlocated_unlocated (s : Schema) : s.unlocated.unlocated = s.unlocated := by
  simp [unlocated,Function.comp_def]

theorem unlocated_addChild_unlocated (r : Reading) (s : Schema) (e : Element) :
    (addChild r s.unlocated e).unlocated = (addChild r s e).unlocated := by
  unfold addChild
  cases ReferenceKind.ofName? e.name with
  | none => rw [addComponent_unlocated,unlocated_unlocated]
  | some kind =>
    have hreference : Schema.unlocated { s.unlocated with references := s.unlocated.references ++ [readReference r kind e] } =
        Schema.unlocated { s with references := s.references ++ [readReference r kind e] } := by
      simp [unlocated]
    by_cases hredefines : kind.redefines
    · simp only [hredefines,if_true,← List.foldl_hom unlocated addComponent_unlocated,hreference]
    · simpa [hredefines] using hreference

section Unlocated
variable {g : Element → Element} (hg : PreservesUnlocated g)
include hg

theorem addComponent_preserved (s : Schema) (e : Element) : s.addComponent (g e) = s.addComponent e := by
  simp only [addComponent,hg.name]
  split
  · rw [elementDeclaration_preserved hg ‹_›]
  · rw [attributeDeclaration_preserved hg ‹_›]
  · rw [(readsAlike hg e).complexType ‹_›]
  · rw [simpleType_preserved hg ‹_›]
  · rw [group_preserved hg ‹_›]
  · rw [attributeGroup_preserved hg ‹_›]
  · rfl

theorem addChild_unlocated (r : Reading) (s : Schema) (e : Element) :
    (addChild r s (g e)).unlocated = (addChild r s e).unlocated := by
  unfold addChild
  rw [hg.name]
  cases hkind : ReferenceKind.ofName? e.name with
  | none => rw [addComponent_preserved hg]
  | some kind =>
    have hspace : (g e).attribute? "namespace" = e.attribute? "namespace" := by
      refine hg.attribute? ?_
      unfold ReferenceKind.ofName? at hkind
      split at hkind <;> first | (rw [‹e.name = _›]; decide) | cases hkind
    have hreference : Schema.unlocated { s with references := s.references ++ [readReference r kind (g e)] } =
        Schema.unlocated { s with references := s.references ++ [readReference r kind e] } := by
      simp [unlocated,readReference,hspace]
    by_cases hredefines : kind.redefines
    · simp only [hredefines,if_true,hg.children,List.foldl_map,addComponent_preserved hg,
        ← List.foldl_hom unlocated addComponent_unlocated,hreference]
    · simpa [hredefines] using hreference

/-- A schema is read from what is preserved but for the locations of its references. -/
theorem ofElement_unlocated (r : Reading) {e : Element} (hscope : (g e).scope = e.scope) :
    (ofElement r (g e)).map unlocated = (ofElement r e).map unlocated := by
  have hfold (es : List Element) {s s' : Schema} (h : s.unlocated = s'.unlocated) :
      ((es.map g).foldl (addChild r) s).unlocated = (es.foldl (addChild r) s').unlocated := by
    induction es generalizing s s' with
    | nil => exact h
    | cons e es ih =>
      refine ih ?_
      rw [addChild_unlocated hg,← unlocated_addChild_unlocated,h,unlocated_addChild_unlocated]
  unfold ofElement
  rw [hg.name]
  split
  · rfl
  · rename_i hname
    have hschema : "targetNamespace" ∈ attributesUnlocated e.name := by
      rw [not_not.mp hname]
      decide
    rw [hg.attribute? hschema,hg.children,hscope]
    exact congrArg Except.ok (hfold e.children rfl)

end Unlocated

variable {g : Element → Element} (hg : PreservesRead g)
include hg

theorem readReference_preserved (r : Reading) (kind : ReferenceKind) {e : Element}
    (h : ReferenceKind.ofName? e.name = some kind) : readReference r kind (g e) = readReference r kind e := by
  have hnames : ∀ name ∈ ["schemaLocation","namespace"], name ∈ attributesRead e.name := by
    unfold ReferenceKind.ofName? at h
    split at h
    · rw [‹e.name = _›]
      decide
    · rw [‹e.name = _›]
      decide
    · rw [‹e.name = _›]
      decide
    · rw [‹e.name = _›]
      decide
    · cases h
  have hread := fun name hname => hg.attribute? (hnames name hname)
  simp only [List.forall_mem_cons] at hread
  simp only [readReference,hread]

theorem addChild_preserved (r : Reading) (s : Schema) (e : Element) : addChild r s (g e) = addChild r s e := by
  unfold addChild
  rw [hg.name]
  cases hkind : ReferenceKind.ofName? e.name with
  | none => exact addComponent_preserved hg.unlocated s e
  | some kind =>
    simp only [readReference_preserved hg r kind hkind,hg.children,List.foldl_map,addComponent_preserved hg.unlocated]

/-- A schema is read from what is preserved; the declarations it carries are those of its element. -/
theorem ofElement_preserved (r : Reading) (e : Element) :
    ofElement r (g e) = (ofElement r e).map (declaring (g e).scope) := by
  have hfold (s : Schema) : (g e).children.foldl (addChild r) s = e.children.foldl (addChild r) s := by
    rw [hg.children,List.foldl_map]
    simp only [addChild_preserved hg]
  unfold ofElement
  rw [hg.name]
  split
  · rfl
  · rename_i hname
    have hschema : "targetNamespace" ∈ attributesRead e.name := by
      rw [not_not.mp hname]
      decide
    rw [hg.attribute? hschema,hfold]
    let bare : Schema :=
      { location := r.location, targetNamespace := (e.attribute? "targetNamespace").or r.targetNamespace, scope := e.scope }
    have hchildren : e.children.foldl (addChild r) (bare.declaring (g e).scope) =
        (e.children.foldl (addChild r) bare).declaring (g e).scope :=
      List.foldl_hom (declaring (g e).scope) (addChild_declaring r (g e).scope)
    exact congrArg Except.ok hchildren

end Schema
end SchemaBinding
