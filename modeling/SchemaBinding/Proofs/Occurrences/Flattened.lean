import SchemaBinding.Model.Build
import SchemaBinding.Proofs.Occurrences.ContentModel

/-! What is left of a content model when its compositors are flattened. -/
namespace SchemaBinding
open Xml (Node Tag Element)

/-- What a particle and the field for it have in common. -/
structure Slot where
  kind : Kind
  name : String
  occurs : Occurrence

def Field.slot (f : Field) : Slot := ⟨f.kind,f.name,f.occurs⟩

def Particle.slot? : Particle → Option Slot
  | .element e => (Build.elementName? e).map fun name => ⟨.element,name,e.occurs⟩
  | .group reference occurs => some ⟨.group,Prefixed.localPart reference,occurs⟩
  | .any _ occurs => some ⟨.any,"any_element",occurs⟩

namespace Written

/-- What is read of a bound; one that is not plain counts as absent. -/
def natural? (text : String) : Option Nat := Natural.ofChars? (Blank.trimChars text.toList)

def occurrence (w : Written) : Occurrence where
  min := w.min.bind natural?
  max := if w.max = some "unbounded" then some unbounded else w.max.bind natural?

end Written

namespace ContentModel

mutual

/-- The slots of a content model in its surroundings. -/
def slots (around : Surroundings) : ContentModel → List Slot
  | element written name => (name.map fun name => ⟨.element,name,around.apply written.occurrence⟩).toList
  | wildcard written => [⟨.any,"any_element",around.apply written.occurrence⟩]
  | group written reference => [⟨.group,reference,around.apply written.occurrence⟩]
  | compositor written kind members => slotsAll (around.nest (kind = .choice) written.occurrence) members

def slotsAll (around : Surroundings) : List ContentModel → List Slot
  | [] => []
  | m :: rest => slots around m ++ slotsAll around rest

end

theorem slotsAll_append (around : Surroundings) (ms ns : List ContentModel) :
    slotsAll around (ms ++ ns) = slotsAll around ms ++ slotsAll around ns := by
  induction ms with
  | nil => rfl
  | cons m ms ih => rw [List.cons_append,slotsAll,slotsAll,ih,List.append_assoc]

end ContentModel

/-! ## Fields -/

namespace Build

theorem exists_plainElementField (space : Option String) (d : ElementDeclaration) (name : String) :
    ∃ type facets, plainElementField space d name = elementField space d name type false facets := by
  unfold plainElementField
  split
  · exact ⟨_,_,rfl⟩
  · split <;> exact ⟨_,_,rfl⟩

/-- An element has one field, if it has a name. -/
theorem fields_elementContent (space : Option String) (d : ElementDeclaration) :
    (elementName? d = none ∧ (elementContent space d).fields = []) ∨
      ∃ name type forward facets, elementName? d = some name ∧
        (elementContent space d).fields = [elementField space d name type forward facets] := by
  obtain ⟨name,reference,type,occurs,default,fixed,nillable,isAbstract,help,complexType,simpleType⟩ := d
  rw [elementContent]
  cases hname : elementName? ⟨name,reference,type,occurs,default,fixed,nillable,isAbstract,help,complexType,
      simpleType⟩ with
  | none => exact Or.inl ⟨rfl,rfl⟩
  | some found =>
    refine Or.inr ?_
    dsimp only
    split
    · exact ⟨found,_,_,_,rfl,rfl⟩
    · obtain ⟨type,facets,hfield⟩ := exists_plainElementField space _ found
      exact ⟨found,type,false,facets,rfl,congrArg (fun f => [f]) hfield⟩

theorem slots_particleContent (space : Option String) (p : Particle) :
    (particleContent space p).fields.map Field.slot = p.slot?.toList := by
  cases p with
  | group reference occurs => rfl
  | any any occurs => rfl
  | element d =>
    rw [particleContent]
    rcases fields_elementContent space d with ⟨hname,hfields⟩ | ⟨name,type,forward,facets,hname,hfields⟩
    · rw [hfields]
      simp [Particle.slot?,hname]
    · rw [hfields]
      simp [Particle.slot?,hname,elementField,Field.slot]

theorem slots_particleContents (space : Option String) (ps : List Particle) :
    (particleContents space ps).fields.map Field.slot = ps.filterMap Particle.slot? := by
  induction ps with
  | nil => rfl
  | cons p ps ih =>
    rw [particleContents]
    change ((particleContent space p).fields ++ (particleContents space ps).fields).map Field.slot = _
    rw [List.map_append,slots_particleContent,ih,List.filterMap_cons]
    cases p.slot? <;> rfl

end Build

/-! ## Particles -/

namespace Xml.Node
open ContentModel (slots slotsAll)

/-- On a tag, what is looked up is what is written without a prefix. -/
def OwnTag (tag : Tag) : Prop :=
  ∀ n ∈ ["name","ref","minOccurs","maxOccurs"], Element.lastOf n tag.attributes = tag.own? n

/-- No attribute with a prefix is taken for a bound, a name or a reference in a content model. -/
def Own (n : Node) : Prop :=
  ∀ tag content, (element tag content).Inside n →
    tag.localName ∈ ["element","any","group","sequence","choice","all"] → OwnTag tag

theorem Own.child {tag : Tag} {content : List Node} (h : (element tag content).Own) {n : Node} (hn : n ∈ content) :
    n.Own :=
  fun tag content hinside => h tag content (.child hn hinside)

theorem Own.content {n : Node} (h : n.Own) : ∀ c ∈ n.content, c.Own := by
  cases n with
  | data text => simp [Node.content]
  | «section» text => simp [Node.content]
  | element tag content => exact fun c hc => h.child hc

theorem ofNode_element (outer : Scope) (tag : Tag) (content : List Node) :
    ∃ e : Element, Element.ofNode outer (element tag content) = some e ∧ e.name = tag.localName ∧
      e.children = Element.ofNodes e.scope content ∧ ∀ n, e.attribute? n = Element.lastOf n tag.attributes :=
  ⟨_,rfl,Element.name_bare tag,rfl,Element.attribute?_bare tag⟩

theorem localName?_of_ofNode {outer : Scope} {n : Node} {e : Element} (h : Element.ofNode outer n = some e) :
    n.localName? = some e.name := by
  match n,h with
  | element tag content,h =>
    obtain ⟨found,hfound,hname,_⟩ := ofNode_element outer tag content
    obtain rfl := Option.some.inj (hfound.symm.trans h)
    exact congrArg some hname.symm

theorem children_ofNode {outer : Scope} {n : Node} {e : Element} (h : Element.ofNode outer n = some e) :
    e.children = Element.ofNodes e.scope n.content := by
  match n,h with
  | element tag content,h =>
    obtain ⟨found,hfound,_,hchildren,_⟩ := ofNode_element outer tag content
    obtain rfl := Option.some.inj (hfound.symm.trans h)
    exact hchildren

section Tags
variable {e : Element} {tag : Tag} (hattribute : ∀ n, e.attribute? n = Element.lastOf n tag.attributes)
  (hown : OwnTag tag)
include hattribute hown

theorem occurrence_of_own : e.occurrence = tag.written.occurrence := by
  have hmin : e.attribute? "minOccurs" = tag.own? "minOccurs" := (hattribute _).trans (hown _ (by simp))
  have hmax : e.attribute? "maxOccurs" = tag.own? "maxOccurs" := (hattribute _).trans (hown _ (by simp))
  rw [Element.occurrence,Element.maxOccurs?,Element.natural?,Element.natural?,hmin,hmax]
  rfl

theorem elementName?_of_own : Build.elementName? e.plainDeclaration = tag.elementName? := by
  have hname : e.attribute? "name" = tag.own? "name" := (hattribute _).trans (hown _ (by simp))
  have href : e.attribute? "ref" = tag.own? "ref" := (hattribute _).trans (hown _ (by simp))
  rw [Build.elementName?,Element.plainDeclaration,hname,href]
  rfl

theorem groupParticle?_of_own (around : Surroundings) : (e.groupParticle? around).toList.filterMap Particle.slot? =
    slotsAll around ((tag.own? "ref").map fun reference =>
      ContentModel.group tag.written (Prefixed.localPart reference)).toList := by
  have href : e.attribute? "ref" = tag.own? "ref" := (hattribute _).trans (hown _ (by simp))
  rw [Element.groupParticle?,href,occurrence_of_own hattribute hown]
  cases tag.own? "ref" <;> rfl

end Tags

theorem isSome_ofName? (name : String) : (Compositor.ofName? name).isSome = Element.isCompositor name := by
  unfold Compositor.ofName?
  split
  · rfl
  · rfl
  · rfl
  · simp_all [Element.isCompositor]

theorem eq_choice_iff {name : String} {kind : Compositor} (h : Compositor.ofName? name = some kind) :
    name = "choice" ↔ kind = .choice := by
  unfold Compositor.ofName? at h
  split at h <;> simp_all [eq_comm]

theorem mem_of_isCompositor {name : String} (h : Element.isCompositor name) :
    name ∈ ["element","any","group","sequence","choice","all"] := by
  simp only [Element.isCompositor,Bool.or_eq_true,decide_eq_true_eq] at h
  rcases h with (rfl | rfl) | rfl <;> simp

mutual

theorem slots_particles : ∀ n : Node, n.Own → ∀ outer around,
    (Element.particlesAmong around (Element.ofNode outer n).toList).filterMap Particle.slot? =
      slotsAll around n.contentModel?.toList
  | .data _, _, _, _ => rfl
  | .section _, _, _, _ => rfl
  | element tag content, h, outer, around => by
    have hcontent := slots_particlesAmong content fun n hn => h.child hn
    obtain ⟨e,he,hname,hchildren,hattribute⟩ := ofNode_element outer tag content
    have hown := h tag content .self
    have hsingle : Element.particlesAmong around (Element.ofNode outer (element tag content)).toList =
        e.particles around := by
      rw [he]
      exact List.append_nil _
    rw [hsingle,Element.particles_eq,hchildren,contentModel?,Element.surroundings,hname,← isSome_ofName?]
    cases hkind : Compositor.ofName? tag.localName with
    | some kind =>
      have hcompositor : Element.isCompositor tag.localName := by rw [← isSome_ofName?,hkind]; rfl
      have htag := hown (mem_of_isCompositor hcompositor)
      simp only [Option.isSome_some,if_true,Option.toList_some,slotsAll,slots,List.append_nil]
      rw [hcontent,occurrence_of_own hattribute htag,decide_eq_decide.mpr (eq_choice_iff hkind)]
    | none =>
      simp only [Option.isSome_none,Bool.false_eq_true,if_false]
      by_cases helement : tag.localName = "element"
      · have htag := hown (by simp [helement])
        have hoccurs : e.plainDeclaration.occurs = tag.written.occurrence := occurrence_of_own hattribute htag
        have hfound := elementName?_of_own hattribute htag
        have hslot : ∀ complexType, Particle.slot? (.element { e.plainDeclaration with
            occurs := around.apply e.plainDeclaration.occurs, complexType }) =
              tag.elementName?.map fun name => ⟨.element,name,around.apply tag.written.occurrence⟩ := by
          intro complexType
          rw [← hfound,← hoccurs]
          rfl
        rw [if_pos helement,if_pos helement,List.filterMap_cons,hslot]
        cases tag.elementName? <;> rfl
      · by_cases hgroup : tag.localName = "group"
        · have hparticle := groupParticle?_of_own hattribute (hown (by simp [hgroup])) around
          rw [if_neg helement,if_pos hgroup,if_neg helement,if_pos hgroup,hparticle]
        · by_cases hany : tag.localName = "any"
          · have hoccurs := occurrence_of_own hattribute (hown (by simp [hany]))
            rw [if_neg helement,if_neg hgroup,if_pos hany,if_neg helement,if_neg hgroup,if_pos hany,
              Element.anyParticle,hoccurs]
            rfl
          · simp [helement,hgroup,hany,slotsAll]

theorem slots_particlesAmong : ∀ ns : List Node, (∀ n ∈ ns, n.Own) → ∀ outer around,
    (Element.particlesAmong around (Element.ofNodes outer ns)).filterMap Particle.slot? =
      slotsAll around (contentModels ns)
  | [], _, _, _ => rfl
  | n :: rest, h, outer, around => by
    have hn := slots_particles n (h n List.mem_cons_self) outer around
    have hrest := slots_particlesAmong rest (fun m hm => h m (List.mem_cons_of_mem n hm)) outer around
    rw [Element.ofNodes,contentModels,ContentModel.slotsAll_append,Element.particlesAmong_eq_flatMap,
      List.flatMap_append,List.filterMap_append,← Element.particlesAmong_eq_flatMap,
      ← Element.particlesAmong_eq_flatMap,hn,hrest]

end

/-! ## Types and groups -/

theorem particles_takePlainMember {e : Element} {t : ComplexType} (h : e.name ≠ "group") :
    (Element.takePlainMember t e).particles = t.particles := by
  unfold Element.takePlainMember
  split
  · exact absurd ‹_› h
  all_goals rfl

theorem takeMembers_append (t : ComplexType) (es fs : List Element) :
    Element.takeMembers t (es ++ fs) = Element.takeMembers (Element.takeMembers t es) fs := by
  simp only [Element.takeMembers_eq_foldl,List.foldl_append]

theorem takeTypeDerivations_append (t : ComplexType) (es fs : List Element) :
    Element.takeTypeDerivations t (es ++ fs) = Element.takeTypeDerivations (Element.takeTypeDerivations t es) fs := by
  simp only [Element.takeTypeDerivations_eq_foldl,List.foldl_append]

/-- The slots of the particles that a complex type has so far. -/
def slotsOf (t : ComplexType) : List Slot := t.particles.filterMap Particle.slot?

mutual

theorem slots_takeMember : ∀ n : Node, n.Own → ∀ outer t,
    slotsOf (Element.takeMembers t (Element.ofNode outer n).toList) = slotsOf t ++ slotsAll {} n.memberModels
  | .data _, _, _, _ => (List.append_nil _).symm
  | .section _, _, _, _ => (List.append_nil _).symm
  | element tag content, h, outer, t => by
    obtain ⟨e,he,hname,hchildren,hattribute⟩ := ofNode_element outer tag content
    have hown := h tag content .self
    have hsingle : Element.takeMembers t (Element.ofNode outer (element tag content)).toList = e.takeMember t := by
      rw [he]
      rfl
    have hparticles := slots_particles (element tag content) h outer {}
    rw [he,show Element.particlesAmong {} (some e).toList = e.particles {} from List.append_nil _,
      Element.particles_eq,hname] at hparticles
    rw [hsingle,Element.takeMember_eq,memberModels,hname]
    by_cases hcompositor : Element.isCompositor tag.localName
    · rw [if_pos hcompositor] at hparticles
      rw [if_pos hcompositor,if_pos hcompositor,slotsOf,List.filterMap_append,hparticles]
      rfl
    · rw [if_neg hcompositor,if_neg hcompositor]
      by_cases hcontent : (tag.localName = "complexContent" || tag.localName = "simpleContent") = true
      · rw [if_pos hcontent,if_pos hcontent,hchildren,slots_takeTypeDerivations content fun n hn => h.child hn]
        rfl
      · rw [if_neg hcontent,if_neg hcontent]
        by_cases hgroup : tag.localName = "group"
        · have helement : tag.localName ≠ "element" := by
            rw [hgroup]
            decide
          rw [if_neg hcompositor,if_neg helement,if_pos hgroup] at hparticles
          have htake : (Element.takePlainMember t e).particles = t.particles ++ (e.groupParticle? {}).toList := by
            simp only [Element.takePlainMember,hname,hgroup]
          rw [if_pos hgroup,slotsOf,htake,List.filterMap_append,hparticles]
          rfl
        · rw [if_neg hgroup,slotsOf,particles_takePlainMember (hname ▸ hgroup)]
          exact (List.append_nil _).symm

theorem slots_takeMembers : ∀ ns : List Node, (∀ n ∈ ns, n.Own) → ∀ outer t,
    slotsOf (Element.takeMembers t (Element.ofNodes outer ns)) = slotsOf t ++ slotsAll {} (membersModels ns)
  | [], _, _, _ => (List.append_nil _).symm
  | n :: rest, h, outer, t => by
    have hn := slots_takeMember n (h n List.mem_cons_self) outer
    have hrest := slots_takeMembers rest (fun m hm => h m (List.mem_cons_of_mem n hm)) outer
    rw [Element.ofNodes,takeMembers_append,hrest,hn,membersModels,ContentModel.slotsAll_append,List.append_assoc]

theorem slots_takeTypeDerivation : ∀ n : Node, n.Own → ∀ outer t,
    slotsOf (Element.takeTypeDerivations t (Element.ofNode outer n).toList) =
      slotsOf t ++ slotsAll {} n.derivationModels
  | .data _, _, _, _ => (List.append_nil _).symm
  | .section _, _, _, _ => (List.append_nil _).symm
  | element tag content, h, outer, t => by
    obtain ⟨e,he,hname,hchildren,hattribute⟩ := ofNode_element outer tag content
    have hsingle : Element.takeTypeDerivations t (Element.ofNode outer (element tag content)).toList =
        e.takeTypeDerivation t := by
      rw [he]
      rfl
    rw [hsingle,Element.takeTypeDerivation_eq,derivationModels,hname]
    by_cases hderivation : (tag.localName = "extension" || tag.localName = "restriction") = true
    · rw [if_pos hderivation,if_pos hderivation,hchildren,slots_takeMembers content fun n hn => h.child hn]
      rfl
    · rw [if_neg hderivation,if_neg hderivation]
      exact (List.append_nil _).symm

theorem slots_takeTypeDerivations : ∀ ns : List Node, (∀ n ∈ ns, n.Own) → ∀ outer t,
    slotsOf (Element.takeTypeDerivations t (Element.ofNodes outer ns)) =
      slotsOf t ++ slotsAll {} (derivationsModels ns)
  | [], _, _, _ => (List.append_nil _).symm
  | n :: rest, h, outer, t => by
    have hn := slots_takeTypeDerivation n (h n List.mem_cons_self) outer
    have hrest := slots_takeTypeDerivations rest (fun m hm => h m (List.mem_cons_of_mem n hm)) outer
    rw [Element.ofNodes,takeTypeDerivations_append,hrest,hn,derivationsModels,ContentModel.slotsAll_append,
      List.append_assoc]

end

theorem slots_complexType {n : Node} (h : n.Own) {outer : Scope} {e : Element} (he : Element.ofNode outer n = some e) :
    slotsOf e.complexType = slotsAll {} n.typeModels := by
  rw [Element.complexType_eq,children_ofNode he,slots_takeMembers n.content h.content]
  rfl

/-- Among nodes, only compositors are looked at. -/
theorem slots_compositors (ns : List Node) (h : ∀ n ∈ ns, n.Own) (scope : Scope) :
    (((Element.ofNodes scope ns).filter (Element.isCompositor ·.name)).flatMap (Element.particles {})).filterMap
        Particle.slot? =
      slotsAll {} ((ns.filter fun c => c.localName?.any Element.isCompositor).filterMap contentModel?) := by
  induction ns with
  | nil => rfl
  | cons n ns ih =>
    obtain ⟨hn,hrest⟩ := List.forall_mem_cons.mp h
    have hslots := slots_particles n hn scope {}
    rw [Element.ofNodes,List.filter_append,List.flatMap_append,List.filterMap_append,ih hrest,List.filter_cons]
    cases n with
    | data text => rfl
    | «section» text => rfl
    | element tag content =>
      obtain ⟨e,he,hname,_,_⟩ := ofNode_element scope tag content
      rw [he] at hslots ⊢
      have hlocal : ((element tag content).localName?.any Element.isCompositor) =
          Element.isCompositor tag.localName := rfl
      by_cases hcompositor : Element.isCompositor tag.localName
      · have hkept : (some e).toList.filter (Element.isCompositor ·.name) = [e] := by simp [hname,hcompositor]
        rw [show Element.particlesAmong {} (some e).toList = [e].flatMap (Element.particles {}) from
          Element.particlesAmong_eq_flatMap {} [e]] at hslots
        rw [hkept,hlocal,if_pos hcompositor,List.filterMap_cons,hslots]
        cases (element tag content).contentModel? with
        | none => rfl
        | some m => simp [slotsAll]
      · have hkept : (some e).toList.filter (Element.isCompositor ·.name) = [] := by simp [hname,hcompositor]
        rw [hkept,hlocal,if_neg hcompositor]
        rfl

theorem slots_group {n : Node} (h : n.Own) {outer : Scope} {e : Element} (he : Element.ofNode outer n = some e) :
    e.group.particles.filterMap Particle.slot? = slotsAll {} n.groupModels := by
  rw [Element.group,children_ofNode he]
  exact slots_compositors n.content h.content e.scope

end Xml.Node
end SchemaBinding
