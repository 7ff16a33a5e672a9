import SchemaBinding.Proofs.Reading.Attributes

/-! Attributes of other namespaces. An attribute counts under its local name, whatever its prefix, and of several
with one local name the last one counts. Main statement: a document with one attribute more, under a prefix, is
the same schema, if the local name of that attribute is not looked up on its element or if another attribute of
that local name stands after it. Otherwise the attribute is taken for the one that is looked up. -/
namespace SchemaBinding
namespace Xml

/-! ## One attribute more -/

/-- An attribute with a prefix that declares nothing. -/
theorem ofName_prefixed {pre : String} (localName : String) (hpre : ':' ∉ pre.toList) (hxmlns : pre ≠ "xmlns") :
    Element.AttributeRole.ofName (pre ++ ":" ++ localName) = .plain localName := by
  unfold Element.AttributeRole.ofName
  rw [Prefixed.split_prefixed localName hpre]
  split
  · simp_all
  · simp_all
  · simp_all

/-- What is looked up is no declaration. -/
theorem ofName_attributesRead (name : String) :
    ∀ n ∈ Element.attributesRead name, Element.AttributeRole.ofName n = .plain n := by
  unfold Element.attributesRead
  split <;> decide +kernel

/-- An element around a place in its content. -/
structure Layer where
  tag : Tag
  before : List Node := []
  after : List Node := []

/-- A node inside of elements, the outermost first. -/
def Layer.fill : List Layer → Node → Node
  | [], node => node
  | layer :: layers, node => .element layer.tag (layer.before ++ fill layers node :: layer.after)

namespace Element

/-- Two tags have the same declarations and the same attributes to be looked up. -/
structure SameTag (tag other : Tag) : Prop where
  name : tag.name = other.name
  scope : (bare tag).scope = (bare other).scope
  kept : ∀ n ∈ attributesRead (Prefixed.localPart tag.name), lastOf n tag.attributes = lastOf n other.attributes

/-- An attribute under a prefix is not noticed if it is not looked up, or not the last of its local name. -/
theorem SameTag.extra {name pre localName value : String} {before after : List (String × String)}
    (hpre : ':' ∉ pre.toList) (hxmlns : pre ≠ "xmlns")
    (hquiet : localName ∉ attributesRead (Prefixed.localPart name) ∨
      ∃ a ∈ after, AttributeRole.ofName a.1 = .plain localName) :
    SameTag ⟨name,before ++ (pre ++ ":" ++ localName,value) :: after⟩ ⟨name,before ++ after⟩ := by
  have hplain := ofName_prefixed localName hpre hxmlns
  refine ⟨rfl,?_,?_⟩
  · simp only [bare,takeAttributes_append]
    refine scope_takeAttributes ?_ after
    simp only [takeAttribute,hplain]
    rfl
  · intro n hn
    have hextra : lastOf n ((pre ++ ":" ++ localName,value) :: after) = lastOf n after := by
      rw [← List.singleton_append,lastOf_append,lastOf_singleton,hplain]
      by_cases hlocal : localName = n
      · subst hlocal
        obtain ⟨last,hlast⟩ := exists_lastOf (hquiet.resolve_left fun h => h hn)
        simp [hlast]
      · simp [hlocal]
    simp only [lastOf_append,hextra]

/-- An attribute under a prefix is not told from the same attribute without it. -/
theorem SameTag.unprefixed {name pre localName value : String} {before after : List (String × String)}
    (hpre : ':' ∉ pre.toList) (hxmlns : pre ≠ "xmlns") (hlocal : AttributeRole.ofName localName = .plain localName) :
    SameTag ⟨name,before ++ (pre ++ ":" ++ localName,value) :: after⟩
      ⟨name,before ++ (localName,value) :: after⟩ := by
  have hplain := ofName_prefixed localName hpre hxmlns
  refine ⟨rfl,?_,?_⟩
  · simp only [bare,takeAttributes_append]
    refine scope_takeAttributes ?_ after
    simp only [takeAttribute,hplain,hlocal]
  · intro n _
    have hextra : lastOf n ((pre ++ ":" ++ localName,value) :: after) = lastOf n ((localName,value) :: after) := by
      rw [← List.singleton_append,lastOf_append,lastOf_singleton,hplain,← List.singleton_append,lastOf_append,
        lastOf_singleton,hlocal]
    simp only [lastOf_append,hextra]

/-- What is kept of an element is decided by the declarations and the attributes of its tag that are looked up. -/
theorem kept_ofNode_of_sameTag {tag other : Tag} (h : SameTag tag other) (outer : Scope) (content : List Node) :
    (ofNode outer (.element tag content)).map (kept attributesRead) =
      (ofNode outer (.element other content)).map (kept attributesRead) := by
  have hscope : (ofTag outer tag).scope = (ofTag outer other).scope := congrArg (Scope.inherit · outer) h.scope
  have hname : (ofTag outer tag).name = (ofTag outer other).name := by
    simp only [ofTag_eq,name_bare,h.name]
  have hspelt : (ofTag outer tag).prefix? = (ofTag outer other).prefix? := by
    simp only [ofTag_eq,bare,prefix?_takeAttributes,h.name]
  have hattributes : ∀ n ∈ attributesRead (ofTag outer tag).name,
      (ofTag outer tag).attribute? n = (ofTag outer other).attribute? n := by
    intro n hn
    rw [ofTag_eq,name_bare] at hn
    have hlast := h.kept n hn
    rwa [← attribute?_bare,← attribute?_bare] at hlast
  have hkept : (attributesRead (ofTag outer tag).name).filterMap (fun n => ((ofTag outer tag).attribute? n).map (n,·)) =
      (attributesRead (ofTag outer other).name).filterMap
        fun n => ((ofTag outer other).attribute? n).map (n,·) := by
    rw [← hname]
    exact List.filterMap_congr fun n hn => by rw [hattributes n hn]
  simp only [ofNode,Option.map_some,kept_eq,keptAttributes,hscope,hname,hspelt]
  rw [hname] at hkept
  exact congrArg (fun as => some ({
    name := (ofTag outer other).name
    prefix? := (ofTag outer other).prefix?
    attributes := .ofList as
    text := ownText content
    children := (ofNodes (ofTag outer other).scope content).map (kept attributesRead)
    scope := (ofTag outer other).scope } : Element)) hkept

theorem ofNodes_append (scope : Scope) (ns ms : List Node) :
    ofNodes scope (ns ++ ms) = ofNodes scope ns ++ ofNodes scope ms := by
  induction ns with
  | nil => rfl
  | cons n ns ih => rw [List.cons_append,ofNodes,ofNodes,ih,List.append_assoc]

/-- What is kept of a document is decided, at each place, by what is kept of the node there. -/
theorem kept_ofNode_fill {node other : Node} (hpiece : piece? node = piece? other)
    (h : ∀ outer, (ofNode outer node).map (kept attributesRead) = (ofNode outer other).map (kept attributesRead))
    (layers : List Layer) : piece? (Layer.fill layers node) = piece? (Layer.fill layers other) ∧
      ∀ outer, (ofNode outer (Layer.fill layers node)).map (kept attributesRead) =
        (ofNode outer (Layer.fill layers other)).map (kept attributesRead) := by
  induction layers with
  | nil => exact ⟨hpiece,h⟩
  | cons layer layers ih =>
    refine ⟨rfl,fun outer => ?_⟩
    obtain ⟨hbelow,hkept⟩ := ih
    have htext : ownText (layer.before ++ Layer.fill layers node :: layer.after) =
        ownText (layer.before ++ Layer.fill layers other :: layer.after) := by
      simp only [ownText,List.filterMap_append,List.filterMap_cons,hbelow]
    have hchildren : ∀ scope,
        (ofNodes scope (layer.before ++ Layer.fill layers node :: layer.after)).map (kept attributesRead) =
          (ofNodes scope (layer.before ++ Layer.fill layers other :: layer.after)).map (kept attributesRead) := by
      intro scope
      have hplace : (ofNode scope (Layer.fill layers node)).toList.map (kept attributesRead) =
          (ofNode scope (Layer.fill layers other)).toList.map (kept attributesRead) := by
        rw [← Option.toList_map,← Option.toList_map,hkept scope]
      simp only [ofNodes_append,ofNodes,List.map_append,hplace]
    simp only [Layer.fill,ofNode,Option.map_some,kept_eq,keptAttributes,htext,hchildren]
    rfl

end Element
end Xml

namespace Schema
open Xml

/-- A schema is read from what is kept of the document. -/
theorem read_eq_of_kept (r : Reading) {bytes other : Bytes} {node node' : Node}
    (hnode : Node.parse bytes = .ok (some node)) (hother : Node.parse other = .ok (some node'))
    (h : (Element.ofNode {} node).map (Element.kept Element.attributesRead) =
      (Element.ofNode {} node').map (Element.kept Element.attributesRead)) :
    read r bytes = read r other := by
  have hofElement : (Element.ofNode {} node).map (ofElement r) = (Element.ofNode {} node').map (ofElement r) := by
    have hkept := congrArg (Option.map (ofElement r)) h
    simpa only [Option.map_map,Function.comp_def,ofElement_kept] using hkept
  rw [read_eq_of_parse r hnode,read_eq_of_parse r hother,hofElement]

/-- A document with an attribute under a prefix is the same schema without it, if the attribute is not looked up on
its element or if another of its local name stands after it. If it is looked up, then the document is the same schema
with the prefix left out. -/
theorem read_extra_attribute (r : Reading) {bytes : Bytes} {layers : List Layer} {content : List Node}
    {name pre localName value : String} {before after : List (String × String)}
    (hbytes : Node.parse bytes = .ok (some (Layer.fill layers (.element
      ⟨name,before ++ (pre ++ ":" ++ localName,value) :: after⟩ content))))
    (hpre : ':' ∉ pre.toList) (hxmlns : pre ≠ "xmlns") :
    (∀ other, Node.parse other = .ok (some (Layer.fill layers (.element ⟨name,before ++ after⟩ content))) →
      (localName ∉ Element.attributesRead (Prefixed.localPart name) ∨
        ∃ a ∈ after, Element.AttributeRole.ofName a.1 = .plain localName) →
      read r bytes = read r other) ∧
    ∀ other, Node.parse other = .ok (some (Layer.fill layers (.element
        ⟨name,before ++ (localName,value) :: after⟩ content))) →
      localName ∈ Element.attributesRead (Prefixed.localPart name) → read r bytes = read r other := by
  have hread : ∀ tag, Element.SameTag ⟨name,before ++ (pre ++ ":" ++ localName,value) :: after⟩ tag →
      ∀ other, Node.parse other = .ok (some (Layer.fill layers (.element tag content))) →
      read r bytes = read r other := by
    intro tag htag other hother
    have hplace := fun outer => Element.kept_ofNode_of_sameTag htag outer content
    have hpiece : Element.piece? (.element ⟨name,before ++ (pre ++ ":" ++ localName,value) :: after⟩ content) =
        Element.piece? (.element tag content) := rfl
    exact read_eq_of_kept r hbytes hother ((Element.kept_ofNode_fill hpiece hplace layers).2 {})
  constructor
  · intro other hother hquiet
    exact hread _ (.extra hpre hxmlns hquiet) other hother
  · intro other hother hlooked
    exact hread _ (.unprefixed hpre hxmlns (ofName_attributesRead _ localName hlooked)) other hother

/-- The schema element around a place in its content. -/
def schemaLayer : Layer :=
  { tag := ⟨"s:schema",[("xmlns:s","http://www.w3.org/2001/XMLSchema"),("xmlns:f","urn:f")]⟩ }

/-- A document with one element declaration. -/
def oneElement (attributes : String) : Bytes :=
  Utf8.encodeString ("<s:schema xmlns:s=\"http://www.w3.org/2001/XMLSchema\" xmlns:f=\"urn:f\"><s:element " ++
    attributes ++ "/></s:schema>")

theorem parse_oneElement : Node.parse (oneElement "name=\"a\"") =
    .ok (some (Layer.fill [schemaLayer] (.element ⟨"s:element",[("name","a")]⟩ []))) := by
  decide +kernel

theorem read_extra_attribute_before_name :
    Node.parse (oneElement "f:name=\"b\" name=\"a\"") = .ok (some (Layer.fill [schemaLayer] (.element
      ⟨"s:element",[] ++ ("f" ++ ":" ++ "name","b") :: [("name","a")]⟩ []))) ∧
    read default (oneElement "f:name=\"b\" name=\"a\"") = read default (oneElement "name=\"a\"") := by
  have hbytes : Node.parse (oneElement "f:name=\"b\" name=\"a\"") = .ok (some (Layer.fill [schemaLayer] (.element
      ⟨"s:element",[] ++ ("f" ++ ":" ++ "name","b") :: [("name","a")]⟩ []))) := by decide +kernel
  have hlast := ofName_attributesRead "element" "name" (by decide)
  have hread := (read_extra_attribute default hbytes (by decide) (by decide)).1 _ parse_oneElement
  exact ⟨hbytes,hread (.inr ⟨("name","a"),List.mem_singleton_self _,hlast⟩)⟩

/-- The last attribute of a local name is the one that is looked up, under whatever prefix it stands. -/
theorem read_extra_attribute_after_name :
    Node.parse (oneElement "name=\"a\" f:name=\"b\"") = .ok (some (Layer.fill [schemaLayer] (.element
      ⟨"s:element",[("name","a"),("f:name","b")]⟩ []))) ∧
    Node.parse (oneElement "name=\"a\"") = .ok (some (Layer.fill [schemaLayer] (.element
      ⟨"s:element",[("name","a")]⟩ []))) ∧
    read default (oneElement "name=\"a\" f:name=\"b\"") ≠ read default (oneElement "name=\"a\"") := by
  have hbytes : Node.parse (oneElement "name=\"a\" f:name=\"b\"") = .ok (some (Layer.fill [schemaLayer] (.element
      ⟨"s:element",[("name","a"),("f:name","b")]⟩ []))) := by decide +kernel
  refine ⟨hbytes,parse_oneElement,fun h => ?_⟩
  have hnames := congrArg (fun s => s.toOption.map fun s => s.elements.map (·.name)) h
  simp only [read,Element.parse,hbytes,parse_oneElement] at hnames
  revert hnames
  decide +kernel

end Schema
end SchemaBinding
