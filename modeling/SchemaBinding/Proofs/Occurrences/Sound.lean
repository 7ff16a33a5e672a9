import SchemaBinding.Proofs.Occurrences.Expanded
import SchemaBinding.Proofs.Occurrences.Merged

/-! Bounds from the document to the result. Main statement: a class that is built from a complex type has one field for
each element name in the content of the type, and the bounds of the field hold of every sequence of children that
the content admits. -/
namespace SchemaBinding
open Xml (Node Element)
open ContentModel (Mentions InTurn Admits Once part_compositor part_element part_group)

namespace Schema
open Simplify (definitions simplified)

/-- A class in the result is built from a complex type in the document or from a declaration that holds none; and if it
is built from a type, then it has one element field for each element name in the content that is written in the type,
and in every sequence of children that the content admits the number of children of that name is within the bounds of
the field. An attribute with a prefix is taken for one without it, so none may stand behind a bound, a name or a
reference, or in the place of one. -/
theorem occurrences_sound (r : Reading) {bytes : Bytes} {root : Node} {s : Schema}
    (hroot : Node.parse bytes = .ok (some root)) (hs : read r bytes = .ok s) (hregular : root.Regular)
    (hown : root.Own) :
    (∀ k ∈ Simplify.classes s.classes, ∀ c : Class, c.Within k →
      (∃ t, s.BuiltFrom root t c) ∨ s.BuiltWithoutType c) ∧
    ∀ t c, s.BuiltFrom root t c → ∀ name, (∃ m ∈ t.typeModels, Mentions root.groupDefinitions name m) →
      ∃ f, c.fields.filter (fun f => f.kind = .element ∧ f.name = name) = [f] ∧
        ∀ w, InTurn root.groupDefinitions t.typeModels w → f.occurs.Allows (w.count (some name)) := by
  obtain ⟨e,hread,h⟩ : ∃ e, Element.ofNode {} root = some e ∧ ofElement r e = .ok s := by
    rw [read_eq_of_parse r hroot] at hs
    cases hread : Element.ofNode {} root with
    | none =>
      rw [hread] at hs
      cases hs
    | some e =>
      rw [hread] at hs
      exact ⟨e,rfl,hs⟩
  refine ⟨fun k hk c hc => builtFrom_or_builtWithoutType hread h hk hc,?_⟩
  rintro t c ⟨ht,htype,scope,d,made,hd,hmade,rfl⟩ name ⟨m,hm,hmentions⟩
  have hrepresents := represents_expanded hread h hregular hown ht htype hd hmade
  obtain ⟨f,hf,hleast,hmost⟩ := Simplify.exists_mergeFields (space_expanded hmade)
    (hrepresents.named m hm name hmentions)
  rw [Simplify.fields_simplified]
  refine ⟨f,hf,fun w hw => ⟨hleast _ ?_,((hrepresents.fits w hw).most name).trans hmost⟩⟩
  rintro g hg hkind rfl
  exact (hrepresents.fits w hw).least g hg hkind

/-- A type with an element and a reference to a group that declares the same element. -/
def sharedElement : Bytes :=
  ["<schema xmlns=\"http://www.w3.org/2001/XMLSchema\">",
    "<complexType name=\"T\">","<sequence>","<element name=\"a\"/>","<group ref=\"g\" minOccurs=\"0\"/>","</sequence>",
    "</complexType>","<group name=\"g\">","<choice maxOccurs=\"2\">","<element name=\"a\"/>","<element name=\"b\"/>",
    "</choice>","</group>","</schema>"].flatMap Utf8.encodeString

def sharedType : Node :=
  .element ⟨"complexType",[("name","T")]⟩ [.element ⟨"sequence",[]⟩
    [.element ⟨"element",[("name","a")]⟩ [],.element ⟨"group",[("ref","g"),("minOccurs","0")]⟩ []]]

def sharedGroup : Node :=
  .element ⟨"group",[("name","g")]⟩ [.element ⟨"choice",[("maxOccurs","2")]⟩
    [.element ⟨"element",[("name","a")]⟩ [],.element ⟨"element",[("name","b")]⟩ []]]

def sharedRoot : Node := .element ⟨"schema",[("xmlns","http://www.w3.org/2001/XMLSchema")]⟩ [sharedType,sharedGroup]

def sharedModels : List ContentModel :=
  [.compositor {} .sequence [.element {} (some "a"),.group ⟨some "0",none⟩ "g"]]

def sharedGroupModels : List ContentModel :=
  [.compositor ⟨none,some "2"⟩ .choice [.element {} (some "a"),.element {} (some "b")]]

theorem parse_sharedElement : Node.parse sharedElement = .ok (some sharedRoot) := by decide +kernel

theorem typeModels_sharedType : sharedType.typeModels = sharedModels := rfl

theorem groupDefinitions_sharedRoot : sharedRoot.groupDefinitions = [("g",sharedGroupModels)] := rfl

theorem own_sharedRoot : sharedRoot.Own := by
  intro tag content h hname
  simp only [sharedRoot,sharedType,sharedGroup,Node.inside_element,List.mem_cons,List.not_mem_nil,or_false,
    exists_eq_or_imp,exists_eq_left,false_and,exists_false,or_false] at h
  unfold Node.OwnTag
  simp only [Node.element.injEq] at h
  rcases h with ⟨rfl,_⟩ | (⟨rfl,_⟩ | ⟨rfl,_⟩ | ⟨rfl,_⟩ | ⟨rfl,_⟩) | ⟨rfl,_⟩ | ⟨rfl,_⟩ | ⟨rfl,_⟩ | ⟨rfl,_⟩
  all_goals decide

theorem contents_sharedRoot {ms : List ContentModel} (h : sharedRoot.Contents ms) :
    ms = sharedModels ∨ ms = sharedGroupModels := by
  cases h with
  | complexType hn hname =>
    simp only [sharedRoot,sharedType,sharedGroup,Node.inside_element,List.mem_cons,List.not_mem_nil,or_false,
      exists_eq_or_imp,exists_eq_left,false_and,exists_false,or_false] at hn
    rcases hn with rfl | (rfl | rfl | rfl | rfl) | rfl | rfl | rfl | rfl
    · exact absurd hname (by decide)
    · exact Or.inl typeModels_sharedType
    all_goals exact absurd hname (by decide)
  | group hmembers =>
    rw [groupDefinitions_sharedRoot,List.mem_singleton] at hmembers
    exact Or.inr (congrArg Prod.snd hmembers)

theorem regular_two : Written.Regular ⟨none,some "2"⟩ := by
  have hplain : Written.Plain "2" := Or.inr ⟨by decide,List.all_eq_true.mp (by decide),by decide⟩
  refine ⟨by simp,by simpa using hplain,?_⟩
  rw [Written.bound_eq (by decide)]
  exact Nat.one_le_cast.mpr (by decide)

theorem admits_twice {groups : GroupDefinitions} {m : ContentModel} {u v : List (Option String)}
    (hm : m.written = ⟨none,some "2"⟩) (hu : Once groups m u) (hv : Once groups m v) : Admits groups m (u ++ v) := by
  have hadmits : Admits groups m [u,v].flatten := by
    refine .repeated ?_ ?_ (by simp [hu,hv])
    · rw [hm]
      exact Nat.one_le_cast.mpr (by simp)
    · rw [hm]
      exact (Written.bound_eq (by decide)).ge
  rwa [List.flatten_cons,List.flatten_singleton] at hadmits

theorem regular_sharedRoot : sharedRoot.Regular where
  written := by
    have hnone : Written.Regular {} := ⟨by simp,by simp,le_rfl⟩
    have hplain : Written.Plain "0" := Or.inr ⟨by decide,List.all_eq_true.mp (by decide),by decide⟩
    have hzero : Written.Regular ⟨some "0",none⟩ := ⟨by simpa using hplain,by simp,zero_le⟩
    intro ms hms m hm p hp
    rcases contents_sharedRoot hms with rfl | rfl
    · simp only [sharedModels,List.mem_singleton] at hm
      subst hm
      simp only [part_compositor,part_element,part_group,List.mem_cons,List.not_mem_nil,or_false,exists_eq_or_imp,
        exists_eq_left] at hp
      rcases hp with rfl | rfl | rfl
      · exact hnone
      · exact hnone
      · exact hzero
    · simp only [sharedGroupModels,List.mem_singleton] at hm
      subst hm
      simp only [part_compositor,part_element,List.mem_cons,List.not_mem_nil,or_false,exists_eq_or_imp,
        exists_eq_left] at hp
      rcases hp with rfl | rfl | rfl
      · exact regular_two
      · exact hnone
      · exact hnone
  resolved := by
    intro ms hms m hm written reference hp
    rcases contents_sharedRoot hms with rfl | rfl
    · simp only [sharedModels,List.mem_singleton] at hm
      subst hm
      simp only [part_compositor,part_element,part_group,List.mem_cons,List.not_mem_nil,or_false,exists_eq_or_imp,
        exists_eq_left,reduceCtorEq,false_or,ContentModel.group.injEq] at hp
      rw [hp.2,groupDefinitions_sharedRoot]
      rfl
    · simp only [sharedGroupModels,List.mem_singleton] at hm
      subst hm
      simp [part_compositor,part_element] at hp
  acyclic := by
    intro reference h
    obtain ⟨other,⟨members,hmembers,m,hm,written,hp⟩,_⟩ := Relation.TransGen.head'_iff.mp h
    rw [groupDefinitions_sharedRoot,List.mem_singleton] at hmembers
    obtain rfl := congrArg Prod.snd hmembers
    simp only [sharedGroupModels,List.mem_singleton] at hm
    subst hm
    simp [part_compositor,part_element] at hp

theorem inTurn_shared : InTurn sharedRoot.groupDefinitions sharedType.typeModels [some "a",some "b",some "a"] := by
  rw [groupDefinitions_sharedRoot,typeModels_sharedType]
  have helement : ∀ name, Admits [("g",sharedGroupModels)] (.element {} (some name)) [some name] :=
    fun name => .single le_rfl le_rfl .element
  have hchoice : Admits [("g",sharedGroupModels)] (.compositor ⟨none,some "2"⟩ .choice
      [.element {} (some "a"),.element {} (some "b")]) [some "b",some "a"] :=
    admits_twice rfl (.choice (by simp) (helement "b")) (.choice (by simp) (helement "a"))
  have hgroup : Admits [("g",sharedGroupModels)] (.group ⟨some "0",none⟩ "g") [some "b",some "a"] :=
    .single zero_le le_rfl (.group (List.mem_singleton_self _) (.cons hchoice .nil))
  exact .cons (.single le_rfl le_rfl (.sequence (.cons (helement "a") (.cons hgroup .nil)))) .nil

/-- The element occurs twice there, and the one field for it may be repeated. -/
theorem occurrences_sound_shared : Node.parse sharedElement = .ok (some sharedRoot) ∧ sharedRoot.Regular ∧
    sharedRoot.Own ∧ ∃ s c f, read default sharedElement = .ok s ∧ s.BuiltFrom sharedRoot sharedType c ∧
      c.fields.filter (fun f => f.kind = .element ∧ f.name = "a") = [f] ∧ f.occurs.Allows 2 := by
  have hread : ∃ s, read default sharedElement = .ok s := by
    rw [read_eq_of_parse default parse_sharedElement]
    change ∃ s, ofElement default _ = .ok s
    rw [ofElement,if_neg (by decide +kernel)]
    exact ⟨_,rfl⟩
  obtain ⟨s,hs⟩ := hread
  have hbuilt : s.BuiltFrom sharedRoot sharedType (Simplify.simplified (Simplify.definitions s.classes)
      (Build.complexClass s.targetNamespace "T" .complexType none
        ((Element.ofNode {} sharedType).get rfl).complexType)) :=
    ⟨.child List.mem_cons_self .self,by decide +kernel,{},_,_,rfl,Build.madeFrom_complexClass _ _ _ _ _,rfl⟩
  have hmentions : ∃ m ∈ sharedType.typeModels, Mentions sharedRoot.groupDefinitions "a" m := by
    rw [typeModels_sharedType]
    exact ⟨_,List.mem_singleton_self _,.member List.mem_cons_self .element⟩
  obtain ⟨_,hsound⟩ := occurrences_sound default parse_sharedElement hs regular_sharedRoot own_sharedRoot
  obtain ⟨f,hf,hallows⟩ := hsound sharedType _ hbuilt "a" hmentions
  exact ⟨parse_sharedElement,regular_sharedRoot,own_sharedRoot,s,_,f,hs,hbuilt,hf,hallows _ inTurn_shared⟩

/-- A type with an element that has a bound of its own and one of another namespace. -/
def foreignBound : Bytes :=
  ["<s:schema xmlns:s=\"http://www.w3.org/2001/XMLSchema\""," xmlns:f=\"urn:f\">","<s:complexType name=\"T\">",
    "<s:sequence>","<s:element name=\"a\" maxOccurs=\"2\" f:maxOccurs=\"1\"/>","</s:sequence>",
    "</s:complexType>","</s:schema>"].flatMap Utf8.encodeString

def foreignType : Node :=
  .element ⟨"s:complexType",[("name","T")]⟩ [.element ⟨"s:sequence",[]⟩
    [.element ⟨"s:element",[("name","a"),("maxOccurs","2"),("f:maxOccurs","1")]⟩ []]]

def foreignRoot : Node :=
  .element ⟨"s:schema",[("xmlns:s","http://www.w3.org/2001/XMLSchema"),("xmlns:f","urn:f")]⟩ [foreignType]

def foreignModels : List ContentModel := [.compositor {} .sequence [.element ⟨none,some "2"⟩ (some "a")]]

theorem parse_foreignBound : Node.parse foreignBound = .ok (some foreignRoot) := by decide +kernel

theorem typeModels_foreignType : foreignType.typeModels = foreignModels := rfl

theorem groupDefinitions_foreignRoot : foreignRoot.groupDefinitions = [] := rfl

/-- The class in the result: the bound of another namespace counts. -/
def foreignClass : Class where
  name := "T"
  kind := .complexType
  isRoot := true
  fields := [{ name := "a", type := "xs:anyType", kind := .element, required := some true, occurs := ⟨none,some 1⟩ }]

theorem regular_foreignRoot : foreignRoot.Regular := by
  have hcontents : ∀ ms, foreignRoot.Contents ms → ms = foreignModels := by
    intro ms hms
    cases hms with
    | complexType hn hname =>
      simp only [foreignRoot,foreignType,Node.inside_element,List.mem_singleton,List.not_mem_nil,exists_eq_left,
        false_and,exists_false,or_false] at hn
      rcases hn with rfl | rfl | rfl | rfl
      · exact absurd hname (by decide)
      · exact typeModels_foreignType
      · exact absurd hname (by decide)
      · exact absurd hname (by decide)
    | group hmembers =>
      rw [groupDefinitions_foreignRoot] at hmembers
      cases hmembers
  have hparts : ∀ ms, foreignRoot.Contents ms → ∀ m ∈ ms, ∀ p : ContentModel, p.Part m →
      p = .compositor {} .sequence [.element ⟨none,some "2"⟩ (some "a")] ∨ p = .element ⟨none,some "2"⟩ (some "a") := by
    intro ms hms m hm p hp
    rw [hcontents ms hms,foreignModels,List.mem_singleton] at hm
    subst hm
    simpa only [part_compositor,part_element,List.mem_singleton,exists_eq_left] using hp
  constructor
  · intro ms hms m hm p hp
    rcases hparts ms hms m hm p hp with rfl | rfl
    · exact ⟨by simp [ContentModel.written],by simp [ContentModel.written],le_rfl⟩
    · exact regular_two
  · intro ms hms m hm written reference hp
    rcases hparts ms hms m hm _ hp with hp | hp <;> cases hp
  · intro reference h
    obtain ⟨other,⟨members,hmembers,_⟩,_⟩ := Relation.TransGen.head'_iff.mp h
    rw [groupDefinitions_foreignRoot] at hmembers
    cases hmembers

theorem inTurn_foreign : InTurn foreignRoot.groupDefinitions foreignType.typeModels [some "a",some "a"] := by
  rw [groupDefinitions_foreignRoot,typeModels_foreignType]
  have helement : Admits [] (.element ⟨none,some "2"⟩ (some "a")) [some "a",some "a"] :=
    admits_twice rfl .element .element
  exact .cons (.single le_rfl le_rfl (.sequence (.cons helement .nil))) .nil

/-- The schema that is read. -/
def foreignSchema : Schema :=
  ((Element.ofNode {} foreignRoot).get rfl).children.foldl (addChild default)
    { scope := ((Element.ofNode {} foreignRoot).get rfl).scope }

theorem read_foreignBound : read default foreignBound = .ok foreignSchema := by
  rw [read_eq_of_parse default parse_foreignBound]
  change ofElement default ((Element.ofNode {} foreignRoot).get rfl) = _
  have hspace : ((Element.ofNode {} foreignRoot).get rfl).attribute? "targetNamespace" = none := by decide
  rw [ofElement,if_neg (by decide),hspace]
  rfl

theorem classes_foreignSchema : foreignSchema.classes = [foreignClass] := rfl

theorem simplify_foreignClass : Simplify.classes [foreignClass] = [foreignClass] := rfl

theorem builtFrom_foreignType : foreignSchema.BuiltFrom foreignRoot foreignType foreignClass := by
  have hclass : foreignClass = simplified (definitions [foreignClass])
      (Build.complexClass foreignSchema.targetNamespace "T" .complexType none
        ((Element.ofNode {} foreignType).get rfl).complexType) := rfl
  rw [← classes_foreignSchema] at hclass
  exact ⟨.child List.mem_cons_self .self,by decide,{},_,_,rfl,Build.madeFrom_complexClass _ _ _ _ _,hclass⟩

/-- The document is regular and its type admits the element twice, but the field for it allows it once. -/
theorem foreign_bound_excludes_admitted :
    Node.parse foreignBound = .ok (some foreignRoot) ∧ foreignRoot.Regular ∧
      read default foreignBound = .ok foreignSchema ∧ Simplify.classes foreignSchema.classes = [foreignClass] ∧
      foreignSchema.BuiltFrom foreignRoot foreignType foreignClass ∧
      InTurn foreignRoot.groupDefinitions foreignType.typeModels [some "a",some "a"] ∧
      ∀ f ∈ foreignClass.fields, f.kind = .element ∧ f.name = "a" ∧
        ¬ f.occurs.Allows ([some "a",some "a"].count (some "a")) := by
  have hresult : Simplify.classes foreignSchema.classes = [foreignClass] := by
    rw [classes_foreignSchema,simplify_foreignClass]
  refine ⟨parse_foreignBound,regular_foreignRoot,read_foreignBound,hresult,builtFrom_foreignType,inTurn_foreign,?_⟩
  intro f hf
  rw [List.mem_singleton.mp hf]
  refine ⟨rfl,rfl,fun h => ?_⟩
  have hmost : ((2 : Nat) : ℕ∞) ≤ allowance 1 := h.most
  rw [allowance_of_lt (by decide)] at hmost
  exact absurd (Nat.cast_le.mp hmost) (by decide)

end Schema
end SchemaBinding
