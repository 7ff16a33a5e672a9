import SchemaBinding.Proofs.Reading.Respelled
import SchemaBinding.Service.Reader

/-! Trees that differ in the values of some attributes. The names, the namespaces in force and the order of the elements
are the same, so the same references are read of them, some of them as the other value.
Main statement: of two texts that differ in values the same references are read, each as it was or as the other value. -/
namespace SchemaBinding
namespace Xml

variable {s : Spelling} {v w : s.Value}

/-! ## Nodes -/

namespace Node

/-- Nodes that agree but for values. -/
inductive Matches (s : Spelling) (v w : s.Value) : Node → Node → Prop where
  | data (text : String) : Matches s v w (.data text) (.data text)
  | section (text : String) : Matches s v w (.section text) (.section text)
  | element {tag tag' : Tag} {content content' : List Node} : Tag.Matches s v w tag tag' →
      List.Forall₂ (Matches s v w) content content' → Matches s v w (.element tag content) (.element tag' content')

structure Open.Matches (s : Spelling) (v w : s.Value) (o o' : Open) : Prop where
  tag : Tag.Matches s v w o.tag o'.tag
  content : List.Forall₂ (Node.Matches s v w) o.content o'.content

namespace Builder

structure Matches (s : Spelling) (v w : s.Value) (b b' : Builder) : Prop where
  stack : List.Forall₂ (Open.Matches s v w) b.stack b'.stack
  root : Option.Rel (Node.Matches s v w) b.root b'.root

theorem Matches.isEmpty_eq {b b' : Builder} (h : Matches s v w b b') : b'.stack.isEmpty = b.stack.isEmpty := by
  cases hb : b.stack <;> cases hb' : b'.stack <;> have hstack := h.stack <;> rw [hb,hb'] at hstack <;> simp_all

theorem Matches.add {b b' : Builder} (h : Matches s v w b b') {n n' : Node} (hn : Node.Matches s v w n n') :
    Matches s v w (b.add n) (b'.add n') := by
  obtain ⟨stack,root⟩ := b
  obtain ⟨stack',root'⟩ := b'
  have hstack : List.Forall₂ (Open.Matches s v w) stack stack' := h.stack
  cases hstack with
  | nil => exact h
  | cons htop hrest => exact ⟨.cons ⟨htop.tag,.cons hn htop.content⟩ hrest,h.root⟩

theorem Matches.addElement {b b' : Builder} (h : Matches s v w b b') {n n' : Node} (hn : Node.Matches s v w n n') :
    Matches s v w (b.addElement n) (b'.addElement n') := by
  unfold Builder.addElement
  rw [h.isEmpty_eq]
  split
  · exact ⟨h.stack,.some hn⟩
  · exact h.add hn

theorem Matches.close {b b' : Builder} (h : Matches s v w b b') (name : Bytes) :
    Agree (Matches s v w) (b.close name) (b'.close name) := by
  obtain ⟨stack,root⟩ := b
  obtain ⟨stack',root'⟩ := b'
  have hstack : List.Forall₂ (Open.Matches s v w) stack stack' := h.stack
  cases hstack with
  | nil => exact .error _
  | @cons top top' rest rest' htop hrest =>
    have hname : top'.tag.name = top.tag.name := htop.tag.name
    have hrests : Matches s v w { stack := rest, root } { stack := rest', root := root' } := ⟨hrest,h.root⟩
    simp only [Builder.close,hname]
    exact .ite (.ok (hrests.addElement (.element htop.tag (List.forall₂_reverse_iff.mpr htop.content)))) (.error _)

theorem Matches.feed {b b' : Builder} (h : Matches s v w b b') {t t' : Token} (ht : Token.Matches s v w t t') :
    Agree (Matches s v w) (b.feed t) (b'.feed t') := by
  have hopen {xs ys : Bytes} (hcontent : Tag.ContentRespelled s v w xs ys) :
      Agree (Matches s v w) (b.feed (.openTag xs)) (b'.feed (.openTag ys)) :=
    (Tag.matches_read hcontent).map fun _ _ htag => ⟨.cons ⟨htag,.nil⟩ h.stack,h.root⟩
  have hempty {xs ys : Bytes} (hcontent : Tag.ContentRespelled s v w xs ys) :
      Agree (Matches s v w) (b.feed (.emptyTag xs)) (b'.feed (.emptyTag ys)) :=
    (Tag.matches_read hcontent).map fun _ _ htag => h.addElement (.element htag .nil)
  cases ht with
  | openTag hcontent => exact hopen hcontent
  | emptyTag hcontent => exact hempty hcontent
  | same =>
    cases t with
    | openTag content => exact hopen (.refl _ content)
    | emptyTag content => exact hempty (.refl _ content)
    | closeTag name => exact h.close name
    | data content =>
      unfold Builder.feed
      rw [h.isEmpty_eq]
      refine .ite (.ok h) ?_
      cases Reference.expandBytes? content with
      | none => exact .error _
      | some text => exact .ok (h.add (.data text))
    | «section» content => exact .ok (h.add (.section _))
    | malformed => exact .error _

end Builder

theorem matches_parse {xs ys : Bytes} (h : Token.TextRespelled s v w xs ys) :
    Agree (Option.Rel (Matches s v w)) (parse xs) (parse ys) := by
  have hstart : Builder.Matches s v w {} {} := ⟨.nil,.none⟩
  refine (Agree.foldlM (fun _ _ _ _ hb ht => hb.feed ht) h.matches_tokens hstart).bind fun b b' hb => ?_
  unfold Builder.finish
  rw [hb.isEmpty_eq]
  exact .ite (.ok hb.root) (.error _)

end Node

/-! ## Elements -/

/-- A value that may be missing stays or becomes the other value. -/
def ValueExchanged (s : Spelling) (v w : s.Value) (value value' : Option String) : Prop :=
  value' = value ∨ value = some v.value ∧ value' = some w.value

namespace Element

/-- Elements that agree but for values. -/
inductive Matches (s : Spelling) (v w : s.Value) : Element → Element → Prop where
  | intro {e e' : Element} : e'.name = e.name → e'.prefix? = e.prefix? → e'.scope = e.scope → e'.text = e.text →
      ValueExchanged s v w (e.attribute? s.name) (e'.attribute? s.name) →
      (∀ name, name ≠ s.name → e'.attribute? name = e.attribute? name) →
      List.Forall₂ (Matches s v w) e.children e'.children → Matches s v w e e'

theorem matches_takeAttribute {e e' : Element} (h : Matches s v w e e') {a a' : String × String}
    (ha : Exchanged s v w a a') : Matches s v w (e.takeAttribute a.1 a.2) (e'.takeAttribute a'.1 a'.2) := by
  cases h with
  | intro hname hpre hscope htext hvalue hothers hchildren =>
    have hget (e : Element) (name value other : String) : (e.setAttribute name value).attribute? other =
        if other = name then some value else e.attribute? other := by
      rw [attribute?,setAttribute,OrderedMap.get?_insert,attribute?]
    rcases ha with rfl | ⟨rfl,rfl⟩
    · unfold takeAttribute
      cases AttributeRole.ofName a'.1 with
      | defaultDeclaration => exact .intro hname hpre (by simp [hscope]) htext hvalue hothers hchildren
      | declaration pre => exact .intro hname hpre (by simp [hscope]) htext hvalue hothers hchildren
      | plain name =>
        refine .intro hname hpre hscope htext ?_ (fun other hother => ?_) hchildren
        · rw [hget,hget]
          split
          · exact .inl rfl
          · exact hvalue
        · rw [hget,hget,hothers other hother]
    · simp only [takeAttribute,s.name_plain]
      refine .intro hname hpre hscope htext ?_ (fun other hother => ?_) hchildren
      · rw [hget,hget,if_pos rfl,if_pos rfl]
        exact .inr ⟨rfl,rfl⟩
      · rw [hget,hget,if_neg hother,if_neg hother,hothers other hother]

theorem matches_ofTag (outer : Scope) {tag tag' : Tag} (h : Tag.Matches s v w tag tag') :
    Matches s v w (ofTag outer tag) (ofTag outer tag') := by
  have hstart : Matches s v w { name := (Prefixed.split tag.name).2, prefix? := (Prefixed.split tag.name).1 }
      { name := (Prefixed.split tag'.name).2, prefix? := (Prefixed.split tag'.name).1 } :=
    .intro (by rw [h.name]) (by rw [h.name]) rfl rfl (.inl rfl) (fun _ _ => rfl) .nil
  have hbare := List.rel_foldl (P := Matches s v w) (R := Exchanged s v w)
    (fun _ _ he _ _ ha => matches_takeAttribute he ha) hstart h.attributes
  cases hbare with
  | intro hname hpre hscope htext hvalue hothers hchildren =>
    exact .intro hname hpre (by simp only [ofTag,hscope]) htext hvalue hothers hchildren

theorem ownText_eq_of_matches {ns ns' : List Node} (h : List.Forall₂ (Node.Matches s v w) ns ns') :
    ownText ns' = ownText ns := by
  have hpiece (n n' : Node) (hn : Node.Matches s v w n n') : piece? n' = piece? n := by cases hn <;> rfl
  have hpieces : ns'.filterMap piece? = ns.filterMap piece? := by
    induction h with
    | nil => rfl
    | cons hn _ ih => rw [List.filterMap_cons,List.filterMap_cons,hpiece _ _ hn,ih]
  rw [ownText,hpieces,ownText]

mutual

theorem matches_ofNode (outer : Scope) : ∀ (n : Node) {n' : Node}, Node.Matches s v w n n' →
    Option.Rel (Matches s v w) (ofNode outer n) (ofNode outer n')
  | .data _, _, .data _ => .none
  | .section _, _, .section _ => .none
  | .element tag content, .element tag' content', .element htag hcontent => by
    have hhead := matches_ofTag outer htag
    cases hhead with
    | intro hname hpre hscope _ hvalue hothers _ =>
      have hchildren : List.Forall₂ (Matches s v w) (ofNodes (ofTag outer tag).scope content)
          (ofNodes (ofTag outer tag').scope content') := by
        rw [hscope]
        exact matches_ofNodes (ofTag outer tag).scope content hcontent
      exact .some (.intro hname hpre hscope (ownText_eq_of_matches hcontent) hvalue hothers hchildren)

theorem matches_ofNodes (outer : Scope) : ∀ (ns : List Node) {ns' : List Node}, List.Forall₂ (Node.Matches s v w) ns ns' →
    List.Forall₂ (Matches s v w) (ofNodes outer ns) (ofNodes outer ns')
  | [], _, .nil => .nil
  | n :: ns, _, .cons hn hns => by
    have hfirst := matches_ofNode outer n hn
    have hrest := matches_ofNodes outer ns hns
    simp only [ofNodes]
    refine List.rel_append ?_ hrest
    generalize ofNode outer n = e at hfirst ⊢
    generalize ofNode outer _ = e' at hfirst ⊢
    cases hfirst with
    | none => exact .nil
    | some he => exact .cons he .nil

end

theorem matches_parse {xs ys : Bytes} (h : Token.TextRespelled s v w xs ys) :
    Agree (Option.Rel (Matches s v w)) (parse xs) (parse ys) := by
  have hnodes := Node.matches_parse h
  unfold parse
  generalize Node.parse xs = outcome at hnodes ⊢
  generalize Node.parse ys = outcome' at hnodes ⊢
  cases hnodes with
  | error e => exact .error _
  | ok hnode =>
    cases hnode with
    | none => exact .ok .none
    | some hn => exact .ok (matches_ofNode {} _ hn)

theorem Matches.name_eq {e e' : Element} (h : Matches s v w e e') : e'.name = e.name := by
  cases h with
  | intro hname => exact hname

theorem Matches.attribute? {e e' : Element} (h : Matches s v w e e') (name : String) :
    ValueExchanged s v w (e.attribute? name) (e'.attribute? name) := by
  cases h with
  | intro _ _ _ _ hvalue hothers _ =>
    by_cases hname : name = s.name
    · rwa [hname]
    · exact .inl (hothers name hname)

theorem Matches.children {e e' : Element} (h : Matches s v w e e') :
    List.Forall₂ (Matches s v w) e.children e'.children := by
  cases h with
  | intro _ _ _ _ _ _ hchildren => exact hchildren

theorem Matches.isService_eq {e e' : Element} (h : Matches s v w e e') : e'.isService = e.isService := by
  cases h with
  | intro _ hpre hscope =>
    unfold isService namespace?
    rw [hpre,hscope]

theorem Matches.childrenNamed {e e' : Element} (h : Matches s v w e e') (name : String) :
    List.Forall₂ (Matches s v w) (e.childrenNamed name) (e'.childrenNamed name) := by
  refine List.rel_filter (fun c c' hc => ?_) h.children
  simp [hc.name_eq]

end Element
end Xml

open Xml (Spelling Element)
variable {s : Spelling} {v w : s.Value}

/-! ## References -/

namespace Schema

/-- Schemas with the same references, but for values. -/
def Matches (s : Spelling) (v w : s.Value) (a a' : Schema) : Prop :=
  List.Forall₂ (fun r r' => Xml.ValueExchanged s v w r.written r'.written) a.references a'.references

theorem references_addComponent (a : Schema) (e : Element) : (a.addComponent e).references = a.references := by
  unfold addComponent
  split <;> rfl

theorem references_foldl_addComponent (es : List Element) (a : Schema) :
    (es.foldl addComponent a).references = a.references := by
  induction es generalizing a with
  | nil => rfl
  | cons e es ih => rw [List.foldl_cons,ih,references_addComponent]

theorem references_addChild (r : Reading) (a : Schema) (e : Element) : (addChild r a e).references =
    a.references ++ ((ReferenceKind.ofName? e.name).map fun kind => readReference r kind e).toList := by
  unfold addChild
  cases ReferenceKind.ofName? e.name with
  | none => simp [references_addComponent]
  | some kind =>
    by_cases hredefines : kind.redefines <;> simp [hredefines,references_foldl_addComponent]

theorem matches_addChild (r : Reading) {a a' : Schema} (h : Matches s v w a a') {e e' : Element}
    (he : Element.Matches s v w e e') : Matches s v w (addChild r a e) (addChild r a' e') := by
  unfold Matches
  rw [references_addChild,references_addChild,he.name_eq]
  refine List.rel_append h ?_
  cases ReferenceKind.ofName? e.name with
  | none => exact .nil
  | some kind => exact .cons (he.attribute? "schemaLocation") .nil

theorem matches_ofElement (r : Reading) {e e' : Element} (h : Element.Matches s v w e e') :
    Agree (Matches s v w) (ofElement r e) (ofElement r e') := by
  have hstart : Matches s v w
      { location := r.location, targetNamespace := (e.attribute? "targetNamespace").or r.targetNamespace, scope := e.scope }
      { location := r.location, targetNamespace := (e'.attribute? "targetNamespace").or r.targetNamespace, scope := e'.scope } :=
    .nil
  unfold ofElement
  rw [h.name_eq]
  refine .ite (.error _) (.ok ?_)
  exact List.rel_foldl (P := Matches s v w) (R := Element.Matches s v w)
    (fun _ _ ha _ _ he => matches_addChild r ha he) hstart h.children

theorem matches_read (r : Reading) {xs ys : Bytes} (h : Xml.Token.TextRespelled s v w xs ys) :
    Agree (Matches s v w) (read r xs) (read r ys) :=
  (Element.matches_parse h).bind fun _ _ hroot => by
    cases hroot with
    | none => exact .error _
    | some he => exact matches_ofElement r he

end Schema

namespace Definitions

/-- Definitions with the same references, but for values. -/
structure Matches (s : Spelling) (v w : s.Value) (d d' : Definitions) : Prop where
  schemas : List.Forall₂ (Schema.Matches s v w) d.schemas d'.schemas
  imports : List.Forall₂ (fun i i' => Xml.ValueExchanged s v w i.written i'.written) d.imports d'.imports

theorem matches_readSchemas (r : Reading) {e e' : Element} (h : Element.Matches s v w e e') :
    Agree (List.Forall₂ (Schema.Matches s v w)) (readSchemas r e) (readSchemas r e') :=
  Agree.mapM (fun _ _ hc => Schema.matches_ofElement _ hc) (h.childrenNamed "schema")

theorem matches_addChild (r : Reading) {d d' : Definitions} (h : Matches s v w d d') {e e' : Element}
    (he : Element.Matches s v w e e') : Agree (Matches s v w) (addChild r d e) (addChild r d' e') := by
  unfold addChild
  rw [he.isService_eq,he.name_eq]
  refine .ite (.ok ⟨h.schemas,h.imports⟩) ?_
  split
  · refine (matches_readSchemas r he).map fun schemas schemas' hschemas => ⟨?_,h.imports⟩
    exact List.rel_append h.schemas hschemas
  · exact .ok ⟨h.schemas,List.rel_append h.imports (.cons (he.attribute? "location") .nil)⟩
  all_goals exact .ok ⟨h.schemas,h.imports⟩

theorem matches_ofElement (r : Reading) {e e' : Element} (h : Element.Matches s v w e e') :
    Agree (Matches s v w) (ofElement r e) (ofElement r e') := by
  unfold ofElement
  rw [h.name_eq]
  refine .ite (.error _) ?_
  exact Agree.foldlM (S := Element.Matches s v w) (fun _ _ _ _ hd he => matches_addChild r hd he) h.children ⟨.nil,.nil⟩

theorem matches_read (r : Reading) {xs ys : Bytes} (h : Xml.Token.TextRespelled s v w xs ys) :
    Agree (Matches s v w) (read r xs) (read r ys) :=
  (Element.matches_parse h).bind fun _ _ hroot => by
    cases hroot with
    | none => exact .error _
    | some he => exact matches_ofElement r he

end Definitions

/-! ## Where references lead -/

/-- Every reference leads where its location is resolved to. -/
def Schema.Resolved (r : Reading) (a : Schema) : Prop :=
  ∀ reference ∈ a.references, reference.location = reference.written.bind r.resolve?

theorem Schema.resolved_ofElement (r : Reading) (e : Element) : Gives (Schema.Resolved r) (ofElement r e) := by
  have hfold (es : List Element) {a : Schema} (ha : a.Resolved r) : (es.foldl (addChild r) a).Resolved r := by
    induction es generalizing a with
    | nil => exact ha
    | cons e es ih =>
      refine ih fun reference hreference => ?_
      rw [references_addChild] at hreference
      rcases List.mem_append.mp hreference with hreference | hreference
      · exact ha reference hreference
      · obtain ⟨kind,_,rfl⟩ := Option.map_eq_some_iff.mp (Option.mem_toList.mp hreference)
        rfl
  unfold ofElement
  split
  · exact .error _
  · exact .ok (hfold _ (by simp [Resolved]))

theorem Schema.resolved_read (r : Reading) (bytes : Bytes) : Gives (Schema.Resolved r) (read r bytes) := by
  refine (Gives.any _).bind fun root _ => ?_
  cases root with
  | none => exact .error _
  | some e => exact resolved_ofElement r e

structure Definitions.Resolved (r : Reading) (d : Definitions) : Prop where
  schemas : ∀ a ∈ d.schemas, a.Resolved r
  imports : ∀ i ∈ d.imports, i.location = i.written.bind r.resolve?

theorem Definitions.resolved_addChild (r : Reading) {d : Definitions} (h : d.Resolved r) (e : Element) :
    Gives (Resolved r) (addChild r d e) := by
  have hsame {d' : Definitions} (hschemas : d'.schemas = d.schemas) (himports : d'.imports = d.imports) :
      d'.Resolved r := ⟨hschemas ▸ h.schemas,himports ▸ h.imports⟩
  have himport : ∀ i ∈ d.imports ++ [readImport r e], i.location = i.written.bind r.resolve? :=
    List.forall_mem_append.mpr ⟨h.imports,List.forall_mem_singleton.mpr rfl⟩
  unfold addChild
  split
  · exact .ok (hsame rfl rfl)
  · split
    · have hschemas := Gives.mapM (Schema.resolved_ofElement { r with targetNamespace := none }) (e.childrenNamed "schema")
      exact hschemas.map fun schemas hnew => ⟨List.forall_mem_append.mpr ⟨h.schemas,hnew⟩,h.imports⟩
    · exact .ok ⟨h.schemas,himport⟩
    all_goals exact .ok (hsame rfl rfl)

theorem Definitions.resolved_ofElement (r : Reading) (e : Element) : Gives (Resolved r) (ofElement r e) := by
  unfold ofElement
  split
  · exact .error _
  · exact Gives.foldlM (fun _ e hd => resolved_addChild r hd e) _ ⟨by simp [schemas],by simp⟩

theorem Definitions.resolved_read (r : Reading) (bytes : Bytes) : Gives (Resolved r) (read r bytes) := by
  refine (Gives.any _).bind fun root _ => ?_
  cases root with
  | none => exact .error _
  | some e => exact resolved_ofElement r e

end SchemaBinding
