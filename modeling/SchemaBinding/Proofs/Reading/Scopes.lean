import SchemaBinding.Proofs.Reading.Attributes
import SchemaBinding.Proofs.Reading.Nesting

/-! Declarations in force. An element takes over the declarations around it that its own tag does not make, so a prefix
means at each place what the nearest tag around it says.
Main statement: at every element of a document, the namespace of a prefix and the default namespace are those declared
by the nearest tag around it that declares them, and names are resolved by them. -/
namespace SchemaBinding

/-- The namespace of names with a prefix, or of those without one. -/
def Scope.spaceOf (s : Scope) : Option String → Option String
  | some pre => s.lookup pre
  | none => s.default

theorem Scope.lookup_inherit (s outer : Scope) (pre : String) :
    (s.inherit outer).lookup pre = (s.lookup pre).or (outer.lookup pre) := by
  have hall (es : List (String × String)) (m : OrderedMap String String) :
      (es.foldl (fun m e => m.insertNew e.1 e.2) m).get? pre = (m.get? pre).or (es.lookup pre) := by
    induction es generalizing m with
    | nil => simp
    | cons e es ih =>
      obtain ⟨k,v⟩ := e
      rw [List.foldl_cons,ih,OrderedMap.get?_insertNew,List.lookup_cons]
      by_cases hk : pre = k
      · subst hk
        cases m.get? pre <;> simp
      · simp [beq_false_of_ne hk,hk]
  exact hall outer.prefixes.entries s.prefixes

theorem Scope.spaceOf_inherit (s outer : Scope) (pre? : Option String) :
    (s.inherit outer).spaceOf pre? = (s.spaceOf pre?).or (outer.spaceOf pre?) := by
  cases pre? with
  | none => rfl
  | some pre => exact s.lookup_inherit outer pre

theorem Scope.resolve_eq (s : Scope) (name : String) :
    s.resolve name = ⟨s.spaceOf (Prefixed.split name).1,(Prefixed.split name).2⟩ := by
  unfold resolve
  split <;> simp_all [spaceOf]

namespace Xml

/-! ## Declarations of a tag -/

/-- The full name of the attribute that declares a prefix or the default namespace. -/
def declaring : Option String → String
  | some pre => "xmlns:" ++ pre
  | none => "xmlns"

/-- The namespace that a tag declares for a prefix, or as the default one. -/
def Tag.declared? (t : Tag) (pre? : Option String) : Option String := t.attributes.lookup (declaring pre?)

/-- What is declared by the nearest of some tags that declares it. -/
def nearest? (tags : List Tag) (pre? : Option String) : Option String := tags.findSome? (·.declared? pre?)

namespace Element

/-- The role of an attribute that declares a prefix or the default namespace. -/
def AttributeRole.declaring : Option String → AttributeRole
  | some pre => .declaration pre
  | none => .defaultDeclaration

theorem ofName_eq_declaring_iff {name : String} {pre? : Option String} :
    AttributeRole.ofName name = .declaring pre? ↔ name = declaring pre? := by
  constructor
  · intro h
    unfold AttributeRole.ofName at h
    split at h
    · rename_i hsplit
      cases pre? with
      | none => exact (Prefixed.eq_of_split_none hsplit).symm
      | some pre => cases h
    · rename_i pre hsplit
      cases pre? with
      | none => cases h
      | some other =>
        obtain rfl := AttributeRole.declaration.inj h
        exact Prefixed.eq_of_split_some hsplit
    · cases pre? <;> cases h
  · rintro rfl
    cases pre? with
    | none => decide
    | some pre =>
      have hcolon : ':' ∉ "xmlns".toList := by decide
      have hsplit : Prefixed.split (declaring (some pre)) = (some "xmlns",pre) := Prefixed.split_prefixed pre hcolon
      simp [AttributeRole.ofName,hsplit,AttributeRole.declaring]

theorem spaceOf_takeAttribute (e : Element) (name value : String) (pre? : Option String) :
    (takeAttribute e name value).scope.spaceOf pre? =
      if AttributeRole.ofName name = .declaring pre? then some value else e.scope.spaceOf pre? := by
  unfold takeAttribute
  cases pre? with
  | none =>
    cases AttributeRole.ofName name <;>
      simp [AttributeRole.declaring,Scope.spaceOf,Scope.declareDefault,Scope.declare,setAttribute]
  | some pre =>
    cases AttributeRole.ofName name with
    | defaultDeclaration => simp [AttributeRole.declaring,Scope.spaceOf,Scope.declareDefault,Scope.lookup]
    | declaration other =>
      simp only [AttributeRole.declaring,Scope.spaceOf,Scope.declare,Scope.lookup,OrderedMap.get?_insert,
        AttributeRole.declaration.injEq]
      by_cases h : pre = other
      · simp [h]
      · simp [h,Ne.symm h]
    | plain localName => simp [AttributeRole.declaring,Scope.spaceOf,setAttribute]

/-- Of attributes with different names, those that declare something are in force. -/
theorem spaceOf_takeAttributes (e : Element) {as : List (String × String)} (h : (as.map Prod.fst).Nodup)
    (pre? : Option String) : (e.takeAttributes as).scope.spaceOf pre? =
      (as.lookup (declaring pre?)).or (e.scope.spaceOf pre?) := by
  induction as generalizing e with
  | nil => rfl
  | cons a as ih =>
    obtain ⟨name,value⟩ := a
    obtain ⟨hname,has⟩ := List.nodup_cons.mp h
    rw [takeAttributes,List.foldl_cons,← takeAttributes,ih _ has,spaceOf_takeAttribute,List.lookup_cons]
    simp only [ofName_eq_declaring_iff]
    by_cases hdeclares : name = declaring pre?
    · have hrest : as.lookup (declaring pre?) = none := by
        rw [List.lookup_eq_none_iff]
        intro b hb
        have hmem : b.1 ∈ as.map Prod.fst := List.mem_map_of_mem hb
        rw [bne_iff_ne,← hdeclares]
        exact fun hsame => hname (hsame ▸ hmem)
      simp [hdeclares,hrest]
    · simp [hdeclares,beq_false_of_ne (Ne.symm hdeclares)]

end Element

namespace Tag

/-- No attribute has been read twice. -/
def Reading.Distinct (r : Reading) : Prop := (r.attributes.map Prod.fst).Nodup

theorem Reading.distinct_feed {r : Reading} (h : r.Distinct) (b : UInt8) : Gives Distinct (r.feed b) := by
  have hvalue (key value : Bytes) : Gives Distinct (r.endValue key value) := by
    unfold endValue
    split
    · exact .error _
    · split
      · exact .error _
      · rename_i hnew
        split
        · exact .error _
        · exact .ok (List.nodup_cons.mpr ⟨by simpa using hnew,h⟩)
  unfold feed
  split
  · split <;> exact .ok h
  · split
    · exact .ok h
    · split <;> exact .ok h
  · split
    · exact .ok h
    · split
      · exact .ok h
      · exact .error _
  · split
    · exact .ok h
    · split
      · exact .ok h
      · exact .error _
  · split
    · exact hvalue _ _
    · exact .ok h

/-- No attribute stands twice on a tag. -/
theorem nodup_read {bytes : Bytes} {tag : Tag} (h : read bytes = .ok tag) : (tag.attributes.map Prod.fst).Nodup := by
  have hempty : Reading.Distinct {} := List.nodup_nil
  have hread : Gives (fun t : Tag => (t.attributes.map Prod.fst).Nodup) (read bytes) := by
    unfold read
    split
    · exact .error _
    · refine (Gives.foldlM (fun _ b hr => Reading.distinct_feed hr b) _ hempty).bind fun r hr => ?_
      unfold Reading.finish
      split
      · refine .ok ?_
        rw [List.map_reverse]
        exact (List.reverse_perm _).nodup_iff.mpr hr
      · exact .error _
  exact hread tag h

end Tag

/-! ## Declarations around an element -/

/-- The declarations in force are those of the nearest tags. -/
def InForce (tags : List Tag) (s : Scope) : Prop := ∀ pre?, s.spaceOf pre? = nearest? tags pre?

theorem inForce_nil : InForce [] {} := by
  intro pre?
  cases pre? <;> rfl

theorem InForce.ofTag {bytes : Bytes} {tag : Tag} {tags : List Tag} {outer : Scope} (hread : Tag.read bytes = .ok tag)
    (h : InForce tags outer) : InForce (tag :: tags) (Element.ofTag outer tag).scope := by
  intro pre?
  have hown : (Element.bare tag).scope.spaceOf pre? = tag.declared? pre? := by
    rw [Element.bare,Element.spaceOf_takeAttributes _ (Tag.nodup_read hread),inForce_nil pre?]
    exact Option.or_none
  rw [Element.ofTag_eq,Scope.spaceOf_inherit,hown,h pre?,nearest?,nearest?,List.findSome?_cons]
  cases tag.declared? pre? <;> rfl

namespace Element

/-- An element is as its own tag and the declarations of the tags around it say. -/
structure Declared (tags : List Tag) (e : Element) : Prop where
  lookup : ∀ pre, e.scope.lookup pre = nearest? tags (some pre)
  default : e.scope.default = nearest? tags none
  ownNamespace : ∃ tag ∈ tags.head?, e.namespace? = nearest? tags (Prefixed.split tag.name).1
  resolve : ∀ name, e.resolve name = ⟨nearest? tags (Prefixed.split name).1,(Prefixed.split name).2⟩

theorem namespace?_eq (e : Element) : e.namespace? = e.scope.spaceOf e.prefix? := by
  unfold namespace?
  split <;> simp_all [Scope.spaceOf]

theorem declared_ofContent {bytes : Bytes} {tag : Tag} {tags : List Tag} {outer : Scope} (content : List Node)
    (hread : Tag.read bytes = .ok tag) (h : InForce tags outer) :
    (ofContent outer tag content).Declared (tag :: tags) := by
  have hscope : InForce (tag :: tags) (ofContent outer tag content).scope := h.ofTag hread
  have hpre : (ofContent outer tag content).prefix? = (Prefixed.split tag.name).1 := prefix?_takeAttributes _ _
  refine ⟨fun pre => hscope (some pre),hscope none,⟨tag,rfl,?_⟩,fun name => ?_⟩
  · rw [namespace?_eq,hpre,hscope]
  · rw [Element.resolve,Scope.resolve_eq,hscope]

/-- The declarations in force at each element of a document are those of the nearest tags around it. -/
theorem declared_of_parse {bytes : Bytes} {e : Element} (h : parse bytes = .ok (some e)) :
    ∃ node, Token.SpellDocument (Token.tokens bytes) (some node) ∧
      List.Forall₂ (fun p d => Declared p.tags d) (node.places []) e.elements :=
  exists_of_parse (S := InForce) (fun hread hscope => hscope.ofTag hread)
    (fun content hread hscope => declared_ofContent content hread hscope) inForce_nil h

/-- A prefix that is declared anew on one element, and means what it did on the next. -/
def shadowing : Bytes := Utf8.encodeString "<a xmlns='u' xmlns:p='v'><p:b xmlns:p='w'/><p:c/></a>"

def shadowingNode : Node :=
  .element ⟨"a",[("xmlns","u"),("xmlns:p","v")]⟩ [.element ⟨"p:b",[("xmlns:p","w")]⟩ [],.element ⟨"p:c",[]⟩ []]

theorem declared_of_parse_shadowing : ∃ e, parse shadowing = .ok (some e) ∧
    e.elements.map namespace? = [some "u",some "w",some "v"] ∧
    ∃ node, Token.SpellDocument (Token.tokens shadowing) (some node) ∧
      List.Forall₂ (fun p d => Declared p.tags d) (node.places []) e.elements := by
  have hnode : Node.parse shadowing = .ok (some shadowingNode) := by decide +kernel
  have hparse : parse shadowing = .ok (ofNode {} shadowingNode) := by rw [parse,hnode]
  exact ⟨_,hparse,by decide +kernel,declared_of_parse hparse⟩

end Element
end Xml
end SchemaBinding
