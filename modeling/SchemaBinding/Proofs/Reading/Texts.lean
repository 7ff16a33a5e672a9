import Mathlib.Data.List.DropRight
import Mathlib.Data.List.Perm.Basic
import SchemaBinding.Proofs.Reading.Nesting
import SchemaBinding.Proofs.Reading.Preserved

/-! Texts of elements. An element keeps the pieces of text in its content together and its children beside them, and its
whole text is its own text followed by those of its children. So text that is written after a child comes before the
text of that child.
Main statement: the whole text of an element is made of the texts of the elements in it, one space between two of them;
it has the characters of the document, and has them in the order of the document where no text follows a child. -/
namespace SchemaBinding

namespace Blank

/-- The characters of a text that are not blank. -/
def visible (s : String) : List Char := s.toList.filter (! isBlank ·)

@[simp] theorem visible_empty : visible "" = [] := rfl

@[simp] theorem visible_append (s t : String) : visible (s ++ t) = visible s ++ visible t := by
  rw [visible,String.toList_append,List.filter_append]
  rfl

theorem visible_join (ts : List String) : visible (String.join ts) = ts.flatMap visible := by
  induction ts with
  | nil => rfl
  | cons t ts ih => rw [String.join_cons,visible_append,ih,List.flatMap_cons]

theorem visible_of_trim_eq_empty {s : String} (h : trim s = "") : visible s = [] := by
  have hchars : (s.toList.dropWhile isBlank).rdropWhile isBlank = [] := String.ofList_injective h
  rw [List.rdropWhile_eq_nil_iff] at hchars
  refine List.filter_eq_nil_iff.mpr fun c hc => ?_
  rw [← List.takeWhile_append_dropWhile (p := isBlank) (l := s.toList)] at hc
  rcases List.mem_append.mp hc with hbefore | hafter
  · simp [List.mem_takeWhile_imp hbefore]
  · simp [hchars c hafter]

end Blank

namespace Xml

open Blank (visible)

/-! ## Characters of a tree -/

namespace Node

/-- The characters that are a node's own: those of a piece of text. -/
def own : Node → List Char
  | .data text => visible text
  | .section text => visible text
  | .element _ _ => []

mutual

/-- The characters of the pieces of text in a node, in the order in which they are written. -/
def chars : Node → List Char
  | .data text => visible text
  | .section text => visible text
  | .element _ content => charsAmong content

def charsAmong : List Node → List Char
  | [] => []
  | n :: ns => n.chars ++ charsAmong ns

end

/-- The characters inside an element. -/
def inner : Node → List Char
  | .element _ content => charsAmong content
  | _ => []

/-- No text follows an element with text. -/
def TextFirst (content : List Node) : Prop := content.Pairwise fun n m => n.inner = [] ∨ m.own = []

theorem chars_eq (n : Node) : n.chars = n.own ++ n.inner := by
  cases n with
  | data text => simp [chars,own,inner]
  | «section» text => simp [chars,own,inner]
  | element tag content => simp [chars,own,inner]

theorem charsAmong_eq (ns : List Node) : charsAmong ns = ns.flatMap fun n => n.own ++ n.inner := by
  induction ns with
  | nil => rfl
  | cons n ns ih => rw [charsAmong,ih,chars_eq,List.flatMap_cons]

theorem perm_charsAmong (ns : List Node) : (ns.flatMap own ++ ns.flatMap inner).Perm (charsAmong ns) := by
  rw [charsAmong_eq]
  exact List.flatMap_append_perm ns own inner

theorem TextFirst.eq_charsAmong {ns : List Node} (h : TextFirst ns) :
    ns.flatMap own ++ ns.flatMap inner = charsAmong ns := by
  induction ns with
  | nil => rfl
  | cons n ns ih =>
    obtain ⟨hn,hns⟩ := List.pairwise_cons.mp h
    rw [charsAmong,chars_eq,← ih hns,List.flatMap_cons,List.flatMap_cons]
    by_cases hinner : n.inner = []
    · simp [hinner]
    · have hown : ns.flatMap own = [] := List.flatMap_eq_nil_iff.mpr fun m hm => (hn m hm).resolve_left hinner
      simp [hown]

/-- The own characters of the element at a place. -/
def Place.own (p : Place) : List Char := p.content.flatMap Node.own

theorem flatMap_own_places (tags : List Tag) (tag : Tag) (content : List Node) :
    (places tags (.element tag content)).flatMap Place.own =
      content.flatMap own ++ (placesAmong (tag :: tags) content).flatMap Place.own := rfl

mutual

/-- Element after element, the characters are those of the document in another order. -/
theorem perm_places (tags : List Tag) : (n : Node) → ((n.places tags).flatMap Place.own).Perm n.inner
  | .data _ => .nil
  | .section _ => .nil
  | .element tag content =>
    flatMap_own_places tags tag content ▸
      ((perm_placesAmong (tag :: tags) content).append_left _).trans (perm_charsAmong content)

theorem perm_placesAmong (tags : List Tag) :
    (ns : List Node) → ((placesAmong tags ns).flatMap Place.own).Perm (ns.flatMap inner)
  | [] => .nil
  | n :: ns => by
    rw [placesAmong,List.flatMap_append,List.flatMap_cons]
    exact (perm_places tags n).append (perm_placesAmong tags ns)

end

mutual

/-- Where text comes first in all elements, their characters one element after another are those of the document. -/
theorem flatMap_places_of_textFirst (tags : List Tag) : (n : Node) → (∀ q ∈ n.places tags, TextFirst q.content) →
    (n.places tags).flatMap Place.own = n.inner
  | .data _, _ => rfl
  | .section _, _ => rfl
  | .element tag content, h => by
    obtain ⟨hcontent,hamong⟩ := List.forall_mem_cons.mp h
    rw [flatMap_own_places,flatMap_placesAmong_of_textFirst (tag :: tags) content hamong,inner]
    exact hcontent.eq_charsAmong

theorem flatMap_placesAmong_of_textFirst (tags : List Tag) : (ns : List Node) →
    (∀ q ∈ placesAmong tags ns, TextFirst q.content) → (placesAmong tags ns).flatMap Place.own = ns.flatMap inner
  | [], _ => rfl
  | n :: ns, h => by
    obtain ⟨hn,hns⟩ := List.forall_mem_append.mp h
    rw [placesAmong,List.flatMap_append,List.flatMap_cons,flatMap_places_of_textFirst tags n hn,
      flatMap_placesAmong_of_textFirst tags ns hns]

end

end Node

/-! ## Texts with spaces between them -/

/-- The texts that are not empty, one space between two of them. -/
def spaced (ts : List String) : String := " ".intercalate (ts.filter (· ≠ ""))

theorem spaced_singleton (t : String) : spaced [t] = t := by
  by_cases h : t = "" <;> simp [spaced,h]

theorem spaced_eq_empty_iff {ts : List String} : spaced ts = "" ↔ ts.filter (· ≠ "") = [] := by
  constructor
  · intro h
    by_contra hne
    obtain ⟨t,rest,hts⟩ := List.exists_cons_of_ne_nil hne
    have ht : t ≠ "" := by simpa using (List.mem_filter.mp (hts ▸ List.mem_cons_self : t ∈ ts.filter (· ≠ ""))).2
    rw [spaced,hts] at h
    cases rest with
    | nil => exact ht (by simpa using h)
    | cons u rest => simp [String.intercalate_cons_cons,String.append_assoc,ht] at h
  · intro h
    rw [spaced,h,String.intercalate_nil]

theorem visible_spaced (ts : List String) : visible (spaced ts) = ts.flatMap visible := by
  induction ts with
  | nil => rfl
  | cons t ts ih =>
    rw [List.flatMap_cons,← ih,spaced,spaced]
    by_cases ht : t = ""
    · simp [ht]
    · rw [List.filter_cons_of_pos (by simpa using ht)]
      by_cases hts : ts.filter (· ≠ "") = []
      · rw [hts,String.intercalate_singleton,String.intercalate_nil,Blank.visible_empty,List.append_nil]
      · rw [String.intercalate_cons_of_ne_nil hts,Blank.visible_append,Blank.visible_append,show visible " " = [] from rfl,
          List.append_nil]

namespace Element

theorem joinTexts_spaced (ts us : List String) : joinTexts (spaced ts) (spaced us) = spaced (ts ++ us) := by
  simp only [joinTexts,spaced_eq_empty_iff]
  split
  · rename_i hus
    rw [spaced,spaced,List.filter_append,hus,List.append_nil]
  · rename_i hus
    split
    · rename_i hts
      rw [spaced,spaced,List.filter_append,hts,List.nil_append]
    · rename_i hts
      rw [spaced,spaced,spaced,List.filter_append,String.intercalate_append_of_ne_nil hts hus]

/-- The own texts of some elements. -/
def texts (es : List Element) : List String := es.map fun e => e.text.getD ""

mutual

theorem textContent_eq_spaced : (e : Element) → e.textContent = spaced (texts e.elements)
  | { text, children, .. } => by
    rw [textContent,← spaced_singleton (text.getD ""),joinContents_spaced,elements]
    rfl

theorem joinContents_spaced (ts : List String) :
    (es : List Element) → joinContents (spaced ts) es = spaced (ts ++ texts (elementsAmong es))
  | [] => by rw [elementsAmong,texts,List.map_nil,List.append_nil,joinContents]
  | e :: es => by
    rw [joinContents,textContent_eq_spaced e,joinTexts_spaced,joinContents_spaced,elementsAmong,texts,texts,texts,
      List.map_append,List.append_assoc]

end

/-! ## Own text -/

theorem getD_ownText (content : List Node) : (ownText content).getD "" = String.join (content.filterMap piece?) := by
  unfold ownText
  split
  · rename_i hnone
    rw [hnone]
    rfl
  · rfl

theorem visible_piece? (n : Node) : (piece? n).toList.flatMap visible = n.own := by
  cases n with
  | data text =>
    rw [piece?]
    split
    · rename_i hblank
      exact (Blank.visible_of_trim_eq_empty hblank).symm
    · simp [Node.own]
  | «section» text => simp [piece?,Node.own]
  | element tag content => rfl

theorem visible_ownText (content : List Node) : visible ((ownText content).getD "") = content.flatMap Node.own := by
  rw [getD_ownText,Blank.visible_join,List.filterMap_eq_flatMap_toList,List.flatMap_assoc]
  exact List.flatMap_congr fun n _ => visible_piece? n

/-- A piece of text stands in the own text as it is. -/
theorem infix_ownText {content : List Node} {n : Node} {t : String} (hn : n ∈ content) (ht : t ∈ piece? n) :
    t.toList <:+: ((ownText content).getD "").toList := by
  obtain ⟨before,after,hpieces⟩ := List.append_of_mem (List.mem_filterMap.mpr ⟨n,hn,ht⟩)
  rw [getD_ownText,hpieces,String.toList_join,List.flatMap_append,List.flatMap_cons,← List.append_assoc]
  exact ⟨_,_,rfl⟩

/-! ## The texts of a tree -/

mutual

theorem visible_texts_ofNode (outer : Scope) (tags : List Tag) : (n : Node) →
    (texts (elementsAmong (ofNode outer n).toList)).flatMap visible = (n.places tags).flatMap Node.Place.own
  | .data _ => rfl
  | .section _ => rfl
  | .element tag content => by
    rw [ofNode_element,Option.toList_some,elementsAmong,elementsAmong,List.append_nil,elements_ofContent,
      Node.flatMap_own_places,texts,List.map_cons,List.flatMap_cons,← texts,visible_texts_ofNodes _ (tag :: tags) content]
    exact congrArg (· ++ _) (visible_ownText content)

theorem visible_texts_ofNodes (outer : Scope) (tags : List Tag) : (ns : List Node) →
    (texts (elementsAmong (ofNodes outer ns))).flatMap visible = (Node.placesAmong tags ns).flatMap Node.Place.own
  | [] => rfl
  | n :: ns => by
    rw [ofNodes,elementsAmong_append,texts,List.map_append,List.flatMap_append,← texts,← texts,
      visible_texts_ofNode outer tags n,visible_texts_ofNodes outer tags ns,Node.placesAmong,List.flatMap_append]

end

/-- The texts of an element are those of its content. -/
structure HasTexts (p : Node.Place) (e : Element) : Prop where
  own : visible (e.text.getD "") = p.own
  piece : ∀ n ∈ p.content, ∀ t ∈ piece? n, t.toList <:+: (e.text.getD "").toList
  joined : e.textContent = spaced (texts e.elements)
  ownFirst : visible e.textContent = p.own ++ (Node.placesAmong p.tags p.content).flatMap Node.Place.own
  perm : (visible e.textContent).Perm (Node.charsAmong p.content)
  inOrder : (∀ q ∈ p :: Node.placesAmong p.tags p.content, Node.TextFirst q.content) →
    visible e.textContent = Node.charsAmong p.content

theorem hasTexts_ofContent (outer : Scope) (tag : Tag) (tags : List Tag) (content : List Node) :
    HasTexts ⟨tag :: tags,content⟩ (ofContent outer tag content) := by
  have hchars : visible (ofContent outer tag content).textContent =
      ((Node.element tag content).places tags).flatMap Node.Place.own := by
    rw [textContent_eq_spaced,visible_spaced,← visible_texts_ofNode outer tags (.element tag content)]
    simp [ofNode_element,elementsAmong]
  refine ⟨visible_ownText content,fun n hn t ht => infix_ownText hn ht,textContent_eq_spaced _,hchars,?_,fun h => ?_⟩
  · rw [hchars]
    exact Node.perm_places tags (.element tag content)
  · rw [hchars]
    exact Node.flatMap_places_of_textFirst tags (.element tag content) h

/-- The texts of the elements of a document are those of the tree that its tokens spell. -/
theorem hasTexts_of_parse {bytes : Bytes} {e : Element} (h : parse bytes = .ok (some e)) :
    ∃ node, Token.SpellDocument (Token.tokens bytes) (some node) ∧ List.Forall₂ HasTexts (node.places []) e.elements :=
  exists_of_parse (S := fun _ _ => True) (fun _ _ => trivial)
    (fun {_ tag tags outer} content _ _ => hasTexts_ofContent outer tag tags content) trivial h

/-- Text at every depth. -/
def nestedText : Bytes := Utf8.encodeString "<a>Say <b>all of <i>it</i></b><!-- twice --><b><![CDATA[a&b]]></b></a>"

def nestedTextNode : Node :=
  .element ⟨"a",[]⟩ [.data "Say",.element ⟨"b",[]⟩ [.data "all of",.element ⟨"i",[]⟩ [.data "it"]],
    .element ⟨"b",[]⟩ [.section "a&b"]]

theorem hasTexts_of_parse_nested : ∃ e, parse nestedText = .ok (some e) ∧ e.textContent = "Say all of it a&b" ∧
    ∃ node, Token.SpellDocument (Token.tokens nestedText) (some node) ∧
      List.Forall₂ HasTexts (node.places []) e.elements := by
  have hnode : Node.parse nestedText = .ok (some nestedTextNode) := by decide +kernel
  have hparse : parse nestedText = .ok (ofNode {} nestedTextNode) := by rw [parse,hnode]
  exact ⟨_,hparse,by decide +kernel,hasTexts_of_parse hparse⟩

/-- Text before and after a child. -/
def textAround : Bytes := Utf8.encodeString "<d>See <b>Order</b> here</d>"

def textAroundNode : Node := .element ⟨"d",[]⟩ [.data "See",.element ⟨"b",[]⟩ [.data "Order"],.data "here"]

/-- Text that is written after a child comes before the text of that child. -/
theorem textContent_around : ∃ node e, Token.SpellDocument (Token.tokens textAround) (some node) ∧
    parse textAround = .ok (some e) ∧ visible e.textContent ≠ node.chars := by
  have hnode : Node.parse textAround = .ok (some textAroundNode) := by decide +kernel
  have hparse : parse textAround = .ok (ofNode {} textAroundNode) := by rw [parse,hnode]
  exact ⟨textAroundNode,_,Node.parse_eq_ok_iff.mp hnode,hparse,by decide +kernel⟩

end Element
end Xml
end SchemaBinding
