import SchemaBinding.Proofs.Reading.Outcomes
import SchemaBinding.Xml.Element

/-! Trees and how they are spelled. What stands between a start tag and the end tag with its name is the content of an
element, a tag that closes itself is an element without content, and outside of all elements only elements count.
Main statement: a document is read as a tree if and only if its tokens spell that tree. -/
namespace SchemaBinding
namespace Xml

namespace Token

/-- Tokens that spell nodes, one after another. -/
inductive Spell : List Token → List Node → Prop where
  | nil : Spell [] []
  | data {content : Bytes} {text : String} {ts : List Token} {ns : List Node} :
      Reference.expandBytes? content = some text → Spell ts ns → Spell (.data content :: ts) (.data text :: ns)
  | section (content : Bytes) {ts : List Token} {ns : List Node} :
      Spell ts ns → Spell (.section content :: ts) (.section (Utf8.decodeLossy content) :: ns)
  | empty {content : Bytes} {tag : Tag} {ts : List Token} {ns : List Node} :
      Tag.read content = .ok tag → Spell ts ns → Spell (.emptyTag content :: ts) (.element tag [] :: ns)
  | element {content : Bytes} {tag : Tag} {inner ts : List Token} {ms ns : List Node} :
      Tag.read content = .ok tag → Spell inner ms → Spell ts ns →
      Spell (.openTag content :: (inner ++ .closeTag (Utf8.encodeString tag.name) :: ts)) (.element tag ms :: ns)

/-- Tokens that spell a document, with its last outermost element if there is one. -/
inductive SpellDocument : List Token → Option Node → Prop where
  | nil : SpellDocument [] none
  | data (content : Bytes) {ts : List Token} {root : Option Node} :
      SpellDocument ts root → SpellDocument (ts ++ [.data content]) root
  | section (content : Bytes) {ts : List Token} {root : Option Node} :
      SpellDocument ts root → SpellDocument (ts ++ [.section content]) root
  | element {ts own : List Token} {root : Option Node} {tag : Tag} {content : List Node} :
      SpellDocument ts root → Spell own [.element tag content] → SpellDocument (ts ++ own) (some (.element tag content))

theorem Spell.append {ts us : List Token} {ns ms : List Node} (h : Spell ts ns) (h' : Spell us ms) :
    Spell (ts ++ us) (ns ++ ms) := by
  induction h with
  | nil => exact h'
  | data htext _ ih => exact .data htext ih
  | «section» content _ ih => exact .section content ih
  | empty hread _ ih => exact .empty hread ih
  | element hread hinner _ _ ih =>
    rw [List.cons_append,List.append_assoc,List.cons_append]
    exact .element hread hinner ih

end Token

namespace Node

open Token (Spell SpellDocument)

namespace Builder

/-! ## What has been read so far -/

/-- Tokens that lead to a builder: the elements it holds open lack their end tags. -/
inductive Reads : List Token → Builder → Prop where
  | outside {ts : List Token} {root : Option Node} : SpellDocument ts root → Reads ts { root }
  | within {content : Bytes} {tag : Tag} {ts inner : List Token} {ns : List Node} {b : Builder} :
      Reads ts b → Tag.read content = .ok tag → Spell inner ns →
      Reads (ts ++ .openTag content :: inner) { b with stack := ⟨tag,ns.reverse⟩ :: b.stack }

variable {ts own : List Token} {b b' : Builder}

theorem Reads.add {n : Node} (h : Reads ts b) (hopen : b.stack ≠ []) (hown : Spell own [n]) :
    Reads (ts ++ own) (b.add n) := by
  cases h with
  | outside => exact absurd rfl hopen
  | @within content tag ts inner ns b hb hread hinner =>
    have hnext := Reads.within hb hread (hinner.append hown)
    rw [List.reverse_append] at hnext
    rwa [List.append_assoc]

theorem Reads.addElement {tag : Tag} {content : List Node} (h : Reads ts b) (hown : Spell own [.element tag content]) :
    Reads (ts ++ own) (b.addElement (.element tag content)) := by
  by_cases hopen : b.stack = []
  · cases h with
    | outside hts => exact .outside (hts.element hown)
    | within => cases hopen
  · rw [Builder.addElement,if_neg (by simpa using hopen)]
    exact h.add hopen hown

theorem Reads.close (h : Reads ts b) (name : Bytes) : Gives (Reads (ts ++ [.closeTag name])) (b.close name) := by
  cases h with
  | outside => exact .error _
  | @within content tag ts inner ns b hb hread hinner =>
    unfold Builder.close
    dsimp only
    split
    · rename_i hname
      have hown := Spell.element hread hinner .nil
      rw [hname] at hown
      rw [List.append_assoc,List.reverse_reverse]
      exact .ok (hb.addElement hown)
    · exact .error _

theorem Reads.feed (h : Reads ts b) (t : Token) : Gives (Reads (ts ++ [t])) (b.feed t) := by
  have hread (content : Bytes) : Gives (fun tag => Tag.read content = .ok tag) (Tag.read content) := fun _ htag => htag
  cases t with
  | openTag content => exact (hread content).map fun tag htag => .within h htag .nil
  | emptyTag content => exact (hread content).map fun tag htag => h.addElement (.empty htag .nil)
  | closeTag name => exact h.close name
  | data content =>
    rw [Builder.feed]
    split
    · rename_i houtside
      cases h with
      | outside hts => exact .ok (.outside (hts.data content))
      | within => cases houtside
    · rename_i hopen
      cases htext : Reference.expandBytes? content with
      | none => exact .error _
      | some text => exact .ok (h.add (by simpa using hopen) (.data htext .nil))
  | «section» content =>
    rw [Builder.feed]
    cases h with
    | outside hts => exact .ok (.outside (hts.section content))
    | within hb htag hinner => exact .ok ((Reads.within hb htag hinner).add (by simp) (.section content .nil))
  | malformed => exact .error _

theorem Reads.foldlM (us : List Token) (h : Reads ts b) : Gives (Reads (ts ++ us)) (us.foldlM Builder.feed b) := by
  induction us generalizing ts b with
  | nil =>
    rw [List.append_nil]
    exact .ok h
  | cons t us ih =>
    rw [List.foldlM_cons,List.append_cons]
    exact (h.feed t).bind fun c hc => ih hc

/-! ## What is read of a spelling -/

theorem foldlM_cons_of_feed {t : Token} {us : List Token} (h : b.feed t = .ok b') :
    (t :: us).foldlM Builder.feed b = us.foldlM Builder.feed b' := by
  rw [List.foldlM_cons,h]
  rfl

theorem foldlM_append_of_foldlM {us : List Token} (h : ts.foldlM Builder.feed b = .ok b') :
    (ts ++ us).foldlM Builder.feed b = us.foldlM Builder.feed b' := by
  rw [List.foldlM_append,h]
  rfl

theorem feed_openTag {content : Bytes} {tag : Tag} (h : Tag.read content = .ok tag) (b : Builder) :
    b.feed (.openTag content) = .ok { b with stack := { tag } :: b.stack } := by
  rw [Builder.feed,h]
  rfl

theorem feed_emptyTag {content : Bytes} {tag : Tag} (h : Tag.read content = .ok tag) (b : Builder) :
    b.feed (.emptyTag content) = .ok (b.addElement (.element tag [])) := by
  rw [Builder.feed,h]
  rfl

theorem feed_closeTag (tag : Tag) (content : List Node) (rest : List Open) (root : Option Node) :
    Builder.feed { stack := ⟨tag,content⟩ :: rest, root } (.closeTag (Utf8.encodeString tag.name)) =
      .ok (Builder.addElement { stack := rest, root } (.element tag content.reverse)) := by
  simp [Builder.feed,Builder.close]

theorem foldlM_of_spell {ns : List Node} (h : Spell ts ns) (top : Open) (rest : List Open) (root : Option Node) :
    ts.foldlM Builder.feed { stack := top :: rest, root } =
      .ok { stack := { top with content := ns.reverse ++ top.content } :: rest, root } := by
  induction h generalizing top rest with
  | nil => rfl
  | @data content text ts ns htext _ ih =>
    have hstep : Builder.feed { stack := top :: rest, root } (.data content) =
        .ok { stack := { top with content := .data text :: top.content } :: rest, root } := by
      simp [Builder.feed,htext,Builder.add]
    rw [foldlM_cons_of_feed hstep,ih,List.reverse_cons,List.append_assoc]
    rfl
  | @«section» content ts ns _ ih =>
    rw [foldlM_cons_of_feed rfl,List.reverse_cons,List.append_assoc]
    exact ih _ _
  | @empty content tag ts ns hread _ ih =>
    rw [foldlM_cons_of_feed (feed_emptyTag hread _),List.reverse_cons,List.append_assoc]
    exact ih _ _
  | @element content tag inner ts ms ns hread _ _ ihinner ih =>
    rw [foldlM_cons_of_feed (feed_openTag hread _),foldlM_append_of_foldlM (ihinner _ _),
      foldlM_cons_of_feed (feed_closeTag _ _ _ _),List.reverse_cons,List.append_assoc,List.append_nil,List.reverse_reverse]
    exact ih _ _

/-- An element outside of others is the document. -/
theorem foldlM_of_spell_element {tag : Tag} {content : List Node} (h : Spell ts [.element tag content])
    (root : Option Node) : ts.foldlM Builder.feed { root } = .ok { root := some (.element tag content) } := by
  cases h with
  | empty hread hrest =>
    cases hrest
    rw [foldlM_cons_of_feed (feed_emptyTag hread _)]
    rfl
  | element hread hinner hrest =>
    cases hrest
    rw [foldlM_cons_of_feed (feed_openTag hread _),foldlM_append_of_foldlM (foldlM_of_spell hinner _ _ _),
      foldlM_cons_of_feed (feed_closeTag _ _ _ _),List.append_nil,List.reverse_reverse]
    rfl

theorem foldlM_of_spellDocument {root : Option Node} (h : SpellDocument ts root) :
    ts.foldlM Builder.feed {} = .ok { root } := by
  induction h with
  | nil => rfl
  | data content _ ih =>
    rw [foldlM_append_of_foldlM ih]
    rfl
  | «section» content _ ih =>
    rw [foldlM_append_of_foldlM ih]
    rfl
  | element _ hown ih =>
    rw [foldlM_append_of_foldlM ih]
    exact foldlM_of_spell_element hown _

theorem Reads.finish (h : Reads ts b) : Gives (SpellDocument ts) b.finish := by
  cases h with
  | outside hts => exact .ok hts
  | within => exact .error _

end Builder

/-- A document is read as a tree if and only if its tokens spell that tree. -/
theorem parse_eq_ok_iff {bytes : Bytes} {root : Option Node} :
    parse bytes = .ok root ↔ SpellDocument (Token.tokens bytes) root := by
  constructor
  · have hreads := Builder.Reads.foldlM (Token.tokens bytes) (.outside .nil)
    exact hreads.bind (fun b hb => hb.finish) root
  · intro h
    rw [parse,Builder.foldlM_of_spellDocument h]
    rfl

/-! ## The elements of a tree -/

/-- Where an element of a tree stands: its tag with the tags around it, the innermost first, and its content. -/
structure Place where
  tags : List Tag
  content : List Node

mutual

/-- The elements of a tree within some tags, in the order in which they begin. -/
def places (outer : List Tag) : Node → List Place
  | .element tag content => ⟨tag :: outer,content⟩ :: placesAmong (tag :: outer) content
  | .data _ => []
  | .section _ => []

def placesAmong (outer : List Tag) : List Node → List Place
  | [] => []
  | n :: ns => n.places outer ++ placesAmong outer ns

end

end Node

namespace Element

mutual

/-- An element and all elements below it, in the order in which they begin. -/
def elements : Element → List Element
  | e@{ children, .. } => e :: elementsAmong children

def elementsAmong : List Element → List Element
  | [] => []
  | e :: es => e.elements ++ elementsAmong es

end

theorem elementsAmong_append (es fs : List Element) :
    elementsAmong (es ++ fs) = elementsAmong es ++ elementsAmong fs := by
  induction es with
  | nil => rfl
  | cons e es ih => rw [List.cons_append,elementsAmong,elementsAmong,ih,List.append_assoc]

/-- The element of a tag and its content. -/
def ofContent (outer : Scope) (tag : Tag) (content : List Node) : Element :=
  { ofTag outer tag with text := ownText content, children := ofNodes (ofTag outer tag).scope content }

theorem ofNode_element (outer : Scope) (tag : Tag) (content : List Node) :
    ofNode outer (.element tag content) = some (ofContent outer tag content) := rfl

theorem elements_ofContent (outer : Scope) (tag : Tag) (content : List Node) : (ofContent outer tag content).elements =
    ofContent outer tag content :: elementsAmong (ofNodes (ofTag outer tag).scope content) := rfl

end Element

/-! ## What holds of each element -/

theorem Token.SpellDocument.exists_spell {ts : List Token} {node : Node} (h : SpellDocument ts (some node)) :
    ∃ own tag content, node = .element tag content ∧ Spell own [node] := by
  generalize hroot : some node = root at h
  induction h with
  | nil => cases hroot
  | data _ _ ih => exact ih hroot
  | «section» _ _ ih => exact ih hroot
  | element _ hown _ =>
    obtain rfl := Option.some.inj hroot
    exact ⟨_,_,_,rfl,hown⟩

section
variable {R : Node.Place → Element → Prop} {S : List Tag → Scope → Prop}
  (hscope : ∀ {bytes tag tags outer}, Tag.read bytes = .ok tag → S tags outer →
    S (tag :: tags) (Element.ofTag outer tag).scope)
  (helement : ∀ {bytes tag tags outer} content, Tag.read bytes = .ok tag → S tags outer →
    R ⟨tag :: tags,content⟩ (Element.ofContent outer tag content))
include hscope helement

theorem Token.Spell.forall₂_elements {ts : List Token} {ns : List Node} (h : Spell ts ns) {tags : List Tag} {outer : Scope}
    (hS : S tags outer) :
    List.Forall₂ R (Node.placesAmong tags ns) (Element.elementsAmong (Element.ofNodes outer ns)) := by
  induction h generalizing tags outer with
  | nil => exact .nil
  | data _ _ ih => exact ih hS
  | «section» _ _ ih => exact ih hS
  | empty hread _ ih => exact .cons (helement [] hread hS) (ih hS)
  | element hread _ _ ihinner ih =>
    rw [Node.placesAmong,Node.places,Element.ofNodes,Element.ofNode_element]
    exact List.rel_append (.cons (helement _ hread hS) (ihinner (hscope hread hS))) (ih hS)

/-- The elements of a document are the elements of the tree that its tokens spell. What holds of each of them and its
place holds of all, in the order in which they begin. -/
theorem Element.exists_of_parse (hS : S [] {}) {bytes : Bytes} {e : Element} (h : parse bytes = .ok (some e)) :
    ∃ node, Token.SpellDocument (Token.tokens bytes) (some node) ∧ List.Forall₂ R (node.places []) e.elements := by
  unfold parse at h
  split at h
  · cases h
  · cases h
  · rename_i node hnode
    have hdocument := Node.parse_eq_ok_iff.mp hnode
    obtain ⟨own,tag,content,rfl,hown⟩ := hdocument.exists_spell
    have he : ofContent {} tag content = e := Option.some.inj (Except.ok.inj h)
    have hall := hown.forall₂_elements hscope helement hS
    rw [Node.placesAmong,Element.ofNodes,Element.ofNode_element,he] at hall
    refine ⟨_,hdocument,?_⟩
    simpa [Node.placesAmong,Element.ofNodes,Element.elementsAmong] using hall

end

end Xml
end SchemaBinding
