import SchemaBinding.Xml.Tag
import SchemaBinding.Xml.Token

/-! Documents as trees of tags and text, in the order in which they are written. What stands outside all
elements does not count, and of several outermost elements the last one is the document. -/
namespace SchemaBinding
namespace Xml

inductive Node where
  /-- Character data without the blanks around it, references resolved. -/
  | data (text : String)
  /-- A character data section, as written. -/
  | section (text : String)
  | element (tag : Tag) (content : List Node)
deriving Repr, Inhabited

namespace Node

-- no handler derives this for nodes in lists of nodes
mutual

def decEq : (a b : Node) → Decidable (a = b)
  | .data s, .data t => decidable_of_iff (s = t) (by simp)
  | .section s, .section t => decidable_of_iff (s = t) (by simp)
  | .element tag ms, .element tag' ns =>
    match decEqAll ms ns with
    | isTrue h => decidable_of_iff (tag = tag') (by simp [h])
    | isFalse h => isFalse (by simp [h])
  | .data _, .section _ | .data _, .element .. | .section _, .data _ | .section _, .element .. => isFalse nofun
  | .element .., .data _ | .element .., .section _ => isFalse nofun

def decEqAll : (ms ns : List Node) → Decidable (ms = ns)
  | [], [] => isTrue rfl
  | m :: ms, n :: ns =>
    match decEqAll ms ns with
    | isTrue h => match decEq m n with
      | isTrue hn => isTrue (by rw [h,hn])
      | isFalse hn => isFalse (by simp [hn])
    | isFalse h => isFalse (by simp [h])
  | [], _ :: _ | _ :: _, [] => isFalse nofun

end

instance : DecidableEq Node := decEq

/-- An element whose end tag has not been read, with its content newest first. -/
structure Open where
  tag : Tag
  content : List Node := []

/-- The open elements, innermost first, and the last element closed outside of them. -/
structure Builder where
  stack : List Open := []
  root : Option Node := none

namespace Builder

/-- Adds a piece of content to the innermost open element. -/
def add (b : Builder) (n : Node) : Builder :=
  match b.stack with
  | top :: rest => { b with stack := { top with content := n :: top.content } :: rest }
  | [] => b

/-- Adds an element to the innermost open one, or as the document. -/
def addElement (b : Builder) (n : Node) : Builder :=
  if b.stack.isEmpty then { b with root := some n } else b.add n

def close (b : Builder) (name : Bytes) : Except Fault Builder :=
  match b.stack with
  | [] => .error .markup
  | top :: rest =>
    if Utf8.encodeString top.tag.name = name then
      .ok ({ b with stack := rest }.addElement (.element top.tag top.content.reverse))
    else .error .markup

def feed (b : Builder) : Token → Except Fault Builder
  | .openTag content => (Tag.read content).map fun tag => { b with stack := { tag } :: b.stack }
  | .emptyTag content => (Tag.read content).map fun tag => b.addElement (.element tag [])
  | .closeTag name => b.close name
  | .data content =>
    if b.stack.isEmpty then .ok b
    else match Reference.expandBytes? content with
      | none => .error .text
      | some text => .ok (b.add (.data text))
  | .section content => .ok (b.add (.section (Utf8.decodeLossy content)))
  | .malformed => .error .markup

def finish (b : Builder) : Except Fault (Option Node) :=
  if b.stack.isEmpty then .ok b.root else .error .unclosed

end Builder

/-- The outermost element of a document, if it has any. -/
def parse (bytes : Bytes) : Except Fault (Option Node) :=
  ((Token.tokens bytes).foldlM Builder.feed {}).bind Builder.finish

end Node
end Xml
end SchemaBinding
