import SchemaBinding.Failure
import SchemaBinding.Namespaces
import SchemaBinding.Text.Blank
import SchemaBinding.Xml.Node

/-! Elements as the readers see them: local names, attributes by local name, own text and child elements,
and at each element the namespace declarations in force there. -/
namespace SchemaBinding
namespace Xml

structure Element where
  /-- The local name. -/
  name : String
  prefix? : Option String := none
  /-- Values by local name. -/
  attributes : OrderedMap String String := {}
  /-- The pieces of text between the children, put together; none if there are no pieces. -/
  text : Option String := none
  children : List Element := []
  scope : Scope := {}
deriving Inhabited

namespace Element

/-- The namespace of the element, if its prefix is declared or a default is. -/
def namespace? (e : Element) : Option String :=
  match e.prefix? with
  | some pre => e.scope.lookup pre
  | none => e.scope.default

def attribute? (e : Element) (name : String) : Option String := e.attributes.get? name

def setAttribute (e : Element) (name value : String) : Element :=
  { e with attributes := e.attributes.insert name value }

def addChild (e child : Element) : Element :=
  { e with children := e.children ++ [child] }

/-- A prefixed name written at this element. -/
def resolve (e : Element) (name : String) : QualifiedName := e.scope.resolve name

/-- The children with a local name. -/
def childrenNamed (e : Element) (name : String) : List Element := e.children.filter (·.name = name)

def child? (e : Element) (name : String) : Option Element := (e.childrenNamed name).head?

/-- Puts a space between two texts that are not empty. -/
def joinTexts (s t : String) : String :=
  if t = "" then s else if s = "" then t else s ++ " " ++ t

mutual

/-- The own text and then the texts of the children, one space between two of them. -/
def textContent : Element → String
  | { text, children, .. } => joinContents (text.getD "") children

def joinContents (text : String) : List Element → String
  | [] => text
  | child :: rest => joinContents (joinTexts text child.textContent) rest

end

/-- What an attribute is, by its full name. -/
inductive AttributeRole where
  | defaultDeclaration
  | declaration (pre : String)
  | plain (name : String)
deriving Repr, DecidableEq

def AttributeRole.ofName (name : String) : AttributeRole :=
  match Prefixed.split name with
  | (none,"xmlns") => .defaultDeclaration
  | (some "xmlns",pre) => .declaration pre
  | (_,localName) => .plain localName

/-- Takes up one attribute of the start tag. -/
def takeAttribute (e : Element) (name value : String) : Element :=
  match AttributeRole.ofName name with
  | .defaultDeclaration => { e with scope := e.scope.declareDefault value }
  | .declaration pre => { e with scope := e.scope.declare pre value }
  | .plain name => e.setAttribute name value

/-- The element of a start tag, where `outer` is in force. -/
def ofTag (outer : Scope) (tag : Tag) : Element :=
  let name := Prefixed.split tag.name
  let bare : Element := tag.attributes.foldl (fun e a => takeAttribute e a.1 a.2)
    { name := name.2, prefix? := name.1 }
  { bare with scope := bare.scope.inherit outer }

/-- The text a node stands for. Blank character data is none, but a section always counts. -/
def piece? : Node → Option String
  | .data text => if Blank.trim text = "" then none else some text
  | .section text => some text
  | .element _ _ => none

def ownText (content : List Node) : Option String :=
  match content.filterMap piece? with
  | [] => none
  | pieces => some (String.join pieces)

mutual

def ofNode (outer : Scope) : Node → Option Element
  | .element tag content =>
    let head := ofTag outer tag
    some { head with text := ownText content, children := ofNodes head.scope content }
  | _ => none

def ofNodes (outer : Scope) : List Node → List Element
  | [] => []
  | node :: rest => (ofNode outer node).toList ++ ofNodes outer rest

end

/-- The element of a document, if it has any. -/
def parse (bytes : Bytes) : Except Failure (Option Element) :=
  match Node.parse bytes with
  | .error fault => .error (.xml fault)
  | .ok none => .ok none
  | .ok (some node) => .ok (ofNode {} node)

end Element
end Xml
end SchemaBinding
