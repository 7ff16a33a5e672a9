import SchemaBinding.Text.Blank
import SchemaBinding.Xml.Fault
import SchemaBinding.Xml.Reference

/-! Tags: a name up to the first blank, then attributes. A value stands in quotes after an equals sign,
with blanks around the sign if any; no two attributes have the same name. -/
namespace SchemaBinding
namespace Xml

/-- Names here carry their prefixes, and values have their references resolved. -/
structure Tag where
  name : String
  attributes : List (String × String) := []
deriving Repr, DecidableEq

namespace Tag

/-- Where the reading of attributes is. Bytes are kept newest first. -/
inductive Mode where
  | between
  | key (seen : Bytes)
  | afterKey (key : Bytes)
  | afterSign (key : Bytes)
  | value (key : Bytes) (quote : UInt8) (seen : Bytes)
deriving Repr, DecidableEq

structure Reading where
  /-- Newest first. -/
  attributes : List (String × String) := []
  mode : Mode := .between
deriving Repr, DecidableEq

def equals : UInt8 := 0x3D

namespace Reading

def endValue (r : Reading) (key value : Bytes) : Except Fault Reading :=
  match Utf8.decodeString? key with
  | none => .error .attributeName
  | some name =>
    if (r.attributes.map Prod.fst).contains name then .error .attribute
    else match Reference.expandBytes? value with
      | none => .error .attributeValue
      | some value => .ok { attributes := (name,value) :: r.attributes }

def feed (r : Reading) (b : UInt8) : Except Fault Reading :=
  match r.mode with
  | .between => .ok (if Blank.isMarkupBlank b then r else { r with mode := .key [b] })
  | .key seen =>
    if b = equals then .ok { r with mode := .afterSign seen.reverse }
    else if Blank.isMarkupBlank b then .ok { r with mode := .afterKey seen.reverse }
    else .ok { r with mode := .key (b :: seen) }
  | .afterKey key =>
    if Blank.isMarkupBlank b then .ok r
    else if b = equals then .ok { r with mode := .afterSign key }
    else .error .attribute
  | .afterSign key =>
    if Blank.isMarkupBlank b then .ok r
    else if b = 0x22 || b = 0x27 then .ok { r with mode := .value key b [] }
    else .error .attribute
  | .value key quote seen =>
    if b = quote then r.endValue key seen.reverse else .ok { r with mode := .value key quote (b :: seen) }

def finish (r : Reading) : Except Fault (List (String × String)) :=
  match r.mode with
  | .between => .ok r.attributes.reverse
  | _ => .error .attribute

end Reading

/-- Reads the text of a tag. -/
def read (content : Bytes) : Except Fault Tag :=
  match Utf8.decodeString? (content.takeWhile (! Blank.isMarkupBlank ·)) with
  | none => .error .elementName
  | some name => do
    let r ← (content.dropWhile (! Blank.isMarkupBlank ·)).foldlM Reading.feed {}
    let attributes ← r.finish
    pure { name, attributes }

end Tag
end Xml
end SchemaBinding
