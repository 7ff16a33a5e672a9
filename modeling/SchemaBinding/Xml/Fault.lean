/-! What can be wrong with a document as markup. -/
namespace SchemaBinding
namespace Xml

inductive Fault where
  /-- Markup that is not closed or not known, or an end tag that does not match. -/
  | markup
  /-- Character data with ill-formed bytes or an unknown reference. -/
  | text
  | elementName
  /-- An attribute without a quoted value, or given twice. -/
  | attribute
  | attributeName
  | attributeValue
  /-- An element that is still open at the end. -/
  | unclosed
deriving Repr, DecidableEq

def Fault.message : Fault → String
  | .markup => "Error parsing XML at position"
  | .text => "Failed to unescape text"
  | .elementName => "Invalid element name"
  | .attribute => "Failed to parse attribute"
  | .attributeName => "Invalid attribute name"
  | .attributeValue => "Failed to unescape attribute value"
  | .unclosed => "Unexpected end of document"

end Xml
end SchemaBinding
