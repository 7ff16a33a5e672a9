import SchemaBinding.Text.Blank
import SchemaBinding.Text.Utf8

/-! The pieces of a document: tags, character data and character data sections. Comments, instructions
and type declarations are passed over. The scan takes one byte at a time and never looks back. -/
namespace SchemaBinding
namespace Xml

inductive Token where
  /-- The text of a start tag, between the angle brackets. -/
  | openTag (content : Bytes)
  /-- The text of a tag that closes itself, without its slash. -/
  | emptyTag (content : Bytes)
  | closeTag (name : Bytes)
  /-- Character data without the blanks around it; never empty. -/
  | data (content : Bytes)
  | section (content : Bytes)
  /-- Markup that cannot be read; nothing follows it. -/
  | malformed
deriving Repr, DecidableEq

namespace Token

/-- Where the scan is. Bytes seen since the last token are kept newest first. -/
inductive Mode where
  | content (seen : Bytes)
  /-- After `<`. -/
  | opened
  | tag (quote : Option UInt8) (seen : Bytes)
  | closing (seen : Bytes)
  | instruction (seen : Bytes)
  /-- After `<!`. -/
  | declaration
  | comment (seen : Bytes)
  | charSection (seen : Bytes)
  | docType (depth : Nat) (seen : Bytes)
  | stopped
deriving Repr, DecidableEq

structure Scan where
  /-- Newest first. -/
  tokens : List Token := []
  mode : Mode := .content []
deriving Repr, DecidableEq

def lessThan : UInt8 := 0x3C
def greaterThan : UInt8 := 0x3E
def slash : UInt8 := 0x2F
def exclamation : UInt8 := 0x21
def question : UInt8 := 0x3F
def hyphen : UInt8 := 0x2D
def bracketOpen : UInt8 := 0x5B
def bracketClose : UInt8 := 0x5D
def quotes : List UInt8 := [0x22,0x27]

def upper (b : UInt8) : UInt8 := if 0x61 ≤ b && b ≤ 0x7A then b - 0x20 else b

/-- Whether bytes begin with an ASCII word, in any case. -/
def beginsWith (word : String) (bytes : Bytes) : Bool :=
  (Utf8.encodeString word).isPrefixOf (bytes.map upper)

namespace Scan

def fail (s : Scan) : Scan := { tokens := .malformed :: s.tokens, mode := .stopped }

def emit (s : Scan) (t : Token) : Scan := { tokens := t :: s.tokens, mode := .content [] }

/-- Ends character data; blanks alone are no token. -/
def endContent (s : Scan) (seen : Bytes) (mode : Mode) : Scan :=
  match seen.dropWhile Blank.isMarkupBlank with
  | [] => { s with mode }
  | kept => { tokens := .data kept.reverse :: s.tokens, mode }

def endTag (s : Scan) (seen : Bytes) : Scan :=
  match seen with
  | b :: rest => if b = slash then s.emit (.emptyTag rest.reverse) else s.emit (.openTag seen.reverse)
  | [] => s.emit (.openTag [])

/-- Blanks after the name in an end tag do not count, unless there is nothing else. -/
def endClosing (s : Scan) (seen : Bytes) : Scan :=
  match seen.dropWhile Blank.isMarkupBlank with
  | [] => s.emit (.closeTag seen.reverse)
  | kept => s.emit (.closeTag kept.reverse)

/-- An instruction ends in a question mark of its own and has a byte besides. -/
def endInstruction (s : Scan) (seen : Bytes) : Scan :=
  match seen with
  | b :: _ :: _ => if b = question then { s with mode := .content [] } else s.fail
  | _ => s.fail

def feedTag (s : Scan) (quote : Option UInt8) (seen : Bytes) (b : UInt8) : Scan :=
  match quote with
  | some q => { s with mode := .tag (if b = q then none else quote) (b :: seen) }
  | none =>
    if b = greaterThan then s.endTag seen
    else { s with mode := .tag (if quotes.contains b then some b else none) (b :: seen) }

def feedDeclaration (s : Scan) (b : UInt8) : Scan :=
  if b = bracketOpen then { s with mode := .charSection [b] }
  else if b = hyphen then { s with mode := .comment [b] }
  else if upper b = 0x44 then { s with mode := .docType 0 [b] }
  else s.fail

/-- A comment is closed by two hyphens that are not those of its beginning. -/
def feedComment (s : Scan) (seen : Bytes) (b : UInt8) : Scan :=
  if b = greaterThan && 4 ≤ seen.length && [hyphen,hyphen].isPrefixOf seen then
    if [hyphen,hyphen].isPrefixOf seen.reverse then { s with mode := .content [] } else s.fail
  else { s with mode := .comment (b :: seen) }

def feedCharSection (s : Scan) (seen : Bytes) (b : UInt8) : Scan :=
  if b = greaterThan && [bracketClose,bracketClose].isPrefixOf seen then
    let content := (seen.drop 2).reverse
    if beginsWith "[CDATA[" content then s.emit (.section (content.drop 7)) else s.fail
  else { s with mode := .charSection (b :: seen) }

/-- A type declaration ends where its angle brackets are balanced, and says something. -/
def feedDocType (s : Scan) (depth : Nat) (seen : Bytes) (b : UInt8) : Scan :=
  if b = lessThan then { s with mode := .docType (depth + 1) (b :: seen) }
  else if b = greaterThan then
    match depth with
    | depth + 1 => { s with mode := .docType depth (b :: seen) }
    | 0 =>
      if beginsWith "DOCTYPE" seen.reverse && !(seen.reverse.drop 7).all Blank.isMarkupBlank then
        { s with mode := .content [] }
      else s.fail
  else { s with mode := .docType depth (b :: seen) }

def feed (s : Scan) (b : UInt8) : Scan :=
  match s.mode with
  | .content seen =>
    if b = lessThan then s.endContent seen .opened
    else if seen.isEmpty && Blank.isMarkupBlank b then s
    else { s with mode := .content (b :: seen) }
  | .opened =>
    if b = exclamation then { s with mode := .declaration }
    else if b = slash then { s with mode := .closing [] }
    else if b = question then { s with mode := .instruction [] }
    else s.feedTag none [] b
  | .tag quote seen => s.feedTag quote seen b
  | .closing seen => if b = greaterThan then s.endClosing seen else { s with mode := .closing (b :: seen) }
  | .instruction seen =>
    if b = greaterThan then s.endInstruction seen else { s with mode := .instruction (b :: seen) }
  | .declaration => s.feedDeclaration b
  | .comment seen => s.feedComment seen b
  | .charSection seen => s.feedCharSection seen b
  | .docType depth seen => s.feedDocType depth seen b
  | .stopped => s

/-- The end of the input closes a tag, an end tag and an instruction; the other markup has to be closed. -/
def finish (s : Scan) : List Token :=
  let last : Scan := match s.mode with
    | .content seen => s.endContent seen (.content [])
    | .tag _ seen => s.endTag seen
    | .closing seen => s.endClosing seen
    | .instruction seen => s.endInstruction seen
    | .declaration | .comment _ | .charSection _ | .docType _ _ => s.fail
    | .opened | .stopped => s
  last.tokens.reverse

end Scan

def tokens (bytes : Bytes) : List Token := (bytes.foldl Scan.feed {}).finish

end Token
end Xml
end SchemaBinding
