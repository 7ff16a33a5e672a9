import SchemaBinding.Uri.Domain.Composition
import SchemaBinding.Uri.Domain.Direction
import SchemaBinding.Uri.Domain.Joiner
import SchemaBinding.Uri.Domain.Mapping
import SchemaBinding.Uri.Domain.Punycode

/-! The labels of a domain name. Its characters are written in one way and composed before it is taken apart. A label of
text beyond ASCII goes into the name in letters and digits, after `xn--`, and a label that begins so stands for such a
text. -/
namespace SchemaBinding
namespace Uri
namespace Domain

/-- The form in which names are the same if they differ only in how they are written. ASCII is composed already. -/
def normal (text : List Char) : List Char :=
  let mapped := Mapping.mapped text
  if mapped.all isAscii then mapped else Composition.compose mapped

/-- A label has at most so many characters, and is not read if it is encoded in more than twice as many. -/
def maxLength : Nat := 1000

/-- Whether a text beyond ASCII may be a label. -/
def isLabelText (text : List Char) : Bool :=
  text.length ≤ maxLength && text.all isPermitted && !text.head?.any isMark && Composition.isComposed text &&
    Joiner.areInPlace [] text

/-- The text that a label stands for. -/
def labelText? (label : List Char) : Option (List Char) :=
  match label with
  | 'x' :: 'n' :: '-' :: '-' :: code =>
    if !code.all isAscii || code.isEmpty || code.getLast? = some '-' || 2 * maxLength < code.length then none
    else (Punycode.decode? code).filter isLabelText
  | _ => if label.all isAscii || isLabelText label then some label else none

/-- A label in ASCII. -/
def written (label : List Char) : List Char :=
  if label.all isAscii then label else ['x','n','-','-'] ++ Punycode.encode label

/-- A domain name in ASCII, if every label stands for a text, and all of them keep their direction where it matters. -/
def inAscii? (domain : List Char) : Option (List Char) :=
  let labels := domain.splitOn '.'
  match labels.mapM labelText? with
  | none => none
  | some texts =>
    if texts.any (·.any Direction.runsLeft) && !texts.all Direction.isKept then none
    else some (['.'].intercalate (labels.map written))

end Domain
end Uri
end SchemaBinding
