/-! The words of a name and the identifiers made of them. One pass from left to right sets a blank
between a lower-case letter or digit and an upper-case letter, and before the last letter of a run of
upper-case letters that a lower-case letter follows. The characters of a boundary found are used up, so
boundaries never overlap. -/
namespace SchemaBinding
namespace Words

/-- Letters and digits here are the ASCII ones; every other character separates words. -/
def isWordChar (c : Char) : Bool := c.isAlphanum

/-- The first boundary at the front of `cs`, as the text to write with its blank and the text left. -/
def boundary? (cs : List Char) : Option (List Char × List Char) :=
  match cs with
  | a :: b :: rest =>
    if (a.isLower || a.isDigit) && b.isUpper then some ([a,' ',b],rest)
    else
      let run := cs.takeWhile Char.isUpper
      match run.reverse, cs.dropWhile Char.isUpper with
      | last :: before@(_ :: _), next :: after =>
        if next.isLower then some (before.reverse ++ [' ',last,next],after) else none
      | _, _ => none
  | _ => none

/-- Blanks are set with at most `steps` characters or boundaries passed; the length of the text is enough. -/
def spaceOut : Nat → List Char → List Char
  | 0, cs => cs
  | _, [] => []
  | steps + 1, c :: cs =>
    match boundary? (c :: cs) with
    | some (found,rest) => found ++ spaceOut steps rest
    | none => c :: spaceOut steps cs

def words (name : String) : List (List Char) :=
  let cs := name.toList
  ((spaceOut cs.length cs).splitOnP (! isWordChar ·)).filter (! ·.isEmpty)

/-- An identifier is not empty and does not begin with a digit. -/
def guardFirst : List Char → String
  | [] => "_"
  | c :: cs => if c.isDigit then String.ofList ('_' :: c :: cs) else String.ofList (c :: cs)

def capitalize : List Char → List Char
  | [] => []
  | c :: cs => c.toUpper :: cs.map Char.toLower

/-- Each word with a capital first letter, joined: the form of class names. -/
def pascalCase (name : String) : String :=
  guardFirst ((words name).flatMap capitalize)

/-- The words in lower case, joined by underscores: the form of field names. -/
def snakeCase (name : String) : String :=
  guardFirst (['_'].intercalate ((words name).map (·.map Char.toLower)))

def upperCase (name : String) : String :=
  String.ofList (name.toList.map Char.toUpper)

end Words
end SchemaBinding
