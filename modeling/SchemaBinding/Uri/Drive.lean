/-! Drive letters: a letter and a colon or bar, which `file` paths and shortened paths treat apart. -/
namespace SchemaBinding
namespace Uri
namespace Drive

def isDrive : List Char → Bool
  | [a,b] => a.isAlpha && (b = ':' || b = '|')
  | _ => false

def isNormalDrive : List Char → Bool
  | [a,b] => a.isAlpha && b = ':'
  | _ => false

/-- Whether a text begins with a drive letter that ends a segment. -/
def startsWithDrive : List Char → Bool
  | a :: b :: rest =>
    a.isAlpha && (b = ':' || b = '|') &&
      (match rest with
        | [] => true
        | c :: _ => c = '/' || c = '\\' || c = '?' || c = '#')
  | _ => false

end Drive
end Uri
end SchemaBinding
