import SchemaBinding.Uri.Segments

/-! Reading a URL from text, alone or relative to a base. Controls and blanks around the text and tabs
and line ends inside it do not count, and a backslash is a slash where the scheme is special. Only the
path of a `file` URL is read with the tabs and line ends in it. -/
namespace SchemaBinding
namespace Url

open Uri

def isTrimmed (c : Char) : Bool := c.toNat ≤ 0x20

def trim (cs : List Char) : List Char :=
  ((cs.dropWhile isTrimmed).reverse.dropWhile isTrimmed).reverse

/-- A scheme in lower case, with the text after its colon. -/
def scheme? (cs : List Char) : Option (String × List Char) :=
  let front := cs.takeWhile fun c => c.isAlphanum || c = '+' || c = '-' || c = '.'
  match cs.head?, cs.drop front.length with
  | some first, ':' :: rest =>
    if first.isAlpha then some (String.ofList (front.map Char.toLower),rest) else none
  | _, _ => none

def endsPath (c : Char) : Bool := c = '?' || c = '#'

/-- The query and the fragment at the end of a URL. -/
def ending (kind : SchemeKind) (cs : List Char) : Option String × Option String :=
  let fragmentOf (cs : List Char) : Option String :=
    match cs with
    | '#' :: rest => some (String.ofList (Percent.encode Percent.inFragment rest))
    | _ => none
  match cs with
  | '?' :: rest =>
    let set := if kind.isSpecial then Percent.inSpecialQuery else Percent.inQuery
    (some (String.ofList (Percent.encode set (rest.takeWhile (· ≠ '#')))),fragmentOf (rest.dropWhile (· ≠ '#')))
  | cs => (none,fragmentOf cs)

/-- Sets the query and the fragment that follow a path. -/
def withEnding (u : Url) (cs : List Char) : Url :=
  { u with query := (ending u.kind cs).1, fragment := (ending u.kind cs).2 }

/-- Sets the path that a text gives below the segments `done`, and what follows it. -/
def withPath (u : Url) (done : List String) (cs : List Char) : Url :=
  { u with path := .segments (Segments.read u.kind done (cs.takeWhile (! endsPath ·))) }.withEnding
    (Segments.withoutBreaks (cs.dropWhile (! endsPath ·)))

def withFragment (u : Url) (cs : List Char) : Url :=
  { u with fragment := (ending u.kind cs).2 }

/-- What stands before the last `@` of an authority, and what stands after it. -/
def splitUser (cs : List Char) : Option (List Char) × List Char :=
  match cs.reverse.dropWhile (· ≠ '@') with
  | _ :: user => (some user.reverse,cs.drop (user.length + 1))
  | [] => (none,cs)

/-- The host of an authority, up to a colon outside brackets. -/
def splitHost (bracket : Bool) : List Char → List Char × List Char
  | [] => ([],[])
  | c :: cs =>
    if c = ':' && !bracket then ([],c :: cs)
    else
      let (host,rest) := splitHost (if c = '[' then true else if c = ']' then false else bracket) cs
      (c :: host,rest)

/-- A port; the one a scheme has anyway is left out. -/
def parsePort (scheme : String) (digits : List Char) : Except Fault (Option Nat) :=
  match digits.foldl (fun n c => n * 10 + (c.toNat - '0'.toNat)) 0 with
  | n => if 65535 < n then .error .invalidPort
    else .ok (if digits.isEmpty || some n = defaultPort? scheme then none else some n)

def endsAuthority (kind : SchemeKind) (c : Char) : Bool := endsPath c || Segments.isSlash kind c

def parseHost (kind : SchemeKind) (cs : List Char) : Except Fault Host :=
  if kind = .special && cs.isEmpty then .error .emptyHost
  else if kind.isSpecial then Host.parseDomain cs
  else Host.parseOther cs

/-- The authority of a URL that is not a `file`; the text holds nothing that ends it, but a backslash
after the port does. Gives the text from there on too. -/
def parseAuthority (scheme : String) (endOfInput : Bool) (cs : List Char) :
    Except Fault (Authority × List Char) := do
  let kind := SchemeKind.of scheme
  let (user?,rest) := splitUser cs
  let user := user?.getD []
  if user? = some [] && rest.isEmpty && !endOfInput then throw .emptyHost
  let username := Percent.encode Percent.inUserInfo (user.takeWhile (· ≠ ':'))
  let password := Percent.encode Percent.inUserInfo ((user.dropWhile (· ≠ ':')).drop 1)
  let (hostText,rest) := splitHost false rest
  let host ← parseHost kind hostText
  if host = .name "" && (!rest.isEmpty || !username.isEmpty || !password.isEmpty) then throw .emptyHost
  let port ← parsePort scheme ((rest.drop 1).takeWhile Char.isDigit)
  let rest := (rest.drop 1).dropWhile Char.isDigit
  if rest.head?.any (· ≠ '\\') then throw .invalidPort
  pure ({ username := String.ofList username, password := String.ofList password, host, port },rest)

/-- What follows the two slashes before an authority. -/
def afterSlashes (scheme : String) (cs : List Char) : Except Fault Url := do
  let kind := SchemeKind.of scheme
  let rest := cs.dropWhile (! endsAuthority kind ·)
  let (authority,left) ← parseAuthority scheme rest.isEmpty (cs.takeWhile (! endsAuthority kind ·))
  let u : Url := { scheme, authority := some authority, path := .segments [] }
  match left ++ rest with
  | [] => pure (if kind.isSpecial then u.withPath [] [] else u)
  | c :: tail =>
    if Segments.isSlash kind c then pure (u.withPath [] tail)
    else if kind.isSpecial || !left.isEmpty then pure (u.withPath [] (left ++ rest))
    else pure (u.withEnding rest)

/-- A `file` URL without a host. -/
def localFile (path : UrlPath) : Url :=
  { scheme := "file", authority := some { host := .name "" }, path }

/-- A `file` URL whose path is read from its beginning. -/
def localFileAt (cs : List Char) : Url := (localFile (.segments [])).withPath [] cs

/-- A `file` URL whose text goes on after two slashes. A host is dropped if the path begins with a
drive letter, and so is `localhost`. -/
def parseFileHost (cs : List Char) : Except Fault Url := do
  let hostText := Segments.withoutBreaks (cs.takeWhile (! endsAuthority .file ·))
  let rest := cs.dropWhile (! endsAuthority .file ·)
  let path := match rest with
    | c :: tail => if Segments.isSlash .file c then tail else rest
    | [] => []
  if Drive.isDrive hostText then return localFileAt cs
  if hostText.isEmpty then return localFileAt path
  let host ← Host.parseDomain hostText
  if host = .name "localhost" then return localFileAt path
  if Segments.meetsDrive [] (Segments.pieces .file (path.takeWhile (! endsPath ·))) then
    return localFileAt path
  return { localFile (.segments []) with authority := some { host } }.withPath [] path

/-- A `file` URL whose text goes on after one slash. It keeps the drive letter of the base, or else
its host, unless it begins with a drive letter itself. -/
def fileFromRoot (base? : Option Url) (cs : List Char) : Url :=
  if Drive.startsWithDrive (Segments.withoutBreaks cs) then localFileAt cs
  else
    match base?, base?.bind segments? with
    | some base, some (first :: _) =>
      if Drive.isNormalDrive first.toList then (localFile (.segments [])).withPath [first] cs
      else { base with authority := base.authority.map fun (a : Authority) => ({ host := a.host } : Authority) }.withPath [] cs
    | _, _ => localFileAt cs

/-- A relative reference below the last segment of a `file` URL; a drive letter there is kept. -/
def besideFile (base : Url) (segments : List String) (cs : List Char) : Url :=
  match segments.getLast? with
  | some last =>
    if Drive.isNormalDrive last.toList then
      if segments.length = 1 then base.withPath segments cs
      else base.withPath segments.dropLast (last.toList ++ cs)
    else base.withPath segments.dropLast cs
  | none => base.withPath [] cs

def withoutFragment (u : Url) : Url := { u with fragment := none }

/-- A `file` URL after its scheme, with the `file` URL it is relative to, if any. -/
def parseFile (base? : Option Url) (cs : List Char) : Except Fault Url :=
  match Segments.skipBreaks cs with
  | c :: rest =>
    if Segments.isSlash .file c then
      match Segments.skipBreaks rest with
      | d :: rest' =>
        if Segments.isSlash .file d then parseFileHost rest' else .ok (fileFromRoot base? rest)
      | [] => .ok (fileFromRoot base? rest)
    else
      match base?, base?.bind segments? with
      | some base, some segments =>
        .ok <|
          if c = '?' then base.withEnding (Segments.withoutBreaks cs)
          else if c = '#' then base.withFragment (Segments.withoutBreaks cs)
          else if Drive.startsWithDrive (Segments.withoutBreaks cs) then localFileAt cs
          else besideFile base segments cs
      | _, _ => .ok (localFileAt cs)
  | [] => .ok ((base?.map withoutFragment).getD (localFileAt []))

/-- A reference without a scheme, relative to a URL that is not a `file`. -/
def parseRelative (base : Url) (segments : List String) (cs : List Char) : Except Fault Url :=
  match cs with
  | [] => .ok base.withoutFragment
  | c :: rest =>
    if c = '?' then .ok (base.withEnding cs)
    else if c = '#' then .ok (base.withFragment cs)
    else if c = '/' || c = '\\' then
      match rest with
      | '/' :: rest' =>
        afterSlashes base.scheme (if c = '/' then rest' else rest'.dropWhile fun c => c = '/' || c = '\\')
      | '\\' :: rest' => afterSlashes base.scheme (rest'.dropWhile fun c => c = '/' || c = '\\')
      | _ => .ok (base.withPath [] rest)
    else .ok (base.withPath segments.dropLast cs)

/-- A URL with a scheme that has no host of its own kind. -/
def parseOther (scheme : String) (cs : List Char) : Except Fault Url :=
  match cs with
  | '/' :: '/' :: rest => afterSlashes scheme rest
  | '/' :: rest => .ok ({ scheme, path := .segments [] : Url }.withPath [] rest)
  | cs =>
    let path := String.ofList (Percent.encode Percent.isControl (cs.takeWhile (! endsPath ·)))
    .ok ({ scheme, path := .flat path : Url }.withEnding (cs.dropWhile (! endsPath ·)))

/-- Reads what follows a scheme; `cs` is the text without tabs and line ends, and `whole` has them. -/
def parseWithScheme (base? : Option Url) (scheme : String) (whole cs : List Char) : Except Fault Url :=
  let same? := base?.filter fun base => base.scheme = scheme
  match SchemeKind.of scheme with
  | .file => parseFile same? whole
  | .other => parseOther scheme cs
  | .special =>
    let rest := cs.dropWhile fun c => c = '/' || c = '\\'
    match same?, same?.bind segments? with
    | some base, some segments =>
      if cs.length < rest.length + 2 then parseRelative base segments cs else afterSlashes scheme rest
    | _, _ => afterSlashes scheme rest

/-- Reads a URL, or a reference relative to `base?`. -/
def parse (base? : Option Url) (text : String) : Except Fault Url :=
  let whole := trim text.toList
  let cs := Segments.withoutBreaks whole
  match scheme? cs with
  | some (scheme,rest) => parseWithScheme base? scheme ((whole.dropWhile (· ≠ ':')).drop 1) rest
  | none =>
    match base? with
    | none => .error .relativeWithoutBase
    | some base =>
      if cs.head? = some '#' then .ok (base.withFragment cs)
      else
        match base.segments? with
        | none => .error .relativeToOpaqueBase
        | some segments => if base.kind = .file then parseFile (some base) whole else parseRelative base segments cs

/-- An absolute URL. -/
def parse? (text : String) : Option Url := (parse none text).toOption

def join (base : Url) (reference : String) : Except Fault Url := parse (some base) reference

end Url
end SchemaBinding
