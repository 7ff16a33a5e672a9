import SchemaBinding.Uri.Host

/-! Absolute URLs by their parts, and their text. -/
namespace SchemaBinding
namespace Uri

/-- How a scheme is read: `file`, one of the other schemes with a host of its own kind, or any other. -/
inductive SchemeKind where
  | file
  | special
  | other
deriving Repr, DecidableEq

def SchemeKind.of (scheme : String) : SchemeKind :=
  if scheme = "file" then .file
  else if ["http","https","ws","wss","ftp"].contains scheme then .special
  else .other

def SchemeKind.isSpecial : SchemeKind → Bool
  | .other => false
  | _ => true

def defaultPort? (scheme : String) : Option Nat :=
  if scheme = "http" || scheme = "ws" then some 80
  else if scheme = "https" || scheme = "wss" then some 443
  else if scheme = "ftp" then some 21
  else none

structure Authority where
  username : String := ""
  password : String := ""
  host : Host
  port : Option Nat := none
deriving Repr, DecidableEq

def Authority.text (a : Authority) : String :=
  let user :=
    if a.username = "" && a.password = "" then ""
    else a.username ++ (if a.password = "" then "" else ":" ++ a.password) ++ "@"
  let port := match a.port with
    | some port => ":" ++ toString port
    | none => ""
  user ++ a.host.text ++ port

/-- What follows the authority: segments, each after a slash, or one text without structure. -/
inductive UrlPath where
  | flat (text : String)
  | segments (segments : List String)
deriving Repr, DecidableEq

end Uri

open Uri in
structure Url where
  scheme : String
  authority : Option Authority := none
  path : UrlPath
  query : Option String := none
  fragment : Option String := none
deriving Repr, DecidableEq

namespace Url

open Uri

def kind (u : Url) : SchemeKind := .of u.scheme

/-- Only a URL whose path has structure can be the base of a relative reference. -/
def segments? (u : Url) : Option (List String) :=
  match u.path with
  | .segments segments => some segments
  | .flat _ => none

def pathText (u : Url) : String :=
  match u.path with
  | .flat text => text
  | .segments segments => String.join (segments.map ("/" ++ ·))

/-- Without an authority, a path that begins with two slashes stands after `/.`. -/
def text (u : Url) : String :=
  let authority := match u.authority, u.path with
    | some a, _ => "//" ++ a.text
    | none, .segments ("" :: _ :: _) => "/."
    | none, _ => ""
  u.scheme ++ ":" ++ authority ++ u.pathText ++
    ((u.query.map ("?" ++ ·)).getD "") ++ ((u.fragment.map ("#" ++ ·)).getD "")

end Url
end SchemaBinding
