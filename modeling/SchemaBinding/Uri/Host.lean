import SchemaBinding.Uri.Domain.Label
import SchemaBinding.Uri.Fault
import SchemaBinding.Uri.Percent

/-! The host of a URL: an address of version 4 or 6, or a name. Hosts of special schemes are domains
in ASCII, and a domain whose last label is a number has to be an address. -/
namespace SchemaBinding
namespace Uri

inductive Host where
  | name (text : String)
  | ipv4 (address : Nat)
  | ipv6 (pieces : List Nat)
deriving Repr, DecidableEq

namespace Host

def digitValue? (base : Nat) (c : Char) : Option Nat :=
  (Percent.hexValue? c).filter (· < base)

def valueOf? (base : Nat) (cs : List Char) : Option Nat :=
  cs.foldlM (fun n c => (digitValue? base c).map (n * base + ·)) 0

/-- One part of an address of version 4: decimal, octal after `0`, or hexadecimal after `0x`. -/
def ipv4Number? (cs : List Char) : Option Nat :=
  match cs with
  | [] => none
  | '0' :: 'x' :: cs | '0' :: 'X' :: cs => valueOf? 16 cs
  | '0' :: c :: cs => valueOf? 8 (c :: cs)
  | cs => valueOf? 10 cs

/-- Whether the last label, not counting an empty one at the end, is a number. -/
def endsInNumber (domain : List Char) : Bool :=
  let labels := (domain.splitOn '.').reverse
  let last? := match labels with
    | [] :: rest => rest.head?
    | _ => labels.head?
  match last? with
  | none => false
  | some last => (!last.isEmpty && last.all Char.isDigit) || (ipv4Number? last).isSome

/-- The last part fills the bytes that the others leave. -/
def parseIpv4 (domain : List Char) : Except Fault Host := do
  let parts := domain.splitOn '.'
  let parts := if parts.getLast? = some [] then parts.dropLast else parts
  if 4 < parts.length then throw .invalidIpv4
  let some numbers := parts.mapM ipv4Number? | throw .invalidIpv4
  let some last := numbers.getLast? | throw .invalidIpv4
  let others := numbers.dropLast
  let room := Nat.pow 256 (4 - others.length)
  if room ≤ last || others.any (255 < ·) then throw .invalidIpv4
  pure (.ipv4 (others.foldl (fun address n => address * 256 + n) 0 * room + last))

/-- A part of up to four hex digits, and the text after it. -/
def hexPiece (cs : List Char) : Nat × Nat × List Char :=
  let digits := (cs.take 4).takeWhile fun c => (Percent.hexValue? c).isSome
  ((valueOf? 16 digits).getD 0,digits.length,cs.drop digits.length)

/-- Four decimal bytes without leading zeros at the end of an address of version 6. -/
def embeddedIpv4? (cs : List Char) : Option (Nat × Nat) := do
  let parts := cs.splitOn '.'
  guard (parts.length = 4 && parts.all fun p => !p.isEmpty && p.all Char.isDigit && (p.length = 1 || p.head? ≠ some '0'))
  match ← parts.mapM (valueOf? 10) with
  | [a,b,c,d] =>
    guard (a < 256 && b < 256 && c < 256 && d < 256)
    pure (a * 256 + b,c * 256 + d)
  | _ => none

/-- Reads the pieces of an address of version 6 from where a piece may begin. `gap` is the number of
pieces before the double colon, once it has been read; `room` is the number of pieces still missing. -/
def ipv6Pieces? : (room : Nat) → (pieces : List Nat) → (gap : Option Nat) → List Char → Option (List Nat × Option Nat)
  | _, pieces, gap, [] => some (pieces,gap)
  | 0, _, _, _ => none
  | room + 1, pieces, gap, ':' :: rest =>
    if gap.isSome then none else ipv6Pieces? room pieces (some pieces.length) rest
  | room + 1, pieces, gap, cs =>
    match hexPiece cs with
    | (_,0,_) => none
    | (value,_,[]) => some (pieces ++ [value],gap)
    | (value,_,':' :: rest) => if rest.isEmpty then none else ipv6Pieces? room (pieces ++ [value]) gap rest
    | (_,_,'.' :: _) => if room = 0 then none else (embeddedIpv4? cs).map fun (a,b) => (pieces ++ [a,b],gap)
    | _ => none

def parseIpv6 (cs : List Char) : Except Fault Host :=
  let read := match cs with
    | ':' :: ':' :: rest => ipv6Pieces? 7 [] (some 0) rest
    | ':' :: _ => none
    | [] => none
    | _ => ipv6Pieces? 8 [] none cs
  match read with
  | some (pieces,none) => if pieces.length = 8 then .ok (.ipv6 pieces) else .error .invalidIpv6
  | some (pieces,some gap) =>
    if 8 ≤ pieces.length then .error .invalidIpv6
    else .ok (.ipv6 (pieces.take gap ++ List.replicate (8 - pieces.length) 0 ++ pieces.drop gap))
  | none => .error .invalidIpv6

def forbidden : List Char :=
  ['\x00','\t','\n','\r',' ','#','/',':','<','>','?','@','[','\\',']','^','|']

/-- Forbidden in domains: besides what is forbidden in any host, controls and the percent sign. -/
def isForbiddenInDomain (c : Char) : Bool :=
  Domain.isAscii c && Percent.isControl c || c = '%' || forbidden.contains c

def bracketed? (cs : List Char) : Option (Except Fault Host) :=
  match cs with
  | '[' :: rest => some <| if rest.getLast? = some ']' then parseIpv6 rest.dropLast else .error .invalidIpv6
  | _ => none

/-- The host of a URL with a special scheme. -/
def parseDomain (cs : List Char) : Except Fault Host :=
  (bracketed? cs).getD <| do
    let some decoded := Utf8.decode? (Percent.decode cs) | throw .invalidDomainName
    let normal := Domain.normal decoded
    if normal.any isForbiddenInDomain then throw .invalidDomainName
    let some domain := Domain.inAscii? normal | throw .invalidDomainName
    if domain.isEmpty then throw .emptyHost
    if endsInNumber domain then parseIpv4 domain else pure (.name (String.ofList domain))

/-- The host of any other URL, kept as written. -/
def parseOther (cs : List Char) : Except Fault Host :=
  (bracketed? cs).getD <|
    if cs.any forbidden.contains then .error .invalidHostCharacter
    else .ok (.name (String.ofList (Percent.encode Percent.isControl cs)))

/-- The first of the longest runs of at least two zeros, as its place and length. -/
def zeroRun (pieces : List Nat) : Nat × Nat :=
  (List.range 8).foldl (fun best i =>
    let run := ((pieces.drop i).takeWhile (· = 0)).length
    if 1 < run && best.2 < run then (i,run) else best) (0,0)

def hexText (n : Nat) : String := String.ofList (Nat.toDigits 16 n)

def text : Host → String
  | .name text => text
  | .ipv4 a =>
    ".".intercalate ([a / 16777216,a / 65536 % 256,a / 256 % 256,a % 256].map toString)
  | .ipv6 pieces =>
    let colons (ps : List Nat) := ":".intercalate (ps.map hexText)
    match zeroRun pieces with
    | (_,0) => "[" ++ colons pieces ++ "]"
    | (i,n) => "[" ++ colons (pieces.take i) ++ "::" ++ colons (pieces.drop (i + n)) ++ "]"

end Host
end Uri
end SchemaBinding
