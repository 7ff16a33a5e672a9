import SchemaBinding.Path
import SchemaBinding.Uri.Parser

/-! File paths as `file` URLs and back. -/
namespace SchemaBinding
namespace Url

open Uri

/-- The URL of an absolute path; components `..` stay. -/
def ofPath? (p : Path) : Option Url :=
  if p.isAbsolute then
    let names := p.components.tail.map fun c => String.ofList (Percent.encode Percent.inFileName c.text.toList)
    some (localFile (.segments (if names.isEmpty then [""] else names)))
  else none

/-- A path that ends in a letter and a colon or bar is taken for a drive, which ends in a slash. -/
def closeDrive (bytes : Bytes) : Bytes :=
  match bytes.reverse with
  | b :: a :: _ :: _ =>
    if (Char.ofNat a.toNat).isAlpha && a < 0x80 && (b = 0x3A || b = 0x7C) then bytes ++ [0x2F] else bytes
  | _ => bytes

/-- The path that a `file` URL without a host stands for. -/
def filePath? (u : Url) : Option Bytes :=
  match u.segments? with
  | some (first :: rest) =>
    if (u.authority.map Authority.host).all (· = .name "") then
      some (closeDrive ((first :: rest).flatMap fun s => 0x2F :: Percent.decode s.toList))
    else none
  | _ => none

end Url
end SchemaBinding
