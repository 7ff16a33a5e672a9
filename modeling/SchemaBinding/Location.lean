import SchemaBinding.Disk
import SchemaBinding.Uri.File

/-! Where a document is: a URL, a file path, or an identifier that neither names. References found in
documents become canonical URIs here. -/
namespace SchemaBinding

inductive Location where
  | url (url : Url)
  | path (path : Path)
  | identifier (text : String)
deriving Repr, DecidableEq

namespace Location

/-- A URL with a scheme of one letter is taken for a path with a drive letter. A text that is no URL is
a path if it leads somewhere or begins with a slash or a dot. -/
def classify (disk : Disk) (text : String) : Location :=
  match (Url.parse? text).filter fun u => 1 < u.scheme.length with
  | some u => .url u
  | none =>
    if disk.fileExists ⟨text⟩ || text.toList.head? = some '/' || text.toList.head? = some '.' then .path ⟨text⟩
    else .identifier text

/-- The `file` URI of a path. An existing path is freed of its detours first; any other is only put below
the working directory. -/
def uriOfPath (disk : Disk) (p : Path) : Except Failure String :=
  let absolute := (disk.canonical? p).getD (disk.absolute p)
  match Url.ofPath? absolute with
  | some u => .ok u.text
  | none => .error (.resource (.noUriForPath absolute.text))

def uri (disk : Disk) : Location → Except Failure String
  | .url u => .ok u.text
  | .path p => uriOfPath disk p
  | .identifier text => .ok text

def isRemote : Location → Bool
  | .url u => u.scheme ≠ "file"
  | _ => false

def isFile : Location → Bool
  | .url u => u.scheme = "file"
  | .path _ => true
  | .identifier _ => false

/-- The last segment of a URI that ends in slashes or not. -/
def fileName (uri : String) : String :=
  let cs := uri.toList.reverse.dropWhile (· = '/')
  String.ofList (cs.takeWhile (· ≠ '/')).reverse

/-- The canonical URI of a reference found in the document at `base?`. A URL stands for itself. Any other
reference is relative to the base, or to the working directory if there is none. -/
def resolve (disk : Disk) (base? : Option String) (reference : String) : Except Failure String :=
  match classify disk reference with
  | .url u => .ok u.text
  | _ =>
    match base? with
    | none => uriOfPath disk ⟨reference⟩
    | some base =>
      match Url.parse? base with
      | some baseUrl => (Url.join baseUrl reference).mapError Failure.url |>.map Url.text
      | none => uriOfPath disk (((Path.mk base).parent?.getD ⟨""⟩) / ⟨reference⟩)

/-- The URIs of the entry points a source names: the schema files directly in a directory, in order of
their names, a file, or whatever the text says. A directory is no source of service definitions. -/
def entryPoints (disk : Disk) (source : String) (service : Bool) : Except Failure (List String) :=
  match disk.locate? ⟨source⟩ with
  | some here =>
    if disk.isDirectoryAt here then
      if service then .error (.config .serviceDirectory)
      else
        let names := (disk.fileNames here).filter fun name => (Path.splitExtension name).2 = some "xsd"
        names.mapM fun name => uriOfPath disk (Path.mk source / ⟨name⟩)
    else (uriOfPath disk ⟨source⟩).map fun uri => [uri]
  | none => ((classify disk source).uri disk).map fun uri => [uri]

end Location
end SchemaBinding
