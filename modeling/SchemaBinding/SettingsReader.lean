import SchemaBinding.Settings
import SchemaBinding.Toml.Parser

/-! Settings read from a document of tables. A key that is not a setting is an error; a key that is not a
limit is none, among limits. -/
namespace SchemaBinding

namespace Toml.Value

def text? : Value → Option String
  | .text value => some value
  | _ => none

def flag? : Value → Option Bool
  | .flag value => some value
  | _ => none

def natural? : Value → Option Nat
  | .integer value => if 0 ≤ value then some value.toNat else none
  | _ => none

end Toml.Value

namespace Limits
open Toml (Value)

def take (l : Limits) (key : String) (value : Value) : Option Limits :=
  match key with
  | "max_document_size" => value.natural?.map fun n => { l with maxDocumentSize := n }
  | "max_include_depth" => value.natural?.map fun n => { l with maxIncludeDepth := n }
  | _ => some l

/-- Limits by name, or the size and then the depth in a list. A moment has none of the names. -/
def ofValue? : Value → Option Limits
  | .table _ entries => entries.foldlM (fun l e => l.take e.1 e.2) {}
  | .list [] => some {}
  | .list [size] => take {} "max_document_size" size
  | .list (size :: depth :: _) => (take {} "max_document_size" size).bind fun l => l.take "max_include_depth" depth
  | .moment => some {}
  | _ => none

end Limits

namespace Settings
open Toml (Value)

def take (s : Settings) (key : String) (value : Value) : Option Settings :=
  match key with
  | "package" => value.text?.map fun text => { s with package := text }
  | "output" => value.text?.map fun text => { s with output := text }
  | "print" => value.flag?.map fun flag => { s with print := flag }
  | "wsdl" => value.flag?.map fun flag => { s with service := flag }
  | "output_dir" => value.text?.map fun text => { s with outputDirectory := ⟨text⟩ }
  | "common_schema_dir" => value.text?.map fun text => { s with commonDirectory := some ⟨text⟩ }
  | "catalog" => value.text?.map fun text => { s with catalog := some ⟨text⟩ }
  | "limits" => (Limits.ofValue? value).map fun limits => { s with limits }
  | _ => none

def ofText (text : String) : Except Failure Settings :=
  match (Toml.parse? text).bind fun entries => entries.foldlM (fun s e => s.take e.1 e.2) {} with
  | some s => .ok s
  | none => .error .toml

def ofFile (disk : Disk) (path : Path) : Except Failure Settings :=
  match disk.readText path with
  | .error fault => .error (.config (.unreadableFile path.text fault))
  | .ok text => ofText text

end Settings
end SchemaBinding
