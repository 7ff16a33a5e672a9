import SchemaBinding.Limits
import SchemaBinding.Location
import SchemaBinding.Text.Blank

/-! The settings of a run. -/
namespace SchemaBinding

structure Settings where
  /-- The package that all classes are in or below. -/
  package : String := "generated"
  /-- The name of the output format. -/
  output : String := "json"
  /-- Whether modules are printed instead of written. -/
  print : Bool := false
  /-- Whether the source is a document of service definitions. -/
  service : Bool := false
  outputDirectory : Path := ⟨"."⟩
  /-- The directory of schemas that share one package, wherever the others are. -/
  commonDirectory : Option Path := none
  catalog : Option Path := none
  limits : Limits := {}
deriving Repr, DecidableEq, Inhabited

namespace Settings

def validate (s : Settings) : Except Failure Unit :=
  if Blank.trim s.package = "" then .error (.config .emptyPackage)
  else if (s.package.toList.splitOn '.').any List.isEmpty then .error (.config (.invalidPackage s.package))
  else if s.output = "" then .error (.config .emptyOutput)
  else .ok ()

/-- The beginning of the URIs of all documents in the common directory. -/
def commonUri (disk : Disk) (s : Settings) : Except Failure (Option String) :=
  match s.commonDirectory with
  | none => .ok none
  | some directory =>
    (Location.uriOfPath disk directory).map fun uri =>
      some (if uri.toList.getLast? = some '/' then uri else uri ++ "/")

end Settings
end SchemaBinding
