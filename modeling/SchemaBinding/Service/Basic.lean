import SchemaBinding.Schema.Basic
import SchemaBinding.Xml.Element

/-! Service definitions as data: the messages, port types, bindings and services of a document, its schemas,
and what of it is bound to a transport. Elements of other vocabularies are kept as they are. -/
namespace SchemaBinding
open Xml (Element)

inductive BindingStyle where
  | document
  | rpc
deriving Repr, DecidableEq, Inhabited

namespace BindingStyle

def name : BindingStyle → String
  | .document => "document"
  | .rpc => "rpc"

def ofName? : String → Option BindingStyle
  | "document" => some .document
  | "rpc" => some .rpc
  | _ => none

end BindingStyle

inductive Use where
  | literal
  | encoded
deriving Repr, DecidableEq, Inhabited

namespace Use

def name : Use → String
  | .literal => "literal"
  | .encoded => "encoded"

def ofName? : String → Option Use
  | "literal" => some .literal
  | "encoded" => some .encoded
  | _ => none

end Use

namespace Soap

structure Binding where
  style : BindingStyle := .document
  transport : Option String := none
deriving Repr, DecidableEq, Inhabited

structure Operation where
  action : Option String := none
  style : BindingStyle := .document
  transport : Option String := none
  actionRequired : Bool := true
deriving Repr, DecidableEq, Inhabited

structure Body where
  use : Use := .literal
  parts : Option String := none
  space : Option String := none
  encodingStyle : Option String := none
deriving Repr, DecidableEq, Inhabited

structure HeaderFault where
  use : Use := .literal
  name : Option String := none
  part : Option String := none
  space : Option String := none
  encodingStyle : Option String := none
deriving Repr, DecidableEq, Inhabited

structure Header where
  use : Use := .literal
  part : Option String := none
  message : Option String := none
  space : Option String := none
  encodingStyle : Option String := none
  faults : List HeaderFault := []
deriving Repr, DecidableEq, Inhabited

structure Fault where
  use : Use := .literal
  name : Option String := none
  space : Option String := none
  encodingStyle : Option String := none
deriving Repr, DecidableEq, Inhabited

structure Address where
  location : Option String := none
deriving Repr, DecidableEq, Inhabited

end Soap

structure Import where
  /-- The URI of the other document, if the import leads anywhere. -/
  location : Option String := none
  /-- The location as it is written. -/
  written : Option String := none
  space : Option String := none
deriving Repr, DecidableEq, Inhabited

structure MessagePart where
  name : Option String := none
  type : Option String := none
  element : Option String := none
deriving Repr, DecidableEq, Inhabited

structure Message where
  name : Option String := none
  parts : List MessagePart := []
deriving Repr, DecidableEq, Inhabited

namespace PortType

structure Message where
  name : Option String := none
  message : Option String := none
deriving Repr, DecidableEq, Inhabited

structure Operation where
  name : Option String := none
  input : Option Message := none
  output : Option Message := none
  faults : List Message := []
deriving Repr, DecidableEq, Inhabited

end PortType

structure PortType where
  name : Option String := none
  operations : List PortType.Operation := []
  extensions : List Element := []
deriving Inhabited

namespace Binding

structure Message where
  name : Option String := none
  body : Option Soap.Body := none
  headers : List Soap.Header := []
  fault : Option Soap.Fault := none
  extensions : List Element := []
deriving Inhabited

structure Operation where
  name : Option String := none
  input : Option Message := none
  output : Option Message := none
  faults : List Message := []
  soap : Option Soap.Operation := none
  extensions : List Element := []
deriving Inhabited

end Binding

structure Binding where
  name : Option String := none
  type : Option String := none
  operations : List Binding.Operation := []
  soap : Option Soap.Binding := none
  extensions : List Element := []
deriving Inhabited

structure Port where
  name : Option String := none
  binding : Option String := none
  address : Option Soap.Address := none
  extensions : List Element := []
deriving Inhabited

structure Service where
  name : Option String := none
  ports : List Port := []
deriving Inhabited

structure Definitions where
  location : Option String := none
  name : Option String := none
  targetNamespace : Option String := none
  /-- The schemas of the types; none if there are no types. -/
  types : Option (List Schema) := none
  imports : List Import := []
  messages : List Message := []
  portTypes : List PortType := []
  bindings : List Binding := []
  services : List Service := []
  extensions : List Element := []
deriving Inhabited

namespace Definitions

def schemas (d : Definitions) : List Schema := d.types.getD []

def mergeTypes : Option (List Schema) → Option (List Schema) → Option (List Schema)
  | own, none => own
  | own, some schemas => some (own.getD [] ++ schemas)

/-- Takes in what other definitions declare. The names and imports stay those of `d`. -/
def merge (d source : Definitions) : Definitions :=
  { d with
    types := mergeTypes d.types source.types
    messages := d.messages ++ source.messages
    portTypes := d.portTypes ++ source.portTypes
    bindings := d.bindings ++ source.bindings
    services := d.services ++ source.services
    extensions := d.extensions ++ source.extensions }

end Definitions
end SchemaBinding
