import SchemaBinding.Schema.Reader
import SchemaBinding.Service.Basic

/-! Service definitions read from elements. The vocabulary of an element decides what it is to be read as,
so the same local name in another vocabulary is an extension and nothing else. -/
namespace SchemaBinding
namespace Xml
namespace Element

/-! ## Vocabularies -/

def isService (e : Element) : Bool := e.namespace? = some Namespace.service

def isSoap (e : Element) : Bool :=
  e.namespace? = some Namespace.soap || e.namespace? = some Namespace.soap12

def serviceChildren (e : Element) (name : String) : List Element :=
  e.children.filter fun c => c.name = name && c.isService

def serviceChild? (e : Element) (name : String) : Option Element := (e.serviceChildren name).head?

/-- The children outside the service vocabulary. -/
def extensions (e : Element) : List Element := e.children.filter (! ·.isService)

def soapAmong (es : List Element) (name : String) : List Element :=
  es.filter fun e => e.name = name && e.isSoap

def soapExtensions (e : Element) (name : String) : List Element := soapAmong e.extensions name

def soapExtension? (e : Element) (name : String) : Option Element := (e.soapExtensions name).head?

/-! ## Transport bindings -/

def bindingStyle (e : Element) : BindingStyle :=
  ((e.attribute? "style").bind BindingStyle.ofName?).getD .document

def use (e : Element) : Use := ((e.attribute? "use").bind Use.ofName?).getD .literal

def soapBinding (e : Element) : Soap.Binding where
  style := e.bindingStyle
  transport := e.attribute? "transport"

def soapOperation (e : Element) : Soap.Operation where
  action := e.attribute? "soapAction"
  style := e.bindingStyle
  transport := e.attribute? "transport"
  actionRequired :=
    e.attribute? "soapActionRequired" ≠ some "false" && e.attribute? "soapActionRequired" ≠ some "0"

def soapBody (e : Element) : Soap.Body where
  use := e.use
  parts := e.attribute? "parts"
  space := e.attribute? "namespace"
  encodingStyle := e.attribute? "encodingStyle"

def soapHeaderFault (e : Element) : Soap.HeaderFault where
  use := e.use
  name := e.attribute? "name"
  part := e.attribute? "part"
  space := e.attribute? "namespace"
  encodingStyle := e.attribute? "encodingStyle"

def soapHeader (e : Element) : Soap.Header where
  use := e.use
  part := e.attribute? "part"
  message := e.attribute? "message"
  space := e.attribute? "namespace"
  encodingStyle := e.attribute? "encodingStyle"
  faults := (soapAmong e.children "headerfault").map soapHeaderFault

def soapFault (e : Element) : Soap.Fault where
  use := e.use
  name := e.attribute? "name"
  space := e.attribute? "namespace"
  encodingStyle := e.attribute? "encodingStyle"

def soapAddress (e : Element) : Soap.Address where
  location := e.attribute? "location"

/-! ## Definitions -/

def messagePart (e : Element) : MessagePart where
  name := e.attribute? "name"
  type := e.attribute? "type"
  element := e.attribute? "element"

def message (e : Element) : Message where
  name := e.attribute? "name"
  parts := (e.serviceChildren "part").map messagePart

def portTypeMessage (e : Element) : PortType.Message where
  name := e.attribute? "name"
  message := e.attribute? "message"

def portTypeOperation (e : Element) : PortType.Operation where
  name := e.attribute? "name"
  input := (e.serviceChild? "input").map portTypeMessage
  output := (e.serviceChild? "output").map portTypeMessage
  faults := (e.serviceChildren "fault").map portTypeMessage

def portType (e : Element) : PortType where
  name := e.attribute? "name"
  operations := (e.serviceChildren "operation").map portTypeOperation
  extensions := e.extensions

def bindingMessage (e : Element) : Binding.Message where
  name := e.attribute? "name"
  body := (e.soapExtension? "body").map soapBody
  headers := (e.soapExtensions "header").map soapHeader
  fault := (e.soapExtension? "fault").map soapFault
  extensions := e.extensions

def bindingOperation (e : Element) : Binding.Operation where
  name := e.attribute? "name"
  input := (e.serviceChild? "input").map bindingMessage
  output := (e.serviceChild? "output").map bindingMessage
  faults := (e.serviceChildren "fault").map bindingMessage
  soap := (e.soapExtension? "operation").map soapOperation
  extensions := e.extensions

def binding (e : Element) : Binding where
  name := e.attribute? "name"
  type := e.attribute? "type"
  operations := (e.serviceChildren "operation").map bindingOperation
  soap := (e.soapExtension? "binding").map soapBinding
  extensions := e.extensions

def port (e : Element) : Port where
  name := e.attribute? "name"
  binding := e.attribute? "binding"
  address := (e.soapExtension? "address").map soapAddress
  extensions := e.extensions

def service (e : Element) : Service where
  name := e.attribute? "name"
  ports := (e.serviceChildren "port").map port

end Element
end Xml

namespace Definitions
open Xml (Element)

def readImport (r : Reading) (e : Element) : Import where
  location := (e.attribute? "location").bind r.resolve?
  written := e.attribute? "location"
  space := e.attribute? "namespace"

/-- The schemas in a `types` element. They do not take over the namespace of the definitions. -/
def readSchemas (r : Reading) (e : Element) : Except Failure (List Schema) :=
  (e.childrenNamed "schema").mapM (Schema.ofElement { r with targetNamespace := none })

/-- Adds a child of the definitions element. -/
def addChild (r : Reading) (d : Definitions) (e : Element) : Except Failure Definitions :=
  if !e.isService then .ok { d with extensions := d.extensions ++ [e] }
  else match e.name with
    | "types" => (readSchemas r e).map fun schemas => { d with types := some (d.schemas ++ schemas) }
    | "import" => .ok { d with imports := d.imports ++ [readImport r e] }
    | "message" => .ok { d with messages := d.messages ++ [e.message] }
    | "portType" => .ok { d with portTypes := d.portTypes ++ [e.portType] }
    | "binding" => .ok { d with bindings := d.bindings ++ [e.binding] }
    | "service" => .ok { d with services := d.services ++ [e.service] }
    | "documentation" => .ok d
    | _ => .ok { d with extensions := d.extensions ++ [e] }

def ofElement (r : Reading) (e : Element) : Except Failure Definitions :=
  if e.name ≠ "definitions" then r.fail ("Expected wsdl:definitions root element, got " ++ e.name)
  else e.children.foldlM (addChild r)
    { location := r.location
      name := e.attribute? "name"
      targetNamespace := (e.attribute? "targetNamespace").or r.targetNamespace }

/-- Reads a document of service definitions. -/
def read (r : Reading) (bytes : Bytes) : Except Failure Definitions := do
  match ← Element.parse bytes with
  | none => r.fail "Empty document"
  | some e => ofElement r e

end Definitions
end SchemaBinding
