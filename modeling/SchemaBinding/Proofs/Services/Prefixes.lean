import SchemaBinding.Proofs.Reading.Outcomes
import SchemaBinding.Proofs.Reading.Preserved
import SchemaBinding.Proofs.Services.Parts

/-! Service definitions and prefixes. An element counts by its local name and its namespace, so the same element may be
written with any prefix that is declared for that namespace, or as the default one.
Main statement: documents whose elements differ in their prefixes and declarations alone fail in the same way, or they
are the same definitions up to the prefixes and declarations in what is kept as it is. -/
namespace SchemaBinding
namespace Xml
namespace Element

/-- Elements that differ, at every depth, in no more than how their namespaces are written. -/
inductive Alike : Element → Element → Prop where
  | of {e e' : Element} (name : e.name = e'.name) (space : e.namespace? = e'.namespace?)
      (attributes : e.attributes = e'.attributes) (text : e.text = e'.text)
      (children : List.Forall₂ Alike e.children e'.children) : Alike e e'

mutual

/-- An element without prefixes. The namespace of each element is the default one, and nothing else is declared. -/
def unprefixed : Element → Element
  | e@{ children, .. } =>
    { e with prefix? := none, scope := { default := e.namespace? }, children := unprefixedAll children }

def unprefixedAll : List Element → List Element
  | [] => []
  | e :: rest => e.unprefixed :: unprefixedAll rest

end

theorem unprefixedAll_eq_map (es : List Element) : unprefixedAll es = es.map unprefixed := by
  induction es with
  | nil => rfl
  | cons e es ih => rw [unprefixedAll,ih,List.map_cons]

theorem unprefixed_eq (e : Element) : e.unprefixed =
    { e with prefix? := none, scope := { default := e.namespace? }, children := e.children.map unprefixed } := by
  cases e
  rw [unprefixed,unprefixedAll_eq_map]

@[simp] theorem name_unprefixed (e : Element) : e.unprefixed.name = e.name := by rw [unprefixed_eq]

@[simp] theorem namespace?_unprefixed (e : Element) : e.unprefixed.namespace? = e.namespace? := by
  rw [unprefixed_eq]
  rfl

@[simp] theorem attributes_unprefixed (e : Element) : e.unprefixed.attributes = e.attributes := by rw [unprefixed_eq]

@[simp] theorem text_unprefixed (e : Element) : e.unprefixed.text = e.text := by rw [unprefixed_eq]

@[simp] theorem children_unprefixed (e : Element) : e.unprefixed.children = e.children.map unprefixed := by
  rw [unprefixed_eq]

@[simp] theorem attribute?_unprefixed (e : Element) (name : String) : e.unprefixed.attribute? name = e.attribute? name := by
  rw [attribute?,attributes_unprefixed,attribute?]

theorem preservesRead_unprefixed : PreservesRead unprefixed where
  name := name_unprefixed
  text := text_unprefixed
  attribute? _ := attribute?_unprefixed _ _
  children := children_unprefixed

theorem forall₂_alike_iff {es es' : List Element}
    (h : ∀ e ∈ es, ∀ e', Alike e e' ↔ e.unprefixed = e'.unprefixed) :
    List.Forall₂ Alike es es' ↔ es.map unprefixed = es'.map unprefixed := by
  induction es generalizing es' with
  | nil => cases es' <;> simp
  | cons e es ih =>
    obtain ⟨he,hes⟩ := List.forall_mem_cons.mp h
    cases es' with
    | nil => simp
    | cons e' es' => simp [he e',ih hes]

/-- Elements are alike if they are equal without their prefixes. -/
theorem alike_iff (e e' : Element) : Alike e e' ↔ e.unprefixed = e'.unprefixed := by
  induction e using inductionOnChildren generalizing e' with
  | step e ih =>
    constructor
    · rintro ⟨hname,hspace,hattributes,htext,hchildren⟩
      have hall := (forall₂_alike_iff ih).mp hchildren
      rw [unprefixed_eq,unprefixed_eq,hname,hspace,hattributes,htext,hall]
    · intro h
      refine ⟨?_,?_,?_,?_,(forall₂_alike_iff ih).mpr ?_⟩
      · simpa using congrArg name h
      · simpa using congrArg namespace? h
      · simpa using congrArg attributes h
      · simpa using congrArg text h
      · simpa using congrArg children h

/-! ## What elements are read as -/

@[simp] theorem isService_unprefixed (e : Element) : e.unprefixed.isService = e.isService := by simp [isService]

@[simp] theorem isSoap_unprefixed (e : Element) : e.unprefixed.isSoap = e.isSoap := by simp [isSoap]

@[simp] theorem isPart_unprefixed (e : Element) : e.unprefixed.isPart = e.isPart := by simp [isPart]

@[simp] theorem serviceAmong_unprefixed (es : List Element) (name : String) :
    serviceAmong (es.map unprefixed) name = (serviceAmong es name).map unprefixed := by
  simp [serviceAmong,List.filter_map,Function.comp_def]

@[simp] theorem soapAmong_unprefixed (es : List Element) (name : String) :
    soapAmong (es.map unprefixed) name = (soapAmong es name).map unprefixed := by
  simp [soapAmong,List.filter_map,Function.comp_def]

@[simp] theorem leftovers_unprefixed (es : List Element) : leftovers (es.map unprefixed) = (leftovers es).map unprefixed := by
  simp [leftovers,List.filter_map,Function.comp_def]

@[simp] theorem serviceChildren_unprefixed (e : Element) (name : String) :
    e.unprefixed.serviceChildren name = (e.serviceChildren name).map unprefixed := by
  rw [serviceChildren,children_unprefixed]
  exact serviceAmong_unprefixed e.children name

@[simp] theorem serviceChild?_unprefixed (e : Element) (name : String) :
    e.unprefixed.serviceChild? name = (e.serviceChild? name).map unprefixed := by
  simp [serviceChild?]

@[simp] theorem extensions_unprefixed (e : Element) : e.unprefixed.extensions = e.extensions.map unprefixed := by
  simp [extensions,List.filter_map,Function.comp_def]

@[simp] theorem soapExtensions_unprefixed (e : Element) (name : String) :
    e.unprefixed.soapExtensions name = (e.soapExtensions name).map unprefixed := by
  simp [soapExtensions]

@[simp] theorem soapExtension?_unprefixed (e : Element) (name : String) :
    e.unprefixed.soapExtension? name = (e.soapExtension? name).map unprefixed := by
  simp [soapExtension?]

@[simp] theorem bindingStyle_unprefixed (e : Element) : e.unprefixed.bindingStyle = e.bindingStyle := by
  simp [bindingStyle]

@[simp] theorem use_unprefixed (e : Element) : e.unprefixed.use = e.use := by simp [use]

@[simp] theorem soapBinding_unprefixed (e : Element) : e.unprefixed.soapBinding = e.soapBinding := by
  simp [soapBinding]

@[simp] theorem soapOperation_unprefixed (e : Element) : e.unprefixed.soapOperation = e.soapOperation := by
  simp [soapOperation]

@[simp] theorem soapBody_unprefixed (e : Element) : e.unprefixed.soapBody = e.soapBody := by simp [soapBody]

@[simp] theorem soapHeaderFault_unprefixed (e : Element) : e.unprefixed.soapHeaderFault = e.soapHeaderFault := by
  simp [soapHeaderFault]

@[simp] theorem soapHeader_unprefixed (e : Element) : e.unprefixed.soapHeader = e.soapHeader := by
  simp [soapHeader,Function.comp_def]

@[simp] theorem soapFault_unprefixed (e : Element) : e.unprefixed.soapFault = e.soapFault := by simp [soapFault]

@[simp] theorem soapAddress_unprefixed (e : Element) : e.unprefixed.soapAddress = e.soapAddress := by
  simp [soapAddress]

@[simp] theorem message_unprefixed (e : Element) : e.unprefixed.message = e.message := by
  simp [message,messagePart,Function.comp_def]

@[simp] theorem portTypeMessage_unprefixed (e : Element) : e.unprefixed.portTypeMessage = e.portTypeMessage := by
  simp [portTypeMessage]

@[simp] theorem portTypeOperation_unprefixed (e : Element) : e.unprefixed.portTypeOperation = e.portTypeOperation := by
  simp [portTypeOperation,Function.comp_def]

end Element
end Xml

open Xml (Element)

/-! ## What is kept as it is -/

namespace PortType

/-- The same port type with its extensions changed. -/
def mapExtensions (g : Element → Element) (t : PortType) : PortType :=
  { t with extensions := t.extensions.map g }

end PortType

namespace Binding

def Message.mapExtensions (g : Element → Element) (m : Message) : Message :=
  { m with extensions := m.extensions.map g }

def Operation.mapExtensions (g : Element → Element) (o : Operation) : Operation :=
  { o with
    input := o.input.map (·.mapExtensions g)
    output := o.output.map (·.mapExtensions g)
    faults := o.faults.map (·.mapExtensions g)
    extensions := o.extensions.map g }

def mapExtensions (g : Element → Element) (b : Binding) : Binding :=
  { b with
    operations := b.operations.map (·.mapExtensions g)
    extensions := b.extensions.map g }

end Binding

def Port.mapExtensions (g : Element → Element) (p : Port) : Port :=
  { p with extensions := p.extensions.map g }

def Service.mapExtensions (g : Element → Element) (s : Service) : Service :=
  { s with ports := s.ports.map (·.mapExtensions g) }

def Definitions.mapExtensions (g : Element → Element) (d : Definitions) : Definitions :=
  { d with
    portTypes := d.portTypes.map (·.mapExtensions g)
    bindings := d.bindings.map (·.mapExtensions g)
    services := d.services.map (·.mapExtensions g)
    extensions := d.extensions.map g }

/-- Definitions without the declarations that their schemas carry. -/
def Definitions.undeclared (d : Definitions) : Definitions :=
  { d with types := d.types.map (·.map (Schema.declaring {})) }

/-- Definitions without prefixes: none in what is kept as it is, and no declarations in the schemas. -/
def Definitions.unprefixed (d : Definitions) : Definitions := (d.mapExtensions Element.unprefixed).undeclared

namespace Xml
namespace Element

@[simp] theorem portType_unprefixed (e : Element) : e.unprefixed.portType = e.portType.mapExtensions unprefixed := by
  simp [portType,PortType.mapExtensions,Function.comp_def]

@[simp] theorem bindingMessage_unprefixed (e : Element) :
    e.unprefixed.bindingMessage = e.bindingMessage.mapExtensions unprefixed := by
  simp [bindingMessage,Binding.Message.mapExtensions,Function.comp_def]

@[simp] theorem bindingOperation_unprefixed (e : Element) :
    e.unprefixed.bindingOperation = e.bindingOperation.mapExtensions unprefixed := by
  simp [bindingOperation,Binding.Operation.mapExtensions,Function.comp_def]

@[simp] theorem binding_unprefixed (e : Element) : e.unprefixed.binding = e.binding.mapExtensions unprefixed := by
  simp [binding,Binding.mapExtensions,Function.comp_def]

@[simp] theorem port_unprefixed (e : Element) : e.unprefixed.port = e.port.mapExtensions unprefixed := by
  simp [port,Port.mapExtensions,Function.comp_def]

@[simp] theorem service_unprefixed (e : Element) : e.unprefixed.service = e.service.mapExtensions unprefixed := by
  simp [service,Service.mapExtensions,Function.comp_def]

end Element
end Xml

namespace Definitions
open Xml.Element

@[simp] theorem readImport_unprefixed (r : Reading) (e : Element) : readImport r e.unprefixed = readImport r e := by
  simp [readImport]

theorem readSchemas_unprefixed (r : Reading) (e : Element) :
    Agree (fun ss ss' => ss.map (Schema.declaring {}) = ss'.map (Schema.declaring {}))
      (readSchemas r e) (readSchemas r e.unprefixed) := by
  have hschema (c c' : Element) (hc : c' = c.unprefixed) :
      Agree (fun s s' => s.declaring {} = s'.declaring {}) (Schema.ofElement { r with targetNamespace := none } c)
        (Schema.ofElement { r with targetNamespace := none } c') := by
    rw [hc,Schema.ofElement_preserved preservesRead_unprefixed]
    cases Schema.ofElement { r with targetNamespace := none } c with
    | error failure => exact .error failure
    | ok s => exact .ok rfl
  have hchildren : List.Forall₂ (fun c c' => c' = c.unprefixed) (e.childrenNamed "schema")
      (e.unprefixed.childrenNamed "schema") := by
    rw [childrenNamed_preserved preservesRead_unprefixed.unlocated,List.forall₂_map_right_iff]
    exact List.forall₂_same.mpr fun _ _ => rfl
  refine (Agree.mapM hschema hchildren).imp fun ss ss' h => ?_
  rwa [← List.forall₂_eq_eq_eq,List.forall₂_map_left_iff,List.forall₂_map_right_iff]

theorem types_unprefixed (r : Reading) (es : List Element) :
    Agree (fun ts ts' => ts.map (List.map (Schema.declaring {})) = ts'.map (List.map (Schema.declaring {})))
      ((serviceAmong es "types").foldlM (takeTypes r) none)
      ((serviceAmong (es.map Element.unprefixed) "types").foldlM (takeTypes r) none) := by
  have hchildren : List.Forall₂ (fun c c' => c' = c.unprefixed) (serviceAmong es "types")
      (serviceAmong (es.map Element.unprefixed) "types") := by
    rw [serviceAmong_unprefixed,List.forall₂_map_right_iff]
    exact List.forall₂_same.mpr fun _ _ => rfl
  refine Agree.foldlM (fun ts ts' c c' hts hc => ?_) hchildren rfl
  rw [hc]
  refine (readSchemas_unprefixed r c).map fun ss ss' hss => ?_
  have hgetD : (ts.getD []).map (Schema.declaring {}) = (ts'.getD []).map (Schema.declaring {}) := by
    have hmap (ts : Option (List Schema)) :
        (ts.getD []).map (Schema.declaring {}) = (ts.map (List.map (Schema.declaring {}))).getD [] := by
      cases ts <;> rfl
    rw [hmap,hmap,hts]
  simp [hgetD,hss]

theorem withParts_unprefixed {r : Reading} (e : Element) {types types' : Option (List Schema)}
    (h : types.map (List.map (Schema.declaring {})) = types'.map (List.map (Schema.declaring {}))) :
    ((head r e).withParts r e.children types).unprefixed =
      ((head r e.unprefixed).withParts r e.unprefixed.children types').undeclared := by
  simp [withParts,unprefixed,undeclared,mapExtensions,head,Function.comp_def,h]

theorem ofElement_unprefixed (r : Reading) (e : Element) :
    Agree (fun d d' => d.unprefixed = d'.undeclared) (ofElement r e) (ofElement r e.unprefixed) := by
  by_cases hname : e.name = "definitions"
  · rw [ofElement_eq_parts hname,ofElement_eq_parts ((name_unprefixed e).trans hname)]
    have htypes := types_unprefixed r e.children
    rw [← children_unprefixed] at htypes
    exact htypes.map fun types types' => withParts_unprefixed e
  · rw [ofElement_of_name_ne r hname,ofElement_of_name_ne r ((name_unprefixed e).symm ▸ hname),name_unprefixed]
    exact .error _

theorem ofElement_alike (r : Reading) {e e' : Element} (h : Element.Alike e e') :
    Agree (fun d d' => d.unprefixed = d'.unprefixed) (ofElement r e) (ofElement r e') := by
  -- Without prefixes the two are one element, and each is read as that one is.
  have hread := ofElement_unprefixed r e
  rw [(alike_iff e e').mp h] at hread
  exact hread.trans (ofElement_unprefixed r e').symm fun _ _ _ hd hd' => hd.trans hd'.symm

/-- Documents whose elements differ in their prefixes and declarations alone fail in the same way, or they are the same
definitions without prefixes. -/
theorem read_alike (r : Reading) {bytes other : Bytes}
    (h : Agree (Option.Rel Element.Alike) (Element.parse bytes) (Element.parse other)) :
    Agree (fun d d' => d.unprefixed = d'.unprefixed) (read r bytes) (read r other) := by
  refine h.bind fun e e' he => ?_
  cases he with
  | none => exact .error _
  | some he => exact ofElement_alike r he

/-- A service where the service vocabulary is the default one. -/
def defaultService : Bytes := Utf8.encodeString
  "<definitions xmlns=\"http://schemas.xmlsoap.org/wsdl/\" xmlns:v=\"urn:v\"><service/><v:note/></definitions>"

/-- The same service where the vocabulary has a prefix. -/
def prefixedService : Bytes := Utf8.encodeString
  "<w:definitions xmlns:w=\"http://schemas.xmlsoap.org/wsdl/\"><w:service/><note xmlns=\"urn:v\"/></w:definitions>"

theorem parse_defaultService : Xml.Node.parse defaultService = .ok (some (.element
    ⟨"definitions",[("xmlns","http://schemas.xmlsoap.org/wsdl/"),("xmlns:v","urn:v")]⟩
    [.element ⟨"service",[]⟩ [],.element ⟨"v:note",[]⟩ []])) := by
  decide +kernel

theorem parse_prefixedService : Xml.Node.parse prefixedService = .ok (some (.element
    ⟨"w:definitions",[("xmlns:w","http://schemas.xmlsoap.org/wsdl/")]⟩
    [.element ⟨"w:service",[]⟩ [],.element ⟨"note",[("xmlns","urn:v")]⟩ []])) := by
  decide +kernel

theorem read_alike_services : Agree (Option.Rel Element.Alike) (Element.parse defaultService) (Element.parse prefixedService) ∧
    Agree (fun d d' => d.unprefixed = d'.unprefixed) (read default defaultService) (read default prefixedService) := by
  have h : Agree (Option.Rel Element.Alike) (Element.parse defaultService) (Element.parse prefixedService) := by
    simp only [Element.parse,parse_defaultService,parse_prefixedService]
    exact .ok (.some ((alike_iff _ _).mpr rfl))
  exact ⟨h,read_alike default h⟩

end Definitions
end SchemaBinding
