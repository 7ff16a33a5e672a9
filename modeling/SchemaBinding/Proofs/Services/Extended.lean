import SchemaBinding.Proofs.Services.Parts

/-! Definitions with one element more. Elements of vocabularies that definitions do not know may stand anywhere between
the elements they do know, whatever their local names are.
Main statement: such an element adds nothing to what is read, and takes nothing away; where extensions are kept, it is
one of them, after those that stand before it. -/
namespace SchemaBinding

/-- The way down to an element, by the local names of elements of the service vocabulary. Each step says how many of
that name are passed. -/
abbrev Way := List (String × Nat)

namespace Xml
namespace Element

/-- An element of none of the vocabularies that definitions are written in. -/
def IsForeign (x : Element) : Prop :=
  x.namespace? ∉ [some Namespace.service,some Namespace.soap,some Namespace.soap12]

/-- The elements outside the service vocabulary. -/
def outside (es : List Element) : List Element := es.filter (! ·.isService)

/-- The way from an element down to another one. -/
inductive Leads : Way → Element → Element → Prop where
  | here (e : Element) : Leads [] e e
  | inside {e c p : Element} {left right : List Element} {way : Way} (children : e.children = left ++ c :: right)
      (service : c.isService) (inner : Leads way c p) :
      Leads ((c.name,(serviceAmong left c.name).length) :: way) e p

/-- An element with one child more at the end of a way. The pieces of text around the child may be put together
differently. -/
inductive Inserted (x : Element) (before after : List Element) : Way → Element → Element → Prop where
  | here {e e' : Element} (children : e.children = before ++ after)
      (eq : e' = { e with text := e'.text, children := before ++ x :: after }) : Inserted x before after [] e e'
  | inside {e e' c c' : Element} {left right : List Element} {way : Way} (children : e.children = left ++ c :: right)
      (service : c.isService) (eq : e' = { e with children := left ++ c' :: right })
      (inner : Inserted x before after way c c') :
      Inserted x before after ((c.name,(serviceAmong left c.name).length) :: way) e e'

end Element
end Xml

/-! ## Places in definitions -/

open Xml (Element)

namespace Way
variable {α : Type}

/-- Changes what is at the end of a way. -/
def atEnd (g : α → α) : Way → α → α
  | [], a => g a
  | _ :: _, a => a

/-- Changes the part that the first step of a way leads to, if it is a step of that name. -/
def through (name : String) (change : Way → α → α) : Way → List α → List α
  | (step,i) :: way, as => if step = name then as.modify i (change way) else as
  | [], as => as

theorem through_id (name : String) (way : Way) (as : List α) : through name (fun _ => id) way as = as := by
  cases way with
  | nil => rfl
  | cons step way => simp [through]

theorem through_eq_self {name : String} {change : Way → α → α} {way : Way}
    (h : ∀ i rest, way = (name,i) :: rest → change rest = id) (as : List α) : through name change way as = as := by
  cases way with
  | nil => rfl
  | cons step way =>
    obtain ⟨step,i⟩ := step
    by_cases hname : step = name
    · subst hname
      simp [through,h i way rfl]
    · simp [through,hname]

/-- The first one stays as it is if the way leads to a later one. -/
theorem head?_through_eq_self {name : String} {change : Way → α → α} {way : Way}
    (h : ∀ rest, way = (name,0) :: rest → change rest = id) (a : Option α) :
    (through name change way a.toList).head? = a := by
  cases way with
  | nil => cases a <;> rfl
  | cons step way =>
    obtain ⟨step,i⟩ := step
    by_cases hname : step = name
    · subst hname
      cases a with
      | none => simp [through]
      | some a =>
        cases i with
        | zero => simp [through,h way rfl]
        | succ i => simp [through]
    · cases a <;> simp [through,hname]

theorem atEnd_eq_self {way : Way} (h : way ≠ []) (g : α → α) (a : α) : atEnd g way a = a := by
  cases way with
  | nil => exact absurd rfl h
  | cons step way => rfl

theorem head?_through (name : String) (change : Way → α → α) (way : Way) (as : List α) :
    (through name change way as.head?.toList).head? = (through name change way as).head? := by
  cases way with
  | nil => cases as <;> rfl
  | cons step way =>
    obtain ⟨step,i⟩ := step
    simp only [through]
    split
    · cases as with
      | nil => simp
      | cons a as => cases i <;> simp
    · cases as <;> rfl

theorem modify_append_length (left right : List α) (a : α) (g : α → α) :
    (left ++ a :: right).modify left.length g = left ++ g a :: right := by
  induction left with
  | nil => simp
  | cons b left ih => simp [ih]

end Way

open Way (atEnd through)

def PortType.change (g : List Element → List Element) (way : Way) (t : PortType) : PortType :=
  { t with extensions := atEnd g way t.extensions }

namespace Binding

def Message.change (g : List Element → List Element) (way : Way) (m : Message) : Message :=
  { m with extensions := atEnd g way m.extensions }

/-- Of several inputs or outputs the first one counts. -/
def Operation.change (g : List Element → List Element) (way : Way) (o : Operation) : Operation :=
  { o with
    input := (through "input" (Message.change g) way o.input.toList).head?
    output := (through "output" (Message.change g) way o.output.toList).head?
    faults := through "fault" (Message.change g) way o.faults
    extensions := atEnd g way o.extensions }

def change (g : List Element → List Element) (way : Way) (b : Binding) : Binding :=
  { b with
    operations := through "operation" (Operation.change g) way b.operations
    extensions := atEnd g way b.extensions }

end Binding

def Port.change (g : List Element → List Element) (way : Way) (p : Port) : Port :=
  { p with extensions := atEnd g way p.extensions }

def Service.change (g : List Element → List Element) (way : Way) (s : Service) : Service :=
  { s with ports := through "port" (Port.change g) way s.ports }

section Unchanged
variable {g : List Element → List Element} {way : Way}

theorem PortType.change_eq_self (h : way ≠ []) : PortType.change g way = id := by
  funext t
  rw [change,Way.atEnd_eq_self h,id]

theorem Binding.Message.change_eq_self (h : way ≠ []) : Message.change g way = id := by
  funext m
  rw [change,Way.atEnd_eq_self h,id]

theorem Binding.Operation.change_eq_self (h : way ≠ []) (hinput : way ≠ [("input",0)]) (houtput : way ≠ [("output",0)])
    (hfault : ∀ k, way ≠ [("fault",k)]) : Operation.change g way = id := by
  funext o
  have hmessage {step : String × Nat} {rest : Way} (hrest : way = step :: rest) (hne : way ≠ [step]) :
      Message.change g rest = id := by
    refine Message.change_eq_self ?_
    rintro rfl
    exact hne hrest
  have hinputs := Way.head?_through_eq_self (fun rest hrest => hmessage hrest hinput) o.input
  have houtputs := Way.head?_through_eq_self (fun rest hrest => hmessage hrest houtput) o.output
  have hfaults := Way.through_eq_self (fun k rest hrest => hmessage hrest (hfault k)) o.faults
  rw [change,hinputs,houtputs,hfaults,Way.atEnd_eq_self h,id]

theorem Binding.change_eq_self (h : way ≠ [])
    (hoperation : ∀ j rest, way = ("operation",j) :: rest → Operation.change g rest = id) : Binding.change g way = id := by
  funext b
  rw [change,Way.through_eq_self hoperation,Way.atEnd_eq_self h,id]

theorem Port.change_eq_self (h : way ≠ []) : Port.change g way = id := by
  funext p
  rw [change,Way.atEnd_eq_self h,id]

theorem Service.change_eq_self (h : ∀ j, way ≠ [("port",j)]) : Service.change g way = id := by
  funext s
  have hports : through "port" (Port.change g) way s.ports = s.ports := by
    refine Way.through_eq_self (fun j rest hrest => Port.change_eq_self ?_) s.ports
    rintro rfl
    exact h j hrest
  rw [change,hports,id]

end Unchanged

/-- Changes the extensions at the end of a way, if there are any kept. -/
def Definitions.change (g : List Element → List Element) (way : Way) (d : Definitions) : Definitions :=
  { d with
    portTypes := through "portType" (PortType.change g) way d.portTypes
    bindings := through "binding" (Binding.change g) way d.bindings
    services := through "service" (Service.change g) way d.services
    extensions := atEnd g way d.extensions }

/-! ## Lists of elements with one more -/

namespace Xml
namespace Element
variable {x : Element} (hx : x.IsForeign)
include hx

theorem IsForeign.not_isService : x.isService = false := by
  simp only [IsForeign,List.mem_cons,not_or] at hx
  simp [isService,hx.1]

theorem IsForeign.not_isSoap : x.isSoap = false := by
  simp only [IsForeign,List.mem_cons,not_or] at hx
  simp [isSoap,hx.2.1,hx.2.2.1]

theorem serviceAmong_foreign (before after : List Element) (name : String) :
    serviceAmong (before ++ x :: after) name = serviceAmong (before ++ after) name := by
  simp [serviceAmong,hx.not_isService]

theorem soapAmong_foreign (before after : List Element) (name : String) :
    soapAmong (before ++ x :: after) name = soapAmong (before ++ after) name := by
  simp [soapAmong,hx.not_isSoap]

theorem outside_foreign (before after : List Element) :
    outside (before ++ x :: after) = outside before ++ x :: outside after := by
  simp [outside,hx.not_isService]

theorem leftovers_foreign (before after : List Element) :
    leftovers (before ++ x :: after) = leftovers before ++ x :: leftovers after := by
  simp [leftovers,isPart,hx.not_isService]

end Element

/-! ## Elements with one more below them -/

namespace Element
namespace Inserted
variable {x e e' : Element} {before after : List Element} {way : Way} (h : Inserted x before after way e e')
include h

/-- What is said of the element itself stays, but for the pieces of its text. -/
theorem eq_head : e' = { e with text := e'.text, children := e'.children } := by
  cases h with
  | here _ eq => rw [eq]
  | inside _ _ eq _ => rw [eq]

theorem name_eq : e'.name = e.name := by
  rw [h.eq_head]

theorem isService_eq : e'.isService = e.isService := by
  rw [h.eq_head]
  rfl

theorem attribute?_eq (name : String) : e'.attribute? name = e.attribute? name := by
  rw [h.eq_head]
  rfl

/-- The children of a name are the same if the way does not go through them. -/
theorem serviceChildren_eq (hx : x.IsForeign) {name : String} (hname : ∀ step ∈ way.head?, step.1 ≠ name) :
    e'.serviceChildren name = e.serviceChildren name := by
  cases h with
  | here children eq =>
    rw [eq]
    change serviceAmong (before ++ x :: after) name = serviceAmong e.children name
    rw [children,serviceAmong_foreign hx]
  | @inside _ _ c c' left right way children service eq inner =>
    have hc : c.name ≠ name := hname _ rfl
    rw [eq]
    change serviceAmong (left ++ c' :: right) name = serviceAmong e.children name
    simp [serviceAmong,children,inner.name_eq,hc]

/-- What is read from the children of a name changes as the child changes that the way goes through. -/
theorem map_serviceChildren {α : Type} (f : Element → α) (change : Way → α → α) (hx : x.IsForeign)
    (hf : ∀ {way : Way} {c c' : Element}, Inserted x before after way c c' → f c' = change way (f c)) (name : String) :
    (e'.serviceChildren name).map f = through name change way ((e.serviceChildren name).map f) := by
  cases h with
  | here children eq =>
    rw [(here children eq).serviceChildren_eq hx (by simp)]
    rfl
  | @inside _ _ c c' left right way children service eq inner =>
    by_cases hname : c.name = name
    · subst hname
      have hmodify := Way.modify_append_length ((serviceAmong left c.name).map f) ((serviceAmong right c.name).map f) (f c)
        (change way)
      rw [List.length_map] at hmodify
      have hread : e.serviceChildren c.name = serviceAmong left c.name ++ c :: serviceAmong right c.name := by
        simp [serviceChildren,serviceAmong,children,service]
      have hread' : e'.serviceChildren c.name = serviceAmong left c.name ++ c' :: serviceAmong right c.name := by
        simp [serviceChildren,serviceAmong,eq,inner.name_eq,inner.isService_eq,service]
      rw [hread,hread',List.map_append,List.map_append,List.map_cons,List.map_cons,hf inner,through,if_pos rfl,hmodify]
    · rw [(inside children service eq inner).serviceChildren_eq hx (by simpa using hname),through,if_neg hname]

theorem extensions_eq (hx : x.IsForeign) :
    e'.extensions = atEnd (fun _ => outside before ++ x :: outside after) way e.extensions := by
  cases h with
  | here _ eq =>
    rw [eq]
    exact outside_foreign hx before after
  | inside children service eq inner =>
    rw [eq]
    change outside _ = outside e.children
    simp [outside,children,service,inner.isService_eq]

theorem soapExtensions_eq (hx : x.IsForeign) (name : String) : e'.soapExtensions name = e.soapExtensions name := by
  have hextensions := h.extensions_eq hx
  cases h with
  | here children _ =>
    have hread : e.extensions = outside before ++ outside after := by
      change outside e.children = _
      rw [children,outside,List.filter_append]
      rfl
    rw [soapExtensions,soapExtensions,hextensions,hread]
    exact soapAmong_foreign hx _ _ name
  | inside => rw [soapExtensions,hextensions,atEnd,soapExtensions]

theorem soapExtension?_eq (hx : x.IsForeign) (name : String) : e'.soapExtension? name = e.soapExtension? name := by
  rw [soapExtension?,h.soapExtensions_eq hx,soapExtension?]

theorem leftovers_eq (hx : x.IsForeign)
    (hway : ∀ step ∈ way.head?, step.1 ∈ ["message","portType","binding","service"]) :
    leftovers e'.children = atEnd (fun _ => leftovers before ++ x :: leftovers after) way (leftovers e.children) := by
  cases h with
  | here children eq =>
    rw [eq]
    exact leftovers_foreign hx before after
  | @inside _ _ c c' left right way children service eq inner =>
    have hc : c.isPart := by
      have hname : c.name ∈ ["message","portType","binding","service"] := hway _ rfl
      simp only [isPart,service,Bool.true_and,decide_eq_true_eq]
      revert hname
      simp only [List.mem_cons]
      tauto
    have hc' : c'.isPart := by rwa [isPart,inner.isService_eq,inner.name_eq,← isPart]
    rw [eq]
    simp [leftovers,children,hc,hc',atEnd]

/-- Where the way goes on does not matter to what reads no children. -/
theorem map_serviceChildren_of_eq {α : Type} (f : Element → α) (hx : x.IsForeign)
    (hf : ∀ {way : Way} {c c' : Element}, Inserted x before after way c c' → f c' = f c) (name : String) :
    (e'.serviceChildren name).map f = (e.serviceChildren name).map f := by
  rw [h.map_serviceChildren f (fun _ => id) hx hf,Way.through_id]

theorem map_serviceChild? {α : Type} (f : Element → α) (change : Way → α → α) (hx : x.IsForeign)
    (hf : ∀ {way : Way} {c c' : Element}, Inserted x before after way c c' → f c' = change way (f c)) (name : String) :
    (e'.serviceChild? name).map f = (through name change way ((e.serviceChild? name).map f).toList).head? := by
  simp only [serviceChild?,← List.head?_map,h.map_serviceChildren f change hx hf,Way.head?_through]

end Inserted

/-! ## What is read -/

section Readers
variable {x e e' : Element} {before after : List Element} {way : Way} (hx : x.IsForeign)
  (h : Inserted x before after way e e')
include hx h

theorem message_inserted : e'.message = e.message := by
  have hparts (name : String) : (e'.serviceChildren name).map messagePart = (e.serviceChildren name).map messagePart :=
    h.map_serviceChildren_of_eq messagePart hx (fun hc => by simp only [messagePart,hc.attribute?_eq]) name
  simp only [message,h.attribute?_eq,hparts]

omit hx in
theorem portTypeMessage_inserted : e'.portTypeMessage = e.portTypeMessage := by
  simp only [portTypeMessage,h.attribute?_eq]

theorem portTypeOperation_inserted : e'.portTypeOperation = e.portTypeOperation := by
  have hmessages := h.map_serviceChildren_of_eq portTypeMessage hx portTypeMessage_inserted
  simp only [portTypeOperation,serviceChild?,← List.head?_map,h.attribute?_eq,hmessages]

theorem portType_inserted : e'.portType = e.portType.change (fun _ => outside before ++ x :: outside after) way := by
  have hoperations := h.map_serviceChildren_of_eq portTypeOperation hx (portTypeOperation_inserted hx)
  simp only [portType,PortType.change,h.attribute?_eq,h.extensions_eq hx,hoperations]

theorem bindingMessage_inserted :
    e'.bindingMessage = e.bindingMessage.change (fun _ => outside before ++ x :: outside after) way := by
  simp only [bindingMessage,Binding.Message.change,h.attribute?_eq,h.extensions_eq hx,h.soapExtension?_eq hx,
    h.soapExtensions_eq hx]

theorem bindingOperation_inserted :
    e'.bindingOperation = e.bindingOperation.change (fun _ => outside before ++ x :: outside after) way := by
  have hmessage := h.map_serviceChild? bindingMessage _ hx (bindingMessage_inserted hx)
  have hmessages := h.map_serviceChildren bindingMessage _ hx (bindingMessage_inserted hx)
  simp only [bindingOperation,Binding.Operation.change,h.attribute?_eq,h.extensions_eq hx,h.soapExtension?_eq hx,
    hmessage,hmessages]

theorem binding_inserted : e'.binding = e.binding.change (fun _ => outside before ++ x :: outside after) way := by
  have hoperations := h.map_serviceChildren bindingOperation _ hx (bindingOperation_inserted hx)
  simp only [binding,Binding.change,h.attribute?_eq,h.extensions_eq hx,h.soapExtension?_eq hx,hoperations]

theorem port_inserted : e'.port = e.port.change (fun _ => outside before ++ x :: outside after) way := by
  simp only [port,Port.change,h.attribute?_eq,h.extensions_eq hx,h.soapExtension?_eq hx]

theorem service_inserted : e'.service = e.service.change (fun _ => outside before ++ x :: outside after) way := by
  have hports := h.map_serviceChildren port _ hx (port_inserted hx)
  simp only [service,Service.change,h.attribute?_eq,hports]

end Readers
end Element
end Xml

namespace Definitions
open Xml.Element

/-- What is kept as it is, of the children of the element at the end of a way. Definitions keep elements of the service
vocabulary, too, if they do not know them. -/
def kept : Way → List Element → List Element
  | [], es => leftovers es
  | _ :: _, es => outside es

/-- The ways to elements whose extensions are kept. -/
inductive Keeps : Way → Prop where
  | definitions : Keeps []
  | portType (i : Nat) : Keeps [("portType",i)]
  | binding (i : Nat) : Keeps [("binding",i)]
  | operation (i j : Nat) : Keeps [("binding",i),("operation",j)]
  | input (i j : Nat) : Keeps [("binding",i),("operation",j),("input",0)]
  | output (i j : Nat) : Keeps [("binding",i),("operation",j),("output",0)]
  | fault (i j k : Nat) : Keeps [("binding",i),("operation",j),("fault",k)]
  | port (i j : Nat) : Keeps [("service",i),("port",j)]

/-- The extensions at the end of a way. -/
def extensionsAt? (d : Definitions) : Way → Option (List Element)
  | [] => some d.extensions
  | [("portType",i)] => d.portTypes[i]?.map (·.extensions)
  | [("binding",i)] => d.bindings[i]?.map (·.extensions)
  | [("binding",i),("operation",j)] => (d.bindings[i]?.bind (·.operations[j]?)).map (·.extensions)
  | [("binding",i),("operation",j),("input",0)] =>
    ((d.bindings[i]?.bind (·.operations[j]?)).bind (·.input)).map (·.extensions)
  | [("binding",i),("operation",j),("output",0)] =>
    ((d.bindings[i]?.bind (·.operations[j]?)).bind (·.output)).map (·.extensions)
  | [("binding",i),("operation",j),("fault",k)] =>
    ((d.bindings[i]?.bind (·.operations[j]?)).bind (·.faults[k]?)).map (·.extensions)
  | [("service",i),("port",j)] => (d.services[i]?.bind (·.ports[j]?)).map (·.extensions)
  | _ => none

/-- Where no extensions are kept, nothing can change. -/
theorem change_of_not_keeps (g : List Element → List Element) {way : Way} (h : ¬ Keeps way) (d : Definitions) :
    d.change g way = d := by
  have hne : way ≠ [] := by
    rintro rfl
    exact h .definitions
  have hportTypes : through "portType" (PortType.change g) way d.portTypes = d.portTypes := by
    refine Way.through_eq_self (fun i rest hrest => PortType.change_eq_self ?_) d.portTypes
    rintro rfl
    exact h (hrest ▸ .portType i)
  have hbindings : through "binding" (Binding.change g) way d.bindings = d.bindings := by
    refine Way.through_eq_self (fun i rest hrest => ?_) d.bindings
    subst hrest
    refine Binding.change_eq_self ?_ fun j last hlast => ?_
    · rintro rfl
      exact h (.binding i)
    · subst hlast
      refine Binding.Operation.change_eq_self ?_ ?_ ?_ fun k => ?_
      · rintro rfl
        exact h (.operation i j)
      · rintro rfl
        exact h (.input i j)
      · rintro rfl
        exact h (.output i j)
      · rintro rfl
        exact h (.fault i j k)
  have hservices : through "service" (Service.change g) way d.services = d.services := by
    refine Way.through_eq_self (fun i rest hrest => Service.change_eq_self ?_) d.services
    rintro j rfl
    exact h (hrest ▸ .port i j)
  rw [change,hportTypes,hbindings,hservices,Way.atEnd_eq_self hne]

section Inserted
variable {x e e' : Element} {before after : List Element} {way : Way} (hx : x.IsForeign)
  (h : Inserted x before after way e e') (hway : ∀ step ∈ way.head?, step.1 ∈ ["message","portType","binding","service"])
include hx h

theorem map_serviceAmong_inserted {α : Type} (f : Element → α) (change : (List Element → List Element) → Way → α → α)
    (hf : ∀ {way : Way} {c c' : Element}, Inserted x before after way c c' →
      f c' = change (fun _ => outside before ++ x :: outside after) way (f c)) (name : String) :
    (serviceAmong e'.children name).map f = through name (change fun _ => kept way before ++ x :: kept way after) way
      ((serviceAmong e.children name).map f) := by
  have hread := h.map_serviceChildren f _ hx hf name
  -- No part that a step leads to keeps elements of the service vocabulary, as the definitions themselves do.
  cases way with
  | nil => exact hread
  | cons step way => exact hread

include hway

theorem leftovers_inserted : leftovers e'.children =
    atEnd (fun _ => kept way before ++ x :: kept way after) way (leftovers e.children) := by
  have hread := h.leftovers_eq hx hway
  cases way with
  | nil => exact hread
  | cons step way => exact hread

theorem withParts_inserted (r : Reading) (types : Option (List Schema)) :
    (head r e').withParts r e'.children types =
      ((head r e).withParts r e.children types).change (fun _ => kept way before ++ x :: kept way after) way := by
  have himports : serviceAmong e'.children "import" = serviceAmong e.children "import" :=
    h.serviceChildren_eq hx fun step hstep heq => absurd (heq ▸ hway step hstep) (by decide)
  have hmessages : (serviceAmong e'.children "message").map message = (serviceAmong e.children "message").map message :=
    h.map_serviceChildren_of_eq message hx (message_inserted hx) "message"
  have hportTypes := map_serviceAmong_inserted hx h portType PortType.change (portType_inserted hx) "portType"
  have hbindings := map_serviceAmong_inserted hx h binding Binding.change (binding_inserted hx) "binding"
  have hservices := map_serviceAmong_inserted hx h service Service.change (service_inserted hx) "service"
  simp only [withParts,change,head,h.attribute?_eq,himports,hmessages,hportTypes,hbindings,hservices,
    leftovers_inserted hx h hway,List.nil_append]

theorem ofElement_inserted (r : Reading) : ofElement r e' =
    (ofElement r e).map (change (fun _ => kept way before ++ x :: kept way after) way) := by
  by_cases hname : e.name = "definitions"
  · have htypes : serviceAmong e'.children "types" = serviceAmong e.children "types" :=
      h.serviceChildren_eq hx fun step hstep heq => absurd (heq ▸ hway step hstep) (by decide)
    rw [ofElement_eq_parts hname,ofElement_eq_parts (h.name_eq.trans hname),htypes]
    cases (serviceAmong e.children "types").foldlM (takeTypes r) none with
    | error failure => rfl
    | ok types => exact congrArg Except.ok (withParts_inserted hx h hway r types)
  · rw [ofElement_of_name_ne r hname,ofElement_of_name_ne r (h.name_eq.symm ▸ hname),h.name_eq]
    rfl

end Inserted

section Leads
variable {e p : Element} {way : Way}

theorem leads_cons {name : String} {i : Nat} (h : Leads ((name,i) :: way) e p) :
    ∃ c, (e.serviceChildren name)[i]? = some c ∧ Leads way c p := by
  generalize hsteps : (name,i) :: way = steps at h
  cases h with
  | here => cases hsteps
  | @inside _ c _ left right _ children service inner =>
    obtain ⟨⟨rfl,rfl⟩,rfl⟩ := List.cons.inj hsteps
    refine ⟨c,?_,inner⟩
    change (serviceAmong e.children c.name)[_]? = some c
    simp [serviceAmong,children,service]

/-- What is read from the child that a step leads to stands at the number of the step. -/
theorem map_getElem?_of_leads {α : Type} (f : Element → α) {name : String} {i : Nat} (h : Leads ((name,i) :: way) e p) :
    ∃ c, ((e.serviceChildren name).map f)[i]? = some (f c) ∧ Leads way c p := by
  obtain ⟨c,hc,h⟩ := leads_cons h
  exact ⟨c,by rw [List.getElem?_map,hc,Option.map_some],h⟩

theorem map_serviceChild?_of_leads {α : Type} (f : Element → α) {name : String} (h : Leads ((name,0) :: way) e p) :
    ∃ c, (e.serviceChild? name).map f = some (f c) ∧ Leads way c p := by
  obtain ⟨c,hc,h⟩ := leads_cons h
  exact ⟨c,by rw [serviceChild?,List.head?_eq_getElem?,hc,Option.map_some],h⟩

theorem extensionsAt?_of_leads {r : Reading} {d : Definitions} (hread : ofElement r e = .ok d) (hkeeps : Keeps way)
    (h : Leads way e p) : d.extensionsAt? way = some (kept way p.children) := by
  obtain ⟨types,rfl⟩ := exists_types_of_ofElement hread
  have hbinding {i : Nat} {way : Way} (h : Leads (("binding",i) :: way) e p) :
      ∃ c, ((head r e).withParts r e.children types).bindings[i]? = some c.binding ∧ Leads way c p :=
    map_getElem?_of_leads binding h
  have hoperation {i j : Nat} {way : Way} (h : Leads (("binding",i) :: ("operation",j) :: way) e p) :
      ∃ c, ((head r e).withParts r e.children types).bindings[i]?.bind (·.operations[j]?) = some c.bindingOperation ∧
        Leads way c p := by
    obtain ⟨b,hb,h⟩ := hbinding h
    obtain ⟨c,hc,h⟩ := map_getElem?_of_leads bindingOperation h
    exact ⟨c,by rw [hb]; exact hc,h⟩
  cases hkeeps with
  | definitions =>
    cases h
    rfl
  | portType i =>
    obtain ⟨c,hc,h⟩ := map_getElem?_of_leads portType h
    cases h
    exact congrArg (Option.map (·.extensions)) hc
  | binding i =>
    obtain ⟨c,hc,h⟩ := hbinding h
    cases h
    exact congrArg (Option.map (·.extensions)) hc
  | operation i j =>
    obtain ⟨c,hc,h⟩ := hoperation h
    cases h
    exact congrArg (Option.map (·.extensions)) hc
  | input i j =>
    obtain ⟨o,ho,h⟩ := hoperation h
    obtain ⟨c,hc,h⟩ := map_serviceChild?_of_leads bindingMessage h
    cases h
    simp only [extensionsAt?,ho]
    exact congrArg (Option.map (·.extensions)) hc
  | output i j =>
    obtain ⟨o,ho,h⟩ := hoperation h
    obtain ⟨c,hc,h⟩ := map_serviceChild?_of_leads bindingMessage h
    cases h
    simp only [extensionsAt?,ho]
    exact congrArg (Option.map (·.extensions)) hc
  | fault i j k =>
    obtain ⟨o,ho,h⟩ := hoperation h
    obtain ⟨c,hc,h⟩ := map_getElem?_of_leads bindingMessage h
    cases h
    simp only [extensionsAt?,ho]
    exact congrArg (Option.map (·.extensions)) hc
  | port i j =>
    obtain ⟨s,hs,h⟩ := map_getElem?_of_leads service h
    obtain ⟨c,hc,h⟩ := map_getElem?_of_leads port h
    cases h
    have hservice : ((head r e).withParts r e.children types).services[i]? = some s.service := hs
    simp only [extensionsAt?,hservice]
    exact congrArg (Option.map (·.extensions)) hc

/-- The ends of the way in an element and in the same element with one child more. -/
theorem leads_of_inserted {x e' : Element} {before after : List Element} (h : Inserted x before after way e e') :
    ∃ p p', Leads way e p ∧ Leads way e' p' ∧ p.children = before ++ after ∧ p'.children = before ++ x :: after := by
  induction h with
  | @here e e' children eq => exact ⟨e,e',.here e,.here e',children,by rw [eq]⟩
  | @inside e e' c c' left right way children service eq inner ih =>
    obtain ⟨p,p',hp,hp',hchildren,hchildren'⟩ := ih
    refine ⟨p,p',.inside children service hp,?_,hchildren,hchildren'⟩
    rw [← inner.name_eq]
    exact .inside (by rw [eq]) (inner.isService_eq.trans service) hp'

end Leads

theorem kept_append (way : Way) (before after : List Element) :
    kept way (before ++ after) = kept way before ++ kept way after := by
  cases way with
  | nil => exact leftovers_append before after
  | cons step way => exact List.filter_append ..

theorem kept_foreign {x : Element} (hx : x.IsForeign) (way : Way) (before after : List Element) :
    kept way (before ++ x :: after) = kept way before ++ x :: kept way after := by
  cases way with
  | nil => exact leftovers_foreign hx before after
  | cons step way => exact outside_foreign hx before after

/-- An element of a vocabulary that definitions do not know, as a child of any message, port type, binding or service,
of anything below these or of the definitions themselves, changes nothing in what is read but the extensions of its
parent, if these are kept: it is one of them, between those that stand before it and those that stand after it. -/
theorem read_inserted {r : Reading} {bytes other : Bytes} {x e e' : Element} {before after : List Element} {way : Way}
    {d : Definitions} (hbytes : Element.parse bytes = .ok (some e)) (hother : Element.parse other = .ok (some e'))
    (hx : x.IsForeign) (h : Inserted x before after way e e')
    (hway : ∀ step ∈ way.head?, step.1 ∈ ["message","portType","binding","service"]) (hread : read r bytes = .ok d) :
    ∃ d', read r other = .ok d' ∧ (¬ Keeps way → d' = d) ∧
      (Keeps way → d.extensionsAt? way = some (kept way before ++ kept way after) ∧
        d'.extensionsAt? way = some (kept way before ++ x :: kept way after) ∧
        d' = d.change (fun _ => kept way before ++ x :: kept way after) way) := by
  have hd : ofElement r e = .ok d := by
    rw [read,hbytes] at hread
    exact hread
  have hd' : ofElement r e' = .ok (d.change (fun _ => kept way before ++ x :: kept way after) way) := by
    rw [ofElement_inserted hx h hway r,hd]
    rfl
  refine ⟨d.change (fun _ => kept way before ++ x :: kept way after) way,?_,
    fun hkeeps => change_of_not_keeps _ hkeeps d,fun hkeeps => ?_⟩
  · rw [read,hother]
    exact hd'
  · obtain ⟨p,p',hp,hp',hchildren,hchildren'⟩ := leads_of_inserted h
    have hkept := extensionsAt?_of_leads hd hkeeps hp
    have hkept' := extensionsAt?_of_leads hd' hkeeps hp'
    rw [hchildren,kept_append] at hkept
    rw [hchildren',kept_foreign hx] at hkept'
    exact ⟨hkept,hkept',rfl⟩

/-- A binding with nothing in it. -/
def emptyBinding : Bytes :=
  Utf8.encodeString "<definitions xmlns=\"http://schemas.xmlsoap.org/wsdl/\"><binding/></definitions>"

/-- The same binding with an operation of another vocabulary. -/
def extendedBinding : Bytes := Utf8.encodeString
  "<definitions xmlns=\"http://schemas.xmlsoap.org/wsdl/\"><binding><operation xmlns=\"urn:v\"/></binding></definitions>"

theorem parse_emptyBinding : Xml.Node.parse emptyBinding = .ok (some (.element
    ⟨"definitions",[("xmlns","http://schemas.xmlsoap.org/wsdl/")]⟩ [.element ⟨"binding",[]⟩ []])) := by
  decide +kernel

theorem parse_extendedBinding : Xml.Node.parse extendedBinding = .ok (some (.element
    ⟨"definitions",[("xmlns","http://schemas.xmlsoap.org/wsdl/")]⟩
    [.element ⟨"binding",[]⟩ [.element ⟨"operation",[("xmlns","urn:v")]⟩ []]])) := by
  decide +kernel

def foreignOperation : Element := { name := "operation", scope := { default := some "urn:v" } }

/-- An element of the service vocabulary as the default one. -/
def serviceElement (name : String) (children : List Element) : Element :=
  { name, children, scope := { default := some Namespace.service } }

theorem read_inserted_operation : ∃ d d', read default emptyBinding = .ok d ∧ read default extendedBinding = .ok d' ∧
    d.extensionsAt? [("binding",0)] = some [] ∧ d'.extensionsAt? [("binding",0)] = some [foreignOperation] ∧
    d' = d.change (fun _ => [foreignOperation]) [("binding",0)] := by
  have hbytes : Element.parse emptyBinding =
      .ok (some (serviceElement "definitions" [serviceElement "binding" []])) := by
    rw [Element.parse,parse_emptyBinding]
    rfl
  have hother : Element.parse extendedBinding =
      .ok (some (serviceElement "definitions" [serviceElement "binding" [foreignOperation]])) := by
    rw [Element.parse,parse_extendedBinding]
    rfl
  have hx : foreignOperation.IsForeign := by
    unfold IsForeign
    decide +kernel
  have hservice : (serviceElement "binding" []).isService := by decide +kernel
  have hchildren : (serviceElement "definitions" [serviceElement "binding" []]).children =
      [] ++ serviceElement "binding" [] :: [] := rfl
  have heq : serviceElement "definitions" [serviceElement "binding" [foreignOperation]] =
      { (serviceElement "definitions" [serviceElement "binding" []]) with
        children := [] ++ serviceElement "binding" [foreignOperation] :: [] } := rfl
  have hinserted : Inserted foreignOperation [] [] [("binding",0)] _ _ :=
    .inside hchildren hservice heq (.here rfl rfl)
  have hread : ∃ d, read default emptyBinding = .ok d := by
    rw [read,hbytes]
    exact ⟨_,rfl⟩
  obtain ⟨d,hread⟩ := hread
  obtain ⟨d',hread',-,hkept⟩ := read_inserted hbytes hother hx hinserted (by decide) hread
  obtain ⟨hextensions,hextensions',hd'⟩ := hkept (.binding 0)
  exact ⟨d,d',hread,hread',hextensions,hextensions',hd'⟩

end Definitions
end SchemaBinding
