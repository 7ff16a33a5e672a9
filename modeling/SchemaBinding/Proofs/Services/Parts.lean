import Mathlib.Data.List.Basic
import SchemaBinding.Service.Reader

/-! Definitions by their parts. The reader goes through the children of a document once, and each child adds to one list.
Main statement: each list of the definitions is read from the children that it is for, in their order, without regard to
the others; schemas alone can fail, and they fail as the first of them that does. -/
namespace SchemaBinding
namespace Xml
namespace Element

/-- The elements of the service vocabulary with a local name. -/
def serviceAmong (es : List Element) (name : String) : List Element :=
  es.filter fun e => e.name = name && e.isService

/-- An element of the service vocabulary that definitions know. -/
def isPart (e : Element) : Bool :=
  e.isService && decide (e.name ∈ ["types","import","message","portType","binding","service","documentation"])

/-- The elements that definitions keep as they are. -/
def leftovers (es : List Element) : List Element := es.filter (! ·.isPart)

@[simp] theorem serviceAmong_append (es fs : List Element) (name : String) :
    serviceAmong (es ++ fs) name = serviceAmong es name ++ serviceAmong fs name := by
  simp only [serviceAmong,List.filter_append]

@[simp] theorem leftovers_append (es fs : List Element) : leftovers (es ++ fs) = leftovers es ++ leftovers fs := by
  simp only [leftovers,List.filter_append]

theorem serviceAmong_singleton (e : Element) (name : String) :
    serviceAmong [e] name = if e.name = name && e.isService then [e] else [] := by
  simp only [serviceAmong,List.filter_singleton,cond_eq_ite]

theorem leftovers_singleton (e : Element) : leftovers [e] = if e.isPart then [] else [e] := by
  cases h : e.isPart <;> simp [leftovers,h]

end Element
end Xml

namespace Definitions
open Xml (Element)
open Xml.Element

/-- Adds the schemas of an element to those there are. -/
def takeTypes (r : Reading) (types : Option (List Schema)) (e : Element) : Except Failure (Option (List Schema)) :=
  (readSchemas r e).map fun schemas => some (types.getD [] ++ schemas)

/-- What children add, where `types` are the schemas afterwards. -/
def withParts (r : Reading) (d : Definitions) (es : List Element) (types : Option (List Schema)) : Definitions :=
  { d with
    types
    imports := d.imports ++ (serviceAmong es "import").map (readImport r)
    messages := d.messages ++ (serviceAmong es "message").map Element.message
    portTypes := d.portTypes ++ (serviceAmong es "portType").map Element.portType
    bindings := d.bindings ++ (serviceAmong es "binding").map Element.binding
    services := d.services ++ (serviceAmong es "service").map Element.service
    extensions := d.extensions ++ leftovers es }

theorem withParts_nil (r : Reading) (d : Definitions) : d.withParts r [] d.types = d := by
  simp [withParts,serviceAmong,leftovers]

theorem withParts_withParts (r : Reading) (d : Definitions) (es fs : List Element) (types types' : Option (List Schema)) :
    (d.withParts r es types).withParts r fs types' = d.withParts r (es ++ fs) types' := by
  simp [withParts]

theorem withParts_singleton (r : Reading) (d : Definitions) (e : Element) (types : Option (List Schema)) :
    d.withParts r [e] types = { d with
      types
      imports := d.imports ++ if e.name = "import" && e.isService then [readImport r e] else []
      messages := d.messages ++ if e.name = "message" && e.isService then [e.message] else []
      portTypes := d.portTypes ++ if e.name = "portType" && e.isService then [e.portType] else []
      bindings := d.bindings ++ if e.name = "binding" && e.isService then [e.binding] else []
      services := d.services ++ if e.name = "service" && e.isService then [e.service] else []
      extensions := d.extensions ++ if e.isPart then [] else [e] } := by
  simp only [withParts,serviceAmong_singleton,leftovers_singleton,apply_ite (List.map _),List.map_cons,List.map_nil]

/-- What one child adds. -/
theorem addChild_eq (r : Reading) (d : Definitions) (e : Element) : addChild r d e =
    ((serviceAmong [e] "types").foldlM (takeTypes r) d.types).map (d.withParts r [e]) := by
  unfold addChild
  cases hservice : e.isService with
  | false => simp [withParts_singleton,serviceAmong_singleton,isPart,hservice,Except.map,pure,Except.pure]
  | true =>
    simp only [Bool.not_true,Bool.false_eq_true,if_false]
    split
    · rename_i hname
      cases hread : readSchemas r e <;>
        simp [withParts_singleton,serviceAmong_singleton,isPart,hservice,hname,schemas,takeTypes,hread,Except.map]
    all_goals simp_all [withParts_singleton,serviceAmong_singleton,isPart,Except.map,pure,Except.pure]

/-- What children add, one after the other. -/
theorem foldlM_addChild (r : Reading) (d : Definitions) (es : List Element) : es.foldlM (addChild r) d =
    ((serviceAmong es "types").foldlM (takeTypes r) d.types).map (d.withParts r es) := by
  induction es generalizing d with
  | nil => exact congrArg Except.ok (withParts_nil r d).symm
  | cons e es ih =>
    have hcons : serviceAmong (e :: es) "types" = serviceAmong [e] "types" ++ serviceAmong es "types" :=
      serviceAmong_append [e] es "types"
    rw [List.foldlM_cons,addChild_eq,hcons,List.foldlM_append]
    cases (serviceAmong [e] "types").foldlM (takeTypes r) d.types with
    | error failure => rfl
    | ok types =>
      have hboth (x : Except Failure (Option (List Schema))) :
          x.map ((d.withParts r [e] types).withParts r es) = x.map (d.withParts r (e :: es)) :=
        congrArg (Except.map · x) (funext (withParts_withParts r d [e] es types))
      exact (ih (d.withParts r [e] types)).trans (hboth _)

/-- The definitions there are before any child. -/
def head (r : Reading) (e : Element) : Definitions where
  location := r.location
  name := e.attribute? "name"
  targetNamespace := (e.attribute? "targetNamespace").or r.targetNamespace

theorem ofElement_of_name_ne (r : Reading) {e : Element} (h : e.name ≠ "definitions") :
    ofElement r e = r.fail ("Expected wsdl:definitions root element, got " ++ e.name) := by
  rw [ofElement,if_pos h]

/-- The lists of definitions, each read from the children that it is for. -/
theorem ofElement_eq_parts {r : Reading} {e : Element} (h : e.name = "definitions") : ofElement r e =
    ((serviceAmong e.children "types").foldlM (takeTypes r) none).map ((head r e).withParts r e.children) := by
  rw [ofElement,if_neg (not_not.mpr h)]
  exact foldlM_addChild r (head r e) e.children

theorem exists_types_of_ofElement {r : Reading} {e : Element} {d : Definitions} (h : ofElement r e = .ok d) :
    ∃ types, d = (head r e).withParts r e.children types := by
  by_cases hname : e.name = "definitions"
  · rw [ofElement_eq_parts hname] at h
    cases htypes : (serviceAmong e.children "types").foldlM (takeTypes r) none with
    | error failure =>
      rw [htypes] at h
      cases h
    | ok types =>
      rw [htypes] at h
      exact ⟨types,(Except.ok.inj h).symm⟩
  · rw [ofElement_of_name_ne r hname] at h
    cases h

end Definitions
end SchemaBinding
