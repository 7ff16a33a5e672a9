import SchemaBinding.Proofs.Reading.Exchanged
import SchemaBinding.Proofs.Reading.Kept

/-! Schemas but for the locations of their references. An attribute that holds a location is looked up on references only,
and there for nothing else. Main statement: of two texts that differ in the values of such attributes the same schema is
read, but for the locations of its references. -/
namespace SchemaBinding
namespace Xml
namespace Element

variable {s : Spelling} {v w : s.Value} {names : String → List String}

/-- Where an attribute is not kept its value does not matter. -/
theorem Matches.kept_eq (hnames : ∀ name, s.name ∉ names name) {e e' : Element} (h : Matches s v w e e') :
    e'.kept names = e.kept names := by
  induction e using inductionOnChildren generalizing e' with
  | step e ih =>
    cases h with
    | intro hname hpre hscope htext _ hothers hchildren =>
      have hbelow : e'.children.map (kept names) = e.children.map (kept names) := by
        generalize e.children = es at ih hchildren
        generalize e'.children = es' at hchildren
        induction hchildren with
        | nil => rfl
        | cons hfirst _ ihrest =>
          obtain ⟨hhere,hrest⟩ := List.forall_mem_cons.mp ih
          rw [List.map_cons,List.map_cons,hhere hfirst,ihrest hrest]
      have hkept : keptAttributes names e' = keptAttributes names e := by
        unfold keptAttributes
        rw [hname]
        congr 1
        refine List.filterMap_congr fun n hn => ?_
        rw [hothers n fun hsame => hnames e.name (hsame ▸ hn)]
      obtain ⟨name,pre,attributes,text,children,scope⟩ := e
      obtain ⟨name',pre',attributes',text',children',scope'⟩ := e'
      simp_all [Element.kept_eq]

theorem location_not_mem_attributesRead (name : String) : "location" ∉ attributesRead name := by
  unfold attributesRead
  split <;> decide

/-- No location of a reference is looked up elsewhere. -/
theorem not_mem_attributesUnlocated {location : String} (h : location = "schemaLocation" ∨ location = "location")
    (name : String) : location ∉ attributesUnlocated name := by
  intro hmem
  obtain ⟨hread,hother⟩ := List.mem_filter.mp hmem
  rcases h with rfl | rfl
  · simp at hother
  · exact location_not_mem_attributesRead name hread

end Element
end Xml

namespace Schema
open Xml (Spelling Element)
open Xml.Element

variable {s : Spelling} {v w : s.Value} (hs : s.name = "schemaLocation" ∨ s.name = "location")
include hs

theorem unlocated_ofElement (r : Reading) {e e' : Element} (h : Element.Matches s v w e e') :
    (ofElement r e).map unlocated = (ofElement r e').map unlocated := by
  have hkept (e : Element) : (ofElement r (e.kept attributesUnlocated)).map unlocated = (ofElement r e).map unlocated :=
    ofElement_unlocated preservesUnlocated_kept r (scope_kept e)
  rw [← hkept e,← h.kept_eq (not_mem_attributesUnlocated hs),hkept e']

theorem unlocated_read (r : Reading) {xs ys : Bytes} (h : Xml.Token.TextRespelled s v w xs ys) :
    Agree (fun a a' => a.unlocated = a'.unlocated) (read r xs) (read r ys) :=
  (Element.matches_parse h).bind fun _ _ hroot => by
    cases hroot with
    | none => exact .error _
    | some he => exact .of_map_eq (unlocated_ofElement hs r he)

end Schema
end SchemaBinding
