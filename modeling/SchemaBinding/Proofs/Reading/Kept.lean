import SchemaBinding.Proofs.Reading.Preserved

/-! What a schema is read from, cut out. An element may be cut down to some attributes, at every depth, before the schema
is read from it. Main statement: if these are the attributes that are looked up, that changes nothing in the schema. -/
namespace SchemaBinding
namespace Xml
namespace Element

/-- The attributes of an element that `names` has for its local name, in that order. -/
def keptAttributes (names : String → List String) (e : Element) : OrderedMap String String :=
  .ofList ((names e.name).filterMap fun n => (e.attribute? n).map (n,·))

mutual

/-- An element cut down, at every depth, to some attributes. -/
def kept (names : String → List String) : Element → Element
  | e@{ children, .. } => { e with attributes := keptAttributes names e, children := keptAll names children }

def keptAll (names : String → List String) : List Element → List Element
  | [] => []
  | e :: rest => e.kept names :: keptAll names rest

end

variable {names : String → List String}

theorem keptAll_eq_map (es : List Element) : keptAll names es = es.map (kept names) := by
  induction es with
  | nil => rfl
  | cons e es ih => rw [keptAll,ih,List.map_cons]

theorem kept_eq (e : Element) : e.kept names =
    { e with attributes := keptAttributes names e, children := e.children.map (kept names) } := by
  cases e
  rw [kept,keptAll_eq_map]

@[simp] theorem name_kept (e : Element) : (e.kept names).name = e.name := by rw [kept_eq]

@[simp] theorem text_kept (e : Element) : (e.kept names).text = e.text := by rw [kept_eq]

@[simp] theorem scope_kept (e : Element) : (e.kept names).scope = e.scope := by rw [kept_eq]

@[simp] theorem children_kept (e : Element) : (e.kept names).children = e.children.map (kept names) := by rw [kept_eq]

theorem attributes_kept (e : Element) : (e.kept names).attributes = keptAttributes names e := by rw [kept_eq]

theorem get?_foldl_insert {g : String → Option String} (names : List String) (m : OrderedMap String String)
    (name : String) : ((names.filterMap fun n => (g n).map (n,·)).foldl (fun m e => m.insert e.1 e.2) m).get? name =
      (if name ∈ names then g name else none).or (m.get? name) := by
  induction names generalizing m with
  | nil => simp
  | cons n names ih =>
    cases hn : g n with
    | none =>
      simp only [List.filterMap_cons,hn,Option.map_none,ih,List.mem_cons]
      by_cases hname : name = n
      · subst hname
        simp [hn]
      · simp [hname]
    | some v =>
      simp only [List.filterMap_cons,hn,Option.map_some,List.foldl_cons,ih,OrderedMap.get?_insert,List.mem_cons]
      by_cases hname : name = n
      · subst hname
        by_cases hmem : name ∈ names <;> simp [hmem,hn]
      · simp [hname]

theorem attribute?_kept {e : Element} {name : String} (h : name ∈ names e.name) :
    (e.kept names).attribute? name = e.attribute? name := by
  have hempty : (OrderedMap.empty : OrderedMap String String).get? name = none := rfl
  rw [attribute?,attributes_kept,keptAttributes,OrderedMap.ofList,get?_foldl_insert,if_pos h,hempty,Option.or_none]

theorem preservesRead_kept : PreservesRead (kept attributesRead) where
  name := name_kept
  text := text_kept
  attribute? := attribute?_kept
  children := children_kept

theorem preservesUnlocated_kept : PreservesUnlocated (kept attributesUnlocated) where
  name := name_kept
  text := text_kept
  attribute? := attribute?_kept
  children := children_kept

end Element
end Xml

open Xml.Element

/-- A schema is read from the attributes that are kept. -/
theorem Schema.ofElement_kept (r : Reading) (e : Xml.Element) : ofElement r (e.kept attributesRead) = ofElement r e := by
  have hscope : ofElement r e = (ofElement r e).map (declaring e.scope) := ofElement_preserved preservesRead_id r e
  rw [ofElement_preserved preservesRead_kept,scope_kept,← hscope]

end SchemaBinding
