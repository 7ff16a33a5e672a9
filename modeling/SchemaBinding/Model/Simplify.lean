import SchemaBinding.Model.Class
import SchemaBinding.OrderedMap

/-! Classes made simpler: references to groups give way to the fields of the groups, repeated fields become
lists, and of classes that mean the same only the first stays. -/
namespace SchemaBinding
namespace Simplify

/-! ## Groups -/

structure GroupKey where
  kind : Kind
  space : Option String
  name : String
deriving Repr, DecidableEq

def keyOf (c : Class) : GroupKey := ⟨c.kind,c.space,c.name⟩

abbrev Definitions := OrderedMap GroupKey Class

/-- The groups among classes; the first of a key counts. -/
def definitions (cs : List Class) : Definitions := .firsts keyOf (cs.filter (·.kind.isGroup))

/-- The group a field refers to, preferably one in the same namespace. -/
def lookup (ds : Definitions) (space : Option String) (f : Field) : Option Class :=
  let name := Prefixed.localPart f.type
  (ds.get? ⟨f.kind,space,name⟩).or
    ((ds.entries.find? fun e => e.1.kind = f.kind && e.1.name = name).map Prod.snd)

/-- What a field becomes in the place of a reference: it takes over that the reference can be left out or
repeated. -/
def takePlace (reference f : Field) : Field :=
  let f := if reference.occurs.min = some 0 then
      { f with occurs := { f.occurs with min := some 0 }, required := none }
    else f
  if reference.isList then { f with occurs := { f.occurs with max := some unbounded } } else f

/-- The fields that a field stands for. A group within itself stands for nothing, so there are no more
levels than groups. -/
def expand (ds : Definitions) : Nat → List GroupKey → Option String → Field → List Field
  | 0, _, _, f => if f.kind.isGroup then [] else [f]
  | levels + 1, seen, space, f =>
    if !f.kind.isGroup then [f]
    else match lookup ds space f with
      | none => []
      | some d =>
        if keyOf d ∈ seen then []
        else (d.fields.flatMap (expand ds levels (keyOf d :: seen) d.space)).map (takePlace f)

/-- What the fields of a class stand for. -/
def expanded (ds : Definitions) (c : Class) : List Field := c.fields.flatMap (expand ds ds.size [] c.space)

mutual

/-- A class without references to groups. -/
def inlineGroups (ds : Definitions) : Class → Class
  | c@{ inner, .. } => { c with fields := expanded ds c, inner := inlineAll ds inner }

def inlineAll (ds : Definitions) : List Class → List Class
  | [] => []
  | c :: rest => inlineGroups ds c :: inlineAll ds rest

end

theorem inlineAll_eq_map (ds : Definitions) (cs : List Class) : inlineAll ds cs = cs.map (inlineGroups ds) := by
  induction cs with
  | nil => rfl
  | cons c cs ih => rw [inlineAll,ih,List.map_cons]

/-! ## Fields -/

/-- Fields that count as one. Members of enumerations are told apart by their values. -/
structure FieldKey where
  name : String
  kind : Kind
  detail : Option String
deriving Repr, DecidableEq

def fieldKey (f : Field) : FieldKey :=
  ⟨f.name,f.kind,if f.isEnumeration then f.default else f.space⟩

/-- A field that occurs once more, as `again`. -/
def repeated (f again : Field) : Field :=
  let f := { f with occurs := { f.occurs with max := some unbounded } }
  if again.occurs.min = some 0 then { f with occurs := { f.occurs with min := some 0 }, required := none } else f

def mergeField (m : OrderedMap FieldKey Field) (f : Field) : OrderedMap FieldKey Field :=
  if !m.contains (fieldKey f) then m.insertNew (fieldKey f) f
  else if f.isEnumeration then m
  else m.adjust (fieldKey f) (repeated · f)

/-- Puts fields that count as one in the place of the first of them. -/
def mergeFields (fs : List Field) : List Field := (fs.foldl mergeField {}).values

mutual

def mergeRepeated : Class → Class
  | c@{ fields, inner, .. } => { c with fields := mergeFields fields, inner := mergeAll inner }

def mergeAll : List Class → List Class
  | [] => []
  | c :: rest => mergeRepeated c :: mergeAll rest

end

theorem mergeAll_eq_map (cs : List Class) : mergeAll cs = cs.map mergeRepeated := by
  induction cs with
  | nil => rfl
  | cons c cs ih => rw [mergeAll,ih,List.map_cons]

/-! ## Classes -/

/-- Classes that mean the same. -/
structure ClassKey where
  package : Option String
  space : Option String
  name : String
  kind : Kind
deriving Repr, DecidableEq

def classKey (c : Class) : ClassKey := ⟨c.package,c.space,c.name,c.kind⟩

/-- The first class of each key. -/
def distinct (cs : List Class) : List Class := (OrderedMap.firsts classKey cs).values

def classes (cs : List Class) : List Class :=
  let ds := definitions cs
  ((distinct ((cs.filter fun c => !c.kind.isGroup).map (inlineGroups ds))).map mergeRepeated)

end Simplify
end SchemaBinding
