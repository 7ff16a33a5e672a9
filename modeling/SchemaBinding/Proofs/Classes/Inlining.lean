import Mathlib.Data.List.Find
import SchemaBinding.Proofs.Classes.Simplified

/-! What references to groups give way to, without regard to levels. There are as many levels as groups, and a group that is
underway stands for nothing in itself, so levels never run out before groups do.
Main statement: a reference gives way to the fields of the group that it finds, where references give way in turn, or to
nothing if that group is underway; and it finds the first group of its name in the namespace of the class that holds it, or
else the first of its name in any. -/
namespace SchemaBinding
namespace Simplify

variable {cs : List Class}

/-! ## Finding groups -/

/-- The group that a reference in a class of a namespace is to. -/
def found? (cs : List Class) (space : Option String) (kind : Kind) (name : String) : Option Class :=
  (cs.find? (keyOf · = ⟨kind,space,name⟩)).or (cs.find? fun c => c.kind = kind && c.name = name)

theorem find?_entries_definitions {kind : Kind} (hkind : kind.isGroup) (cs : List Class) (name : String) :
    ((definitions cs).entries.find? fun e => e.1.kind = kind && e.1.name = name).map Prod.snd =
      cs.find? fun c => c.kind = kind && c.name = name := by
  have hvalues : ((definitions cs).entries.find? fun e => e.1.kind = kind && e.1.name = name).map Prod.snd =
      (definitions cs).values.find? fun c => c.kind = kind && c.name = name := by
    rw [OrderedMap.values,List.find?_map]
    congr 1
    refine List.find?_congr fun e he => ?_
    have hkey : keyOf e.2 = e.1 := OrderedMap.key_of_mem_firsts he
    rw [← hkey]
    rfl
  have htest (b c : Class) (hkey : keyOf b = keyOf c) :
      (decide (b.kind = kind) && decide (b.name = name)) = (decide (c.kind = kind) && decide (c.name = name)) := by
    rw [show b.kind = c.kind from congrArg GroupKey.kind hkey,show b.name = c.name from congrArg GroupKey.name hkey]
  rw [hvalues,definitions,OrderedMap.find?_values_firsts_of_key htest]
  refine find?_filter_of_imp (fun c hc => ?_) cs
  simp only [Bool.and_eq_true,decide_eq_true_eq] at hc
  rwa [hc.1]

theorem lookup_definitions {f : Field} (hgroup : f.kind.isGroup) (cs : List Class) (space : Option String) :
    lookup (definitions cs) space f = found? cs space f.kind (Prefixed.localPart f.type) := by
  simp only [lookup,get?_definitions (k:=⟨f.kind,space,Prefixed.localPart f.type⟩) hgroup,
    find?_entries_definitions hgroup,found?]

/-! ## Levels -/

/-- Groups that references are followed from: different ones, which are known. -/
structure Underway (ds : Definitions) (seen : List GroupKey) : Prop where
  nodup : seen.Nodup
  known : ∀ k ∈ seen, k ∈ ds.keys

/-- The fields that a field stands for while some groups are underway. -/
def standsFor (ds : Definitions) (seen : List GroupKey) (space : Option String) (f : Field) : List Field :=
  expand ds (ds.size - seen.length) seen space f

variable {ds : Definitions} {seen : List GroupKey}

theorem Underway.nil : Underway ds [] := ⟨.nil,by simp⟩

theorem Underway.cons (h : Underway ds seen) {k : GroupKey} (hnew : k ∉ seen) (hk : k ∈ ds.keys) :
    Underway ds (k :: seen) :=
  ⟨List.nodup_cons.mpr ⟨hnew,h.nodup⟩,List.forall_mem_cons.mpr ⟨hk,h.known⟩⟩

/-- Before the last group is underway, there is a level left. -/
theorem Underway.length_lt (h : Underway ds seen) {k : GroupKey} (hnew : k ∉ seen) (hk : k ∈ ds.keys) :
    seen.length < ds.size :=
  have hmore := h.cons hnew hk
  OrderedMap.length_le_size hmore.nodup hmore.known

theorem mem_keys_of_lookup {space : Option String} {f : Field} {d : Class} (h : lookup (definitions cs) space f = some d) :
    keyOf d ∈ (definitions cs).keys := by
  rw [definitions,← OrderedMap.map_values_firsts]
  exact List.mem_map_of_mem (lookup_mem_values h)

theorem standsFor_of_not_isGroup {f : Field} (h : f.kind.isGroup = false) (space : Option String) :
    standsFor ds seen space f = [f] :=
  expand_of_not_isGroup h _ _ _

theorem standsFor_of_lookup (h : Underway (definitions cs) seen) {space : Option String} {f : Field}
    (hgroup : f.kind.isGroup) {d : Class} (hlookup : lookup (definitions cs) space f = some d) :
    standsFor (definitions cs) seen space f = if keyOf d ∈ seen then [] else
      (d.fields.flatMap (standsFor (definitions cs) (keyOf d :: seen) d.space)).map (takePlace f) := by
  unfold standsFor
  by_cases hseen : keyOf d ∈ seen
  · rw [if_pos hseen]
    cases (definitions cs).size - seen.length with
    | zero => rw [expand,if_pos hgroup]
    | succ levels => simp [expand,hgroup,hlookup,hseen]
  · have hlength := h.length_lt hseen (mem_keys_of_lookup hlookup)
    obtain ⟨levels,hlevels⟩ : ∃ levels, (definitions cs).size - seen.length = levels + 1 :=
      ⟨(definitions cs).size - seen.length - 1,by omega⟩
    have hbelow : (definitions cs).size - (keyOf d :: seen).length = levels := by
      rw [List.length_cons]
      omega
    rw [hlevels,hbelow,expand]
    simp [hgroup,hlookup,hseen]

theorem standsFor_of_lookup_eq_none {space : Option String} {f : Field} (hgroup : f.kind.isGroup)
    (hlookup : lookup ds space f = none) : standsFor ds seen space f = [] := by
  unfold standsFor
  cases ds.size - seen.length with
  | zero => rw [expand,if_pos hgroup]
  | succ levels => simp [expand,hgroup,hlookup]

theorem expanded_eq (ds : Definitions) (c : Class) : expanded ds c = c.fields.flatMap (standsFor ds [] c.space) := rfl

end Simplify
end SchemaBinding
