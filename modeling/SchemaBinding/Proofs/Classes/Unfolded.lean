import Mathlib.Logic.Relation
import SchemaBinding.Proofs.Classes.Inlining
import SchemaBinding.Proofs.Classes.Reduced

/-! Fields in the place of references, found without levels. A reference is followed into the group that it finds, unless
that group is underway, and each reference on the way to a field leaves its mark on it.
Main statement: this comes to an end whatever the groups refer to, it leaves no reference in any class, and where the
groups that are reached are known and lead in no circle, nothing is left out: the fields of a class are the leaves of its
references, in order, with the marks of all references that lead to them. -/
namespace SchemaBinding
namespace Simplify

variable {cs : List Class} {seen : List GroupKey} {space : Option String} {fs : List Field}

/-! ## Following references -/

/-- What fields in a class of a namespace give way to while groups are underway. -/
inductive Expands (cs : List Class) : List GroupKey → Option String → List Field → List Field → Prop where
  | nil (seen : List GroupKey) (space : Option String) : Expands cs seen space [] []
  | plain {seen : List GroupKey} {space : Option String} {f : Field} {fs out : List Field} (plain : f.kind.isGroup = false)
      (rest : Expands cs seen space fs out) : Expands cs seen space (f :: fs) (f :: out)
  | unknown {seen : List GroupKey} {space : Option String} {f : Field} {fs out : List Field} (group : f.kind.isGroup)
      (found : found? cs space f.kind (Prefixed.localPart f.type) = none) (rest : Expands cs seen space fs out) :
      Expands cs seen space (f :: fs) out
  | circular {seen : List GroupKey} {space : Option String} {f : Field} {fs out : List Field} {d : Class}
      (group : f.kind.isGroup) (found : found? cs space f.kind (Prefixed.localPart f.type) = some d)
      (underway : keyOf d ∈ seen) (rest : Expands cs seen space fs out) : Expands cs seen space (f :: fs) out
  | reference {seen : List GroupKey} {space : Option String} {f : Field} {fs within out : List Field} {d : Class}
      (group : f.kind.isGroup) (found : found? cs space f.kind (Prefixed.localPart f.type) = some d)
      (new : keyOf d ∉ seen) (inner : Expands cs (keyOf d :: seen) d.space d.fields within)
      (rest : Expands cs seen space fs out) : Expands cs seen space (f :: fs) (within.map (takePlace f) ++ out)

theorem Expands.det {out other : List Field} (h : Expands cs seen space fs out) (h' : Expands cs seen space fs other) :
    out = other := by
  induction h generalizing other with
  | nil =>
    cases h'
    rfl
  | plain plain _ ih =>
    cases h' with
    | plain _ rest => rw [ih rest]
    | unknown group => exact absurd group (by simp [plain])
    | circular group => exact absurd group (by simp [plain])
    | reference group => exact absurd group (by simp [plain])
  | unknown group found _ ih =>
    cases h' with
    | plain plain => exact absurd group (by simp [plain])
    | unknown _ _ rest => exact ih rest
    | circular _ found' => cases found.symm.trans found'
    | reference _ found' => cases found.symm.trans found'
  | circular group found underway _ ih =>
    cases h' with
    | plain plain => exact absurd group (by simp [plain])
    | unknown _ found' => cases found.symm.trans found'
    | circular _ _ _ rest => exact ih rest
    | reference _ found' new =>
      cases found.symm.trans found'
      exact absurd underway new
  | reference group found new _ _ ihinner ihrest =>
    cases h' with
    | plain plain => exact absurd group (by simp [plain])
    | unknown _ found' => cases found.symm.trans found'
    | circular _ found' underway =>
      cases found.symm.trans found'
      exact absurd underway new
    | reference _ found' _ inner rest =>
      cases found.symm.trans found'
      rw [ihinner inner,ihrest rest]

/-- The induction is on how many groups are not yet underway, and then on the fields. -/
theorem expands_standsFor (h : Underway (definitions cs) seen) (space : Option String) (fs : List Field) :
    Expands cs seen space fs (fs.flatMap (standsFor (definitions cs) seen space)) := by
  induction hleft : (definitions cs).size - seen.length using Nat.strong_induction_on generalizing seen space fs with
  | _ left ih =>
    induction fs with
    | nil => exact .nil seen space
    | cons f fs ihfs =>
      rw [List.flatMap_cons]
      cases hkind : f.kind.isGroup with
      | false =>
        rw [standsFor_of_not_isGroup hkind]
        exact .plain hkind ihfs
      | true =>
        have hlookup := lookup_definitions hkind cs space
        cases hfound : found? cs space f.kind (Prefixed.localPart f.type) with
        | none =>
          rw [standsFor_of_lookup_eq_none hkind (hlookup.trans hfound)]
          exact .unknown hkind hfound ihfs
        | some d =>
          rw [standsFor_of_lookup h hkind (hlookup.trans hfound)]
          split
          · exact .circular hkind hfound ‹_› ihfs
          · rename_i hnew
            have hknown := mem_keys_of_lookup (hlookup.trans hfound)
            have hlength := h.length_lt hnew hknown
            refine .reference hkind hfound hnew (ih _ ?_ (h.cons hnew hknown) d.space d.fields rfl) ihfs
            -- With one group more underway, one fewer is left.
            rw [List.length_cons]
            omega

theorem fields_inlineGroups (ds : Definitions) (c : Class) :
    (inlineGroups ds c).fields = c.fields.flatMap (standsFor ds [] c.space) := by
  rw [inlineGroups_eq,← expanded_eq]

theorem expands_iff (c : Class) (out : List Field) :
    Expands cs [] c.space c.fields out ↔ (inlineGroups (definitions cs) c).fields = out := by
  have hall : Expands cs [] c.space c.fields _ := expands_standsFor .nil c.space c.fields
  rw [← fields_inlineGroups] at hall
  constructor
  · exact hall.det
  · rintro rfl
    exact hall

/-! ## Leaves of references -/

/-- The fields that references lead to if nothing is underway and all is known: each with the references on the way to
it, the outermost first. -/
inductive Unfolding (cs : List Class) : Option String → List Field → List (List Field × Field) → Prop where
  | nil (space : Option String) : Unfolding cs space [] []
  | leaf {space : Option String} {f : Field} {fs : List Field} {leaves : List (List Field × Field)}
      (plain : f.kind.isGroup = false) (rest : Unfolding cs space fs leaves) :
      Unfolding cs space (f :: fs) (([],f) :: leaves)
  | reference {space : Option String} {f : Field} {fs : List Field} {within leaves : List (List Field × Field)} {d : Class}
      (group : f.kind.isGroup) (found : found? cs space f.kind (Prefixed.localPart f.type) = some d)
      (inner : Unfolding cs d.space d.fields within) (rest : Unfolding cs space fs leaves) :
      Unfolding cs space (f :: fs) (within.map (fun l => (f :: l.1,l.2)) ++ leaves)

theorem Unfolding.det {leaves other : List (List Field × Field)} (h : Unfolding cs space fs leaves)
    (h' : Unfolding cs space fs other) : leaves = other := by
  induction h generalizing other with
  | nil =>
    cases h'
    rfl
  | leaf plain _ ih =>
    cases h' with
    | leaf _ rest => rw [ih rest]
    | reference group => exact absurd group (by simp [plain])
  | reference group found _ _ ihinner ihrest =>
    cases h' with
    | leaf plain => exact absurd group (by simp [plain])
    | reference _ found' inner rest =>
      cases found.symm.trans found'
      rw [ihinner inner,ihrest rest]

/-- A field with the marks of the references that lead to it. -/
def marked (references : List Field) (f : Field) : Field :=
  { f with
    occurs :=
      { min := if ∃ r ∈ references, r.occurs.min = some 0 then some 0 else f.occurs.min
        max := if ∃ r ∈ references, r.isList then some unbounded else f.occurs.max }
    required := if ∃ r ∈ references, r.occurs.min = some 0 then none else f.required }

theorem marked_nil (f : Field) : marked [] f = f := by simp [marked]

theorem marked_cons (r : Field) (references : List Field) (f : Field) :
    marked (r :: references) f = takePlace r (marked references f) := by
  by_cases hmin : r.occurs.min = some 0 <;> by_cases hmax : r.isList <;> simp [marked,takePlace,hmin,hmax]

/-- A class has a reference to a group. -/
def HoldsGroup (cs : List Class) (c d : Class) : Prop :=
  ∃ f ∈ c.fields, f.kind.isGroup ∧ found? cs c.space f.kind (Prefixed.localPart f.type) = some d

/-- A class whose references, and those of all groups that are reached from it, are to known groups and lead in no
circle. -/
structure Unfoldable (cs : List Class) (c : Class) : Prop where
  known : ∀ d, Relation.ReflTransGen (HoldsGroup cs) c d → ∀ f ∈ d.fields, f.kind.isGroup →
    (found? cs d.space f.kind (Prefixed.localPart f.type)).isSome
  acyclic : ∀ d, Relation.ReflTransGen (HoldsGroup cs) c d → ¬ Relation.TransGen (HoldsGroup cs) d d

/-- A class is the only group of its key that references find. -/
theorem get?_of_found? {f : Field} (hgroup : f.kind.isGroup) {d : Class}
    (h : found? cs space f.kind (Prefixed.localPart f.type) = some d) : (definitions cs).get? (keyOf d) = some d := by
  rw [← lookup_definitions hgroup] at h
  obtain ⟨k,hk⟩ := OrderedMap.mem_values.mp (lookup_mem_values h)
  have hkey : keyOf d = k := OrderedMap.key_of_mem_firsts (OrderedMap.get?_eq_some_iff.mp hk)
  rwa [hkey]

/-- A class that is reached by way of the groups that are underway. -/
structure OnTheWay (cs : List Class) (c : Class) (seen : List GroupKey) (d : Class) : Prop where
  reached : Relation.ReflTransGen (HoldsGroup cs) c d
  underway : ∀ k ∈ seen, ∃ b, (definitions cs).get? k = some b ∧ Relation.ReflTransGen (HoldsGroup cs) b d

namespace OnTheWay
variable {c d e : Class} (h : OnTheWay cs c seen d)
include h

theorem next {f : Field} (hf : f ∈ d.fields) (hgroup : f.kind.isGroup)
    (hfound : found? cs d.space f.kind (Prefixed.localPart f.type) = some e) : OnTheWay cs c (keyOf e :: seen) e where
  reached := h.reached.tail ⟨f,hf,hgroup,hfound⟩
  underway := by
    refine List.forall_mem_cons.mpr ⟨⟨e,get?_of_found? hgroup hfound,.refl⟩,fun k hk => ?_⟩
    obtain ⟨b,hb,hreaches⟩ := h.underway k hk
    exact ⟨b,hb,hreaches.tail ⟨f,hf,hgroup,hfound⟩⟩

/-- Where nothing leads in a circle, no reference is to a group that is underway. -/
theorem not_mem (hc : Unfoldable cs c) {f : Field} (hf : f ∈ d.fields) (hgroup : f.kind.isGroup)
    (hfound : found? cs d.space f.kind (Prefixed.localPart f.type) = some e) : keyOf e ∉ seen := by
  intro hmem
  obtain ⟨b,hb,hreaches⟩ := h.underway _ hmem
  obtain rfl : b = e := Option.some.inj (hb.symm.trans (get?_of_found? hgroup hfound))
  have hholds : HoldsGroup cs d b := ⟨f,hf,hgroup,hfound⟩
  exact hc.acyclic b (h.reached.tail hholds) (.tail' hreaches hholds)

end OnTheWay

/-- The induction is on how references give way; the groups that are underway lead to the class that holds the fields. -/
theorem exists_unfolding {c : Class} (hc : Unfoldable cs c) {out : List Field} (h : Expands cs seen space fs out) {d : Class}
    (hspace : d.space = space) (hfields : fs ⊆ d.fields) (hd : OnTheWay cs c seen d) :
    ∃ leaves, Unfolding cs space fs leaves ∧ out = leaves.map fun l => marked l.1 l.2 := by
  induction h generalizing d with
  | nil => exact ⟨[],.nil _,rfl⟩
  | plain plain _ ih =>
    obtain ⟨_,hrest⟩ := List.cons_subset.mp hfields
    obtain ⟨leaves,hleaves,rfl⟩ := ih hspace hrest hd
    exact ⟨_,.leaf plain hleaves,by simp [marked_nil]⟩
  | unknown group found =>
    subst hspace
    have hknown := hc.known d hd.reached _ (hfields List.mem_cons_self) group
    simp [found] at hknown
  | circular group found underway =>
    subst hspace
    exact absurd underway (hd.not_mem hc (hfields List.mem_cons_self) group found)
  | reference group found _ _ _ ihinner ihrest =>
    subst hspace
    obtain ⟨hf,hrest⟩ := List.cons_subset.mp hfields
    obtain ⟨within,hwithin,rfl⟩ := ihinner rfl (List.Subset.refl _) (hd.next hf group found)
    obtain ⟨leaves,hleaves,rfl⟩ := ihrest rfl hrest hd
    refine ⟨_,.reference group found hwithin hleaves,?_⟩
    simp [marked_cons,Function.comp_def]

/-- Following references comes to an end for every class, whatever the groups are. The classes that stay, at every depth,
are the given ones with what their references give way to, merged, and they have no references. If the groups that a class
reaches are known and lead in no circle, its fields before they are merged are the leaves of its references, with the marks
of the references that lead to them. -/
theorem classes_unfolded (cs : List Class) :
    (∀ c out, Expands cs [] c.space c.fields out ↔ (inlineGroups (definitions cs) c).fields = out) ∧
    Class.Everywhere (fun d => (∀ f ∈ d.fields, f.kind.isGroup = false) ∧
      ∃ b ∈ cs, ∃ c, c.Within b ∧ d = mergeRepeated (inlineGroups (definitions cs) c)) (classes cs) ∧
    ∀ c, Unfoldable cs c → (∃ leaves, Unfolding cs c.space c.fields leaves) ∧
      ∀ leaves, Unfolding cs c.space c.fields leaves →
        (inlineGroups (definitions cs) c).fields = leaves.map fun l => marked l.1 l.2 := by
  refine ⟨expands_iff,?_,fun c hc => ?_⟩
  · rw [classes_eq_map,Class.everywhere_map (inner_simplified _)]
    intro b hb c hwithin
    have hmem : b ∈ cs := (List.mem_filter.mp (mem_of_mem_distinct hb)).1
    exact ⟨(simple_simplified _ c).plain,b,hmem,c,hwithin,rfl⟩
  · obtain ⟨leaves,hleaves,heq⟩ :=
      exists_unfolding hc ((expands_iff c _).mpr rfl) rfl (List.Subset.refl _) ⟨.refl,by simp⟩
    refine ⟨⟨leaves,hleaves⟩,fun other hother => ?_⟩
    rw [hother.det hleaves,heq]

def leafField : Field := { name := "x", type := "string", kind := .element, required := some true }

def innerGroup : Class := { name := "h", kind := .group, isRoot := false, fields := [leafField] }

def innerReference : Field := { name := "h", type := "h", kind := .group, occurs := { max := some 2 } }

def outerGroup : Class := { name := "g", kind := .group, isRoot := false, fields := [innerReference] }

def outerReference : Field := { name := "g", type := "g", kind := .group, occurs := { min := some 0 } }

def referringClass : Class := { name := "c", kind := .complexType, isRoot := true, fields := [outerReference] }

def nestedGroups : List Class := [referringClass,innerGroup,outerGroup]

theorem holdsGroup_iff_of_singleton {c d e : Class} {f : Field} (hfields : c.fields = [f]) (hgroup : f.kind.isGroup)
    (hfound : found? cs c.space f.kind (Prefixed.localPart f.type) = some e) : HoldsGroup cs c d ↔ d = e := by
  constructor
  · rintro ⟨g,hg,-,hd⟩
    rw [hfields,List.mem_singleton] at hg
    subst hg
    exact Option.some.inj (hd.symm.trans hfound)
  · rintro rfl
    exact ⟨f,by simp [hfields],hgroup,hfound⟩

theorem holdsGroup_referringClass {d : Class} : HoldsGroup nestedGroups referringClass d ↔ d = outerGroup :=
  holdsGroup_iff_of_singleton rfl rfl rfl

theorem holdsGroup_outerGroup {d : Class} : HoldsGroup nestedGroups outerGroup d ↔ d = innerGroup :=
  holdsGroup_iff_of_singleton rfl rfl rfl

theorem not_holdsGroup_innerGroup {d : Class} : ¬ HoldsGroup nestedGroups innerGroup d := by
  simp [HoldsGroup,innerGroup,leafField,Kind.isGroup]

theorem unfoldable_referringClass : Unfoldable nestedGroups referringClass := by
  have hreached (d : Class) (h : Relation.ReflTransGen (HoldsGroup nestedGroups) referringClass d) :
      d = referringClass ∨ d = outerGroup ∨ d = innerGroup := by
    induction h with
    | refl => exact .inl rfl
    | tail _ h ih =>
      rcases ih with rfl | rfl | rfl
      · exact .inr (.inl (holdsGroup_referringClass.mp h))
      · exact .inr (.inr (holdsGroup_outerGroup.mp h))
      · exact absurd h not_holdsGroup_innerGroup
  have hend (d : Class) (h : Relation.ReflTransGen (HoldsGroup nestedGroups) innerGroup d) : d = innerGroup := by
    rcases Relation.ReflTransGen.cases_head h with h | ⟨e,h,_⟩
    · exact h.symm
    · exact absurd h not_holdsGroup_innerGroup
  constructor
  · intro d hd f hf hgroup
    rcases hreached d hd with rfl | rfl | rfl
    · obtain rfl := List.mem_singleton.mp hf
      rfl
    · obtain rfl := List.mem_singleton.mp hf
      rfl
    · obtain rfl := List.mem_singleton.mp hf
      cases hgroup
  · intro d hd hcircle
    obtain ⟨e,he,hback⟩ := Relation.TransGen.head'_iff.mp hcircle
    rcases hreached d hd with rfl | rfl | rfl
    · obtain rfl := holdsGroup_referringClass.mp he
      rcases Relation.ReflTransGen.cases_head hback with h | ⟨e,h,hrest⟩
      · cases congrArg Class.isRoot h
      · obtain rfl := holdsGroup_outerGroup.mp h
        cases congrArg Class.isRoot (hend _ hrest)
    · obtain rfl := holdsGroup_outerGroup.mp he
      exact absurd (congrArg Class.name (hend _ hback)) (by decide)
    · exact not_holdsGroup_innerGroup he

theorem classes_unfolded_nestedGroups : Unfoldable nestedGroups referringClass ∧
    Unfolding nestedGroups none [outerReference] [([outerReference,innerReference],leafField)] ∧
    (inlineGroups (definitions nestedGroups) referringClass).fields =
      [{ leafField with occurs := ⟨some 0,some unbounded⟩, required := none }] := by
  have hleaf : Unfolding nestedGroups none [leafField] [([],leafField)] := .leaf rfl (.nil none)
  have hinner : Unfolding nestedGroups none [innerReference] [([innerReference],leafField)] :=
    .reference (d:=innerGroup) rfl rfl hleaf (.nil none)
  have houter : Unfolding nestedGroups none [outerReference] [([outerReference,innerReference],leafField)] :=
    .reference (d:=outerGroup) rfl rfl hinner (.nil none)
  have hfields := ((classes_unfolded nestedGroups).2.2 referringClass unfoldable_referringClass).2 _ houter
  refine ⟨unfoldable_referringClass,houter,hfields.trans ?_⟩
  decide +kernel

end Simplify
end SchemaBinding
