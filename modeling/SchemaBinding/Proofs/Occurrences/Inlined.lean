import SchemaBinding.Proofs.Occurrences.Represents

/-! What references to groups give way to. Where each reference leads to one group and no reference leads back to
where it comes from, expansion finds every group that it looks for and never has to stop; so what it puts in the
place of a reference stands for the group. -/
namespace SchemaBinding
open ContentModel (Refers Represents Inlines FieldsOf slotsAll)

/-- Groups whose bounds are plain and in order, and whose references lead to one group each and in no circle. -/
structure GroupDefinitions.Regular (groups : GroupDefinitions) : Prop where
  written : ∀ name members, (name,members) ∈ groups → ∀ m ∈ members, ∀ p : ContentModel, p.Part m → p.written.Regular
  resolved : ∀ name members, (name,members) ∈ groups → ∀ m ∈ members, ∀ written reference,
    (ContentModel.group written reference).Part m → (groups.map Prod.fst).count reference = 1
  acyclic : ∀ reference, ¬ Relation.TransGen (Refers groups) reference reference

namespace GroupDefinitions
variable {groups : GroupDefinitions} {reference : String}

theorem exists_members (h : (groups.map Prod.fst).count reference = 1) : ∃ members, (reference,members) ∈ groups := by
  have hmem : reference ∈ groups.map Prod.fst := List.count_pos_iff.mp (by omega)
  obtain ⟨⟨_,members⟩,hg,rfl⟩ := List.mem_map.mp hmem
  exact ⟨members,hg⟩

/-- A name that is declared once stands for one group. -/
theorem members_eq (h : (groups.map Prod.fst).count reference = 1) {members others : List ContentModel}
    (hmembers : (reference,members) ∈ groups) (hothers : (reference,others) ∈ groups) : members = others := by
  have hlength : (groups.filter fun g => g.1 = reference).length = 1 := by
    rw [← h,List.count,List.countP_map,List.countP_eq_length_filter]
    simp only [Function.comp_def,beq_eq_decide]
  obtain ⟨only,honly⟩ := List.length_eq_one_iff.mp hlength
  have hfound : ∀ others, (reference,others) ∈ groups → (reference,others) = only := by
    intro others hg
    have hmem : (reference,others) ∈ groups.filter fun g => g.1 = reference := List.mem_filter.mpr ⟨hg,by simp⟩
    rwa [honly,List.mem_singleton] at hmem
  exact congrArg Prod.snd ((hfound members hmembers).trans (hfound others hothers).symm)

end GroupDefinitions

namespace Simplify

/-- A reference to a group that is declared once finds a class with the fields for the content of the group. -/
def Declares (ds : Definitions) (space : Option String) (groups : GroupDefinitions) : Prop :=
  ∀ reference members, (groups.map Prod.fst).count reference = 1 → (reference,members) ∈ groups →
    ∃ d, ds.get? ⟨.group,space,reference⟩ = some d ∧ keyOf d = ⟨.group,space,reference⟩ ∧
      FieldsOf (slotsAll {} members) d.fields

variable {ds : Definitions} {space : Option String} {groups : GroupDefinitions}

theorem expand_group {f : Field} {d : Class} {seen : List GroupKey} (hkind : f.kind = .group)
    (hget : ds.get? ⟨.group,space,Prefixed.localPart f.type⟩ = some d) (hnew : keyOf d ∉ seen) (levels : Nat) :
    expand ds (levels + 1) seen space f =
      (d.fields.flatMap (expand ds levels (keyOf d :: seen) d.space)).map (takePlace f) := by
  have hlookup : lookup ds space f = some d := by
    simp only [lookup,hkind,hget,Option.some_or]
  have hgroup : f.kind.isGroup = true := by
    rw [hkind]
    rfl
  rw [expand,hlookup]
  simp only [hgroup,Bool.not_true,Bool.false_eq_true,if_false,if_neg hnew]

/-- The groups on the way to a reference: different ones, each of which leads to it. -/
structure Trail (ds : Definitions) (space : Option String) (groups : GroupDefinitions) (seen : List GroupKey)
    (reference : String) : Prop where
  nodup : seen.Nodup
  known : ∀ k ∈ seen, k ∈ ds.keys
  leads : ∀ k ∈ seen, ∃ name, k = ⟨.group,space,name⟩ ∧ Relation.TransGen (Refers groups) name reference

variable {seen : List GroupKey} {reference : String}

theorem Trail.nil : Trail ds space groups [] reference := ⟨.nil,by simp,by simp⟩

theorem Trail.cons (h : Trail ds space groups seen reference) (hnew : (⟨.group,space,reference⟩ : GroupKey) ∉ seen)
    (hknown : (⟨.group,space,reference⟩ : GroupKey) ∈ ds.keys) {next : String} (hnext : Refers groups reference next) :
    Trail ds space groups (⟨.group,space,reference⟩ :: seen) next where
  nodup := List.nodup_cons.mpr ⟨hnew,h.nodup⟩
  known := List.forall_mem_cons.mpr ⟨hknown,h.known⟩
  leads := by
    refine List.forall_mem_cons.mpr ⟨⟨reference,rfl,.single hnext⟩,fun k hk => ?_⟩
    obtain ⟨name,hname,hleads⟩ := h.leads k hk
    exact ⟨name,hname,hleads.tail hnext⟩

/-- A reference that leads back to no group is not on the way to itself. -/
theorem Trail.not_mem (h : Trail ds space groups seen reference)
    (hacyclic : ¬ Relation.TransGen (Refers groups) reference reference) :
    (⟨.group,space,reference⟩ : GroupKey) ∉ seen := by
  intro hmem
  obtain ⟨name,hname,hleads⟩ := h.leads _ hmem
  obtain rfl : reference = name := congrArg GroupKey.name hname
  exact hacyclic hleads

/-- Before the last group is seen, there is a level left. -/
theorem Trail.length_lt (h : Trail ds space groups seen reference) {k : GroupKey} (hnew : k ∉ seen) (hk : k ∈ ds.keys) :
    seen.length < ds.size :=
  OrderedMap.length_le_size (List.nodup_cons.mpr ⟨hnew,h.nodup⟩) (List.cons_subset.mpr ⟨hk,h.known⟩)

/-- What a reference gives way to stands for its group. The induction is on the levels that are left: there are as
many as groups that are not yet on the way. -/
theorem exists_expand (hds : Declares ds space groups) (hgroups : groups.Regular) (levels : Nat) :
    ∀ (seen : List GroupKey) (reference : String), levels + seen.length = ds.size →
      Trail ds space groups seen reference → (groups.map Prod.fst).count reference = 1 →
      ∀ f : Field, f.kind = .group → Prefixed.localPart f.type = reference →
        ∃ fs, expand ds levels seen space f = fs.map (takePlace f) ∧
          ∀ members, (reference,members) ∈ groups → Represents groups fs members := by
  induction levels with
  | zero =>
    intro seen reference hlevels htrail honce f hkind hreference
    obtain ⟨members,hmembers⟩ := GroupDefinitions.exists_members honce
    obtain ⟨d,hget,_,_⟩ := hds reference members honce hmembers
    have hknown : (⟨.group,space,reference⟩ : GroupKey) ∈ ds.keys := OrderedMap.isSome_get?.mp (by rw [hget]; rfl)
    have hlength := htrail.length_lt (htrail.not_mem (hgroups.acyclic reference)) hknown
    omega
  | succ levels ih =>
    intro seen reference hlevels htrail honce f hkind hreference
    obtain ⟨members,hmembers⟩ := GroupDefinitions.exists_members honce
    obtain ⟨d,hget,hkey,hfields⟩ := hds reference members honce hmembers
    have hknown : (⟨.group,space,reference⟩ : GroupKey) ∈ ds.keys := OrderedMap.isSome_get?.mp (by rw [hget]; rfl)
    have hnew := htrail.not_mem (hgroups.acyclic reference)
    have hspace : d.space = space := congrArg GroupKey.space hkey
    refine ⟨_,expand_group hkind (by rwa [hreference]) (by rwa [hkey]) levels,fun others hothers => ?_⟩
    obtain rfl := GroupDefinitions.members_eq honce hmembers hothers
    rw [hkey,hspace]
    refine ContentModel.represents hfields (fun m hm => ⟨?_,?_⟩) (hgroups.written reference members hmembers)
    · exact fun f hf => expand_of_not_isGroup hf _ _ _
    · intro written next hpart
      have hrefers : Refers groups reference next := ⟨members,hmembers,m,hm,written,hpart⟩
      refine ih _ next ?_ (htrail.cons hnew hknown hrefers) (hgroups.resolved reference members hmembers m hm _ _ hpart)
      rw [List.length_cons]
      omega

/-- The fields for content models stand for them when references to groups have given way. -/
theorem represents_expand (hds : Declares ds space groups) (hgroups : groups.Regular) {ms : List ContentModel}
    {fs : List Field} (hfs : FieldsOf (slotsAll {} ms) fs)
    (hwritten : ∀ m ∈ ms, ∀ p : ContentModel, p.Part m → p.written.Regular)
    (hresolved : ∀ m ∈ ms, ∀ written reference, (ContentModel.group written reference).Part m →
      (groups.map Prod.fst).count reference = 1) :
    Represents groups (fs.flatMap (expand ds ds.size [] space)) ms := by
  refine ContentModel.represents hfs (fun m hm => ⟨?_,?_⟩) hwritten
  · exact fun f hf => expand_of_not_isGroup hf _ _ _
  · intro written reference hpart
    exact exists_expand hds hgroups ds.size [] reference rfl .nil (hresolved m hm written reference hpart)

end Simplify
end SchemaBinding
