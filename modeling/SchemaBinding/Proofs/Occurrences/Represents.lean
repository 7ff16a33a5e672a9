import SchemaBinding.Proofs.Occurrences.Fits

/-! Fields that stand for content models: they fit what the content models admit, and there is one for each name
there. Main statement: the fields for the slots of content models stand for them, once those that refer to groups have
given way to fields that stand for the groups. -/
namespace SchemaBinding
namespace ContentModel
variable {groups : GroupDefinitions}

/-! ## Sequences of children, taken apart -/

/-- The occurrences that a content model admits again and again, one by one, with their numbers. -/
theorem exists_occurrences {m : ContentModel} {ws : List (List (Option String))} (h : ∀ w ∈ ws, Admits groups m w) :
    ∃ (cs : List (List (Option String))) (counts : List Nat), cs.flatten = ws.flatten ∧ (∀ c ∈ cs, Once groups m c) ∧
      cs.length = counts.sum ∧ counts.length = ws.length ∧
      (∀ k ∈ counts, Written.bound m.written.min ≤ (k : ℕ∞)) ∧
      ∀ k ∈ counts, (k : ℕ∞) ≤ Written.bound m.written.max := by
  induction ws with
  | nil => exact ⟨[],[],rfl,by simp,rfl,rfl,by simp,by simp⟩
  | cons w ws ih =>
    obtain ⟨hw,hrest⟩ := List.forall_mem_cons.mp h
    obtain ⟨cs,counts,hflatten,honce,hlength,hcounts,hleast,hmost⟩ := ih hrest
    cases hw with
    | @repeated _ vs hmin hmax hvs =>
      refine ⟨vs ++ cs,vs.length :: counts,?_,?_,?_,?_,?_,?_⟩
      · rw [List.flatten_append,List.flatten_cons,hflatten]
      · exact List.forall_mem_append.mpr ⟨hvs,honce⟩
      · rw [List.length_append,hlength,List.sum_cons]
      · rw [List.length_cons,List.length_cons,hcounts]
      · exact List.forall_mem_cons.mpr ⟨hmin,hleast⟩
      · exact List.forall_mem_cons.mpr ⟨hmax,hmost⟩

/-- Sequences of children in turn come apart into what the first content model admits and the rest. -/
theorem exists_split_inTurn {m : ContentModel} {ms : List ContentModel} {cs : List (List (Option String))}
    (h : ∀ c ∈ cs, InTurn groups (m :: ms) c) :
    ∃ us vs : List (List (Option String)), (us.flatten ++ vs.flatten).Perm cs.flatten ∧ us.length = cs.length ∧
      vs.length = cs.length ∧ (∀ u ∈ us, Admits groups m u) ∧ ∀ v ∈ vs, InTurn groups ms v := by
  induction cs with
  | nil => exact ⟨[],[],.nil,rfl,rfl,by simp,by simp⟩
  | cons c cs ih =>
    obtain ⟨hc,hrest⟩ := List.forall_mem_cons.mp h
    obtain ⟨us,vs,hperm,hus,hvs,hadmits,hturn⟩ := ih hrest
    cases hc with
    | @cons _ _ u v hu hv =>
      refine ⟨u :: us,v :: vs,?_,?_,?_,List.forall_mem_cons.mpr ⟨hu,hadmits⟩,List.forall_mem_cons.mpr ⟨hv,hturn⟩⟩
      · have hswap := List.perm_append_comm_assoc us.flatten v vs.flatten
        simp only [List.flatten_cons,List.append_assoc]
        exact (hswap.trans (hperm.append_left v)).append_left u
      · rw [List.length_cons,List.length_cons,hus]
      · rw [List.length_cons,List.length_cons,hvs]

/-- Sequences of children that one of several content models admits are those of the first and those of others. -/
theorem exists_split_choice {m : ContentModel} {ms : List ContentModel} {cs : List (List (Option String))}
    (h : ∀ c ∈ cs, ∃ p ∈ m :: ms, Admits groups p c) :
    ∃ us vs : List (List (Option String)), (us.flatten ++ vs.flatten).Perm cs.flatten ∧
      us.length + vs.length = cs.length ∧ (∀ u ∈ us, Admits groups m u) ∧ ∀ v ∈ vs, ∃ p ∈ ms, Admits groups p v := by
  induction cs with
  | nil => exact ⟨[],[],.nil,rfl,by simp,by simp⟩
  | cons c cs ih =>
    obtain ⟨⟨p,hp,hc⟩,hrest⟩ := List.forall_mem_cons.mp h
    obtain ⟨us,vs,hperm,hlength,hadmits,hothers⟩ := ih hrest
    rcases List.mem_cons.mp hp with rfl | hp
    · refine ⟨c :: us,vs,?_,?_,List.forall_mem_cons.mpr ⟨hc,hadmits⟩,hothers⟩
      · simp only [List.flatten_cons,List.append_assoc]
        exact hperm.append_left c
      · rw [List.length_cons,List.length_cons,← hlength]
        omega
    · refine ⟨us,c :: vs,?_,?_,hadmits,List.forall_mem_cons.mpr ⟨⟨p,hp,hc⟩,hothers⟩⟩
      · have hswap := List.perm_append_comm_assoc us.flatten c vs.flatten
        rw [List.flatten_cons,List.flatten_cons]
        exact hswap.trans (hperm.append_left c)
      · rw [List.length_cons,List.length_cons,← hlength]
        omega

/-- Sequences of children in any order are those in turn, put in another order. -/
theorem exists_inTurn_of_all {written : Written} {members : List ContentModel} {cs : List (List (Option String))}
    (h : ∀ c ∈ cs, Once groups (compositor written .all members) c) :
    ∃ vs : List (List (Option String)), vs.flatten.Perm cs.flatten ∧ vs.length = cs.length ∧
      ∀ v ∈ vs, InTurn groups members v := by
  induction cs with
  | nil => exact ⟨[],.nil,rfl,by simp⟩
  | cons c cs ih =>
    obtain ⟨hc,hrest⟩ := List.forall_mem_cons.mp h
    obtain ⟨vs,hperm,hlength,hturn⟩ := ih hrest
    cases hc with
    | @all _ _ v _ hv hvc =>
      refine ⟨v :: vs,?_,?_,List.forall_mem_cons.mpr ⟨hv,hturn⟩⟩
      · rw [List.flatten_cons,List.flatten_cons]
        exact hvc.append hperm
      · rw [List.length_cons,List.length_cons,hlength]

/-! ## Fields of content models -/

/-- Fields stand for content models: they fit what those admit, and there is one for each name there. -/
structure Represents (groups : GroupDefinitions) (fs : List Field) (ms : List ContentModel) : Prop where
  fits : ∀ w, InTurn groups ms w → Fits fs w
  named : ∀ m ∈ ms, ∀ name, Mentions groups name m → ∃ f ∈ fs, f.kind = .element ∧ f.name = name

/-- Fields for other things change nothing. -/
theorem Represents.surrounded {fs gs hs : List Field} {ms : List ContentModel} (h : Represents groups fs ms)
    (hgs : ∀ g ∈ gs, g.kind ≠ .element) (hhs : ∀ g ∈ hs, g.kind ≠ .element) :
    Represents groups (gs ++ fs ++ hs) ms where
  fits := by
    intro w hw
    have hbefore : Fits gs [] := .of_forall_eq_none hgs (by simp)
    have hafter : Fits hs [] := .of_forall_eq_none hhs (by simp)
    have hall := (hbefore.append (h.fits w hw)).append hafter
    rwa [List.nil_append,List.append_nil] at hall
  named := by
    intro m hm name hmentions
    obtain ⟨f,hf,hfound⟩ := h.named m hm name hmentions
    exact ⟨f,List.mem_append_left hs (List.mem_append_right gs hf),hfound⟩

/-- What fields give way to, if those that stand for references in a content model stand for the groups. -/
structure Inlines (groups : GroupDefinitions) (inline : Field → List Field) (m : ContentModel) : Prop where
  plain : ∀ f, f.kind.isGroup = false → inline f = [f]
  group : ∀ written reference, (ContentModel.group written reference).Part m → ∀ f, f.kind = .group →
    Prefixed.localPart f.type = reference → ∃ fs, inline f = fs.map (Simplify.takePlace f) ∧
      ∀ members, (reference,members) ∈ groups → Represents groups fs members

/-- The fields for the slots of a content model; what they are called is what they refer to. -/
structure FieldsOf (slots : List Slot) (fs : List Field) : Prop where
  slots : fs.map Field.slot = slots
  referring : ∀ f ∈ fs, f.kind = .group → Prefixed.localPart f.type = f.name

theorem FieldsOf.split {ss ts : List Slot} {fs : List Field} (h : FieldsOf (ss ++ ts) fs) :
    ∃ gs hs, fs = gs ++ hs ∧ FieldsOf ss gs ∧ FieldsOf ts hs := by
  obtain ⟨gs,hs,rfl,hgs,hhs⟩ := List.map_eq_append_iff.mp h.slots
  obtain ⟨hleft,hright⟩ := List.forall_mem_append.mp h.referring
  exact ⟨gs,hs,rfl,⟨hgs,hleft⟩,⟨hhs,hright⟩⟩

theorem FieldsOf.singleton {s : Slot} {fs : List Field} (h : FieldsOf [s] fs) :
    ∃ f, fs = [f] ∧ f.slot = s ∧ (f.kind = .group → Prefixed.localPart f.type = f.name) := by
  obtain ⟨f,rfl,hslot⟩ := List.map_eq_singleton_iff.mp h.slots
  exact ⟨f,rfl,hslot,h.referring f (List.mem_singleton_self f)⟩

variable {inline : Field → List Field}

theorem Inlines.member {written : Written} {kind : Compositor} {members : List ContentModel} {m : ContentModel}
    (h : Inlines groups inline (compositor written kind members)) (hm : m ∈ members) : Inlines groups inline m :=
  ⟨h.plain,fun written reference hpart => h.group written reference (.member hm hpart)⟩

/-- The fields of a content model fit what it admits in its surroundings, however often it is repeated there. -/
def FitsAll (groups : GroupDefinitions) (inline : Field → List Field) (a : Surroundings) (m : ContentModel) : Prop :=
  ∀ (fs : List Field) (ws : List (List (Option String))), FieldsOf (slots a m) fs → (∀ w ∈ ws, Admits groups m w) →
    a.Allows ws.length → Fits (fs.flatMap inline) ws.flatten

variable {a : Surroundings} {ms : List ContentModel}

theorem fits_inTurn (h : ∀ m ∈ ms, FitsAll groups inline a m) {fs : List Field} {cs : List (List (Option String))}
    (hfs : FieldsOf (slotsAll a ms) fs) (hcs : ∀ c ∈ cs, InTurn groups ms c) (hcount : a.Allows cs.length) :
    Fits (fs.flatMap inline) cs.flatten := by
  induction ms generalizing fs cs with
  | nil =>
    obtain rfl : fs = [] := List.map_eq_nil_iff.mp hfs.slots
    refine .of_forall_eq_none (by simp) fun x hx => ?_
    obtain ⟨c,hc,hmem⟩ := List.mem_flatten.mp hx
    cases hcs c hc
    cases hmem
  | cons m ms ih =>
    obtain ⟨hm,hrest⟩ := List.forall_mem_cons.mp h
    obtain ⟨gs,hs,rfl,hgs,hhs⟩ := hfs.split
    obtain ⟨us,vs,hperm,hus,hvs,hadmits,hturn⟩ := exists_split_inTurn hcs
    have hfirst := hm gs us hgs hadmits (hus ▸ hcount)
    have hothers := ih hrest hhs hturn (hvs ▸ hcount)
    rw [List.flatMap_append]
    exact (hfirst.append hothers).perm hperm

theorem fits_choice (h : ∀ m ∈ ms, FitsAll groups inline a m) {fs : List Field} {cs : List (List (Option String))}
    (hfs : FieldsOf (slotsAll a ms) fs) (hcs : ∀ c ∈ cs, ∃ m ∈ ms, Admits groups m c) (hoptional : a.optional)
    (hcount : a.Allows cs.length) : Fits (fs.flatMap inline) cs.flatten := by
  have hfewer : ∀ {n}, n ≤ cs.length → a.Allows n := fun hn =>
    ⟨fun hrequired => absurd hoptional (by simp [hrequired]),(Nat.cast_le.mpr hn).trans hcount.most⟩
  induction ms generalizing fs cs with
  | nil =>
    obtain rfl : fs = [] := List.map_eq_nil_iff.mp hfs.slots
    refine .of_forall_eq_none (by simp) fun x hx => ?_
    obtain ⟨c,hc,_⟩ := List.mem_flatten.mp hx
    obtain ⟨m,hm,_⟩ := hcs c hc
    cases hm
  | cons m ms ih =>
    obtain ⟨hm,hrest⟩ := List.forall_mem_cons.mp h
    obtain ⟨gs,hs,rfl,hgs,hhs⟩ := hfs.split
    obtain ⟨us,vs,hperm,hlength,hadmits,hothers⟩ := exists_split_choice hcs
    have hfirst := hm gs us hgs hadmits (hfewer (by omega))
    have hlast := ih hrest hhs hothers (hfewer (by omega)) fun hn => hfewer (by omega)
    rw [List.flatMap_append]
    exact (hfirst.append hlast).perm hperm

/-- The fields of a content model fit what it admits. The induction is on the content model; what stands in the place
of a reference is known to fit. -/
theorem fitsAll (m : ContentModel) : Inlines groups inline m → (∀ p : ContentModel, p.Part m → p.written.Regular) →
    ∀ a : Surroundings, FitsAll groups inline a m := by
  induction m using inductionOnMembers with
  | element written name =>
    intro hm hregular a fs ws hfs hws hcount
    obtain ⟨cs,counts,hflatten,honce,hlength,hcounts,hleast,hmost⟩ := exists_occurrences hws
    have hword : ∀ c ∈ cs, c = [name] := by
      intro c hc
      cases honce c hc
      rfl
    have hall : ∀ x ∈ cs.flatten, x = name := by
      intro x hx
      obtain ⟨c,hc,hmem⟩ := List.mem_flatten.mp hx
      rw [hword c hc] at hmem
      exact List.mem_singleton.mp hmem
    rw [← hflatten]
    cases name with
    | none =>
      obtain rfl : fs = [] := List.map_eq_nil_iff.mp hfs.slots
      exact .of_forall_eq_none (by simp) hall
    | some name =>
      obtain ⟨f,rfl,hslot,_⟩ := hfs.singleton
      obtain ⟨hkind,hname,hoccurs⟩ := Slot.mk.inj hslot
      have hnumber : cs.flatten.length = counts.sum := by
        rw [List.length_flatten,← hlength,List.map_congr_left fun c hc => congrArg List.length (hword c hc)]
        simp
      have hallows := Surroundings.Allows.apply (hcounts ▸ hcount) (hregular _ .self) hleast hmost
      rw [List.flatMap_singleton,hm.plain f (by rw [hkind]; rfl)]
      refine .singleton hkind (by rwa [hname]) ?_
      rw [hoccurs,hnumber]
      exact hallows
  | wildcard written =>
    intro hm _ a fs ws hfs hws _
    obtain ⟨cs,_,hflatten,honce,_⟩ := exists_occurrences hws
    obtain ⟨f,rfl,hslot,_⟩ := hfs.singleton
    have hkind : f.kind = .any := (Slot.mk.inj hslot).1
    rw [← hflatten,List.flatMap_singleton,hm.plain f (by rw [hkind]; rfl)]
    refine .of_forall_eq_none (by simp [hkind]) fun x hx => ?_
    obtain ⟨c,hc,hmem⟩ := List.mem_flatten.mp hx
    cases honce c hc
    exact List.mem_singleton.mp hmem
  | group written reference =>
    intro hm hregular a fs ws hfs hws hcount
    obtain ⟨cs,counts,hflatten,honce,hlength,hcounts,hleast,hmost⟩ := exists_occurrences hws
    obtain ⟨f,rfl,hslot,hreferring⟩ := hfs.singleton
    obtain ⟨hkind,hname,hoccurs⟩ := Slot.mk.inj hslot
    obtain ⟨gs,hinline,hgs⟩ := hm.group written reference .self f hkind ((hreferring hkind).trans hname)
    have hallows := Surroundings.Allows.apply (hcounts ▸ hcount) (hregular _ .self) hleast hmost
    rw [← hflatten,List.flatMap_singleton,hinline]
    refine Simplify.fits_takePlace (fun c hc => ?_) ?_
    · cases honce c hc with
      | group hmembers hturn => exact (hgs _ hmembers).fits c hturn
    · rw [hoccurs,hlength]
      exact hallows
  | compositor written kind members ih =>
    intro hm hregular a fs ws hfs hws hcount
    obtain ⟨cs,counts,hflatten,honce,hlength,hcounts,hleast,hmost⟩ := exists_occurrences hws
    have hmembers : ∀ m ∈ members, FitsAll groups inline (a.nest (kind = .choice) written.occurrence) m :=
      fun m hmem => ih m hmem (hm.member hmem) (fun p hp => hregular p (.member hmem hp)) _
    have hallows := Surroundings.Allows.nest (hcounts ▸ hcount) (hregular _ .self) hleast hmost (kind = .choice)
    rw [← hlength] at hallows
    rw [← hflatten]
    cases kind with
    | sequence =>
      refine fits_inTurn hmembers hfs (fun c hc => ?_) hallows
      cases honce c hc
      assumption
    | choice =>
      refine fits_choice hmembers hfs (fun c hc => ?_) (by simp [Surroundings.nest]) hallows
      cases honce c hc with
      | choice hmem hadmits => exact ⟨_,hmem,hadmits⟩
    | all =>
      obtain ⟨vs,hperm,hvs,hturn⟩ := exists_inTurn_of_all honce
      exact (fits_inTurn hmembers hfs hturn (hvs ▸ hallows)).perm hperm

/-- There is a field for each name in a content model. -/
theorem exists_field_of_mentions {name : String} (m : ContentModel) : Inlines groups inline m →
    Mentions groups name m → ∀ (a : Surroundings) (fs : List Field), FieldsOf (slots a m) fs →
    ∃ f ∈ fs.flatMap inline, f.kind = .element ∧ f.name = name := by
  induction m using inductionOnMembers with
  | element written found =>
    intro hm hmentions a fs hfs
    cases hmentions with
    | element =>
      obtain ⟨f,rfl,hslot,_⟩ := hfs.singleton
      obtain ⟨hkind,hname,_⟩ := Slot.mk.inj hslot
      rw [List.flatMap_singleton,hm.plain f (by rw [hkind]; rfl)]
      exact ⟨f,List.mem_singleton_self f,hkind,hname⟩
  | wildcard written =>
    intro _ hmentions
    cases hmentions
  | group written reference =>
    intro hm hmentions a fs hfs
    cases hmentions with
    | group hmembers hmem hmentions =>
      obtain ⟨f,rfl,hslot,hreferring⟩ := hfs.singleton
      obtain ⟨hkind,hname,_⟩ := Slot.mk.inj hslot
      obtain ⟨gs,hinline,hgs⟩ := hm.group written reference .self f hkind ((hreferring hkind).trans hname)
      obtain ⟨g,hg,hkind,hname⟩ := (hgs _ hmembers).named _ hmem name hmentions
      rw [List.flatMap_singleton,hinline]
      exact ⟨_,List.mem_map_of_mem hg,(Simplify.kind_takePlace f g).trans hkind,
        (Simplify.name_takePlace f g).trans hname⟩
  | compositor written kind members ih =>
    intro hm hmentions a fs hfs
    cases hmentions with
    | @member _ _ _ m hmem hmentions =>
      obtain ⟨before,after,rfl⟩ := List.append_of_mem hmem
      rw [slots,slotsAll_append] at hfs
      obtain ⟨_,_,rfl,_,hrest⟩ := hfs.split
      obtain ⟨_,_,rfl,hown,_⟩ := hrest.split
      obtain ⟨f,hf,hfound⟩ := ih m hmem (hm.member hmem) hmentions _ _ hown
      refine ⟨f,?_,hfound⟩
      simp only [List.flatMap_append,List.mem_append]
      exact Or.inr (Or.inl hf)

/-- The fields for content models stand for them. -/
theorem represents {ms : List ContentModel} {fs : List Field} (hfs : FieldsOf (slotsAll {} ms) fs)
    (hms : ∀ m ∈ ms, Inlines groups inline m)
    (hregular : ∀ m ∈ ms, ∀ p : ContentModel, p.Part m → p.written.Regular) :
    Represents groups (fs.flatMap inline) ms where
  fits := by
    intro w hw
    have hall : ∀ m ∈ ms, FitsAll groups inline {} m := fun m hm => fitsAll m (hms m hm) (hregular m hm) {}
    have hfits : Fits (fs.flatMap inline) [w].flatten :=
      fits_inTurn hall hfs (by simpa using hw) Surroundings.allows_one
    rwa [List.flatten_singleton] at hfits
  named := by
    intro m hm name hmentions
    obtain ⟨before,after,rfl⟩ := List.append_of_mem hm
    rw [slotsAll_append] at hfs
    obtain ⟨_,_,rfl,_,hrest⟩ := hfs.split
    obtain ⟨_,_,rfl,hown,_⟩ := hrest.split
    obtain ⟨f,hf,hfound⟩ := exists_field_of_mentions m (hms m hm) hmentions {} _ hown
    refine ⟨f,?_,hfound⟩
    simp only [List.flatMap_append,List.mem_append]
    exact Or.inr (Or.inl hf)

end ContentModel
end SchemaBinding
