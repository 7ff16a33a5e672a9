import Mathlib.Data.Set.Finite.Basic
import Mathlib.Order.WellFounded
import SchemaBinding.CatalogReader

/-! When the reading of a catalog ends. The rules of reading know nothing of the catalogs that are being read already; a
derivation from them is a reading that comes to an end, with all the mappings it found in their order.
Main statement: reading gives what the rules give, and they give something just where no catalog leads back to itself. -/
namespace SchemaBinding
namespace Catalog
open Relation (ReflTransGen TransGen)

/-- The rules of reading: what the entries of the catalog at a path map, with all that other catalogs do in the places
where these are named, and what ended the reading of the catalog itself if something did. -/
inductive Pours (disk : Disk) : Path → List Entry → List Mapping → Option Failure → Prop where
  | done (path : Path) : Pours disk path [] [] none
  | mapped {path : Path} {m m' : Mapping} {rest : List Entry} {ms : List Mapping} {failure : Option Failure} :
      m.resolve disk path = .ok m' → Pours disk path rest ms failure → Pours disk path (.mapping m :: rest) (m' :: ms) failure
  | failed {path : Path} {m : Mapping} {failure : Failure} (rest : List Entry) :
      m.resolve disk path = .error failure → Pours disk path (.mapping m :: rest) [] (some failure)
  | next {path : Path} {other : String} {rest : List Entry} {inner outer : List Mapping} {ignored failure : Option Failure} :
      Pours disk (beside path other) (entriesAt disk (beside path other)) inner ignored →
      Pours disk path rest outer failure → Pours disk path (.next other :: rest) (inner ++ outer) failure

/-- Entries name another catalog before anything that cannot be resolved. -/
def Names (disk : Disk) (path : Path) (es : List Entry) (q : Path) : Prop :=
  ∃ before other after, es = before ++ .next other :: after ∧
    (∀ m, .mapping m ∈ before → (m.resolve disk path).isOk) ∧ q = beside path other

/-- The catalog at one path names that at another. -/
def Leads (disk : Disk) (p q : Path) : Prop := Names disk p (entriesAt disk p) q

/-- Why the file at a path is no catalog. -/
def refusal? (disk : Disk) (path : Path) : Option Failure :=
  match contentAt disk path with
  | .error e => some e
  | .ok _ => none

variable {disk : Disk} {path q : Path} {above : List Path} {c : Catalog} {e : Entry} {es : List Entry}
  {ms ms' : List Mapping} {failure failure' : Option Failure}

/-! ## Reading follows the rules -/

/-- What is read of a file is what its entries give, and it has none if it is no catalog. -/
theorem load_of_not_mem (h : path ∉ above) (c : Catalog) : load disk above c path =
    (takeEntries disk above path c (entriesAt disk path)).map fun p =>
      { p with failure := (refusal? disk path).or p.failure } := by
  rw [load,dif_neg h,entriesAt,refusal?]
  cases contentAt disk path <;> simp [takeEntries,Except.toOption]

/-- A reading that has an end follows the rules. -/
theorem pours_of_takeEntries (disk : Disk) :
    (∀ above path c es p, takeEntries disk above path c es = some p →
      ∃ ms failure, Pours disk path es ms failure ∧ p = { catalog := ms.foldl put c, failure }) ∧
    ∀ above c path p, load disk above c path = some p →
      ∃ ms failure, Pours disk path (entriesAt disk path) ms failure ∧
        p = { catalog := ms.foldl put c, failure := (refusal? disk path).or failure } := by
  refine takeEntries.mutual_induct disk
    (fun above path c es => ∀ p, takeEntries disk above path c es = some p →
      ∃ ms failure, Pours disk path es ms failure ∧ p = { catalog := ms.foldl put c, failure })
    (fun above c path => ∀ p, load disk above c path = some p →
      ∃ ms failure, Pours disk path (entriesAt disk path) ms failure ∧
        p = { catalog := ms.foldl put c, failure := (refusal? disk path).or failure }) ?_ ?_ ?_ ?_ ?_ ?_ ?_
  -- first the entries: none, a mapping that can be resolved or not, another catalog; then the ways to load a file
  · intro above path c p h
    rw [takeEntries] at h
    cases h
    exact ⟨[],none,.done path,rfl⟩
  · intro above path c m rest m' hresolve ih p h
    rw [takeEntries,hresolve] at h
    obtain ⟨ms,failure,hpours,rfl⟩ := ih p h
    exact ⟨m' :: ms,failure,.mapped hresolve hpours,rfl⟩
  · intro above path c m rest fault hresolve p h
    rw [takeEntries,hresolve] at h
    cases h
    exact ⟨[],some fault,.failed rest hresolve,rfl⟩
  · intro above path c other rest ihother ihrest p h
    rw [takeEntries] at h
    obtain ⟨p',hother,hrest⟩ := Option.bind_eq_some_iff.mp h
    obtain ⟨inner,ignored,hinner,rfl⟩ := ihother p' hother
    obtain ⟨outer,failure,houter,rfl⟩ := ihrest _ p hrest
    exact ⟨inner ++ outer,failure,.next hinner houter,by rw [List.foldl_append]⟩
  · intro above c path habove p h
    rw [load,dif_pos habove] at h
    cases h
  · intro above c path habove fault hcontent p h
    have hentries : entriesAt disk path = [] := by rw [entriesAt,hcontent]; rfl
    rw [load_of_not_mem habove,hentries,takeEntries] at h
    cases h
    exact ⟨[],none,by rw [hentries]; exact .done path,rfl⟩
  · intro above c path habove es hcontent ih p h
    have hentries : entriesAt disk path = es := by rw [entriesAt,hcontent]; rfl
    rw [load_of_not_mem habove,hentries] at h
    obtain ⟨p',htake,rfl⟩ := Option.map_eq_some_iff.mp h
    obtain ⟨ms,failure,hpours,rfl⟩ := ih p' htake
    exact ⟨ms,failure,by rwa [hentries],rfl⟩

theorem pours_of_load {p : Progress} (h : load disk above c path = some p) : ∃ ms failure,
    Pours disk path (entriesAt disk path) ms failure ∧
      p = { catalog := ms.foldl put c, failure := (refusal? disk path).or failure } :=
  (pours_of_takeEntries disk).2 above c path p h

/-- The rules leave no choice. -/
theorem Pours.unique (h : Pours disk path es ms failure) (h' : Pours disk path es ms' failure') :
    ms' = ms ∧ failure' = failure := by
  induction h generalizing ms' failure' with
  | done =>
    cases h'
    exact ⟨rfl,rfl⟩
  | mapped hresolve _ ih =>
    cases h' with
    | mapped hresolve' hrest' =>
      obtain ⟨rfl,rfl⟩ := ih hrest'
      exact ⟨by rw [Except.ok.inj (hresolve.symm.trans hresolve')],rfl⟩
    | failed _ hresolve' => cases hresolve.symm.trans hresolve'
  | failed _ hresolve =>
    cases h' with
    | mapped hresolve' => cases hresolve.symm.trans hresolve'
    | failed _ hresolve' => exact ⟨rfl,congrArg some (Except.error.inj (hresolve.symm.trans hresolve')).symm⟩
  | next _ _ ihinner ihouter =>
    cases h' with
    | next hinner' houter' =>
      obtain ⟨rfl,-⟩ := ihinner hinner'
      obtain ⟨rfl,rfl⟩ := ihouter houter'
      exact ⟨rfl,rfl⟩

/-! ## What follows the rules comes to an end -/

theorem not_names_nil : ¬ Names disk path [] q := by
  rintro ⟨before,other,after,h,-⟩
  simp at h

theorem names_mapping_iff {m : Mapping} {rest : List Entry} :
    Names disk path (.mapping m :: rest) q ↔ (m.resolve disk path).isOk ∧ Names disk path rest q := by
  constructor
  · rintro ⟨before,other,after,h,hbefore,rfl⟩
    cases before with
    | nil => cases h
    | cons e before =>
      obtain ⟨rfl,rfl⟩ := List.cons.inj h
      exact ⟨hbefore m (by simp),before,other,after,rfl,fun m hm => hbefore m (by simp [hm]),rfl⟩
  · rintro ⟨hm,before,other,after,rfl,hbefore,rfl⟩
    refine ⟨.mapping m :: before,other,after,rfl,fun m' hm' => ?_,rfl⟩
    rcases List.mem_cons.mp hm' with h | h
    · cases h
      exact hm
    · exact hbefore m' h

theorem names_next_iff {other : String} {rest : List Entry} :
    Names disk path (.next other :: rest) q ↔ q = beside path other ∨ Names disk path rest q := by
  constructor
  · rintro ⟨before,other',after,h,hbefore,rfl⟩
    cases before with
    | nil =>
      cases h
      exact .inl rfl
    | cons e before =>
      obtain ⟨rfl,rfl⟩ := List.cons.inj h
      exact .inr ⟨before,other',after,rfl,fun m hm => hbefore m (by simp [hm]),rfl⟩
  · rintro (rfl | ⟨before,other',after,rfl,hbefore,rfl⟩)
    · exact ⟨[],other,rest,rfl,by simp,rfl⟩
    · exact ⟨.next other :: before,other',after,rfl,fun m hm => hbefore m (by simpa using hm),rfl⟩

theorem Pours.acc_of_names (h : Pours disk path es ms failure) (hq : Names disk path es q) : Acc (flip (Leads disk)) q := by
  induction h generalizing q with
  | done => exact absurd hq not_names_nil
  | mapped _ _ ih => exact ih (names_mapping_iff.mp hq).2
  | failed _ hresolve =>
    have hok := (names_mapping_iff.mp hq).1
    rw [hresolve] at hok
    cases hok
  | next _ _ ihinner ihouter =>
    rcases names_next_iff.mp hq with rfl | hq
    · exact ⟨_,fun r hr => ihinner hr⟩
    · exact ihouter hq

/-- A reading by the rules goes down from catalog to catalog only so far. -/
theorem Pours.acc (h : Pours disk path (entriesAt disk path) ms failure) : Acc (flip (Leads disk)) path :=
  ⟨_,fun _ hq => h.acc_of_names hq⟩

theorem isSome_takeEntries (h : ∀ q, Names disk path es q → ∀ c, (load disk (path :: above) c q).isSome) (c : Catalog) :
    (takeEntries disk above path c es).isSome := by
  induction es generalizing c with
  | nil => simp [takeEntries]
  | cons e rest ih =>
    cases e with
    | mapping m =>
      rw [takeEntries]
      cases hresolve : m.resolve disk path with
      | error => rfl
      | ok m' => exact ih (fun q hq => h q (names_mapping_iff.mpr ⟨by rw [hresolve]; rfl,hq⟩)) (c.put m')
    | next other =>
      obtain ⟨p,hp⟩ := Option.isSome_iff_exists.mp (h (beside path other) (names_next_iff.mpr (.inl rfl)) c)
      rw [takeEntries,hp]
      exact ih (fun q hq => h q (names_next_iff.mpr (.inr hq))) p.catalog

theorem not_transGen_of_acc {α : Type} {r : α → α → Prop} {a : α} (h : Acc (flip r) a) : ¬ TransGen r a a := by
  induction h with
  | intro a _ ih =>
    intro hcycle
    obtain ⟨b,hab,hba⟩ := TransGen.head'_iff.mp hcycle
    exact ih b hab (TransGen.tail' hba hab)

/-- What is above is never met again, since it leads to where the reading is. -/
theorem isSome_load (h : Acc (flip (Leads disk)) path) {above : List Path}
    (habove : ∀ p ∈ above, TransGen (Leads disk) p path) (c : Catalog) : (load disk above c path).isSome := by
  induction h generalizing above c with
  | intro path hacc ih =>
    have hnew : path ∉ above := fun hmem => not_transGen_of_acc ⟨path,hacc⟩ (habove path hmem)
    rw [load_of_not_mem hnew,Option.isSome_map]
    refine isSome_takeEntries (fun q hq c => ih q hq ?_ c) c
    exact List.forall_mem_cons.mpr ⟨.single hq,fun p hp => (habove p hp).tail hq⟩

theorem load_eq_some_iff {p : Progress} : load disk [] c path = some p ↔ ∃ ms failure,
    Pours disk path (entriesAt disk path) ms failure ∧
      p = { catalog := ms.foldl put c, failure := (refusal? disk path).or failure } := by
  refine ⟨pours_of_load,?_⟩
  rintro ⟨ms,failure,hpours,rfl⟩
  obtain ⟨p,hp⟩ := Option.isSome_iff_exists.mp (isSome_load hpours.acc (List.forall_mem_nil _) c)
  obtain ⟨ms',failure',hpours',rfl⟩ := pours_of_load hp
  obtain ⟨rfl,rfl⟩ := hpours.unique hpours'
  exact hp

theorem isSome_load_iff : (load disk [] c path).isSome ↔ Acc (flip (Leads disk)) path := by
  refine ⟨fun h => ?_,fun h => isSome_load h (List.forall_mem_nil _) c⟩
  obtain ⟨p,hp⟩ := Option.isSome_iff_exists.mp h
  obtain ⟨ms,failure,hpours,-⟩ := pours_of_load hp
  exact hpours.acc

/-! ## Going round -/

/-- Where only finitely many places lead on, going on for ever is coming back. -/
theorem acc_flip_iff {α : Type} {r : α → α → Prop} (hfinite : {a | ∃ b, r a b}.Finite) {a : α} :
    Acc (flip r) a ↔ ¬ ∃ b, ReflTransGen r a b ∧ TransGen r b b := by
  constructor
  · rintro h ⟨b,hab,hcycle⟩
    have hb : Acc (flip r) b := by
      clear hcycle
      induction hab with
      | refl => exact h
      | tail _ hbc ih => exact ih.inv hbc
    exact not_transGen_of_acc hb hcycle
  · intro hnone
    let Onward : Type := { b // (∃ d, r b d) ∧ ReflTransGen r a b }
    have : Finite Onward := (hfinite.subset fun b hb => hb.1).to_subtype
    let after : Onward → Onward → Prop := fun b d => TransGen r d.1 b.1
    have : IsTrans Onward after := ⟨fun b d e hbd hde => hde.trans hbd⟩
    have : Std.Irrefl after := ⟨fun b hb => hnone ⟨b.1,b.2.2,hb⟩⟩
    have hwell : WellFounded after := Finite.wellFounded_of_trans_of_irrefl after
    -- a place that does not lead on is no member of the finite order, but nothing comes after it
    have hstep {b : α} (hab : ReflTransGen r a b) (h : ∀ hb : ∃ d, r b d, Acc (flip r) b) : Acc (flip r) b := by
      by_cases hb : ∃ d, r b d
      · exact h hb
      · exact ⟨b,fun d hd => absurd ⟨d,hd⟩ hb⟩
    have hall (b : Onward) : Acc (flip r) b.1 := by
      induction b using hwell.induction with
      | _ b ih => exact ⟨b.1,fun d hd => hstep (b.2.2.tail hd) fun hon => ih ⟨d,hon,b.2.2.tail hd⟩ (.single hd)⟩
    exact hstep .refl fun hon => hall ⟨a,hon,.refl⟩

/-- Files can be read at finitely many paths. -/
theorem finite_accepted : {p : Path | ¬ Disk.isRefused p}.Finite :=
  ((Set.finite_lt_nat (numberLimit 4096)).preimage fun _ _ _ _ => Path.number_inj).subset fun _ => Disk.number_lt

theorem finite_leads (disk : Disk) : {p | ∃ q, Leads disk p q}.Finite := by
  refine finite_accepted.subset ?_
  rintro p ⟨q,hq⟩ hrefused
  cases hcontent : contentAt disk p with
  | ok es => exact not_isRefused_of_contentAt hcontent hrefused
  | error =>
    rw [Leads,entriesAt,hcontent] at hq
    exact not_names_nil hq

theorem acc_leads_iff :
    Acc (flip (Leads disk)) path ↔ ¬ ∃ q, ReflTransGen (Leads disk) path q ∧ TransGen (Leads disk) q q :=
  acc_flip_iff (finite_leads disk)

/-- Reading a file gives what the rules of reading give. -/
theorem ofFile_eq_some_iff {outcome : Except Failure Catalog} :
    (ofFile disk path).run = some outcome ↔ ∃ ms failure, Pours disk path (entriesAt disk path) ms failure ∧
      outcome = ((refusal? disk path).or failure).elim (.ok (ms.foldl put {})) .error := by
  have houtcome (c : Catalog) (failure : Option Failure) :
      Progress.outcome { catalog := c, failure } = failure.elim (.ok c) .error := by cases failure <;> rfl
  change (load disk [] {} path).map Progress.outcome = some outcome ↔ _
  rw [Option.map_eq_some_iff]
  constructor
  · rintro ⟨p,hp,rfl⟩
    obtain ⟨ms,failure,hpours,rfl⟩ := load_eq_some_iff.mp hp
    exact ⟨ms,failure,hpours,houtcome _ _⟩
  · rintro ⟨ms,failure,hpours,rfl⟩
    exact ⟨_,load_eq_some_iff.mpr ⟨ms,failure,hpours,rfl⟩,houtcome _ _⟩

theorem isSome_ofFile_iff : (ofFile disk path).run.isSome ↔ Acc (flip (Leads disk)) path := by
  change ((load disk [] {} path).map Progress.outcome).isSome ↔ _
  rw [Option.isSome_map,isSome_load_iff]

/-- Reading a catalog gives just what the rules of reading give. They give something, and the reading comes to an end with
a catalog or a failure, if and only if it leads to no catalog that leads back to itself. -/
theorem ofFile_ends_iff (disk : Disk) (path : Path) :
    (∀ outcome, (ofFile disk path).run = some outcome ↔ ∃ ms failure, Pours disk path (entriesAt disk path) ms failure ∧
      outcome = ((refusal? disk path).or failure).elim (.ok (ms.foldl put {})) .error) ∧
    ((ofFile disk path).run.isSome ↔ ¬ ∃ q, ReflTransGen (Leads disk) path q ∧ TransGen (Leads disk) q q) :=
  ⟨fun _ => ofFile_eq_some_iff,isSome_ofFile_iff.trans acc_leads_iff⟩

/-- A catalog that names itself. -/
def circular : Disk where
  files := .ofList [(["catalog.xml"],Utf8.encodeString
    "<catalog><system systemId='urn:a' uri='a.xsd'/><group><nextCatalog catalog='catalog.xml'/></group></catalog>")]

theorem leads_circular : Leads circular ⟨"catalog.xml"⟩ ⟨"catalog.xml"⟩ := by
  have hentries : entriesAt circular ⟨"catalog.xml"⟩ =
      [.mapping { identifier := .system "urn:a", uri := "a.xsd" },.next "catalog.xml"] := by decide +kernel
  refine ⟨[.mapping { identifier := .system "urn:a", uri := "a.xsd" }],"catalog.xml",[],hentries,?_,by decide +kernel⟩
  intro m hm
  cases List.mem_singleton.mp hm
  decide +kernel

/-- It is read without an end: no reading by the rules has one. -/
theorem circular_unending :
    (∀ ms failure, ¬ Pours circular ⟨"catalog.xml"⟩ (entriesAt circular ⟨"catalog.xml"⟩) ms failure) ∧
      (ofFile circular ⟨"catalog.xml"⟩).run = none := by
  have hround : ¬ Acc (flip (Leads circular)) ⟨"catalog.xml"⟩ := fun h => not_transGen_of_acc h (.single leads_circular)
  refine ⟨fun ms failure h => hround h.acc,?_⟩
  rwa [← Option.not_isSome_iff_eq_none,isSome_ofFile_iff]

end Catalog
end SchemaBinding
