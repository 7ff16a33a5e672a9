import SchemaBinding.Proofs.Catalogs.Ended

/-! Which mapping counts. The mappings of a catalog and of those it names are written one over the other as they are met,
so the last one for an identifier stays, wherever it stands.
Main statement: an entry of a catalog counts if and only if nothing that is read after it, be it of this catalog or of
another, maps its identifier elsewhere. -/
namespace SchemaBinding
namespace Catalog
open Relation (ReflTransGen TransGen)

def get? (c : Catalog) : Identifier → Option String
  | .system text => c.systems.get? text
  | .name text => c.names.get? text

/-- The URI of the last mapping of an identifier. -/
def last? (i : Identifier) (ms : List Mapping) : Option String :=
  (ms.reverse.find? fun m => m.identifier = i).map Mapping.uri

theorem lookup_eq (c : Catalog) (text : String) : c.lookup text = (c.get? (.system text)).or (c.get? (.name text)) := rfl

theorem get?_put (c : Catalog) (m : Mapping) (i : Identifier) :
    (c.put m).get? i = if i = m.identifier then some m.uri else c.get? i := by
  unfold put
  cases m.identifier <;> cases i <;> simp [get?,addSystem,addName,OrderedMap.get?_insert]

theorem last?_append (i : Identifier) (ms ns : List Mapping) : last? i (ms ++ ns) = (last? i ns).or (last? i ms) := by
  simp only [last?,List.reverse_append,List.find?_append]
  cases ns.reverse.find? fun m => m.identifier = i <;> simp

theorem last?_singleton (m : Mapping) : last? m.identifier [m] = some m.uri := by simp [last?]

theorem get?_foldl_put (ms : List Mapping) (c : Catalog) (i : Identifier) :
    (ms.foldl put c).get? i = (last? i ms).or (c.get? i) := by
  induction ms generalizing c with
  | nil => rfl
  | cons m ms ih =>
    rw [List.foldl_cons,ih,get?_put,← List.singleton_append,last?_append,Option.or_assoc]
    by_cases hi : i = m.identifier
    · subst hi
      rw [if_pos rfl,last?_singleton,Option.some_or]
    · have hne : ¬ m.identifier = i := fun h => hi h.symm
      simp [hi,last?,hne]

variable {disk : Disk} {path : Path} {es : List Entry} {ms : List Mapping} {failure : Option Failure}

theorem Pours.split {before after : List Entry}
    (h : Pours disk path (before ++ after) ms failure)
    (hbefore : ∀ m, .mapping m ∈ before → (m.resolve disk path).isOk) :
    ∃ front back, Pours disk path before front none ∧ Pours disk path after back failure ∧ ms = front ++ back := by
  induction before generalizing ms with
  | nil => exact ⟨[],ms,.done path,h,rfl⟩
  | cons e before ih =>
    have hrest : ∀ m, .mapping m ∈ before → (m.resolve disk path).isOk := fun m hm => hbefore m (by simp [hm])
    cases h with
    | mapped hresolve h =>
      obtain ⟨front,back,hfront,hback,rfl⟩ := ih h hrest
      exact ⟨_,back,.mapped hresolve hfront,hback,rfl⟩
    | failed _ hresolve =>
      have hok := hbefore _ List.mem_cons_self
      rw [hresolve] at hok
      cases hok
    | next hinner h =>
      obtain ⟨front,back,hfront,hback,rfl⟩ := ih h hrest
      exact ⟨_,back,.next hinner hfront,hback,by rw [List.append_assoc]⟩

/-- A failure in another catalog does not matter here. -/
theorem Pours.failure_eq_none_iff (h : Pours disk path es ms failure) :
    failure = none ↔ ∀ m, .mapping m ∈ es → (m.resolve disk path).isOk := by
  induction h with
  | done => simp
  | mapped hresolve _ ih => simp [ih,hresolve,Except.isOk,Except.toBool]
  | failed rest hresolve => simp [hresolve,Except.isOk,Except.toBool]
  | next _ _ _ ihouter => simp [ihouter]

theorem Pours.mapping_inv {m : Mapping} (h : Pours disk path (.mapping m :: es) ms none) : ∃ m' ms',
    m.resolve disk path = .ok m' ∧ Pours disk path es ms' none ∧ ms = m' :: ms' := by
  cases h with
  | mapped hresolve h => exact ⟨_,_,hresolve,h,rfl⟩

theorem Mapping.identifier_of_resolve {m m' : Mapping} (h : m.resolve disk path = .ok m') : m'.identifier = m.identifier := by
  unfold Mapping.resolve at h
  cases hlocation : Location.resolve disk (some path.text) m.uri with
  | error =>
    rw [hlocation] at h
    cases h
  | ok uri =>
    rw [hlocation] at h
    cases h
    rfl

theorem elim_error_eq_ok_iff {c c' : Catalog} :
    failure.elim (Except.ok c) Except.error = Except.ok c' ↔ failure = none ∧ c = c' := by
  cases failure <;> simp

/-- Where no catalog leads back to itself, the catalog in a file maps a text as the last mapping of it does that is read,
as a system identifier if there is one and else as a name. So an entry of the file itself for a system identifier, be it
the first one, counts if and only if nothing that is read after it, in the file and in the catalogs named after it, ends
in another URI. -/
theorem ofFile_keeps_iff (disk : Disk) (path : Path)
    (hacyclic : ¬ ∃ q, ReflTransGen (Leads disk) path q ∧ TransGen (Leads disk) q q) : ∃ outcome,
    (ofFile disk path).run = some outcome ∧
    (outcome.isOk ↔ refusal? disk path = none ∧ ∀ m, .mapping m ∈ entriesAt disk path → (m.resolve disk path).isOk) ∧
    ∀ c, outcome = .ok c →
      (∃ ms, Pours disk path (entriesAt disk path) ms none ∧
        ∀ text, c.lookup text = (last? (.system text) ms).or (last? (.name text) ms)) ∧
      ∀ text before own after, entriesAt disk path = before ++ .mapping own :: after → own.identifier = .system text →
        ∃ kept later, own.resolve disk path = .ok kept ∧ Pours disk path after later none ∧
          c.lookup text = (last? (.system text) later).or (some kept.uri) ∧
          (c.lookup text = some kept.uri ↔ ∀ uri, last? (.system text) later = some uri → uri = kept.uri) := by
  obtain ⟨outcome,hrun⟩ := Option.isSome_iff_exists.mp (isSome_ofFile_iff.mpr (acc_leads_iff.mpr hacyclic))
  obtain ⟨ms,failure,hpours,rfl⟩ := ofFile_eq_some_iff.mp hrun
  refine ⟨_,hrun,?_,?_⟩
  · rw [← hpours.failure_eq_none_iff]
    cases refusal? disk path <;> cases failure <;> simp [Except.isOk,Except.toBool]
  · intro c hc
    obtain ⟨hnone,rfl⟩ := elim_error_eq_ok_iff.mp hc
    obtain rfl := (Option.or_eq_none_iff.mp hnone).2
    have hlookup (text : String) :
        (ms.foldl put {}).lookup text = (last? (.system text) ms).or (last? (.name text) ms) := by
      have hempty (i : Identifier) : get? {} i = none := by cases i <;> rfl
      simp only [lookup_eq,get?_foldl_put,hempty,Option.or_none]
    refine ⟨⟨ms,hpours,hlookup⟩,fun text before own after hentries htext => ?_⟩
    have hresolves := hpours.failure_eq_none_iff.mp rfl
    rw [hentries] at hpours hresolves
    obtain ⟨front,back,-,hback,rfl⟩ := hpours.split fun m hm => hresolves m (List.mem_append_left _ hm)
    obtain ⟨kept,later,hkept,hlater,rfl⟩ := hback.mapping_inv
    have hidentifier : kept.identifier = .system text := (Mapping.identifier_of_resolve hkept).trans htext
    have hlast : last? (.system text) (front ++ kept :: later) = (last? (.system text) later).or (some kept.uri) := by
      rw [List.append_cons,last?_append,last?_append,← hidentifier,last?_singleton,Option.some_or]
    have hcounts : ((front ++ kept :: later).foldl put {}).lookup text = (last? (.system text) later).or (some kept.uri) := by
      rw [hlookup,hlast]
      cases last? (.system text) later <;> rfl
    refine ⟨kept,later,hkept,hlater,hcounts,?_⟩
    rw [hcounts]
    cases last? (.system text) later <;> simp

/-- A catalog with an entry and, after it, another catalog that has one for the same identifier. -/
def overridden : Disk where
  files := .ofList [
    (["catalog.xml"],Utf8.encodeString
      "<catalog><group><system systemId='urn:a' uri='own.xsd'/></group><nextCatalog catalog='next.xml'/></catalog>"),
    (["next.xml"],Utf8.encodeString "<catalog><system systemId='urn:a' uri='other.xsd'/></catalog>")]

theorem entriesAt_overridden : entriesAt overridden ⟨"catalog.xml"⟩ =
    [.mapping { identifier := .system "urn:a", uri := "own.xsd" },.next "next.xml"] := by decide +kernel

theorem pours_next_overridden : Pours overridden ⟨"catalog.xml"⟩ [.next "next.xml"]
    [{ identifier := .system "urn:a", uri := "file:///other.xsd" }] none := by
  have hbeside : beside ⟨"catalog.xml"⟩ "next.xml" = ⟨"next.xml"⟩ := by decide +kernel
  have hentries : entriesAt overridden ⟨"next.xml"⟩ =
      [.mapping { identifier := .system "urn:a", uri := "other.xsd" }] := by decide +kernel
  have hinner : Pours overridden ⟨"next.xml"⟩ (entriesAt overridden ⟨"next.xml"⟩)
      [{ identifier := .system "urn:a", uri := "file:///other.xsd" }] none := by
    rw [hentries]
    exact .mapped (by decide +kernel) (.done _)
  exact .next (by rwa [hbeside]) (.done _)

theorem pours_overridden : Pours overridden ⟨"catalog.xml"⟩ (entriesAt overridden ⟨"catalog.xml"⟩)
    [{ identifier := .system "urn:a", uri := "file:///own.xsd" },{ identifier := .system "urn:a", uri := "file:///other.xsd" }]
    none := by
  rw [entriesAt_overridden]
  exact .mapped (by decide +kernel) pours_next_overridden

theorem ofFile_keeps_iff_overridden :
    (¬ ∃ q, ReflTransGen (Leads overridden) ⟨"catalog.xml"⟩ q ∧ TransGen (Leads overridden) q q) ∧
      ∃ outcome, (ofFile overridden ⟨"catalog.xml"⟩).run = some outcome ∧ outcome.isOk ∧
        ∀ c, outcome = .ok c → c.lookup "urn:a" ≠ some "file:///own.xsd" := by
  have hacyclic := acc_leads_iff.mp pours_overridden.acc
  obtain ⟨outcome,hrun,hok,hkeeps⟩ := ofFile_keeps_iff overridden ⟨"catalog.xml"⟩ hacyclic
  have hrefusal : refusal? overridden ⟨"catalog.xml"⟩ = none := by decide +kernel
  refine ⟨hacyclic,outcome,hrun,hok.mpr ⟨hrefusal,pours_overridden.failure_eq_none_iff.mp rfl⟩,fun c hc => ?_⟩
  obtain ⟨kept,later,hkept,hlater,-,hiff⟩ := (hkeeps c hc).2 "urn:a" [] _ _ entriesAt_overridden rfl
  have hown : Mapping.resolve overridden ⟨"catalog.xml"⟩ { identifier := .system "urn:a", uri := "own.xsd" } =
    .ok { identifier := .system "urn:a", uri := "file:///own.xsd" } := by decide +kernel
  obtain ⟨rfl,-⟩ := pours_next_overridden.unique hlater
  obtain rfl := Except.ok.inj (hkept.symm.trans hown)
  exact fun hcounts => absurd (hiff.mp hcounts "file:///other.xsd" rfl) (by decide)

/-- The first entry for the identifier, which is that of the file itself, does not count: the other catalog's does. -/
theorem first_entry_overridden :
    (∃ m, entriesAt overridden ⟨"catalog.xml"⟩ = [.mapping m,.next "next.xml"] ∧ m.identifier = .system "urn:a" ∧
      m.resolve overridden ⟨"catalog.xml"⟩ = .ok { m with uri := "file:///own.xsd" }) ∧
    (¬ ∃ q, ReflTransGen (Leads overridden) ⟨"catalog.xml"⟩ q ∧ TransGen (Leads overridden) q q) ∧
    ∃ c, (ofFile overridden ⟨"catalog.xml"⟩).run = some (.ok c) ∧ c.lookup "urn:a" = some "file:///other.xsd" := by
  refine ⟨⟨_,entriesAt_overridden,rfl,by decide +kernel⟩,acc_leads_iff.mp pours_overridden.acc,?_⟩
  have hrefusal : refusal? overridden ⟨"catalog.xml"⟩ = none := by decide +kernel
  exact ⟨_,ofFile_eq_some_iff.mpr ⟨_,none,pours_overridden,by rw [hrefusal]; rfl⟩,by decide +kernel⟩

end Catalog
end SchemaBinding
