import SchemaBinding.Proofs.Packages.Assigned

/-! Documents in one directory. In the order of their URIs they stand side by side but for documents further down
that directory, and neighbours in a directory are related; so they are in one group, or the directory is at the
top. Main statement: in either case they are in one package. -/
namespace SchemaBinding
namespace Packages

/-! ## Segments -/

def segmentsOf (cs : List Char) : List String := ((cs.splitOn '/').map String.ofList).filter (· ≠ "")

theorem segments_eq (uri : String) : segments uri = segmentsOf uri.toList := rfl

theorem segmentsOf_append (directory rest : List Char) :
    segmentsOf (directory ++ '/' :: rest) = segmentsOf directory ++ segmentsOf rest := by
  rw [segmentsOf,List.splitOn,List.splitOnP_append_cons _ _ (by rfl),List.map_append,List.filter_append]
  rfl

theorem segmentsOf_file {file : List Char} (h : '/' ∉ file) (hfile : file ≠ []) :
    segmentsOf file = [String.ofList file] := by
  have hsingle : file.splitOn '/' = [file] := by
    refine List.splitOnP_eq_singleton fun c hc => ?_
    simpa using fun hslash : c = '/' => h (hslash ▸ hc)
  simp [segmentsOf,hsingle,hfile]

/-- A document is in a directory or in one below it. -/
def Below (directory : List Char) (uri : String) : Prop := directory ++ ['/'] <+: uri.toList

/-- A document has a file name in a directory. -/
def InDirectory (directory : List Char) (uri : String) : Prop :=
  ∃ file, uri.toList = directory ++ '/' :: file ∧ '/' ∉ file ∧ file ≠ []

theorem InDirectory.below {directory : List Char} {uri : String} (h : InDirectory directory uri) :
    Below directory uri := by
  obtain ⟨file,huri,_,_⟩ := h
  exact ⟨file,by simp [huri]⟩

theorem InDirectory.dropLast_segments {directory : List Char} {uri : String} (h : InDirectory directory uri) :
    (segments uri).dropLast = segmentsOf directory := by
  obtain ⟨file,huri,hslash,hfile⟩ := h
  rw [segments_eq,huri,segmentsOf_append,segmentsOf_file hslash hfile,List.dropLast_concat]

theorem commonPrefix_append (ss ts us : List String) :
    commonPrefix (ss ++ ts) (ss ++ us) = ss ++ commonPrefix ts us := by
  induction ss with
  | nil => rfl
  | cons s ss ih => simp [commonPrefix,ih]

/-- Documents below a directory share its segments. -/
theorem Below.exists_segments {directory : List Char} {uri : String} (h : Below directory uri) :
    ∃ rest, segments uri = segmentsOf directory ++ rest := by
  obtain ⟨rest,hrest⟩ := h
  refine ⟨segmentsOf rest,?_⟩
  rw [segments_eq,← hrest,List.append_assoc]
  exact segmentsOf_append directory rest

theorem isUnrelated_append {ss : List String} (h : isUnrelated ss = false) (ts : List String) :
    isUnrelated (ss ++ ts) = false := by
  match ss,h with
  | [s],h =>
    cases ts with
    | nil => exact h
    | cons t ts => rfl
  | s :: t :: ss,_ => rfl

theorem not_isUnrelated_of_below {directory : List Char} (hdirectory : isUnrelated (segmentsOf directory) = false)
    {uri other : String} (h : Below directory uri) (hother : Below directory other) :
    isUnrelated (commonPrefix (segments uri) (segments other)) = false := by
  obtain ⟨rest,hrest⟩ := h.exists_segments
  obtain ⟨further,hfurther⟩ := hother.exists_segments
  rw [hrest,hfurther,commonPrefix_append]
  exact isUnrelated_append hdirectory _

/-! ## Order -/

/-- What stands between two lists with a common front has that front. -/
theorem isPrefix_of_between {front : List Char} {s t u : List Char} (hs : front <+: s) (hu : front <+: u)
    (hst : s ≤ t) (htu : t ≤ u) : front <+: t := by
  induction front generalizing s t u with
  | nil => exact List.nil_prefix
  | cons c front ih =>
    obtain ⟨s,rfl⟩ := hs
    obtain ⟨u,rfl⟩ := hu
    cases t with
    | nil => exact absurd hst (by simp)
    | cons d t =>
      rw [List.cons_append,← not_lt,List.cons_lt_cons_iff,not_or] at hst htu
      obtain rfl : c = d := le_antisymm (not_lt.mp hst.1) (not_lt.mp htu.1)
      exact List.cons_prefix_cons.mpr ⟨rfl,ih ⟨s,rfl⟩ ⟨u,rfl⟩ (not_lt.mp fun h => hst.2 ⟨rfl,h⟩)
        (not_lt.mp fun h => htu.2 ⟨rfl,h⟩)⟩

theorem Below.between {directory : List Char} {s t u : String} (hs : Below directory s) (hu : Below directory u)
    (hst : s ≤ t) (htu : t ≤ u) : Below directory t :=
  isPrefix_of_between hs hu (String.le_iff_toList_le.mp hst) (String.le_iff_toList_le.mp htu)

/-! ## Groups -/

theorem head?_eq_of_related {ss ts : List String} (h : isUnrelated (commonPrefix ss ts) = false) :
    ss.head? = ts.head? := by
  match ss,ts,h with
  | s :: ss,t :: ts,h =>
    by_cases hst : s = t
    · rw [List.head?_cons,List.head?_cons,hst]
    · simp [commonPrefix,hst,isUnrelated] at h
  | [],_,h => cases h
  | _ :: _,[],h => cases h

section Groups
variable {uris : List String} {common? : Option String} {n m : Nat} {uri other : String}

/-- Documents of one group that are not in the common directory begin alike. -/
theorem head?_eq_of_inGroup (hn : n ≠ commonGroup) (h : InGroup (group uris common?) n uri)
    (hother : InGroup (group uris common?) n other) : (segments uri).head? = (segments other).head? := by
  refine eq_of_inGroup (f:=fun uri => (segments uri).head?) (fun x _ y _ hxy => ?_) hn h hother
  exact head?_eq_of_related (by simpa [isRelated] using hxy)

/-- Documents below one directory are in one group. -/
theorem eq_of_below {directory : List Char} (hdirectory : isUnrelated (segmentsOf directory) = false)
    (hn : n ≠ commonGroup) (hm : m ≠ commonGroup) (h : InGroup (group uris common?) n uri)
    (hother : InGroup (group uris common?) m other) (hbelow : Below directory uri) (hbelow' : Below directory other) :
    n = m := by
  refine eq_of_between (P:=Below directory) (fun x y hx hy => ?_) (fun x y z hx hz => hx.between hz) hn hm h hother
    hbelow hbelow'
  simp [isRelated,not_isUnrelated_of_below hdirectory hx hy]

end Groups

/-! ## Packages -/

/-- A document is in a group, and its package is said by that group. -/
theorem exists_documentPackage_eq {uris : List String} {uri : String} (huri : uri ∈ uris) (package : String)
    (common? : Option String) : ∃ n us, (group uris common?).get? n = some us ∧ uri ∈ us ∧
      documentPackage uris package common? uri = packageOf (baseOf us) package uri := by
  obtain ⟨p,hp⟩ := exists_lookup_assignments huri package common?
  have hmem : (uri,p) ∈ assignments uris package common? := by
    obtain ⟨before,after,hsplit,_⟩ := List.lookup_eq_some_iff.mp hp
    rw [hsplit]
    exact List.mem_append_right _ List.mem_cons_self
  obtain ⟨us,hus,hpair⟩ := List.mem_flatMap.mp hmem
  obtain ⟨other,hother,heq⟩ := List.mem_map.mp hpair
  obtain ⟨rfl,rfl⟩ := Prod.mk.inj heq
  obtain ⟨n,hn⟩ := OrderedMap.mem_values.mp hus
  exact ⟨n,us,hn,hother,by rw [documentPackage,hp,Option.getD_some]⟩

theorem documentPackage_of_group {uris us : List String} {common? : Option String} {n : Nat} {uri : String}
    (hnodup : uris.Nodup) (hn : (group uris common?).get? n = some us) (huri : uri ∈ us) (package : String) :
    documentPackage uris package common? uri = packageOf (baseOf us) package uri := by
  obtain ⟨m,vs,hm,hvs,hpackage⟩ := exists_documentPackage_eq (exists_inGroup_iff.mp ⟨n,us,hn,huri⟩) package common?
  obtain rfl : m = n := InGroup.unique hnodup ⟨vs,hm,hvs⟩ ⟨us,hn,huri⟩
  obtain rfl := Option.some.inj (hn.symm.trans hm)
  exact hpackage

theorem packageOf_congr {uri other : String} (h : (segments uri).dropLast = (segments other).dropLast)
    (base : List String) (package : String) : packageOf base package uri = packageOf base package other := by
  rw [packageOf,packageOf,h]

theorem head?_foldl_commonPrefix {first : String} (us : List String) {shared : List String}
    (hshared : shared.head? = some first) (h : ∀ uri ∈ us, (segments uri).head? = some first) :
    (us.foldl (fun shared u => commonPrefix shared (segments u)) shared).head? = some first := by
  induction us generalizing shared with
  | nil => exact hshared
  | cons u us ih =>
    obtain ⟨hu,hrest⟩ := List.forall_mem_cons.mp h
    refine ih ?_ hrest
    obtain ⟨shared,rfl⟩ : ∃ rest, shared = first :: rest := List.head?_eq_some_iff.mp hshared
    obtain ⟨rest,hsegments⟩ := List.head?_eq_some_iff.mp hu
    simp [hsegments,commonPrefix]

/-- The documents of a group that begin alike share a segment. -/
theorem baseOf_ne_nil {us : List String} {uri : String} (first : String) (huri : uri ∈ us)
    (hdirectory : (segments uri).dropLast ≠ []) (h : ∀ other ∈ us, (segments other).head? = some first) :
    baseOf us ≠ [] := by
  match us,huri with
  | [other],huri =>
    rw [List.mem_singleton] at huri
    exact huri ▸ hdirectory
  | other :: another :: rest,_ =>
    obtain ⟨hother,hrest⟩ := List.forall_mem_cons.mp h
    intro hempty
    have hhead := head?_foldl_commonPrefix (another :: rest) hother hrest
    rw [show (another :: rest).foldl (fun shared u => commonPrefix shared (segments u)) (segments other) = [] from
      hempty] at hhead
    cases hhead

/-- At the top, what a group does not share of a directory is nothing. -/
theorem packageOf_of_isUnrelated {uri : String} {base : List String} (h : isUnrelated (segments uri).dropLast)
    (hbase : (segments uri).dropLast ≠ [] → base ≠ []) (package : String) : packageOf base package uri = package := by
  have hstrip : stripPrefix (segments uri).dropLast base = [] := by
    generalize (segments uri).dropLast = directory at h hbase
    match directory,base with
    | [],[] => rfl
    | [],_ :: _ => rfl
    | [s],[] => exact absurd rfl (hbase (List.cons_ne_nil _ _))
    | [s],t :: base =>
      by_cases hst : s = t
      · cases base <;> simp [stripPrefix,hst]
      · simp [stripPrefix,hst]
    | _ :: _ :: _,_ => cases h
  rw [packageOf,hstrip]
  rfl

/-- Documents in one directory are both in the common directory, or neither is. -/
theorem isBelow_eq_of_inDirectory {common? : Option String} {directory : List Char} {uri other : String}
    (hcommon : ∀ common, common? = some common → common.toList.getLast? = some '/')
    (huri : InDirectory directory uri) (hother : InDirectory directory other) :
    isBelow common? uri = isBelow common? other := by
  cases common? with
  | none => rfl
  | some common =>
    have hlast := hcommon common rfl
    have himp : ∀ {uri other}, InDirectory directory uri → InDirectory directory other →
        common.toList <+: uri.toList → common.toList <+: other.toList := by
      intro uri other huri hother hfront
      obtain ⟨file,hfile,hslash,_⟩ := huri
      have hinside : directory ++ ['/'] <+: uri.toList := ⟨file,by simp [hfile]⟩
      refine List.IsPrefix.trans ?_ hother.below
      rcases List.prefix_or_prefix_of_prefix hfront hinside with hshorter | ⟨more,hmore⟩
      · exact hshorter
      · cases more with
        | nil => exact ⟨[],by rw [← hmore]; simp⟩
        | cons c more =>
          -- the slash at the end would be one in the file name
          refine absurd ?_ hslash
          have hfound : '/' ∈ c :: more := by
            rw [← hmore,List.getLast?_append_of_ne_nil _ (List.cons_ne_nil c more)] at hlast
            exact List.mem_of_getLast? hlast
          rw [← hmore,hfile,List.append_cons directory '/' file,List.prefix_append_right_inj] at hfront
          exact hfront.subset hfound
    rw [Bool.eq_iff_iff]
    simp only [isBelow,Option.any_some,List.isPrefixOf_iff_prefix]
    exact ⟨himp huri hother,himp hother huri⟩

/-- Documents in one directory are in one package. -/
theorem documentPackage_eq_of_inDirectory {uris : List String} {common? : Option String} {directory : List Char}
    {uri other : String} (hcommon : ∀ common, common? = some common → common.toList.getLast? = some '/')
    (huri : uri ∈ uris) (hother : other ∈ uris) (h : InDirectory directory uri) (h' : InDirectory directory other)
    (package : String) : documentPackage uris package common? uri = documentPackage uris package common? other := by
  obtain ⟨n,us,hn,hus,hpackage⟩ := exists_documentPackage_eq huri package common?
  obtain ⟨m,vs,hm,hvs,hpackage'⟩ := exists_documentPackage_eq hother package common?
  have hin : InGroup (group uris common?) n uri := ⟨us,hn,hus⟩
  have hin' : InGroup (group uris common?) m other := ⟨vs,hm,hvs⟩
  have hbelow := isBelow_eq_of_inDirectory hcommon h h'
  have hnumber : n = commonGroup ↔ m = commonGroup := by
    rw [hin.eq_common_iff,hin'.eq_common_iff,hbelow]
  have hdirectory := h.dropLast_segments.trans h'.dropLast_segments.symm
  have htogether : n = m → documentPackage uris package common? uri = documentPackage uris package common? other := by
    rintro rfl
    obtain rfl := Option.some.inj (hn.symm.trans hm)
    rw [hpackage,hpackage',packageOf_congr hdirectory]
  by_cases hzero : n = commonGroup
  · exact htogether (hzero.trans (hnumber.mp hzero).symm)
  · cases hunrelated : isUnrelated (segmentsOf directory) with
    | false =>
      exact htogether (eq_of_below hunrelated hzero (mt hnumber.mpr hzero) hin hin' h.below h'.below)
    | true =>
      have htop : ∀ {uri us n}, InDirectory directory uri → n ≠ commonGroup →
          (group uris common?).get? n = some us → uri ∈ us → packageOf (baseOf us) package uri = package := by
        intro uri us n h hn hus huri
        refine packageOf_of_isUnrelated (h.dropLast_segments ▸ hunrelated) (fun hne => ?_) package
        cases hsegments : segments uri with
        | nil =>
          rw [hsegments] at hne
          exact absurd rfl hne
        | cons first rest =>
          refine baseOf_ne_nil first huri hne fun other hother => ?_
          rw [head?_eq_of_inGroup hn ⟨us,hus,hother⟩ ⟨us,hus,huri⟩,hsegments]
          rfl
      rw [hpackage,hpackage',htop h hzero hn hus,htop h' (mt hnumber.mpr hzero) hm hvs]

end Packages
end SchemaBinding
