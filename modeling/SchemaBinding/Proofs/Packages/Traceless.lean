import SchemaBinding.Proofs.Packages.Assigned
import SchemaBinding.Session

/-! Compiling leaves no trace. A compilation writes packages into the corpus and nothing else; no walk looks at
them, and the next compilation writes over them. So two sessions that are alike but for packages stay so under
every request, and compile to the same classes. Main statement: what a session compiles in the end is what it
compiles without the compilations before. -/
namespace SchemaBinding

namespace Resolution
namespace Progress

/-- Two states of a walk are alike if they differ in packages only. -/
structure Alike (p q : Progress) : Prop where
  requested : p.requested = q.requested
  corpus : p.corpus.gathered = q.corpus.gathered

theorem Alike.refl (p : Progress) : p.Alike p := ⟨rfl,rfl⟩

theorem Alike.request {p q : Progress} (h : p.Alike q) (uri : String) : (p.request uri).Alike (q.request uri) :=
  ⟨congrArg (· ++ [uri]) h.requested,h.corpus⟩

theorem Alike.record {p q : Progress} (h : p.Alike q) (uri : String) (s : Schema) :
    (p.record uri s).Alike (q.record uri s) where
  requested := h.requested
  corpus := by
    change (p.corpus.record uri s.classes).gathered = (q.corpus.record uri s.classes).gathered
    rw [Corpus.gathered_record,Corpus.gathered_record,h.corpus]

end Progress

/-- Two steps come to the same if their states differ in packages only and both succeed or fail alike. -/
structure SameStep (x y : Progress × Except Failure Unit) : Prop where
  progress : x.1.Alike y.1
  outcome : x.2 = y.2

theorem inTurn_alike {α : Type} {step : Progress → α → Progress × Except Failure Unit}
    (hstep : ∀ p q a, p.Alike q → SameStep (step p a) (step q a)) (as : List α) {p q : Progress} (h : p.Alike q) :
    SameStep (inTurn step p as) (inTurn step q as) := by
  induction as generalizing p q with
  | nil => exact ⟨h,rfl⟩
  | cons a as ih =>
    have hfirst := hstep p q a h
    cases hp : step p a with
    | mk p' outcome =>
      cases hq : step q a with
      | mk q' other =>
        rw [hp,hq] at hfirst
        obtain rfl : outcome = other := hfirst.outcome
        cases outcome with
        | error failure => simpa only [inTurn,hp,hq] using hfirst
        | ok done => simpa only [inTurn,hp,hq] using ih hfirst.progress

theorem convertBy_alike {follow : Option String → Progress → String → Progress × Except Failure Unit}
    (hfollow : ∀ space p q uri, p.Alike q → SameStep (follow space p uri) (follow space q uri)) (s : Schema)
    {p q : Progress} (h : p.Alike q) : SameStep (convertBy follow p s) (convertBy follow q s) := by
  have hbelow := inTurn_alike (hfollow s.targetNamespace) s.locations h
  cases hp : inTurn (follow s.targetNamespace) p s.locations with
  | mk p' outcome =>
    cases hq : inTurn (follow s.targetNamespace) q s.locations with
    | mk q' other =>
      rw [hp,hq] at hbelow
      obtain rfl : outcome = other := hbelow.outcome
      cases outcome with
      | error failure => simpa only [convertBy,hp,hq] using hbelow
      | ok done =>
        simp only [convertBy,hp,hq]
        cases s.location with
        | none => exact ⟨hbelow.progress,rfl⟩
        | some uri => exact ⟨Progress.Alike.record hbelow.progress uri s,rfl⟩

/-- A walk decides by the documents that were asked for, not by what was found in them. -/
theorem visit_alike (read : Reader Schema) (levels : Nat) (space : Option String) (p q : Progress) (uri : String)
    (h : p.Alike q) : SameStep (visit read levels space p uri) (visit read levels space q uri) := by
  induction levels generalizing space p q uri with
  | zero => exact ⟨h,rfl⟩
  | succ levels ih =>
    by_cases hseen : uri ∈ p.requested
    · have hother : uri ∈ q.requested := h.requested ▸ hseen
      simp only [visit,hseen,hother,if_true]
      exact ⟨h,rfl⟩
    · have hother : uri ∉ q.requested := h.requested ▸ hseen
      simp only [visit,hseen,hother,if_false]
      cases read uri space with
      | none => exact ⟨h.request uri,rfl⟩
      | some s => exact convertBy_alike ih s (h.request uri)

end Resolution

namespace Session
open Resolution (Progress SameStep)

/-- Two sessions are alike if they differ in packages only. -/
def Alike (s t : Session) : Prop := ∃ progress : Progress, t = { s with progress } ∧ s.progress.Alike progress

theorem Alike.refl (s : Session) : s.Alike s := ⟨s.progress,rfl,.refl _⟩

/-- What can be asked of a session. -/
inductive Request where
  | schemas (uris : List String)
  | definitions (uri : String)
  | compile
deriving DecidableEq

variable (disk : Disk)

/-- The session after a request, whether it succeeds or fails. -/
def serve (s : Session) : Request → Session
  | .schemas uris => (s.takeSchemas disk uris).1
  | .definitions uri => (s.resolveDefinitions disk uri).1
  | .compile => (s.compile disk).1

def serveAll (s : Session) (requests : List Request) : Session := requests.foldl (serve disk) s

variable {s t : Session}

theorem Alike.takeSchemas (h : s.Alike t) (uris : List String) :
    (s.takeSchemas disk uris).1.Alike (t.takeSchemas disk uris).1 := by
  obtain ⟨progress,rfl,h⟩ := h
  have hwalk := Resolution.inTurn_alike
    (Resolution.visit_alike (s.readSchema? disk) (s.settings.limits.levelsLeft 0) none) uris h
  exact ⟨_,rfl,hwalk.progress⟩

theorem Alike.convertSchemas (h : s.Alike t) (schemas : List Schema) (depth : Nat) :
    (s.convertSchemas disk schemas depth).1.Alike (t.convertSchemas disk schemas depth).1 := by
  obtain ⟨progress,rfl,h⟩ := h
  have hstep : ∀ p q schema, Progress.Alike p q → SameStep
      (Resolution.convert (s.readSchema? disk) (s.settings.limits.levelsLeft (depth+1)) p schema)
      (Resolution.convert (s.readSchema? disk) (s.settings.limits.levelsLeft (depth+1)) q schema) :=
    fun _ _ schema h => Resolution.convertBy_alike (Resolution.visit_alike (s.readSchema? disk) _) schema h
  have hwalk := Resolution.inTurn_alike hstep schemas h
  exact ⟨_,rfl,hwalk.progress⟩

theorem Alike.resolveDefinitions (h : s.Alike t) (uri : String) :
    (s.resolveDefinitions disk uri).1.Alike (t.resolveDefinitions disk uri).1 := by
  obtain ⟨progress,rfl,h⟩ := h
  -- definitions are gathered without a look at the corpus
  have hgather : gatherDefinitions disk { s with progress }.unmerged uri none 0 =
      ({ (gatherDefinitions disk s.unmerged uri none 0).1 with progress },
        (gatherDefinitions disk s.unmerged uri none 0).2) := rfl
  have hsession : (gatherDefinitions disk s.unmerged uri none 0).1.progress = s.progress := rfl
  unfold Session.resolveDefinitions
  rw [hgather]
  cases hfound : gatherDefinitions disk s.unmerged uri none 0 with
  | mk u found =>
    rw [hfound] at hsession
    have halike : u.Alike { u with progress } := ⟨progress,rfl,hsession ▸ h⟩
    cases found with
    | none => exact halike
    | some d => exact halike.convertSchemas disk d.schemas 1

/-- A compilation changes packages only. -/
theorem alike_compile (s : Session) : s.Alike (s.compile disk).1 := by
  unfold compile
  split
  · exact .refl s
  · split
    · exact .refl s
    · exact ⟨_,rfl,rfl,(Corpus.gathered_assignPackages _ _ _).symm⟩

/-- What is compiled does not depend on the packages that are there. -/
theorem Alike.compile_eq (h : s.Alike t) : (s.compile disk).2 = (t.compile disk).2 := by
  obtain ⟨progress,rfl,h⟩ := h
  have hcount : s.corpus.count.main = progress.corpus.count.main := by
    rw [← Corpus.count_main_gathered,← Corpus.count_main_gathered progress.corpus]
    exact congrArg (·.count.main) h.corpus
  have hpackages (common? : Option String) : s.corpus.assignPackages s.settings.package common? =
      progress.corpus.assignPackages s.settings.package common? := by
    rw [← Corpus.assignPackages_gathered,← Corpus.assignPackages_gathered progress.corpus]
    exact congrArg (Corpus.assignPackages · s.settings.package common?) h.corpus
  unfold Session.compile
  rw [show corpus { s with progress } = progress.corpus from rfl,hcount]
  by_cases hempty : progress.corpus.count.main = 0
  · simp only [hempty,if_true]
  · simp only [hempty,if_false]
    cases s.settings.commonUri disk with
    | error failure => rfl
    | ok common? => simp only [hpackages]

theorem Alike.trans {u : Session} (h : s.Alike t) (hu : t.Alike u) : s.Alike u := by
  obtain ⟨progress,rfl,h⟩ := h
  obtain ⟨other,rfl,hother⟩ := hu
  exact ⟨other,rfl,h.requested.trans hother.requested,h.corpus.trans hother.corpus⟩

theorem Alike.symm (h : s.Alike t) : t.Alike s := by
  obtain ⟨progress,rfl,h⟩ := h
  exact ⟨s.progress,rfl,h.requested.symm,h.corpus.symm⟩

/-- Sessions that are alike stay so under every request. -/
theorem Alike.serve (h : s.Alike t) (request : Request) : (s.serve disk request).Alike (t.serve disk request) := by
  cases request with
  | schemas uris => exact h.takeSchemas disk uris
  | definitions uri => exact h.resolveDefinitions disk uri
  | compile => exact ((alike_compile disk s).symm.trans h).trans (alike_compile disk t)

/-- A session is as it would be without the compilations, but for packages. -/
theorem Alike.serveAll (h : s.Alike t) (requests : List Request) :
    (s.serveAll disk requests).Alike (t.serveAll disk (requests.filter (· ≠ .compile))) := by
  induction requests generalizing s t with
  | nil => exact h
  | cons request requests ih =>
    by_cases hcompile : request = .compile
    · subst hcompile
      have hstep : (s.serve disk .compile).Alike t := (alike_compile disk s).symm.trans h
      simpa [Session.serveAll] using ih hstep
    · simpa [Session.serveAll,hcompile] using ih (h.serve disk request)

/-- What is compiled in the end is what would be compiled without the compilations before. -/
theorem compile_serveAll (s : Session) (requests : List Request) :
    ((s.serveAll disk requests).compile disk).2 =
      ((s.serveAll disk (requests.filter (· ≠ .compile))).compile disk).2 :=
  ((Alike.refl s).serveAll disk requests).compile_eq disk

end Session
end SchemaBinding
