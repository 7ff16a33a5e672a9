import SchemaBinding.Model.Build
import SchemaBinding.Model.Corpus
import SchemaBinding.Service.Basic

/-! Walks from document to document. Each document is asked for once; what cannot be read gives nothing
and stops nothing. A walk goes only so many levels deep, and a document that is met too deep can still be
met again on a shorter way. -/
namespace SchemaBinding

/-- The locations of the documents a schema refers to. -/
def Schema.locations (s : Schema) : List String := s.references.filterMap (·.location)

/-- The locations of the documents that definitions import. -/
def Definitions.locations (d : Definitions) : List String := d.imports.filterMap (·.location)

namespace Resolution

/-- Reads a document by its URI; the namespace is for a document that declares none. -/
abbrev Reader (α : Type) := String → Option String → Option α

/-! ## Schemas -/

/-- The classes found so far, and the URIs of the documents that were asked for. -/
structure Progress where
  corpus : Corpus := {}
  requested : List String := []
deriving Inhabited

namespace Progress

def request (p : Progress) (uri : String) : Progress := { p with requested := p.requested ++ [uri] }

def record (p : Progress) (uri : String) (s : Schema) : Progress :=
  { p with corpus := p.corpus.record uri s.classes }

end Progress

/-- Does one step after another up to the first failure. -/
def inTurn {σ α : Type} (step : σ → α → σ × Except Failure Unit) (s : σ) : List α → σ × Except Failure Unit
  | [] => (s,.ok ())
  | a :: rest =>
    match step s a with
    | (s,.ok ()) => inTurn step s rest
    | failed => failed

/-- Follows what a schema refers to, with the namespace of the schema handed on, and then records its own
classes. A schema without a location has no place in the corpus. -/
def convertBy (follow : Option String → Progress → String → Progress × Except Failure Unit) (p : Progress)
    (s : Schema) : Progress × Except Failure Unit :=
  match inTurn (follow s.targetNamespace) p s.locations with
  | (p,.ok ()) =>
    match s.location with
    | some uri => (p.record uri s,.ok ())
    | none => (p,.error (.generation .locationNotSet))
  | failed => failed

/-- Visits a document and all it refers to; their classes come before its own. What is met too deep is passed
over. -/
def visit (read : Reader Schema) : Nat → Option String → Progress → String → Progress × Except Failure Unit
  | 0, _, p, _ => (p,.ok ())
  | levels + 1, space, p, uri =>
    if uri ∈ p.requested then (p,.ok ())
    else match read uri space with
      | none => (p.request uri,.ok ())
      | some s => convertBy (visit read levels) (p.request uri) s

def convert (read : Reader Schema) (levels : Nat) (p : Progress) (s : Schema) : Progress × Except Failure Unit :=
  convertBy (visit read levels) p s

/-- Converts schemas up to the first failure. -/
def convertAll (read : Reader Schema) (levels : Nat) (p : Progress) (ss : List Schema) :
    Progress × Except Failure Unit :=
  inTurn (convert read levels) p ss

/-! ## Definitions -/

/-- The definitions merged so far, and the URIs of the documents that were asked for. -/
structure Merge where
  definitions : Definitions
  requested : List String

/-- Merges what a walk has found, if anything. -/
def Merge.take (m : Merge) : List String × Option Definitions → Merge
  | (requested,some d) => { definitions := m.definitions.merge d, requested }
  | (requested,none) => { m with requested }

/-- The definitions of a document with all it imports merged in, in the order of the walk. -/
def gather (read : Reader Definitions) : Nat → Option String → List String → String →
    List String × Option Definitions
  | 0, _, requested, _ => (requested,none)
  | levels + 1, space, requested, uri =>
    if uri ∈ requested then (requested,none)
    else match read uri space with
      | none => (requested ++ [uri],none)
      | some d =>
        let merged := d.locations.foldl
          (fun (m : Merge) location => m.take (gather read levels d.targetNamespace m.requested location))
          { definitions := d, requested := requested ++ [uri] }
        (merged.requested,some merged.definitions)

end Resolution
end SchemaBinding
