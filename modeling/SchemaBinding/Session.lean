import SchemaBinding.CatalogReader
import SchemaBinding.Model.Packages
import SchemaBinding.Model.Simplify
import SchemaBinding.Output.Writer
import SchemaBinding.Resolution
import SchemaBinding.Service.Reader
import SchemaBinding.Settings
import SchemaBinding.Supply

/-! Sessions. A session resolves documents, and at any time compiles and writes the classes found so far. -/
namespace SchemaBinding
open Resolution (Progress)

structure Session where
  settings : Settings
  supply : Supply
  catalog : Catalog := {}
  simplify : List Class → List Class := Simplify.classes
  writer : Output.Writer
  progress : Progress := {}
  /-- The documents of definitions that were asked for. -/
  merged : List String := []

namespace Session

/-- A session that reads from the disk, if its catalog has an end. The settings are checked first. -/
def start (disk : Disk) (settings : Settings) : ExceptT Failure Option Session := do
  settings.validate
  let writer : Output.Writer := { directory := settings.outputDirectory }
  let _ ← writer.format settings.output
  let catalog ← match settings.catalog with
    | some path => Catalog.ofFile disk path
    | none => pure {}
  return { settings, supply := .disk settings.limits true, catalog, writer }

/-- Replaces the writer by one that knows the output format. -/
def useWriter (s : Session) (writer : Output.Writer) : Except Failure Session :=
  (writer.format s.settings.output).map fun _ => { s with writer }

/-- A session that reads documents from memory, with defaults in all else. -/
def serving (limits : Limits) (documents : List (String × String)) : Session where
  settings := { limits }
  supply := .memory (.ofList (documents.map fun d => (d.1,Utf8.encodeString d.2)))
  writer := {}

/-- A session that has resolved nothing yet. -/
def fresh (s : Session) : Session := { s with progress := {} }

/-- A session that has asked for no definitions yet. -/
def unmerged (s : Session) : Session := { s with merged := [] }

def corpus (s : Session) : Corpus := s.progress.corpus

/-! ## Reading -/

def reading (disk : Disk) (s : Session) (uri : String) (space : Option String) : Reading where
  resolver := { disk, catalog := s.catalog }
  location := some uri
  targetNamespace := space

def readSchema? (disk : Disk) (s : Session) (uri : String) (space : Option String) : Option Schema :=
  ((s.supply.fetch disk uri).bind (Schema.read (s.reading disk uri space))).toOption

def readDefinitions? (disk : Disk) (s : Session) (uri : String) (space : Option String) : Option Definitions :=
  ((s.supply.fetch disk uri).bind (Definitions.read (s.reading disk uri space))).toOption

/-! ## Resolving -/

/-- Takes up a schema document at a depth, with everything it refers to. -/
def takeSchema (disk : Disk) (s : Session) (uri : String) (space : Option String) (depth : Nat) :
    Session × Except Failure Unit :=
  let (progress,outcome) := Resolution.visit (s.readSchema? disk) (s.settings.limits.levelsLeft depth) space
    s.progress uri
  ({ s with progress },outcome)

/-- Takes up entry points one after another. -/
def takeSchemas (disk : Disk) (s : Session) (uris : List String) : Session × Except Failure Unit :=
  let (progress,outcome) := Resolution.inTurn
    (Resolution.visit (s.readSchema? disk) (s.settings.limits.levelsLeft 0) none) s.progress uris
  ({ s with progress },outcome)

/-- The session after a document was taken up. -/
def resolveSchema (disk : Disk) (s : Session) (uri : String) (space : Option String) (depth : Nat) : Session :=
  (s.takeSchema disk uri space depth).1

/-- The session after entry points were taken up. -/
def resolveSchemas (disk : Disk) (s : Session) (uris : List String) : Session :=
  (s.takeSchemas disk uris).1

/-- Takes up schemas that are at a depth already. -/
def convertSchemas (disk : Disk) (s : Session) (schemas : List Schema) (depth : Nat) :
    Session × Except Failure Unit :=
  let (progress,outcome) := Resolution.convertAll (s.readSchema? disk) (s.settings.limits.levelsLeft (depth + 1))
    s.progress schemas
  ({ s with progress },outcome)

/-- The definitions of a document with those it imports. -/
def gatherDefinitions (disk : Disk) (s : Session) (uri : String) (space : Option String) (depth : Nat) :
    Session × Option Definitions :=
  let (merged,found) := Resolution.gather (s.readDefinitions? disk) (s.settings.limits.levelsLeft depth) space
    s.merged uri
  ({ s with merged },found)

/-- Takes up the schemas in a document of definitions and in those it imports. -/
def resolveDefinitions (disk : Disk) (s : Session) (uri : String) : Session × Except Failure Unit :=
  match gatherDefinitions disk s.unmerged uri none 0 with
  | (s,none) => (s,.error (.generation (.definitionsNotFound uri)))
  | (s,some d) => s.convertSchemas disk d.schemas 1

/-! ## Compiling -/

/-- The classes found so far in their packages, simplified, and with the names generated code uses. -/
def compile (disk : Disk) (s : Session) : Session × Except Failure (List Class) :=
  if s.corpus.count.main = 0 then (s,.ok [])
  else match s.settings.commonUri disk with
    | .error e => (s,.error e)
    | .ok common? =>
      let corpus := s.corpus.assignPackages s.settings.package common?
      ({ s with progress := { s.progress with corpus } },
        s.writer.designate (s.simplify corpus.allClasses) s.settings.output)

/-- What is compiled is made of the classes in their packages. -/
theorem compile_eq_designate (disk : Disk) {s : Session} {common? : Option String}
    (hcommon : s.settings.commonUri disk = .ok common?) (hclasses : s.corpus.allClasses ≠ []) :
    (s.compile disk).2 = s.writer.designate
      (s.simplify (s.corpus.assignPackages s.settings.package common?).allClasses) s.settings.output := by
  have hcount : s.corpus.count.main ≠ 0 := by
    simpa [Corpus.count,Class.count] using hclasses
  unfold compile
  rw [if_neg hcount,hcommon]

/-- What a session has done to the world: the disk as it is left, and the text printed. -/
structure Effect where
  disk : Disk
  printed : String := ""

/-- Writes or prints classes. Without classes there is nothing to do. -/
def emit (disk : Disk) (s : Session) (cs : List Class) : Effect × Except Failure Unit :=
  if cs.isEmpty then ({ disk },.ok ())
  else if s.settings.print then
    match s.writer.print cs s.settings.output with
    | .ok printed => ({ disk, printed },.ok ())
    | .error e => ({ disk },.error e)
  else
    let (disk,written) := s.writer.write disk cs s.settings.output
    ({ disk },written.map fun _ => ())

/-- Compiles, and writes or prints the classes. -/
def generate (disk : Disk) (s : Session) : Session × Effect × Except Failure (List Class) :=
  match s.compile disk with
  | (s,.error e) => (s,{ disk },.error e)
  | (s,.ok cs) =>
    let (effect,outcome) := s.emit disk cs
    (s,effect,outcome.map fun _ => cs)

end Session
end SchemaBinding
