import SchemaBinding.Disk
import SchemaBinding.Output.Module

/-! Writers: formats by name, the names that generated code uses, and the files of all packages. -/
namespace SchemaBinding
namespace Output

structure Format where
  extension : String
  className : String → String := Words.pascalCase
  fieldName : String → String := Words.snakeCase
  renderModule : Module → String

def Format.json : Format where
  extension := "json"
  renderModule := Module.text

/-- A file below the output directory. -/
structure File where
  path : Path
  content : String
deriving Repr, DecidableEq, Inhabited

structure Writer where
  formats : OrderedMap String Format := OrderedMap.ofList [("json",Format.json)]
  directory : Path := ⟨"."⟩

/-! ## Names -/

/-- A name with a number put after it; the number 0 leaves it as it is. -/
def numbered (name : String) (number : Nat) : String :=
  if number = 0 then name else name ++ "_" ++ toString number

/-- A name that is not taken. Of the numbers up to the count of taken names, one is free. -/
def freeName (name : String) (taken : List String) : String :=
  numbered name (((List.range (taken.length + 1)).find? fun n => !taken.contains (numbered name n)).getD 0)

namespace Format

def memberName (format : Format) (f : Field) : String :=
  if f.isEnumeration then Words.upperCase (format.fieldName f.name) else format.fieldName f.name

/-- Gives each field a name of its own in the class. -/
def designateFields (format : Format) (taken : List String) : List Field → List Field
  | [] => []
  | f :: rest =>
    let name := freeName (format.memberName f) taken
    { f with localName := name } :: designateFields format (name :: taken) rest

mutual

def designateClass (format : Format) (name : String) : Class → Class
  | c@{ inner, .. } =>
    { c with
      localName := name
      fields := designateFields format [] c.fields
      inner := designateInner format [] inner }

/-- Gives each class a name of its own among those in the same class. -/
def designateInner (format : Format) (taken : List String) : List Class → List Class
  | [] => []
  | c :: rest =>
    let name := freeName (format.className c.name) taken
    designateClass format name c :: designateInner format (name :: taken) rest

end

/-- Gives each class a name of its own in its package. Names that are taken stand with their packages. -/
def designateClasses (format : Format) (taken : List (Option String × String)) : List Class → List Class
  | [] => []
  | c :: rest =>
    let name := freeName (format.className c.name) ((taken.filter (·.1 = c.package)).map Prod.snd)
    designateClass format name c :: designateClasses format ((c.package,name) :: taken) rest

/-- The file of a module. The parts of its package are directories. -/
def file (format : Format) (m : Module) : File where
  path := (Path.ofPieces ((m.package.toList.splitOn '.').map String.ofList)).withExtension format.extension
  content := format.renderModule m

end Format

namespace Writer

def register (w : Writer) (name : String) (format : Format) : Writer :=
  { w with formats := w.formats.insert name format }

def format (w : Writer) (name : String) : Except Failure Format :=
  match w.formats.get? name with
  | some f => .ok f
  | none => .error (.config (.unknownFormat name w.formats.keys))

/-- Gives classes and fields the names that generated code uses. -/
def designate (w : Writer) (cs : List Class) (name : String) : Except Failure (List Class) :=
  (w.format name).map fun f => f.designateClasses [] cs

/-- The files of all packages. -/
def render (w : Writer) (cs : List Class) (name : String) : Except Failure (List File) :=
  (w.format name).map fun f => (modules cs).map f.file

/-- The files of all packages as one text. -/
def print (w : Writer) (cs : List Class) (name : String) : Except Failure String :=
  (w.render cs name).map fun files => String.join (files.map File.content)

/-- Writes files one by one up to the first that cannot be written; gives their paths. -/
def writeFiles (directory : Path) (disk : Disk) : List File → Disk × Except Failure (List Path)
  | [] => (disk,.ok [])
  | f :: rest =>
    let target := directory / f.path
    match disk.place target (Utf8.encodeString f.content) with
    | (disk,.error e) => (disk,.error e)
    | (disk,.ok ()) =>
      let (disk,written) := writeFiles directory disk rest
      (disk,written.map (target :: ·))

/-- Writes the files of all packages below the output directory. -/
def write (w : Writer) (disk : Disk) (cs : List Class) (name : String) : Disk × Except Failure (List Path) :=
  match w.render cs name with
  | .error e => (disk,.error e)
  | .ok files => writeFiles w.directory disk files

end Writer
end Output
end SchemaBinding
