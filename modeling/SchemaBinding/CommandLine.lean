import SchemaBinding.Download
import SchemaBinding.Session
import SchemaBinding.SettingsReader

/-! The command line: `generate` makes classes of documents, `download` keeps documents. The arguments of
a command are read from left to right, and the first that is not in order, or asks for help, ends the
reading. -/
namespace SchemaBinding
namespace CommandLine

/-! ## Switches -/

inductive Name where
  | package
  | output
  | wsdl
  | print
  | outputDirectory
  | catalog
  | config
  | verbosity
deriving Repr, DecidableEq

inductive Takes where
  | nothing
  | text
  /-- A text that is not empty. -/
  | path
deriving Repr, DecidableEq

structure Switch where
  name : Name
  long : String
  short : Option Char := none
  takes : Takes := .text
deriving Repr, DecidableEq

inductive CommandName where
  | generate
  | download
deriving Repr, DecidableEq

namespace CommandName

def ofText? : String → Option CommandName
  | "generate" => some .generate
  | "download" => some .download
  | _ => none

def switches : CommandName → List Switch
  | .generate =>
    [{ name := .package, long := "package", short := some 'p' },
      { name := .output, long := "output", short := some 'o' },
      { name := .wsdl, long := "wsdl", takes := .nothing },
      { name := .print, long := "print", takes := .nothing },
      { name := .outputDirectory, long := "output-dir", takes := .path },
      { name := .catalog, long := "catalog", takes := .path },
      { name := .config, long := "config", short := some 'c', takes := .path },
      { name := .verbosity, long := "verbosity", short := some 'v' }]
  | .download =>
    [{ name := .package, long := "package", short := some 'p' },
      { name := .outputDirectory, long := "output-dir", takes := .path },
      { name := .verbosity, long := "verbosity", short := some 'v' }]

end CommandName

/-! ## Texts -/

def version : String := "xsdgen 0.1.0\n"

def help : String :=
  "XML Schema and WSDL data binding generator

Usage: xsdgen <COMMAND>

Commands:
  generate  Generate code from schema or WSDL documents
  download  Download a schema or WSDL document with all its dependencies
  help      Print this message or the help of the given subcommand(s)

Options:
  -h, --help     Print help
  -V, --version  Print version
"

def CommandName.help : CommandName → String
  | .generate =>
    "Generate code from schema or WSDL documents

Usage: xsdgen generate [OPTIONS] <SOURCE>

Arguments:
  <SOURCE>  File, directory or URL of the source documents

Options:
  -p, --package <PACKAGE>      Target package, e.g. api.models
  -o, --output <OUTPUT>        Output format
      --wsdl                   The source is a WSDL document
      --print                  Print to stdout instead of writing files
      --output-dir <DIR>       Directory generated files are written to
      --catalog <CATALOG>      OASIS XML catalog for schema locations
  -c, --config <FILE>          TOML configuration file
  -v, --verbosity <VERBOSITY>  Log level: error, warn, info, debug, trace
  -h, --help                   Print help
"
  | .download =>
    "Download a schema or WSDL document with all its dependencies

Usage: xsdgen download [OPTIONS] --package <PACKAGE> <SOURCE>

Arguments:
  <SOURCE>  File or URL of the source document

Options:
  -p, --package <PACKAGE>      Target package, mirrored as a directory path
      --output-dir <DIR>       Base directory of the mirror [default: .]
  -v, --verbosity <VERBOSITY>  Log level: error, warn, info, debug, trace
  -h, --help                   Print help
"

def helpOfHelp : String :=
  "Print this message or the help of the given subcommand(s)

Usage: xsdgen help [COMMAND]...

Arguments:
  [COMMAND]...  Print help for the subcommand(s)
"

/-! ## Reading arguments -/

/-- What ends the reading of arguments early. -/
inductive Stop where
  /-- A text was asked for instead of a run. -/
  | show (text : String)
  | misuse
deriving Repr, DecidableEq

structure Given where
  source : Option String := none
  values : OrderedMap Name String := {}
  /-- A switch whose value is the next argument. -/
  pending : Option Switch := none
  /-- Whether all further arguments are sources. -/
  sourcesOnly : Bool := false

namespace Given

def value? (g : Given) (name : Name) : Option String := g.values.get? name

def has (g : Given) (name : Name) : Bool := g.values.contains name

def give (g : Given) (s : Switch) (value : String) : Except Stop Given :=
  if g.has s.name || (s.takes = .path && value = "") then .error .misuse
  else .ok { g with values := g.values.insert s.name value, pending := none }

def giveSource (g : Given) (source : String) : Except Stop Given :=
  if g.source.isSome then .error .misuse else .ok { g with source := some source }

/-- A switch with the text after its equals sign, if there is one. -/
def giveSwitch (g : Given) (s : Switch) (attached : Option String) : Except Stop Given :=
  match s.takes, attached with
  | .nothing, none => g.give s ""
  | .nothing, some _ => .error .misuse
  | _, none => .ok { g with pending := some s }
  | _, some value => g.give s value

def takeLong (command : CommandName) (g : Given) (cs : List Char) : Except Stop Given :=
  let name := String.ofList (cs.takeWhile (· ≠ '='))
  let attached := match cs.dropWhile (· ≠ '=') with
    | _ :: value => some (String.ofList value)
    | [] => none
  match command.switches.find? (·.long = name) with
  | some s => g.giveSwitch s attached
  | none => if name = "help" && attached.isNone then .error (.show command.help) else .error .misuse

/-- The text after a letter is its value, with or without an equals sign before it. -/
def takeShort (command : CommandName) (g : Given) (letter : Char) (rest : List Char) : Except Stop Given :=
  match command.switches.find? (·.short = some letter) with
  | some s =>
    g.giveSwitch s (match rest with
      | [] => none
      | '=' :: value => some (String.ofList value)
      | value => some (String.ofList value))
  | none => if letter = 'h' then .error (.show command.help) else .error .misuse

/-- Takes the next argument. -/
def take (command : CommandName) (g : Given) (argument : String) : Except Stop Given :=
  match argument.toList, g.sourcesOnly, g.pending with
  | _, true, _ => g.giveSource argument
  | '-' :: _ :: _, false, some _ => .error .misuse
  | _, false, some s => g.give s argument
  | ['-','-'], false, none => .ok { g with sourcesOnly := true }
  | '-' :: '-' :: cs, false, none => g.takeLong command cs
  | '-' :: c :: cs, false, none => g.takeShort command c cs
  | _, false, none => g.giveSource argument

def finish (g : Given) : Except Stop Given :=
  if g.pending.isSome then .error .misuse else .ok g

end Given

structure GenerateOptions where
  source : String
  package : Option String := none
  output : Option String := none
  wsdl : Bool := false
  print : Bool := false
  outputDirectory : Option Path := none
  catalog : Option Path := none
  config : Option Path := none
deriving Repr, DecidableEq

structure DownloadOptions where
  source : String
  package : String
  outputDirectory : Path := ⟨"."⟩
deriving Repr, DecidableEq

inductive Command where
  | generate (options : GenerateOptions)
  | download (options : DownloadOptions)
deriving Repr, DecidableEq

/-- The command that the arguments given make, if none is missing. -/
def Command.of (name : CommandName) (g : Given) : Except Stop Command :=
  match name, g.source, g.value? .package with
  | .generate, some source, package =>
    .ok (.generate {
      source, package
      output := g.value? .output
      wsdl := g.has .wsdl
      print := g.has .print
      outputDirectory := (g.value? .outputDirectory).map Path.mk
      catalog := (g.value? .catalog).map Path.mk
      config := (g.value? .config).map Path.mk })
  | .download, some source, some package =>
    .ok (.download { source, package, outputDirectory := ⟨(g.value? .outputDirectory).getD "."⟩ })
  | _, _, _ => .error .misuse

def parseCommand (name : CommandName) (arguments : List String) : Except Stop Command := do
  let g ← arguments.foldlM (Given.take name) {}
  let g ← g.finish
  Command.of name g

def helpFor : List String → Stop
  | [] => .show help
  | ["help"] => .show helpOfHelp
  | [name] =>
    match CommandName.ofText? name with
    | some command => .show command.help
    | none => .misuse
  | _ => .misuse

/-- Reads all arguments: a command and its own, or a question. -/
def parse : List String → Except Stop Command
  | [] => .error .misuse
  | "help" :: rest => .error (helpFor rest)
  | "--help" :: _ => .error (.show help)
  | "--version" :: _ => .error (.show version)
  | first :: rest =>
    match CommandName.ofText? first, first.toList with
    | some name, _ => parseCommand name rest
    | none, '-' :: 'h' :: _ => .error (.show help)
    | none, '-' :: 'V' :: _ => .error (.show version)
    | none, _ => .error .misuse

/-! ## Running -/

/-- What a run leaves behind. -/
structure Outcome where
  disk : Disk
  printed : String := ""
  failure : Option Failure := none
  /-- The URIs of all documents the run asked for. -/
  requested : List String := []

def Outcome.failed (disk : Disk) (e : Failure) : Outcome := { disk, failure := some e }

/-- The failure of a step, if it failed. -/
def failureOf {α : Type} : Except Failure α → Option Failure
  | .ok _ => none
  | .error e => some e

/-- The settings of a file, if one is given, with the options over them. -/
def settingsOf (disk : Disk) (o : GenerateOptions) : Except Failure Settings := do
  let s ← match o.config with
    | some path => Settings.ofFile disk path
    | none => pure {}
  return { s with
    package := o.package.getD s.package
    output := o.output.getD s.output
    outputDirectory := o.outputDirectory.getD s.outputDirectory
    catalog := o.catalog.or s.catalog
    service := o.wsdl || s.service
    print := o.print || s.print }

/-- The entry points, and the session that is to resolve them. -/
def prepare (disk : Disk) (o : GenerateOptions) : ExceptT Failure Option (List String × Session) := do
  let settings ← settingsOf disk o
  let uris ← Location.entryPoints disk o.source settings.service
  let s ← Session.start disk settings
  return (uris,s)

/-- Resolves the entry points; of service definitions there is one. -/
def resolve (disk : Disk) (s : Session) (uris : List String) : Session × Except Failure Unit :=
  if s.settings.service then
    match uris with
    | uri :: _ => s.resolveDefinitions disk uri
    | [] => (s,.ok ())
  else s.takeSchemas disk uris

/-- Resolves the entry points, and makes classes of what they lead to. -/
def generateFrom (disk : Disk) (uris : List String) (s : Session) : Outcome :=
  match resolve disk s uris with
  | (s,.error e) => { disk, failure := some e, requested := s.progress.requested ++ s.merged }
  | (s,.ok ()) =>
    let (s,effect,made) := s.generate disk
    { disk := effect.disk, printed := effect.printed, failure := failureOf made
      requested := s.progress.requested ++ s.merged }

def generate (disk : Disk) (o : GenerateOptions) : Option Outcome :=
  (prepare disk o).run.map fun
    | .error e => .failed disk e
    | .ok (uris,s) => generateFrom disk uris s

def download (disk : Disk) (o : DownloadOptions) : Outcome :=
  match Location.entryPoints disk o.source false with
  | .error e => .failed disk e
  | .ok uris =>
    let d : Download := { directory := o.outputDirectory }
    let p := d.walk disk uris o.package
    { disk := p.disk, failure := p.failure, requested := p.requested }

/-- What a command leaves behind, if the run has an end. -/
def run (disk : Disk) : Command → Option Outcome
  | .generate o => generate disk o
  | .download o => some (download disk o)

end CommandLine
end SchemaBinding
