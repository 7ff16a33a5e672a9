import SchemaBinding.Uri.Fault
import SchemaBinding.Xml.Fault

/-! Everything that can go wrong, by cause. A cause has a kind, and one text that begins with its kind. -/
namespace SchemaBinding

/-- A document that is well-formed markup but not what it should be. -/
structure ParseError where
  message : String
  location : Option String := none
deriving Repr, DecidableEq

def ParseError.text (e : ParseError) : String :=
  match e.location with
  | some location => e.message ++ " (" ++ location ++ ")"
  | none => e.message

/-- Why a file that was asked for gave no text. -/
inductive ReadFault where
  | unavailable
  /-- The path holds a null character, which no path may. -/
  | nullInPath
  | notUtf8
deriving Repr, DecidableEq

def ReadFault.message (subject : String) : ReadFault → String
  | .unavailable => subject
  | .nullInPath => subject ++ ": file name contained an unexpected NUL byte"
  | .notUtf8 => subject ++ ": stream did not contain valid UTF-8"

inductive ResourceError where
  | unreadableFile (path : String) (fault : ReadFault)
  | invalidFileUri (uri : String)
  | remoteForbidden (uri : String)
  | remoteUnsupported (uri : String)
  | notFetchable (text : String)
  | documentNotFound (uri : String)
  | noUriForPath (path : String)
  | unreadableCatalog (path : String) (fault : ReadFault)
deriving Repr, DecidableEq

def ResourceError.message : ResourceError → String
  | .unreadableFile path fault => fault.message ("Failed to read file '" ++ path ++ "'")
  | .invalidFileUri uri => "Invalid file URI '" ++ uri ++ "'"
  | .remoteForbidden uri => "Remote resources are not allowed: " ++ uri
  | .remoteUnsupported uri => "Remote loading requires the `remote` feature: " ++ uri
  | .notFetchable text => "Not a fetchable location: " ++ text
  | .documentNotFound uri => "Document not found: " ++ uri
  | .noUriForPath path => "Cannot convert '" ++ path ++ "' to a URI"
  | .unreadableCatalog path fault => fault.message ("Failed to read catalog '" ++ path ++ "'")

inductive ConfigError where
  | emptyPackage
  | invalidPackage (package : String)
  | emptyOutput
  | unknownFormat (format : String) (known : List String)
  | serviceDirectory
  | unreadableFile (path : String) (fault : ReadFault)
deriving Repr, DecidableEq

def ConfigError.message : ConfigError → String
  | .emptyPackage => "Package name must not be empty"
  | .invalidPackage package => "Invalid package name '" ++ package ++ "'"
  | .emptyOutput => "Output format must not be empty"
  | .unknownFormat format known =>
    "Unknown output format '" ++ format ++ "', expected one of: " ++ ", ".intercalate known
  | .serviceDirectory => "WSDL mode doesn't support scanning directories"
  | .unreadableFile path fault => fault.message ("Failed to read config '" ++ path ++ "'")

inductive GenerationError where
  | definitionsNotFound (uri : String)
  | locationNotSet
deriving Repr, DecidableEq

def GenerationError.message : GenerationError → String
  | .definitionsNotFound uri => "Definitions not found " ++ uri
  | .locationNotSet => "Schema location is not set"

inductive LimitError where
  | documentSize (size limit : Nat)
  | includeDepth (depth limit : Nat)
deriving Repr, DecidableEq

def LimitError.message : LimitError → String
  | .documentSize size limit =>
    "document size " ++ toString size ++ " bytes exceeds maximum " ++ toString limit ++ " bytes"
  | .includeDepth depth limit =>
    "include depth " ++ toString depth ++ " exceeds maximum " ++ toString limit

inductive Failure where
  | parse (error : ParseError)
  | resource (error : ResourceError)
  | config (error : ConfigError)
  | generation (error : GenerationError)
  | limitExceeded (error : LimitError)
  | xml (fault : Xml.Fault)
  | url (fault : Uri.Fault)
  /-- A directory or file could not be made, or a path not be followed. -/
  | io
  /-- A settings file is not TOML, or does not hold settings. -/
  | toml
deriving Repr, DecidableEq

def Failure.message : Failure → String
  | .parse e => "parse error: " ++ e.text
  | .resource e => "resource error: " ++ e.message
  | .config e => "configuration error: " ++ e.message
  | .generation e => "generation error: " ++ e.message
  | .limitExceeded e => "limit exceeded: " ++ e.message
  | .xml f => "XML error: " ++ f.message
  | .url f => "URL error: " ++ f.message
  | .io => "I/O error"
  | .toml => "config file error"

end SchemaBinding
