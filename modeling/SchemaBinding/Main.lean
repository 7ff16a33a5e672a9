import SchemaBinding.CommandLine

/-! The program. A run is a function of a disk, so the files it asks for are brought onto the disk until it
asks for no others, and so is what stands where it would write. What the run changed is then put into the
file system. -/
namespace SchemaBinding
namespace CommandLine

/-- The file that a document is in, if its URI names one. -/
def fileOfUri? (uri : String) : Option Path := do
  let bytes ← (← Url.parse? uri).filePath?
  return ⟨← Utf8.decodeString? bytes⟩

/-- Brings a file, or the files directly in a directory, onto a disk. What cannot be read stays away. -/
def bring (disk : Disk) (p : Path) : IO Disk := do
  if p.text = "" || p.text.toList.contains '\x00' || disk.isFile p then return disk
  let here := disk.start p ++ p.pieces
  let place := (← IO.currentDir) / p.text
  try
    if ← place.isDir then
      let mut disk := disk.mount here none
      for entry in ← place.readDir do
        unless ← entry.path.isDir do
          disk := disk.mount (here ++ [entry.fileName]) (some (← IO.FS.readBinFile entry.path).toList)
      return disk
    else return disk.mount here (some (← IO.FS.readBinFile place).toList)
  catch _ => return disk

/-- Brings what stands at a place, without what is in it. -/
def bringPlace (disk : Disk) (here : List String) : IO Disk := do
  let place := (← IO.currentDir) / (Disk.pathOf here).text
  try
    if ← place.isDir then return disk.mount here none
    else return disk.mount here (some (← IO.FS.readBinFile place).toList)
  catch _ => return disk

/-- Brings a catalog with all it leads to; one that is there already has been followed before. -/
partial def bringCatalog (disk : Disk) (p : Path) : IO Disk := do
  if disk.isFile p then return disk
  let mut disk ← bring disk p
  for entry in Catalog.entriesAt disk p do
    match entry with
    | .next other => disk ← bringCatalog disk (Catalog.beside p other)
    | .mapping m => disk ← bring disk (Catalog.beside p m.uri)
  return disk

/-- Brings what a command names for reading. -/
def bringInputs (disk : Disk) : Command → IO Disk
  | .download o => bring disk ⟨o.source⟩
  | .generate o => do
    let disk ← (⟨o.source⟩ :: o.config.toList).foldlM bring disk
    match settingsOf disk o with
    | .ok s => do
      let disk ← s.commonDirectory.toList.foldlM bring disk
      s.catalog.toList.foldlM bringCatalog disk
    | .error _ => return disk

/-- How much is on a disk. -/
def extent (disk : Disk) : Nat := disk.files.size + disk.directories.length

/-- The places that a run made or changed. -/
def touched (before after : Disk) : List (List String) :=
  after.directories.filter (! before.directories.contains ·) ++
    (after.files.entries.filter fun e => before.files.get? e.1 ≠ some e.2).map Prod.fst

/-- Runs a command until it asks for no file, and touches no place, that is not on the disk. Gives the disk
of the last run too. -/
partial def settle (disk : Disk) (command : Command) : IO (Disk × Outcome) := do
  let some outcome := run disk command | throw (IO.userError "the run has no end")
  let grown ← (outcome.requested.filterMap fileOfUri?).foldlM bring disk
  let grown ← (touched disk outcome.disk).foldlM bringPlace grown
  if extent disk < extent grown then settle grown command else return (disk,outcome)

/-- Puts the directories and files that a run made or changed into the file system. -/
def store (before after : Disk) : IO Unit := do
  for here in after.directories do
    unless before.directories.contains here do IO.FS.createDirAll (Disk.pathOf here).text
  for (here,bytes) in after.files.entries do
    unless before.files.get? here = some bytes do IO.FS.writeBinFile (Disk.pathOf here).text bytes.toByteArray

/-- Tells of a failure, and gives the exit code for it. -/
def fail (message : String) : IO UInt32 := do
  IO.eprintln ("Error: " ++ message)
  return 1

def execute (command : Command) : IO UInt32 := do
  let here := (Path.mk (← IO.currentDir).toString).pieces.filter (· ≠ "")
  let empty : Disk := { workingDirectory := here }
  let disk ← bringInputs (empty.mount here none) command
  let (disk,outcome) ← settle disk command
  try store disk outcome.disk catch _ => return ← fail Failure.io.message
  IO.print outcome.printed
  match outcome.failure with
  | some e => fail e.message
  | none => return 0

end CommandLine
end SchemaBinding

open SchemaBinding CommandLine

/-- Answers a question at once; arguments that are not in order end with code 2. -/
def main (arguments : List String) : IO UInt32 := do
  match parse arguments with
  | .ok command => execute command
  | .error (.show text) =>
    IO.print text
    return 0
  | .error .misuse =>
    IO.eprintln "error: the arguments are not in order\n\nFor more information, try '--help'."
    return 2
