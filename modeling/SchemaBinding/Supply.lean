import SchemaBinding.Limits
import SchemaBinding.Location

/-! Where documents come from. A supply fetches the bytes of a document by its URI: from the disk, from a collection in
memory, or in any other way. Nothing is fetched from remote places. -/
namespace SchemaBinding

structure Supply where
  /-- The bytes of the document with a URI, the disk being as it is. -/
  fetch : Disk → String → Except Failure Bytes
  /-- How many documents can be under way at once, each referred to by the one before. -/
  levels : Nat

namespace Supply

def readFile (disk : Disk) (p : Path) : Except Failure Bytes :=
  (disk.read p).mapError fun fault => .resource (.unreadableFile p.text fault)

/-- Reads what a URL names. A path that is not UTF-8 leads to no file here. -/
def readUrl (disk : Disk) (allowRemote : Bool) (u : Url) : Except Failure Bytes :=
  if u.scheme = "file" then
    match u.filePath? with
    | none => .error (.resource (.invalidFileUri u.text))
    | some bytes =>
      match Utf8.decodeString? bytes with
      | some text => readFile disk ⟨text⟩
      | none => .error (.resource (.unreadableFile (Utf8.decodeLossy bytes)
          (if bytes.contains 0 then .nullInPath else .unavailable)))
  else if allowRemote then .error (.resource (.remoteUnsupported u.text))
  else .error (.resource (.remoteForbidden u.text))

def readLocation (disk : Disk) (allowRemote : Bool) : Location → Except Failure Bytes
  | .url u => readUrl disk allowRemote u
  | .path p => readFile disk p
  | .identifier text => .error (.resource (.notFetchable text))

/-- How many calls one inside another a stack of 8 MiB has room for if each takes up 128 bytes. The calls of a walk take up
more, so a walk does not come back from a chain of documents that is longer than this. -/
def stackLevels : Nat := 8 * 1024 * 1024 / 128

/-- Documents on the disk. The size of what is read is limited. -/
def disk (limits : Limits) (allowRemote : Bool) : Supply where
  fetch disk uri := do
    let bytes ← readLocation disk allowRemote (Location.classify disk uri)
    limits.checkDocumentSize bytes.length
    return bytes
  levels := stackLevels

/-- Documents in memory by their URIs. None comes twice in a chain. -/
def memory (documents : OrderedMap String Bytes) : Supply where
  fetch _ uri :=
    match documents.get? uri with
    | some bytes => .ok bytes
    | none => .error (.resource (.documentNotFound uri))
  levels := documents.size

theorem fetch_memory_eq_ok_iff {documents : OrderedMap String Bytes} {disk : Disk} {uri : String} {bytes : Bytes} :
    (memory documents).fetch disk uri = .ok bytes ↔ documents.get? uri = some bytes := by
  cases h : documents.get? uri <;> simp [memory,h]

/-- Whether all that a supply has is found under some URIs. -/
def Serves (s : Supply) (uris : List String) : Prop :=
  ∀ (disk : Disk) (uri : String) (bytes : Bytes), s.fetch disk uri = .ok bytes → uri ∈ uris

theorem serves_memory (documents : OrderedMap String Bytes) : (memory documents).Serves documents.keys := by
  intro disk uri bytes h
  exact OrderedMap.isSome_get?.mp (Option.isSome_iff_exists.mpr ⟨bytes,fetch_memory_eq_ok_iff.mp h⟩)

end Supply
end SchemaBinding
