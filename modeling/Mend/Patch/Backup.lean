import Mend.Checksum
import Mend.Data.Json
import Mend.Workspace

/-!
# Backups

Before a file is patched its bytes are copied to the backup directory, under a name with a time
stamp and a few random digits. Beside each copy lies a description with the checksum of the bytes; a
copy that does not have that checksum any more is not used.
-/

namespace Mend

/-- A copy of a file. -/
structure Backup where
  path : Path
  createdAt : Time
  /-- The file that was copied. -/
  source : Path
  size : Nat
  checksum : String
  deriving Repr, DecidableEq

namespace Backup

/-- Where a project keeps its backups. -/
def defaultDirectory : String := ".appmedic/backups"

/-- The path of a copy's description. -/
def descriptionPath (backup : Path) : Path := ⟨backup.text ++ ".meta.json"⟩

/-- The description of a copy. -/
def toData (b : Backup) : Data :=
  .record [("created_at", .text b.createdAt.text), ("source", .text b.source.text),
    ("size_bytes", .ofNat b.size), ("checksum", .text b.checksum)]

/-- Read the description of the copy at a path. -/
def ofData? (path : Path) (d : Data) : Option Backup := do
  let f ← Fields.of? .json ["created_at", "source", "size_bytes", "checksum"] d
  pure {
    path
    createdAt := ← f.required "created_at" Issue.timeOf?
    source := ← f.required "source" Issue.pathOf?
    size := ← f.required "size_bytes" (Data.toNat? Data.countLimit)
    checksum := ← f.required "checksum" Data.toText? }

/-- The name of a copy. -/
def name (source : Path) (now : Time) (id : String) : String :=
  source.fileName?.getD "file" ++ "." ++ now.stamp ++ "." ++ String.ofList (id.toList.take 8)
    ++ ".bak"

/-- Copy bytes, the content of `source`, into the backup directory. -/
def create (dir source : Path) (bytes : ByteArray) : Work Backup := do
  Work.makeDirectories dir
  let now ← Work.now
  let id ← Work.freshId
  let path := dir.join (name source now id)
  let backup : Backup := ⟨path, now, source, bytes.size, Checksum.sha256 bytes⟩
  Work.write path bytes
  Work.write (descriptionPath path) (Json.pretty backup.toData).toUTF8
  pure backup

/-- The bytes of a copy, if they have the checksum of its description. -/
def verifiedBytes (backup : Path) : Work ByteArray := do
  let raw ← Work.read (descriptionPath backup)
  match (Json.readBytes? raw).bind (ofData? backup) with
  | none => throw .serialization
  | some described =>
    let bytes ← Work.read backup
    if Checksum.sha256 bytes == described.checksum then pure bytes else throw (.integrity backup)

/-- Write a copy back. -/
def restore (backup target : Path) : Work Unit := do
  let bytes ← verifiedBytes backup
  Work.write target bytes

end Backup

end Mend
