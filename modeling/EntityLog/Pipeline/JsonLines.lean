import EntityLog.Files.Machine
import EntityLog.Record.Codec
/-!
# A sink of JSON lines

The sink appends each batch to one file, a record per line in its JSON encoding. Opening it
creates the file's directory when the path names one, and then opens the file for appending,
creating it when missing; what the file held is kept.

A batch is encoded in full first and written by one append, then made durable. An empty batch
writes nothing and succeeds. So the file grows by exactly the lines of the batch or, when the
append is refused, not at all.
-/

namespace EntityLog.Pipeline

open EntityLog.Files EntityLog.Record

/-- Why a sink could not take a batch. -/
inductive SinkFault where
  | io (fault : IoFault)
  deriving Repr, BEq

/-- The name of the kind of a sink failure. -/
def SinkFault.kind : SinkFault → String
  | .io _ => "Io"

/-- The message of a sink failure. -/
def SinkFault.message : SinkFault → String
  | .io e => "IO error: " ++ e.text

/-- A computation of the sink on a machine. -/
abbrev SinkIo := OnMachine SinkFault

/-- An open file of JSON lines: the path it was opened by and the file it writes to. -/
structure LineFile where
  path : Path
  inode : Nat
  deriving Repr, BEq

/-- The bytes a batch adds: each record's encoding followed by a line feed. -/
def batchLines (batch : List ChangeRecord) : String :=
  String.join (batch.map fun r => r.encode ++ "\n")

namespace LineFile

/-- Opens the sink: creates the directory above the file when the path has one, then opens the
file for appending. -/
def openAt (path : Path) : SinkIo LineFile := OnMachine.io .io do
  match Path.parent path with
  | some above => if !above.isEmpty then Io.createDirAll above
  | none => pure ()
  let inode ← Io.create path false
  return ⟨path, inode⟩

/-- Appends a batch in one write and makes it durable; an empty batch writes nothing. -/
def save (f : LineFile) (batch : List ChangeRecord) : SinkIo Unit := OnMachine.io .io do
  if batch.isEmpty then return
  Io.append f.inode (batchLines batch).toUTF8
  Io.sync f.inode

end LineFile

end EntityLog.Pipeline
