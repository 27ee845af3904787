import EntityLog.Files.Path
/-!
# An in-memory disk

A disk is a tree of names over files. A name is either a directory or a link to an inode, and an
inode holds the bytes of a file. Open files are held by inode, so a file that is renamed or
removed while open keeps receiving what is written through its handle, as on a real system.

Paths are resolved from the root, relative ones from the working directory; every step of a path
but the last must be a directory. Failures are the system's errors, with its messages.

Advisory locks are kept per inode with the token of the holder, so that a second holder is
refused.
-/

namespace EntityLog.Files

/-- An error of the operating system. -/
inductive IoFault where
  | notFound
  | isDirectory
  | notDirectory
  | alreadyExists
  | notEmpty
  | wouldBlock
  /-- A copy whose source is not a regular file. -/
  | notRegular
  /-- A text read whose bytes are not UTF-8. -/
  | notText
  deriving Repr, BEq, DecidableEq

/-- The message of an error. -/
def IoFault.text : IoFault → String
  | .notFound => "No such file or directory (os error 2)"
  | .isDirectory => "Is a directory (os error 21)"
  | .notDirectory => "Not a directory (os error 20)"
  | .alreadyExists => "File exists (os error 17)"
  | .notEmpty => "Directory not empty (os error 39)"
  | .wouldBlock => "Resource temporarily unavailable (os error 11)"
  | .notRegular => "the source path is neither a regular file nor a symlink to a regular file"
  | .notText => "stream did not contain valid UTF-8"

/-- What a name stands for. -/
inductive Node where
  | file (inode : Nat)
  | dir
  deriving Repr, BEq, DecidableEq

/-- The size a directory reports. -/
def directorySize : Nat := 4096

/-- A disk: names by their full list of segments, the bytes of every inode, the next inode
number, the working directory, and the advisory locks (inode and holder token). -/
structure Disk where
  names : List (List String × Node) := []
  inodes : List (Nat × ByteArray) := []
  fresh : Nat := 0
  cwd : List String := []
  locks : List (Nat × Nat) := []

/-- The segments of a path, resolved against a working directory: `.` and empty segments
dropped, `..` going up. -/
def resolveSegments (cwd : List String) (p : Path) : List String :=
  let start := if Path.isAbsolute p then [] else cwd
  ((p.splitOn "/").foldl (fun acc s =>
    if s.isEmpty || s == "." then acc
    else if s == ".." then acc.dropLast
    else acc ++ [s]) start)

namespace Disk

/-- The segments a path stands for on this disk. -/
def locate (d : Disk) (p : Path) : List String := resolveSegments d.cwd p

/-- The node at exactly these segments. The root is a directory. -/
def nodeAt (d : Disk) (segs : List String) : Option Node :=
  if segs.isEmpty then some .dir else (d.names.find? (·.1 == segs)).map (·.2)

/-- The steps of a path: its segments without empty and `.` ones. -/
def steps (p : Path) : List String :=
  (p.splitOn "/").filter fun s => !s.isEmpty && s != "."

/-- Walks a path as the system does, from the root or the working directory: every step before
the last must be an existing directory, also one that a later `..` leaves again. Gives the
segments of the name reached. -/
def reach (d : Disk) (p : Path) : Except IoFault (List String) := do
  let start := if Path.isAbsolute p then [] else d.cwd
  let path := steps p
  match path.getLast? with
  | none => return start
  | some last =>
    let acc ← path.dropLast.foldlM (fun acc s =>
      if s == ".." then .ok acc.dropLast
      else
        let next := acc ++ [s]
        match d.nodeAt next with
        | some .dir => .ok next
        | some (.file _) => .error .notDirectory
        | none => .error .notFound) start
    return if last == ".." then acc.dropLast else acc ++ [last]

/-- What a path names, if anything; an error when its parents do not lead there, or when it
ends in a separator and names a file. -/
def lookup (d : Disk) (p : Path) : Except IoFault (Option Node) := do
  let segs ← d.reach p
  match d.nodeAt segs with
  | some (.file _) => if p.endsInSeparator then throw .notDirectory else return d.nodeAt segs
  | found => return found

/-- What a path names; an error when it is missing. -/
def stat (d : Disk) (p : Path) : Except IoFault Node := do
  match ← d.lookup p with
  | some n => return n
  | none => throw .notFound

/-- Whether a path names something. -/
def present (d : Disk) (p : Path) : Bool :=
  match d.lookup p with
  | .ok (some _) => true
  | _ => false

/-- The bytes of an inode. -/
def bytesOf (d : Disk) (inode : Nat) : ByteArray :=
  ((d.inodes.find? (·.1 == inode)).map (·.2)).getD ByteArray.empty

/-- The size of what a path names. -/
def sizeOf (d : Disk) (p : Path) : Except IoFault Nat := do
  match ← d.stat p with
  | .file i => return (d.bytesOf i).size
  | .dir => return directorySize

/-- The size of what a path names, or `none` when it is missing. -/
def sizeIfPresent (d : Disk) (p : Path) : Except IoFault (Option Nat) :=
  match d.sizeOf p with
  | .ok n => .ok (some n)
  | .error .notFound => .ok none
  | .error e => .error e

/-- Replaces the bytes of an inode. -/
def setBytes (d : Disk) (inode : Nat) (bytes : ByteArray) : Disk :=
  { d with inodes := (d.inodes.filter (·.1 != inode)) ++ [(inode, bytes)] }

/-- Appends bytes to an inode. -/
def appendBytes (d : Disk) (inode : Nat) (bytes : ByteArray) : Disk :=
  d.setBytes inode (d.bytesOf inode ++ bytes)

/-- Cuts an inode to a length, or extends it with zero bytes. -/
def setLength (d : Disk) (inode : Nat) (n : Nat) : Disk :=
  let b := d.bytesOf inode
  if n ≤ b.size then d.setBytes inode (b.extract 0 n)
  else d.setBytes inode (b ++ ByteArray.mk (Array.replicate (n - b.size) 0))

/-- Links a name to a node, replacing what it named. -/
def link (d : Disk) (segs : List String) (n : Node) : Disk :=
  { d with names := (d.names.filter (·.1 != segs)) ++ [(segs, n)] }

/-- Reads the whole of a file. Reading a directory fails. -/
def readBytes (d : Disk) (p : Path) : Except IoFault ByteArray := do
  match ← d.stat p with
  | .file i => return d.bytesOf i
  | .dir => throw .isDirectory

/-- Reads a whole file as text. -/
def readText (d : Disk) (p : Path) : Except IoFault String := do
  match String.fromUTF8? (← d.readBytes p) with
  | some s => return s
  | none => throw .notText

/-- Opens a file for writing, creating it when missing and emptying it when `truncate`. A
directory cannot be opened for writing, nor created through a path that ends in a separator.
Returns the inode. -/
def create (d : Disk) (p : Path) (truncate : Bool) : Except IoFault (Disk × Nat) := do
  let segs ← d.reach p
  match d.nodeAt segs with
  | some .dir => throw .isDirectory
  | some (.file i) =>
    if p.endsInSeparator then throw .notDirectory
    return (if truncate then d.setBytes i ByteArray.empty else d, i)
  | none =>
    if p.endsInSeparator then throw .isDirectory
    let i := d.fresh
    return ({ d.link segs (.file i) with fresh := i + 1 }.setBytes i ByteArray.empty, i)

/-- Opens an existing file for writing. -/
def openForWrite (d : Disk) (p : Path) : Except IoFault Nat := do
  match ← d.stat p with
  | .file i => return i
  | .dir => throw .isDirectory

/-- Opens an existing file for reading: the inode, or `none` for a directory (whose reads
fail). -/
def openForRead (d : Disk) (p : Path) : Except IoFault (Option Nat) := do
  match ← d.stat p with
  | .file i => return some i
  | .dir => return none

/-- Writes a whole file, creating or emptying it. -/
def writeFile (d : Disk) (p : Path) (bytes : ByteArray) : Except IoFault Disk := do
  let (d, i) ← d.create p true
  return d.setBytes i bytes

/-- Appends to a file, creating it when missing. -/
def appendFile (d : Disk) (p : Path) (bytes : ByteArray) : Except IoFault Disk := do
  let (d, i) ← d.create p false
  return d.appendBytes i bytes

/-- Sets the length of an existing file. -/
def truncateFile (d : Disk) (p : Path) (n : Nat) : Except IoFault Disk := do
  let i ← d.openForWrite p
  return d.setLength i n

/-- The names strictly below some segments. -/
def below (d : Disk) (segs : List String) : List (List String × Node) :=
  d.names.filter fun (s, _) => s.length > segs.length && s.take segs.length == segs

/-- Renames a file or directory, replacing a file at the target (or an empty directory by a
directory). -/
def rename (d : Disk) (src dst : Path) : Except IoFault Disk := do
  let n ← d.stat src
  let source ← d.reach src
  let target ← d.reach dst
  match n, d.nodeAt target with
  | .file _, some .dir => throw .isDirectory
  | .dir, some (.file _) => throw .notDirectory
  | .dir, some .dir => if (d.below target).isEmpty then pure () else throw .notEmpty
  | _, _ => pure ()
  if source == target then return d
  let moved := (d.below source).map fun (s, m) => (target ++ s.drop source.length, m)
  let kept := d.names.filter fun (s, _) =>
    s != source && s != target && !(s.length > source.length && s.take source.length == source)
  return { d with names := kept ++ [(target, n)] ++ moved }

/-- Copies a file's bytes over another file (created or emptied); returns the length copied. -/
def copy (d : Disk) (src dst : Path) : Except IoFault (Disk × Nat) := do
  match ← d.openForRead src with
  | none => throw .notRegular
  | some i =>
    let bytes := d.bytesOf i
    let d ← d.writeFile dst bytes
    return (d, bytes.size)

/-- Removes a file. -/
def removeFile (d : Disk) (p : Path) : Except IoFault Disk := do
  match ← d.stat p with
  | .file _ =>
    let segs ← d.reach p
    return { d with names := d.names.filter (·.1 != segs) }
  | .dir => throw .isDirectory

/-- Removes a directory and everything below it. -/
def removeTree (d : Disk) (p : Path) : Except IoFault Disk := do
  match ← d.stat p with
  | .dir =>
    let segs ← d.reach p
    return { d with names := d.names.filter fun (s, _) => !(s.take segs.length == segs) }
  | .file _ => throw .notDirectory

/-- Creates a directory and the missing directories on the way to it, also those that a later
`..` leaves again. A file on the way is refused as not a directory, a file at the end as
existing. -/
def createDirAll (d : Disk) (p : Path) : Except IoFault Disk := do
  let start := if Path.isAbsolute p then [] else d.cwd
  let path := steps p
  let (d, _) ← (List.range path.length).foldlM (fun (d, acc) k =>
    match path[k]? with
    | some ".." => .ok (d, acc.dropLast)
    | some s =>
      let next := acc ++ [s]
      match d.nodeAt next with
      | some .dir => .ok (d, next)
      | some (.file _) => .error (if k + 1 == path.length then .alreadyExists else .notDirectory)
      | none => .ok (d.link next .dir, next)
    | none => .ok (d, acc)) (d, start)
  return d

/-- The full path of an existing name, as segments. -/
def canonical (d : Disk) (p : Path) : Except IoFault (List String) := do
  let _ ← d.stat p
  d.reach p

/-- Takes an exclusive advisory lock on an inode for a holder token; refused while another
holder has it. -/
def tryLock (d : Disk) (inode token : Nat) : Except IoFault Disk :=
  if d.locks.any fun (i, t) => i == inode && t != token then .error .wouldBlock
  else .ok { d with locks := (d.locks.filter (·.2 != token)) ++ [(inode, token)] }

/-- Releases the lock of a holder token. -/
def unlock (d : Disk) (token : Nat) : Disk :=
  { d with locks := d.locks.filter (·.2 != token) }

/-- A fresh token for a lock holder. -/
def newToken (d : Disk) : Disk × Nat := ({ d with fresh := d.fresh + 1 }, d.fresh)

/-- Every name below a directory, as a path relative to it, with the node. -/
def listBelow (d : Disk) (p : Path) : List (String × Node) :=
  let segs := d.locate p
  (d.below segs).map fun (s, n) => ("/".intercalate (s.drop segs.length), n)

end Disk

end EntityLog.Files
