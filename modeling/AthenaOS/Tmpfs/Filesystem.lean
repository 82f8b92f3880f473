import AthenaOS.Lib.Machine
import AthenaOS.Lib.Totals

/-!
# The in-memory filesystem

`TmpfsFilesystem` of `kernel/src/tmpfs.rs`: a map from inode numbers to inodes, where a
directory maps names to inode numbers, its own `.` and `..` among them. Link counts,
parent links and the bytes used are kept next to it.

- `create`, `mkdir`, `symlink`, `link`, `unlink`, `rmdir`, `rename`, `writeFile`,
  `truncate`. Each makes all its checks before its first change, so a call gives the
  changed filesystem, or stops with an error or a panic.

Sums of sizes are natural numbers: past `2 ^ 64` a call cannot succeed, for want of
space or memory.
-/

namespace AthenaOS

open Lib

/-- `TmpfsFileType`. -/
inductive TmpfsFileType where
  | regular
  | directory
  | symlink
  | charDevice
  | blockDevice
  | fifo
  | socket
  deriving DecidableEq, Repr

/-- `TmpfsError`, the ones these calls return. -/
inductive TmpfsError where
  | notFound
  | alreadyExists
  | notADirectory
  | isADirectory
  | notEmpty
  | invalidName
  | noSpace
  deriving DecidableEq, Repr

/-- Why a call gives no result. -/
inductive TmpfsStop where
  | error (e : TmpfsError)
  | panic
  deriving DecidableEq, Repr

/-- `TmpfsInodeData`. -/
structure TmpfsInode where
  ino : Nat
  fileType : TmpfsFileType
  mode : Nat
  uid : Nat
  gid : Nat
  nlinks : Nat
  size : Nat
  data : List UInt8
  children : Finmap fun _ : String => Nat
  symlinkTarget : Option String

namespace TmpfsInode

/-- `TmpfsInodeData::new`. -/
def new (ino : Nat) (fileType : TmpfsFileType) (mode uid gid : Nat) : TmpfsInode where
  ino := ino
  fileType := fileType
  mode := mode
  uid := uid
  gid := gid
  nlinks := if fileType = .directory then 2 else 1
  size := 0
  data := []
  children := ∅
  symlinkTarget := none

/-- `children.insert`. -/
def addChild (node : TmpfsInode) (name : String) (ino : Nat) : TmpfsInode :=
  { node with children := node.children.insert name ino }

/-- `children.remove`. -/
def removeChild (node : TmpfsInode) (name : String) : TmpfsInode :=
  { node with children := node.children.erase name }

/-- The data replaced, and the size with it. -/
def setData (node : TmpfsInode) (data : List UInt8) : TmpfsInode :=
  { node with data := data, size := data.length }

@[simp] theorem setData_data (node : TmpfsInode) (data : List UInt8) :
    (node.setData data).data = data := rfl

/-- `.` or `..`. -/
def isDot (name : String) : Bool := name == "." || name == ".."

/-- No entries but `.` and `..`. -/
def isEmpty (node : TmpfsInode) : Bool := node.children.keys.filter (fun name => !isDot name) = ∅

end TmpfsInode

/-- `TmpfsFilesystem`. -/
structure TmpfsFilesystem where
  inodes : Finmap fun _ : Nat => TmpfsInode
  nextIno : Nat
  totalUsed : Nat
  maxSize : Nat

namespace TmpfsFilesystem

open TmpfsInode

/-! ## Checks -/

/-- `ok_or(e)?`. -/
def okOr {α : Type} (o : Option α) (e : TmpfsError) : Except TmpfsStop α :=
  match o with
  | some a => .ok a
  | none => .error (.error e)

/-- `unwrap()`. -/
def unwrap {α : Type} (o : Option α) : Except TmpfsStop α :=
  match o with
  | some a => .ok a
  | none => .error .panic

/-- Return the error unless `c` holds. -/
def require (c : Bool) (e : TmpfsError) : Except TmpfsStop Unit :=
  if c then .ok () else .error (.error e)

/-- The check of a new name. -/
def validName (name : String) : Bool :=
  !(name.isEmpty || 255 < name.utf8ByteSize || name.toList.contains '/')

/-! ## Inodes -/

/-- `inodes.get`. -/
def node (fs : TmpfsFilesystem) (ino : Nat) : Option TmpfsInode := fs.inodes.lookup ino

/-- The inode stored, or stored back. -/
def setNode (fs : TmpfsFilesystem) (ino : Nat) (n : TmpfsInode) : TmpfsFilesystem :=
  { fs with inodes := fs.inodes.insert ino n }

/-- `inodes.remove`. -/
def removeNode (fs : TmpfsFilesystem) (ino : Nat) : TmpfsFilesystem :=
  { fs with inodes := fs.inodes.erase ino }

/-- `TmpfsFilesystem::new`: the root is inode 1, and its own parent. -/
def new (maxSize : Nat) : TmpfsFilesystem where
  inodes := (∅ : Finmap fun _ : Nat => TmpfsInode).insert 1
    (((TmpfsInode.new 1 .directory 0o1777 0 0).addChild "." 1).addChild ".." 1)
  nextIno := 2
  totalUsed := 0
  maxSize := maxSize

/-! ## Calls -/

/-- `create`. -/
def create (fs : TmpfsFilesystem) (parentIno : Nat) (name : String) (fileType : TmpfsFileType)
    (mode uid gid : Nat) : Except TmpfsStop (Nat × TmpfsFilesystem) := do
  require (validName name) .invalidName
  require (!isDot name) .alreadyExists
  let parent ← okOr (fs.node parentIno) .notFound
  require (parent.fileType = .directory) .notADirectory
  require (parent.children.lookup name).isNone .alreadyExists
  let ino := fs.nextIno
  let n := TmpfsInode.new ino fileType mode uid gid
  let n := if fileType = .directory then (n.addChild "." ino).addChild ".." parentIno else n
  let fs := { fs with nextIno := (fs.nextIno + 1) % 2 ^ 64 }.setNode ino n
  let parent ← unwrap (fs.node parentIno)
  let parent := parent.addChild name ino
  let parent := if fileType = .directory then { parent with nlinks := (parent.nlinks + 1) % 2 ^ 32 }
    else parent
  return (ino, fs.setNode parentIno parent)

/-- `mkdir`. -/
def mkdir (fs : TmpfsFilesystem) (parentIno : Nat) (name : String) (mode uid gid : Nat) :
    Except TmpfsStop (Nat × TmpfsFilesystem) :=
  fs.create parentIno name .directory mode uid gid

/-- `symlink`. -/
def symlink (fs : TmpfsFilesystem) (parentIno : Nat) (name target : String) (uid gid : Nat) :
    Except TmpfsStop (Nat × TmpfsFilesystem) := do
  let (ino, fs) ← fs.create parentIno name .symlink 0o777 uid gid
  let n ← unwrap (fs.node ino)
  return (ino, fs.setNode ino
    { n with symlinkTarget := some target, size := target.utf8ByteSize })

/-- `data.resize(len, 0)`. -/
def resize (data : List UInt8) (len : Nat) : List UInt8 :=
  data.take len ++ List.replicate (len - data.length) 0

/-- `write_file`. -/
def writeFile (fs : TmpfsFilesystem) (ino offset : Nat) (data : List UInt8) :
    Except TmpfsStop (Nat × TmpfsFilesystem) := do
  let stop := offset + data.length
  let n ← okOr (fs.node ino) .notFound
  require (n.fileType ≠ .directory) .isADirectory
  let growth := stop - n.data.length
  require (growth = 0 || fs.totalUsed + growth ≤ fs.maxSize) .noSpace
  let grown := resize n.data (max stop n.data.length)
  let written := grown.take offset ++ data ++ grown.drop stop
  return (data.length, { fs with totalUsed := fs.totalUsed + growth }.setNode ino (n.setData written))

/-- `truncate`, also of a directory. -/
def truncate (fs : TmpfsFilesystem) (ino size : Nat) : Except TmpfsStop TmpfsFilesystem := do
  let n ← okOr (fs.node ino) .notFound
  let oldSize := n.data.length
  require (size ≤ oldSize || fs.totalUsed + (size - oldSize) ≤ fs.maxSize) .noSpace
  let used := fs.totalUsed + (size - oldSize) - (oldSize - size)
  return { fs with totalUsed := used }.setNode ino (n.setData (resize n.data size))

/-- `unlink`. -/
def unlink (fs : TmpfsFilesystem) (parentIno : Nat) (name : String) :
    Except TmpfsStop TmpfsFilesystem := do
  require (!isDot name) .invalidName
  let parent ← okOr (fs.node parentIno) .notFound
  let childIno ← okOr (parent.children.lookup name) .notFound
  let child ← okOr (fs.node childIno) .notFound
  require (child.fileType ≠ .directory) .isADirectory
  let nlinks := child.nlinks - 1
  let fs :=
    if nlinks = 0 then
      { fs.removeNode childIno with totalUsed := fs.totalUsed - child.data.length }
    else fs.setNode childIno { child with nlinks := nlinks }
  let parent ← unwrap (fs.node parentIno)
  return fs.setNode parentIno (parent.removeChild name)

/-- `link`. -/
def link (fs : TmpfsFilesystem) (parentIno : Nat) (name : String) (targetIno : Nat) :
    Except TmpfsStop TmpfsFilesystem := do
  require (validName name) .invalidName
  let target ← okOr (fs.node targetIno) .notFound
  require (target.fileType ≠ .directory) .isADirectory
  let parent ← okOr (fs.node parentIno) .notFound
  require (parent.fileType = .directory) .notADirectory
  require (parent.children.lookup name).isNone .alreadyExists
  let fs := fs.setNode targetIno { target with nlinks := (target.nlinks + 1) % 2 ^ 32 }
  let parent ← unwrap (fs.node parentIno)
  return fs.setNode parentIno (parent.addChild name targetIno)

/-- `rmdir`. -/
def rmdir (fs : TmpfsFilesystem) (parentIno : Nat) (name : String) :
    Except TmpfsStop TmpfsFilesystem := do
  require (!isDot name) .invalidName
  let parent ← okOr (fs.node parentIno) .notFound
  let childIno ← okOr (parent.children.lookup name) .notFound
  let child ← okOr (fs.node childIno) .notFound
  require (child.fileType = .directory) .notADirectory
  require child.isEmpty .notEmpty
  let fs := fs.removeNode childIno
  let parent ← unwrap (fs.node parentIno)
  return fs.setNode parentIno { parent.removeChild name with nlinks := parent.nlinks - 1 }

/-- The first half of `rename`: what the new name stood for is removed, whatever its
links and its data. -/
def dropExisting (fs : TmpfsFilesystem) (newParent : Nat) (newName : String) :
    Except TmpfsStop TmpfsFilesystem :=
  match (fs.node newParent).bind (·.children.lookup newName) with
  | none => return fs
  | some existing => do
    let n ← okOr (fs.node existing) .notFound
    require (n.fileType ≠ .directory || n.isEmpty) .notEmpty
    return fs.removeNode existing

/-- The second half of `rename`: the entry goes from one parent to the other, and `..`
of a directory with it. -/
def moveEntry (fs : TmpfsFilesystem) (oldParent : Nat) (oldName : String) (newParent : Nat)
    (newName : String) (childIno : Nat) : Except TmpfsStop TmpfsFilesystem := do
  let parent ← unwrap (fs.node oldParent)
  let fs := fs.setNode oldParent (parent.removeChild oldName)
  let parent ← unwrap (fs.node newParent)
  let fs := fs.setNode newParent (parent.addChild newName childIno)
  match fs.node childIno with
  | some child =>
    if child.fileType = .directory then
      return fs.setNode childIno (child.addChild ".." newParent)
    else return fs
  | none => return fs

/-- `rename`. -/
def rename (fs : TmpfsFilesystem) (oldParent : Nat) (oldName : String) (newParent : Nat)
    (newName : String) : Except TmpfsStop TmpfsFilesystem := do
  require (!(isDot oldName || isDot newName)) .invalidName
  let parent ← okOr (fs.node oldParent) .notFound
  let childIno ← okOr (parent.children.lookup oldName) .notFound
  let fs ← fs.dropExisting newParent newName
  fs.moveEntry oldParent oldName newParent newName childIno

end TmpfsFilesystem

/-! ## Runs -/

/-- A call. -/
inductive TmpfsOp where
  | create (parentIno : Nat) (name : String) (fileType : TmpfsFileType) (mode uid gid : Nat)
  | mkdir (parentIno : Nat) (name : String) (mode uid gid : Nat)
  | symlink (parentIno : Nat) (name target : String) (uid gid : Nat)
  | link (parentIno : Nat) (name : String) (targetIno : Nat)
  | unlink (parentIno : Nat) (name : String)
  | rmdir (parentIno : Nat) (name : String)
  | rename (oldParent : Nat) (oldName : String) (newParent : Nat) (newName : String)
  | writeFile (ino offset : Nat) (data : List UInt8)
  | truncate (ino size : Nat)

namespace TmpfsFilesystem

/-- The filesystem after a call. -/
def call (fs : TmpfsFilesystem) : TmpfsOp → Except TmpfsStop TmpfsFilesystem
  | .create parentIno name fileType mode uid gid =>
    (·.2) <$> fs.create parentIno name fileType mode uid gid
  | .mkdir parentIno name mode uid gid => (·.2) <$> fs.mkdir parentIno name mode uid gid
  | .symlink parentIno name target uid gid => (·.2) <$> fs.symlink parentIno name target uid gid
  | .link parentIno name targetIno => fs.link parentIno name targetIno
  | .unlink parentIno name => fs.unlink parentIno name
  | .rmdir parentIno name => fs.rmdir parentIno name
  | .rename oldParent oldName newParent newName => fs.rename oldParent oldName newParent newName
  | .writeFile ino offset data => (·.2) <$> fs.writeFile ino offset data
  | .truncate ino size => fs.truncate ino size

end TmpfsFilesystem

/-- Calls in any order on a new filesystem. A call that returns an error changes
nothing; a panic ends the run. -/
def tmpfsMachine : Machine TmpfsFilesystem TmpfsOp where
  init fs := ∃ maxSize, fs = .new maxSize
  step fs op fs' := fs.call op = .ok fs' ∨ ∃ e, fs.call op = .error (.error e) ∧ fs' = fs

end AthenaOS
