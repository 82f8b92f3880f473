import AthenaOS.AthFS.Snapshot

/-!
# Files of the root directory

`find_flat_inode_on`, `find_or_create_file_on`, `write_inode_bytes_at`,
`write_file_bytes_on` and `AthFSInode::write_at`. Names are byte strings. The read
path and its read-ahead cache do not change the volume and are left out.
-/

namespace AthenaOS

open Lib Fallible

/-- `name.trim_start_matches('/')`. -/
def trimSlashes (name : List UInt8) : List UInt8 := name.dropWhile (· == 0x2F)

/-- Does a directory entry carry this name? -/
def DirEntry.named (e : DirEntry) (name : List UInt8) : Bool :=
  e.inode ≠ 0 && e.nameLen == name.length && e.name.toList.take name.length == name

/-- How many entries of a directory of `size` bytes lie in its block `blkIdx`. -/
def entriesInBlock (size blkIdx : Nat) : Nat := min 64 (size / 64 - blkIdx * 64)

/-- The search of a directory from block `blkIdx` on; a hole ends it. -/
def dirLookupFrom (disk : Disk) (dir : DiskInode) (name : List UInt8) : Nat → Nat → Option Nat
  | 0, _ => none
  | n + 1, blkIdx =>
    let blk := dir.directBlock blkIdx
    if blk = 0 then none
    else
      let found := (List.range' 0 (entriesInBlock dir.size blkIdx)).findSome? fun j =>
        let e := DirEntry.read (disk blk) j
        if e.named name then some e.inode else none
      match found with
      | some inode => some inode
      | none => dirLookupFrom disk dir name n (blkIdx + 1)

/-- The inode of a name in a directory. -/
def dirLookup (disk : Disk) (dir : DiskInode) (name : List UInt8) : Option Nat :=
  dirLookupFrom disk dir name 12 0

/-- `find_flat_inode_on`. -/
def findFlatInodeOn (name : List UInt8) : AthM (Option Nat) := do
  let name := trimSlashes name
  if name.isEmpty || 55 < name.length || name.contains 0x2F then return none
  else
    let root ← getInode (← superblock).rootInode
    return dirLookup (← get).disk root name

/-- The common tail of the three functions that create a file in a directory: a new
inode, then an entry appended to the directory through `cow_write_block`. -/
def createIn (dir : DiskInode) (name : List UInt8) : AthM Nat := do
  let newInodeId ← allocateInode
  writeInode (DiskInode.new newInodeId 0)
  let entry : DirEntry := ⟨newInodeId, name.length, Bytes.ofList name⟩
  let blockIdx := dir.size / blockSize
  require (blockIdx < 12)
  let blkBuf ← readBlockIf (dir.directBlock blockIdx ≠ 0) (dir.directBlock blockIdx)
  let (written, dir') ← cowWriteBlock dir blockIdx (blkBuf.splice (dir.size % blockSize) entry.toBytes)
  require written
  writeInode (dir'.setSize (dir.size + 64))
  return newInodeId

/-- `find_or_create_file_on`. -/
def findOrCreateFileOn (path : List UInt8) : AthM Nat := do
  let name := trimSlashes path
  require (name.length ≤ 55 && !name.isEmpty)
  match ← findFlatInodeOn name with
  | some id => return id
  | none =>
    let root ← getInode (← superblock).rootInode
    -- searched again here, now also for names with a slash
    match dirLookup (← get).disk root name with
    | some id => return id
    | none => createIn root name

section DataPath

variable (aes : Aes) (settings : DataBlockSettings)

/-- `EXTENT_FLAG_COMPRESSED` for a block that will be stored compressed. -/
def extentFlags (data : Block) : Nat :=
  if blockStoredCompressed settings.compressionEnabled data then BTreeLeafEntry.flagCompressed else 0

/-- The physical block of a logical one, allocated and mapped if there is none.
`none` is the `break` of the source. `probe` is the full block to be written, if it
is known up front. -/
def resolveBlock (inode : DiskInode) (logicalBlock : Nat) (probe : Option Block) :
    AthM (Option Nat × DiskInode) := do
  match physicalBlock (← get).disk inode logicalBlock with
  | some diskBlock => return (some diskBlock, inode)
  | none =>
    match ← attempt allocateBlock with
    | none => return (none, inode)
    | some newPhys =>
      let extFlags := (probe.map (extentFlags settings)).getD 0
      let (inserted, inode) ← insertExtent inode ⟨logicalBlock, newPhys, 1, extFlags⟩
      return (if inserted then some newPhys else none, inode)

/-- The buffer a block is rewritten from: its content, unless all of it is replaced. -/
def oldContent (disk : Disk) (full : Bool) (diskBlock : Nat) : Option Block :=
  if full then some Bytes.zero else readDataBlock aes settings disk diskBlock

/-- One round of the write loop: `toCopy` bytes into one block, in place or through a
divergence. `false` is the `break` of the source. -/
def writeOneBlock (stampFlags : Bool) (inode : DiskInode) (offset : Nat) (data : List UInt8) :
    AthM (Bool × DiskInode) := do
  let logicalBlock := offset / blockSize
  let offsetInBlock := offset % blockSize
  let full : Bool := offsetInBlock = 0 && blockSize ≤ data.length
  let probe : Option Block := if stampFlags && full then some (Bytes.ofList data) else none
  match ← resolveBlock settings inode logicalBlock probe with
  | (none, inode) => return (false, inode)
  | (some diskBlock, inode) =>
    match oldContent aes settings (← get).disk full diskBlock with
    | none => return (false, inode)
    | some blockBuf =>
      let toCopy := min (blockSize - offsetInBlock) data.length
      let blockBuf : Block := fun k =>
        if offsetInBlock ≤ k.val ∧ k.val < offsetInBlock + toCopy then
          data.getD (k.val - offsetInBlock) 0
        else blockBuf k
      let rc ← consultRefcount diskBlock
      if 1 < rc then
        cowDivergeExtentJournaled aes settings inode logicalBlock diskBlock blockBuf
          (extentFlags settings blockBuf)
      else
        storeDataBlock aes settings diskBlock blockBuf
        return (true, inode)

/-- The loop of `write_inode_bytes_at` and `AthFSInode::write_at`: the inode and the
number of bytes written. -/
def writeLoop (stampFlags : Bool) (inode : DiskInode) (offset : Nat) (data : List UInt8)
    (written : Nat) : AthM (DiskInode × Nat) := do
  if _ : data = [] then return (inode, written)
  else
    match ← writeOneBlock aes settings stampFlags inode offset data with
    | (false, inode) => return (inode, written)
    | (true, inode) =>
      let toCopy := min (blockSize - offset % blockSize) data.length
      let inode := if inode.size < offset + toCopy then inode.setSize (offset + toCopy) else inode
      writeLoop stampFlags inode (offset + toCopy) (data.drop toCopy) (written + toCopy)
termination_by data.length
decreasing_by
  have hpos : 0 < data.length := List.length_pos_iff.mpr (by assumption)
  have hmod : offset % blockSize < blockSize := Nat.mod_lt _ (by decide)
  rw [List.length_drop]
  omega

/-- Write bytes at an offset of an inode. -/
def writeInodeBytes (stampFlags : Bool) (inodeId offset : Nat) (data : List UInt8) :
    AthM Nat := do
  let inode ← getInode inodeId
  let (inode, written) ← writeLoop aes settings stampFlags inode offset data 0
  if 0 < written then
    writeInode inode
    return written
  else return written

/-- `write_inode_bytes_at`. -/
def writeInodeBytesAt (inodeId offset : Nat) (data : List UInt8) : AthM Nat :=
  writeInodeBytes aes settings true inodeId offset data

/-- `AthFSInode::write_at`: the same loop, without the compression stamp on new extents.
`delete_file` and `rename_file` write the root directory through it. -/
def vfsWriteAt (inodeId offset : Nat) (data : List UInt8) : AthM Nat :=
  writeInodeBytes aes settings false inodeId offset data

/-- `write_file_bytes_on`. -/
def writeFileBytesOn (name data : List UInt8) : AthM Bool := do
  match ← findFlatInodeOn name with
  | some id => return (← writeInodeBytesAt aes settings id 0 data) == data.length
  | none =>
    match ← attempt (findOrCreateFileOn name) with
    | none => return false
    | some id => return (← writeInodeBytesAt aes settings id 0 data) == data.length

end DataPath

end AthenaOS
