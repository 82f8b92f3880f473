import AthenaOS.Lib.Fallible
import AthenaOS.AthFS.Layout

/-!
# A mounted volume: block I/O, allocator, refcounts and inodes

The functions of `AthFS` below the file operations. The device accepts every read
and write; an operation that returns an error keeps the writes it made before.

- `writeBlock` writes to a block the superblock names; `storeBlock` to a block
  whose number comes out of an inode, an extent, a table entry or the allocator.
- `allocateBlock`, `freeBlock`, `allocateInode`, the refcount accessors,
  `getInode`, `writeInode`, `format`.
-/

namespace AthenaOS

open Lib

/-- The calls a `Volume` records. -/
inductive Call where
  /-- Any `write_block`. -/
  | write (blockIdx : Nat) (data : Block)
  /-- A `write_block` to a block the superblock does not name. -/
  | store (blockIdx : Nat)
  /-- Such a write to a block that is neither fresh nor was its refcount looked at. -/
  | overwrite (blockIdx : Nat)
  | allocateBlock
  | allocateInode
  | freeBlock (blockId : Nat)
  /-- `dec_refcount`, then `free_block` when it reached 0. -/
  | release (blockId : Nat)
  /-- `write_refcount(blk, cur.saturating_add(1))`. -/
  | bump (blockId : Nat)
  /-- A refcount read to decide between writing in place and copying. -/
  | consult (blockId : Nat)
  | rollback (snap : SnapshotEntry)
  | dropSnapshot (snap : SnapshotEntry)

/-- A call and the state it was made in. -/
structure Event where
  call : Call
  superblock : Superblock
  disk : Disk

/-- A mounted `AthFS` over its device. -/
structure Volume where
  superblock : Superblock
  disk : Disk
  /-- Ghost: the calls made so far, oldest first. -/
  trace : List Event

/-- Code that runs on a mounted volume. -/
abbrev AthM : Type → Type := Fallible Volume

open Fallible

/-! ## Block I/O -/

/-- The volume with a call recorded. -/
def Volume.note (v : Volume) (call : Call) : Volume :=
  { v with trace := v.trace ++ [⟨call, v.superblock, v.disk⟩] }

/-- Record a call. -/
def mark (call : Call) : AthM Unit := modify (·.note call)

/-- The superblock. -/
def superblock : AthM Superblock := do return (← get).superblock

/-- Change the in-memory superblock. -/
def updateSuperblock (g : Superblock → Superblock) : AthM Unit :=
  modify fun v => { v with superblock := g v.superblock }

/-- `read_block`. -/
def readBlock (blockIdx : Nat) : AthM Block := do return (← get).disk blockIdx

/-- A buffer of zeros, read from the device if `c` holds. -/
def readBlockIf (c : Bool) (blockIdx : Nat) : AthM Block :=
  if c then readBlock blockIdx else pure Bytes.zero

/-- Put a block on the device. -/
def Volume.put (v : Volume) (blockIdx : Nat) (data : Block) : Volume :=
  { v with disk := AthenaOS.writeBlock v.disk blockIdx data }

/-- `write_block`. -/
def writeVolBlock (blockIdx : Nat) (data : Block) : AthM Unit := do
  mark (.write blockIdx data)
  modify (·.put blockIdx data)

/-- `write_block` on a block number that is not one of the superblock's. -/
def storeBlock (blockIdx : Nat) (data : Block) : AthM Unit := do
  mark (.store blockIdx)
  writeVolBlock blockIdx data

/-- `write_block` in place, without looking at the block's refcount. -/
def overwriteBlock (blockIdx : Nat) (data : Block) : AthM Unit := do
  mark (.overwrite blockIdx)
  storeBlock blockIdx data

/-- `flush_superblock`. -/
def flushSuperblock : AthM Unit := do writeVolBlock 0 (← superblock).toBlock

/-! ## Refcounts -/

/-- `v.saturating_sub(1)`. -/
def satPred (v : UInt8) : UInt8 := if v = 0 then 0 else v - 1

/-- `v.saturating_add(1)`. -/
def satSucc (v : UInt8) : UInt8 := if v = 255 then 255 else v + 1

/-- The block of the refcount run that holds the byte of `blockId`. -/
def Superblock.refcountBlockOf (sb : Superblock) (blockId : Nat) : Nat :=
  sb.refcountBlock + blockId / blockSize

/-- `read_refcount`: `None` past the table. -/
def readRefcount (blockId : Nat) : AthM (Option UInt8) := do
  let sb ← superblock
  if sb.refcountIndexLimit ≤ blockId then return none
  let buf ← readBlock (sb.refcountBlockOf blockId)
  return some (buf.get (blockId % blockSize))

/-- `write_refcount`. -/
def writeRefcount (blockId : Nat) (val : UInt8) : AthM Unit := do
  let sb ← superblock
  if sb.refcountIndexLimit ≤ blockId then fail
  else
    let blk := sb.refcountBlockOf blockId
    let buf ← readBlock blk
    writeVolBlock blk (buf.putLE (blockId % blockSize) 1 val.toNat)

/-- `dec_refcount`: the new value. -/
def decRefcount (blockId : Nat) : AthM UInt8 := do
  let sb ← superblock
  if sb.refcountIndexLimit ≤ blockId then fail
  else
    let blk := sb.refcountBlockOf blockId
    let buf ← readBlock blk
    let v := satPred (buf.get (blockId % blockSize))
    writeVolBlock blk (buf.putLE (blockId % blockSize) 1 v.toNat)
    return v

/-! ## Blocks -/

/-- One block of the bitmap run: take its first clear bit below `last`. -/
def allocateIn (bm first last : Nat) : AthM (Option Nat) := do
  let blk := (← superblock).blockBitmapBlock + bm
  let buf ← readBlock blk
  match (List.range' 0 (last - first)).find? (fun i => !buf.bit i) with
  | none => return none
  | some i =>
    writeVolBlock blk (buf.setBit i)
    updateSuperblock fun sb => { sb with freeBlocks := sb.freeBlocks - 1 }
    writeRefcount (first + i) 1
    flushSuperblock
    return some (first + i)

/-- The loop of `allocate_block` over the bitmap run. -/
def allocateScan : Nat → Nat → AthM Nat
  | 0, _ => fail
  | n + 1, bm => do
    let limit := (← superblock).bitmapIndexLimit
    let first := bm * Superblock.bitsPerBlock
    if limit ≤ first then fail
    else
      match ← allocateIn bm first (min (first + Superblock.bitsPerBlock) limit) with
      | some block => return block
      | none => allocateScan n (bm + 1)

/-- `allocate_block`. -/
def allocateBlock : AthM Nat := do
  mark .allocateBlock
  allocateScan (← superblock).bitmapSpanBlocks 0

/-- `free_block`. -/
def freeBlock (blockId : Nat) : AthM Unit := do
  mark (.freeBlock blockId)
  let sb ← superblock
  if sb.bitmapIndexLimit ≤ blockId then fail
  else
    let blk := sb.blockBitmapBlock + blockId / Superblock.bitsPerBlock
    let buf ← readBlock blk
    writeVolBlock blk (buf.clearBit (blockId % Superblock.bitsPerBlock))
    writeRefcount blockId 0
    updateSuperblock fun sb => { sb with freeBlocks := sb.freeBlocks + 1 }
    flushSuperblock

/-- `let remaining = dec_refcount(blk)?; if remaining == 0 { free_block(blk)? }`. -/
def releaseBlock (blockId : Nat) : AthM Unit := do
  mark (.release blockId)
  let remaining ← decRefcount blockId
  if remaining = 0 then freeBlock blockId else pure ()

/-- `if let Some(cur) = read_refcount(blk) { let _ = write_refcount(blk, cur.saturating_add(1)) }`. -/
def bumpRefcount (blockId : Nat) : AthM Unit := do
  mark (.bump blockId)
  match ← readRefcount blockId with
  | none => pure ()
  | some cur => do
    let _ ← attempt (writeRefcount blockId (satSucc cur))

/-- `read_refcount(blk).unwrap_or(1)`, read to choose between an in-place write and a
copy. -/
def consultRefcount (blockId : Nat) : AthM UInt8 := do
  mark (.consult blockId)
  return (← readRefcount blockId).getD 1

/-! ## Inodes -/

/-- The block of the inode table that `get_inode` and `write_inode` address. -/
def Superblock.inodeBlockOf (sb : Superblock) (inodeId : Nat) : Nat :=
  sb.inodeTableBlock + inodeId / 32

/-- `get_inode`. -/
def getInode (inodeId : Nat) : AthM DiskInode := do
  let buf ← readBlock ((← superblock).inodeBlockOf inodeId)
  return buf.slice (inodeId % 32 * 128)

/-- `write_inode`: 136 bytes at a stride of 128. -/
def writeInode (inode : DiskInode) : AthM Unit := do
  let blk := (← superblock).inodeBlockOf inode.id
  let buf ← readBlock blk
  overwriteBlock blk (buf.splice (inode.id % 32 * 128) inode)

/-- `allocate_inode`: the first clear bit of `1..32768`. -/
def allocateInode : AthM Nat := do
  mark .allocateInode
  let blk := (← superblock).inodeBitmapBlock
  let buf ← readBlock blk
  match (List.range' 1 (Superblock.bitsPerBlock - 1)).find? (fun i => !buf.bit i) with
  | none => fail
  | some i =>
    writeVolBlock blk (buf.setBit i)
    return i

/-- `ibm[id / 8] &= !(1 << (id % 8))` on the inode bitmap. -/
def clearInodeBit (inodeId : Nat) : AthM Unit := do
  let blk := (← superblock).inodeBitmapBlock
  let ibm ← readBlock blk
  writeVolBlock blk (ibm.clearBit inodeId)

/-! ## Formatting -/

/-- The superblock `format` writes: 256 blocks, the first nine reserved. -/
def formatSuperblock : Superblock where
  totalBlocks := 256
  freeBlocks := 256 - 9
  rootInode := 0
  inodeBitmapBlock := 1
  blockBitmapBlock := 2
  inodeTableBlock := 3
  refcountBlock := 4
  snapshotBlock := 5
  journalBlock := 6
  snapshotCount := 0
  journalSeq := 0
  bucketTableBlock := 7
  versionedMetaBlock := 8
  sharedRootInode := 1
  blockBitmapBlocks := 1
  refcountBlocks := 1

/-- The blocks `format` writes; the rest of the device is as it was. -/
def formatDisk (device : Disk) : Disk := fun blockIdx =>
  match blockIdx with
  | 0 => formatSuperblock.toBlock
  | 1 => Bytes.ofList [0b0000_0011]
  | 2 => Bytes.ofList [0xFF, 0b0000_0001]
  | 3 => ((Bytes.zero : Block).splice 0 (DiskInode.new 0 1)).splice 128 (DiskInode.new 1 1)
  | 4 => Bytes.ofList (List.replicate 9 1)
  | 5 | 6 | 7 | 8 => Bytes.zero
  | _ => device blockIdx

/-- `AthFS::format` on a device. -/
def format (device : Disk) : Volume := ⟨formatSuperblock, formatDisk device, []⟩

/-! ## Bitmap, refcounts and inode bitmap of a volume -/

namespace Volume

/-- The bitmap bit of block `i`. -/
def blockBit (v : Volume) (i : Nat) : Bool :=
  (v.disk (v.superblock.blockBitmapBlock + i / Superblock.bitsPerBlock)).bit
    (i % Superblock.bitsPerBlock)

/-- The refcount byte of block `i`. -/
def refcount (v : Volume) (i : Nat) : UInt8 :=
  (v.disk (v.superblock.refcountBlockOf i)).get (i % blockSize)

/-- The record of an inode: what `get_inode` gives. -/
def inode (v : Volume) (inodeId : Nat) : DiskInode :=
  (v.disk (v.superblock.inodeBlockOf inodeId)).slice (inodeId % 32 * 128)

/-- The inode-bitmap bit of inode `i`. -/
def inodeBit (v : Volume) (i : Nat) : Bool := (v.disk v.superblock.inodeBitmapBlock).bit i

end Volume

/-- What `fsck_integrity` reports. -/
structure FsckReport where
  checkedBlocks : Nat
  bitmapRefcountMismatches : Nat
  deriving DecidableEq, Repr

/-- `fsck_integrity`. -/
def fsckIntegrity (v : Volume) : FsckReport :=
  let limit := min v.superblock.bitmapIndexLimit v.superblock.refcountIndexLimit
  let mismatch (i : Nat) : Bool :=
    (v.blockBit i && v.refcount i == 0) || (!v.blockBit i && v.refcount i != 0)
  ⟨limit, (List.range' 0 limit).countP mismatch⟩

end AthenaOS
