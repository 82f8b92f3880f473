import AthenaOS.AthFS.Extent

/-!
# Snapshots

`create_snapshot`, `rollback_to_snapshot` and `delete_snapshot`. A snapshot is an
entry of the snapshot table and three frozen blocks: the block bitmap, the inode
table and the inode bitmap as they were, plus one reference on every block the
bitmap had in use.
-/

namespace AthenaOS

open Lib Fallible

/-- Index panics of the one-block refcount buffer: every byte touched is in it. -/
def refcountsInRange (limit : Nat) (touched : Nat → Bool) : Bool :=
  (List.range' 0 limit).all fun i => !touched i || decide (i < blockSize)

/-- One more reference on every block of a bitmap. -/
def holdBlocks (rc bm : Block) (limit : Nat) : Block :=
  fun k => if k.val < limit ∧ bm.bit k then satSucc (rc k) else rc k

/-- One reference less on every block of a bitmap. -/
def dropBlocks (rc bm : Block) (limit : Nat) : Block :=
  fun k => if k.val < limit ∧ bm.bit k then satPred (rc k) else rc k

/-- The refcounts of a rollback: blocks only the live bitmap has lose a reference,
blocks only the frozen one has gain one. -/
def rollbackBlocks (rc cur snap : Block) (limit : Nat) : Block :=
  fun k =>
    if k.val < limit then
      if cur.bit k && !snap.bit k then satPred (rc k)
      else if !cur.bit k && snap.bit k then satSucc (rc k)
      else rc k
    else rc k

/-- How many of the first `limit` bits are set. -/
def countBits (bm : Block) (limit : Nat) : Nat := (List.range' 0 limit).countP bm.bit

/-- `create_snapshot`. -/
def createSnapshot (timestamp : Nat) : AthM UInt32 := do
  let sb ← superblock
  require (sb.bitmapSpanBlocks ≤ 1)
  let snapBuf ← readBlock sb.snapshotBlock
  let slot ← ofOption ((List.range' 0 maxSnapshots).find? fun i =>
    (SnapshotEntry.read snapBuf i).active = 0)
  -- the live metadata, read before the snapshot's own blocks are allocated
  let bitmapCopy ← readBlock sb.blockBitmapBlock
  let itableCopy ← readBlock sb.inodeTableBlock
  let ibitmapCopy ← readBlock sb.inodeBitmapBlock
  let root ← getInode sb.rootInode
  let bblk ← allocateBlock
  storeBlock bblk bitmapCopy
  let itblk ← allocateBlock
  storeBlock itblk itableCopy
  let ibblk ← allocateBlock
  storeBlock ibblk ibitmapCopy
  let rcBuf ← readBlock sb.refcountBlock
  require (refcountsInRange sb.bitmapIndexLimit bitmapCopy.bit)
  writeVolBlock sb.refcountBlock (holdBlocks rcBuf bitmapCopy sb.bitmapIndexLimit)
  updateSuperblock fun sb => { sb with snapshotCount := sb.snapshotCount + 1 }
  let snapId := (← superblock).snapshotCount
  let entry : SnapshotEntry := ⟨snapId, 1, timestamp, bblk, root, itblk, ibblk⟩
  writeVolBlock sb.snapshotBlock (snapBuf.splice (slot * 256) entry.toBytes)
  flushSuperblock
  return snapId

/-- The slot of the first active entry with an id. -/
def findSnapshot (snapBuf : Block) (snapId : UInt32) : Option Nat :=
  (List.range' 0 maxSnapshots).find? fun i =>
    let e := SnapshotEntry.read snapBuf i
    e.active ≠ 0 ∧ e.id = snapId

/-- `rollback_to_snapshot`. -/
def rollbackToSnapshot (snapId : UInt32) : AthM Unit := do
  let sb ← superblock
  let snapBuf ← readBlock sb.snapshotBlock
  let slot ← ofOption (findSnapshot snapBuf snapId)
  let snap := SnapshotEntry.read snapBuf slot
  mark (.rollback snap)
  let curBm ← readBlock sb.blockBitmapBlock
  let snapBm ← readBlock snap.bitmapBlock
  let rc ← readBlock sb.refcountBlock
  let limit := sb.bitmapIndexLimit
  require (limit ≤ Superblock.bitsPerBlock)
  require (refcountsInRange limit fun i => curBm.bit i != snapBm.bit i)
  writeVolBlock sb.refcountBlock (rollbackBlocks rc curBm snapBm limit)
  writeVolBlock sb.blockBitmapBlock snapBm
  when (snap.inodeTableSnapBlock ≠ 0) do
    writeVolBlock sb.inodeTableBlock (← readBlock snap.inodeTableSnapBlock)
  when (snap.inodeBitmapSnapBlock ≠ 0) do
    writeVolBlock sb.inodeBitmapBlock (← readBlock snap.inodeBitmapSnapBlock)
  writeInode snap.rootInode
  updateSuperblock fun sb => { sb with freeBlocks := sb.totalBlocks - countBits snapBm limit }
  flushSuperblock

/-- A cleared entry. -/
def SnapshotEntry.cleared : SnapshotEntry := ⟨0, 0, 0, 0, Bytes.zero, 0, 0⟩

/-- `delete_snapshot`. -/
def deleteSnapshot (snapId : UInt32) : AthM Unit := do
  let sb ← superblock
  let snapBuf ← readBlock sb.snapshotBlock
  let slot ← ofOption (findSnapshot snapBuf snapId)
  let snap := SnapshotEntry.read snapBuf slot
  mark (.dropSnapshot snap)
  let snapBm ← readBlock snap.bitmapBlock
  let rc ← readBlock sb.refcountBlock
  let limit := sb.bitmapIndexLimit
  require (limit ≤ Superblock.bitsPerBlock)
  require (refcountsInRange limit snapBm.bit)
  writeVolBlock sb.refcountBlock (dropBlocks rc snapBm limit)
  freeBlock snap.bitmapBlock
  when (snap.inodeTableSnapBlock ≠ 0) (freeBlock snap.inodeTableSnapBlock)
  when (snap.inodeBitmapSnapBlock ≠ 0) (freeBlock snap.inodeBitmapSnapBlock)
  writeVolBlock sb.snapshotBlock (snapBuf.splice (slot * 256) SnapshotEntry.cleared.toBytes)
  updateSuperblock fun sb =>
    { sb with snapshotCount := if sb.snapshotCount = 0 then 0 else sb.snapshotCount - 1 }
  flushSuperblock

end AthenaOS
