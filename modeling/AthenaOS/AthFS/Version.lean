import AthenaOS.AthFS.Bucket

/-!
# Versioned files

`mark_versioned`, `save_version` and `rollback_version`. A version is an entry of
the file's metadata block that keeps the twelve direct pointers, each counted once
more. Entries are 136 bytes at a stride of 128, so the twelfth pointer of a version
reads as the head of the next one.
-/

namespace AthenaOS

open Lib Fallible

/-- `find_versioned_slot`. -/
def findVersionedSlot (inode : Nat) : AthM (Option Nat) := do
  let buf ← readBlock (← superblock).versionedMetaBlock
  return (List.range' 0 maxVersionedFiles).find? fun i =>
    (DiskVersionedIndex.read buf i).inode = inode

/-- `read_versioned_index`. -/
def readVersionedIndex (slot : Nat) : AthM DiskVersionedIndex := do
  let buf ← readBlock (← superblock).versionedMetaBlock
  return DiskVersionedIndex.read buf slot

/-- `write_versioned_index`. -/
def writeVersionedIndex (slot : Nat) (entry : DiskVersionedIndex) : AthM Unit := do
  let blk := (← superblock).versionedMetaBlock
  let buf ← readBlock blk
  writeVolBlock blk (buf.splice (slot * 32) entry.toBytes)

/-- `mark_versioned`. -/
def markVersioned (inode maxVersions : Nat) : AthM Unit := do
  require (maxVersions ≠ 0 && maxVersions ≤ maxVersionsPerFile)
  match ← findVersionedSlot inode with
  | some _ => pure ()
  | none =>
    let buf ← readBlock (← superblock).versionedMetaBlock
    let slot ← ofOption ((List.range' 0 maxVersionedFiles).find? fun i =>
      (DiskVersionedIndex.read buf i).inode = 0)
    let metaBlock ← allocateBlock
    storeBlock metaBlock Bytes.zero
    writeVersionedIndex slot ⟨inode, metaBlock, maxVersions, 0, 0⟩

/-- `prune_oldest_version`: release the blocks of entry 0. -/
def pruneOldestVersion (metaBlock count : Nat) : AthM Unit := do
  if count = 0 then pure ()
  else
    let oldest := DiskVersionEntry.read (← readBlock metaBlock) 0
    let total := (← superblock).totalBlocks
    (oldest.blocks.filter fun blk => blk ≠ 0 && blk < total).forM releaseBlock

/-- Entries `1..count` moved down by one. -/
def shiftVersions (buf : Block) (count : Nat) : Block :=
  fun k => if k.val < (count - 1) * 128 then buf.get (k.val + 128) else buf k

/-- Room for a new version: the next position, or the last one after the oldest is
pruned. Gives the position and the new count. -/
def versionSlot (idx : DiskVersionedIndex) : AthM (Nat × Nat) := do
  if idx.versionCount < idx.maxVersions then return (idx.versionCount, idx.versionCount + 1)
  else
    pruneOldestVersion idx.metaBlock idx.versionCount
    let metaBuf ← readBlock idx.metaBlock
    -- `0..count - 1` underflows when the index claims no versions at all
    require (0 < idx.versionCount)
    overwriteBlock idx.metaBlock (shiftVersions metaBuf idx.versionCount)
    return (idx.versionCount - 1, idx.versionCount)

/-- The checksum over size and block pointers. -/
def versionChecksum (inode : DiskInode) : UInt32 :=
  inode.directBlocks.foldl (fun c b => c + UInt32.ofNat b) (UInt32.ofNat inode.size)

/-- `save_version`. -/
def saveVersion (inode timestamp : Nat) : AthM UInt16 := do
  let slot ← ofOption (← findVersionedSlot inode)
  let idx ← readVersionedIndex slot
  let diskInode ← getInode inode
  (diskInode.directBlocks.filter (· ≠ 0)).forM bumpRefcount
  let verId := idx.currentVersion + 1
  let (writePos, count) ← versionSlot idx
  let entry : DiskVersionEntry :=
    ⟨verId, timestamp, diskInode.size, versionChecksum diskInode, diskInode.directBlocks⟩
  let metaBuf ← readBlock idx.metaBlock
  overwriteBlock idx.metaBlock (metaBuf.splice (writePos * 128) entry.toBytes)
  writeVersionedIndex slot { idx with currentVersion := verId, versionCount := count }
  return verId

/-- The entry of a version among the first `count`. -/
def findVersion (metaBuf : Block) (count : Nat) (versionId : UInt16) : Option DiskVersionEntry :=
  (List.range' 0 count).findSome? fun i =>
    let ve := DiskVersionEntry.read metaBuf i
    if ve.versionId = versionId then some ve else none

/-- `disk_inode.direct_blocks = blocks`. -/
def DiskInode.setDirectBlocks (inode : DiskInode) (blocks : List Nat) : DiskInode :=
  blocks.zipIdx.foldl (fun (inode : DiskInode) p => DiskInode.setDirectBlock inode p.2 p.1) inode

/-- `rollback_version`. -/
def rollbackVersion (inode : Nat) (versionId : UInt16) (saveCurrent : Bool) (timestamp : Nat) :
    AthM Unit := do
  when saveCurrent do
    let _ ← attempt (saveVersion inode timestamp)
  let slot ← ofOption (← findVersionedSlot inode)
  let idx ← readVersionedIndex slot
  let metaBuf ← readBlock idx.metaBlock
  let ver ← ofOption (findVersion metaBuf idx.versionCount versionId)
  let diskInode ← getInode inode
  -- the current blocks the version does not have in the same place
  ((List.range' 0 12).filter fun i =>
      diskInode.directBlock i ≠ 0 && diskInode.directBlock i ≠ ver.blocks.getD i 0).forM fun i =>
    releaseBlock (diskInode.directBlock i)
  (ver.blocks.filter (· ≠ 0)).forM bumpRefcount
  writeInode ((diskInode.setDirectBlocks ver.blocks).setSize ver.size)

end AthenaOS
