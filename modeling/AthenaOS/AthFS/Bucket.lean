import AthenaOS.AthFS.File

/-!
# App buckets and the shared region

Per-app storage with a quota, registered in the bucket table, and files of inode 1 that are
published by sharing block pointers.
-/

namespace AthenaOS

open Lib Fallible

/-- `BCAP_READ_OWN`. -/
def bcapReadOwn : Nat := 1

/-- `BCAP_WRITE_OWN`. -/
def bcapWriteOwn : Nat := 2

/-- `BCAP_READ_SHARED`. -/
def bcapReadShared : Nat := 4

/-- `BCAP_WRITE_SHARED`. -/
def bcapWriteShared : Nat := 8

/-- Does the bucket carry a capability flag? -/
def DiskBucketEntry.allows (bucket : DiskBucketEntry) (flag : Nat) : Bool :=
  bucket.capsFlags &&& flag != 0

/-! ## Bucket table -/

/-- `find_bucket_slot`. -/
def findBucketSlot (appId : Nat) : AthM (Option Nat) := do
  let buf ← readBlock (← superblock).bucketTableBlock
  return (List.range' 0 maxBuckets).find? fun i => (DiskBucketEntry.read buf i).appId = appId

/-- `read_bucket_entry`. -/
def readBucketEntry (slot : Nat) : AthM DiskBucketEntry := do
  require (slot < maxBuckets)
  let buf ← readBlock (← superblock).bucketTableBlock
  return DiskBucketEntry.read buf slot

/-- `write_bucket_entry`. -/
def writeBucketEntry (slot : Nat) (entry : DiskBucketEntry) : AthM Unit := do
  require (slot < maxBuckets)
  let blk := (← superblock).bucketTableBlock
  let buf ← readBlock blk
  writeVolBlock blk (buf.splice (slot * 64) entry.toBytes)

/-- The slot of an app and its entry, or an error. -/
def lookupBucket (appId : Nat) : AthM (Nat × DiskBucketEntry) := do
  let slot ← ofOption (← findBucketSlot appId)
  return (slot, ← readBucketEntry slot)

/-! ## Bucket operations -/

/-- `create_bucket`: the root inode of the new bucket. -/
def createBucket (appId quotaBlocks capsFlags maxFileSize : Nat) : AthM Nat := do
  require (appId ≠ 0)
  match ← findBucketSlot appId with
  | some _ => fail
  | none =>
    let buf ← readBlock (← superblock).bucketTableBlock
    let slot ← ofOption ((List.range' 0 maxBuckets).find? fun i =>
      (DiskBucketEntry.read buf i).appId = 0)
    let inodeId ← allocateInode
    writeInode (DiskInode.new inodeId 1)
    writeBucketEntry slot ⟨appId, inodeId, quotaBlocks, 0, capsFlags, maxFileSize⟩
    return inodeId

/-- `open_in_bucket`. -/
def openInBucket (appId : Nat) (path : List UInt8) (write : Bool) : AthM Nat := do
  let (_, bucket) ← lookupBucket appId
  require (if write then bucket.allows bcapWriteOwn else bucket.allows bcapReadOwn)
  let name := trimSlashes path
  require (!name.isEmpty && name.length ≤ 55)
  let root ← getInode bucket.rootInode
  match dirLookup (← get).disk root name with
  | some inode => return inode
  | none =>
    require write
    require (bucket.usedBlocks < bucket.quotaBlocks)
    createIn root name

/-- One round of the loop of `bucket_write_at`: `none` is its `break`, a failure its `?`. -/
def bucketWriteOne (bucket : DiskBucketEntry) (inode : DiskInode) (offset : Nat)
    (data : List UInt8) : AthM (Option (DiskBucketEntry × DiskInode)) := do
  let blkIdx := offset / blockSize
  let offInBlk := offset % blockSize
  if 12 ≤ blkIdx then return none
  else
    let needsAlloc : Bool := inode.directBlock blkIdx = 0
    if needsAlloc && bucket.quotaBlocks ≤ bucket.usedBlocks then return none
    else
      let blkBuf ← readBlockIf (!needsAlloc && (offInBlk ≠ 0 || data.length < blockSize))
        (inode.directBlock blkIdx)
      let toCopy := min (blockSize - offInBlk) data.length
      let blkBuf : Block := fun k =>
        if offInBlk ≤ k.val ∧ k.val < offInBlk + toCopy then data.getD (k.val - offInBlk) 0
        else blkBuf k
      let (written, inode) ← cowWriteBlock inode blkIdx blkBuf
      require written
      let bucket := if needsAlloc then { bucket with usedBlocks := bucket.usedBlocks + 1 } else bucket
      let inode := if inode.size < offset + toCopy then inode.setSize (offset + toCopy) else inode
      return some (bucket, inode)

/-- The loop of `bucket_write_at`. -/
def bucketWriteLoop (bucket : DiskBucketEntry) (inode : DiskInode) (offset : Nat)
    (data : List UInt8) (written : Nat) : AthM (DiskBucketEntry × DiskInode × Nat) := do
  if _ : data = [] then return (bucket, inode, written)
  else
    match ← bucketWriteOne bucket inode offset data with
    | none => return (bucket, inode, written)
    | some (bucket, inode) =>
      let toCopy := min (blockSize - offset % blockSize) data.length
      bucketWriteLoop bucket inode (offset + toCopy) (data.drop toCopy) (written + toCopy)
termination_by data.length
decreasing_by
  have hpos : 0 < data.length := List.length_pos_iff.mpr (by assumption)
  have hmod : offset % blockSize < blockSize := Nat.mod_lt _ (by decide)
  rw [List.length_drop]
  omega

/-- `bucket_write_at`: any inode number is accepted. -/
def bucketWriteAt (appId inodeId offset : Nat) (data : List UInt8) : AthM Nat := do
  let (slot, bucket) ← lookupBucket appId
  require (bucket.allows bcapWriteOwn)
  let inode ← getInode inodeId
  require (bucket.maxFileSize = 0 || offset + data.length ≤ bucket.maxFileSize)
  let (bucket, inode, written) ← bucketWriteLoop bucket inode offset data 0
  if 0 < written then
    writeInode inode
    writeBucketEntry slot bucket
    return written
  else return written

/-- The blocks of a directory up to its first hole, with their indices. -/
def dirBlocks (dir : DiskInode) : List (Nat × Nat) :=
  ((List.range' 0 12).map fun k => (k, dir.directBlock k)).takeWhile fun p => p.2 ≠ 0

/-- The inodes named by the entries of one directory block. -/
def entryInodes (buf : Block) (count : Nat) : List Nat :=
  ((List.range' 0 count).map fun j => (DirEntry.read buf j).inode).filter (· ≠ 0)

/-- The directory pass of `delete_bucket`: collect each block's inodes, free the block. -/
def freeDirBlocks (dirSize : Nat) : List (Nat × Nat) → List Nat → AthM (List Nat)
  | [], inodes => return inodes
  | (k, blk) :: blocks, inodes => do
    let buf ← readBlock blk
    let inodes := inodes ++ entryInodes buf (entriesInBlock dirSize k)
    freeBlock blk
    freeDirBlocks dirSize blocks inodes

/-- Clear the bitmap entry of an inode; the byte index panics past the bitmap. -/
def freeInode (inodeId : Nat) : AthM Unit := do
  require (inodeId / 8 < blockSize)
  clearInodeBit inodeId

/-- The inode pass of `delete_bucket`: the direct blocks of a file, then its bit. -/
def freeFile (inodeId : Nat) : AthM Unit := do
  let inode ← getInode inodeId
  (inode.directBlocks.filter (· ≠ 0)).forM fun blk => do
    let _ ← attempt (freeBlock blk)
  freeInode inodeId

/-- `delete_bucket`. -/
def deleteBucket (appId : Nat) : AthM Unit := do
  let (slot, bucket) ← lookupBucket appId
  let root ← getInode bucket.rootInode
  let inodes ← freeDirBlocks root.size (dirBlocks root) []
  inodes.forM freeFile
  freeInode bucket.rootInode
  writeBucketEntry slot ⟨0, 0, 0, 0, 0, 0⟩

/-! ## Shared region -/

/-- `open_shared`. -/
def openShared (path : List UInt8) (write : Bool) : AthM Nat := do
  let name := trimSlashes path
  require (!name.isEmpty && name.length ≤ 55)
  let root ← getInode (← superblock).sharedRootInode
  match dirLookup (← get).disk root name with
  | some inode => return inode
  | none =>
    require write
    createIn root name

/-- One slot of the pointer copy both directions make: release the destination's old
block, take the source's pointer, count it. -/
def shareSlot (src : DiskInode) (dst : DiskInode) (i : Nat) : AthM DiskInode := do
  when (dst.directBlock i ≠ 0) do
    -- `dec_refcount` written out in the source, its errors ignored
    let _ ← attempt (releaseBlock (dst.directBlock i))
  when (src.directBlock i ≠ 0) (bumpRefcount (src.directBlock i))
  return dst.setDirectBlock i (src.directBlock i)

/-- The pointer copy over the given slots. -/
def shareSlots (src : DiskInode) : List Nat → DiskInode → AthM DiskInode
  | [], dst => return dst
  | i :: slots, dst => do shareSlots src slots (← shareSlot src dst i)

/-- `publish_to_shared`. -/
def publishToShared (appId : Nat) (localPath sharedPath : List UInt8) : AthM Nat := do
  let (_, bucket) ← lookupBucket appId
  require (bucket.allows bcapWriteShared)
  let src ← getInode (← openInBucket appId localPath false)
  let dstId ← openShared sharedPath true
  let dst ← getInode dstId
  let dst ← shareSlots src (List.range' 0 12) dst
  writeInode (dst.setSize src.size)
  return dstId

/-- How many direct blocks an inode has. -/
def usedSlots (inode : DiskInode) : Nat := inode.directBlocks.countP (· ≠ 0)

/-- `import_from_shared`. -/
def importFromShared (appId : Nat) (sharedPath localPath : List UInt8) : AthM Nat := do
  let (slot, bucket) ← lookupBucket appId
  require (bucket.allows bcapReadShared)
  let src ← getInode (← openShared sharedPath false)
  let dstId ← openInBucket appId localPath true
  let dst ← getInode dstId
  let existing := usedSlots dst
  require (bucket.usedBlocks + (usedSlots src - existing) ≤ bucket.quotaBlocks)
  let dst ← shareSlots src (List.range' 0 12) dst
  writeInode (dst.setSize src.size)
  writeBucketEntry slot
    { bucket with usedBlocks := bucket.usedBlocks - existing + usedSlots src }
  return dstId

end AthenaOS
