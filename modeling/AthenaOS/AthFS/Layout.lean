import AthenaOS.AthFS.DataBlock

/-!
# On-disk structures of AthFS

The `repr(C)` structures of `kernel/src/athfs.rs`, at the offsets the compiler
gives them. They are read and written as raw bytes at fixed strides, and three of
them are eight bytes longer than their stride: `DiskInode` (136 at 128),
`SnapshotEntry` (264 at 256) and `DiskVersionEntry` (136 at 128). Writing one then
overwrites the first eight bytes of its successor, so the structures stay bytes
here.
-/

namespace AthenaOS

/-! ## Superblock -/

/-- `Superblock`, without the encryption and tiering fields. -/
structure Superblock where
  totalBlocks : Nat
  freeBlocks : Nat
  rootInode : Nat
  inodeBitmapBlock : Nat
  blockBitmapBlock : Nat
  inodeTableBlock : Nat
  refcountBlock : Nat
  snapshotBlock : Nat
  journalBlock : Nat
  snapshotCount : UInt32
  journalSeq : UInt32
  bucketTableBlock : Nat
  versionedMetaBlock : Nat
  sharedRootInode : Nat
  blockBitmapBlocks : Nat
  refcountBlocks : Nat
  deriving DecidableEq, Repr

namespace Superblock

/-- `ATHFS_MAGIC`. -/
def magic : Nat := 0x526165465321

/-- The superblock as block 0 holds it. -/
def toBlock (sb : Superblock) : Block :=
  (Bytes.zero : Block) |>.putLE 0 8 magic |>.putLE 8 8 sb.totalBlocks |>.putLE 16 8 sb.freeBlocks
    |>.putLE 24 8 sb.rootInode |>.putLE 32 8 sb.inodeBitmapBlock
    |>.putLE 40 8 sb.blockBitmapBlock |>.putLE 48 8 sb.inodeTableBlock
    |>.putLE 56 8 sb.refcountBlock |>.putLE 64 8 sb.snapshotBlock |>.putLE 72 8 sb.journalBlock
    |>.putLE 80 4 sb.snapshotCount.toNat |>.putLE 84 4 sb.journalSeq.toNat
    |>.putLE 136 8 sb.bucketTableBlock |>.putLE 144 8 sb.versionedMetaBlock
    |>.putLE 152 8 sb.sharedRootInode |>.putLE 160 8 sb.blockBitmapBlocks
    |>.putLE 168 8 sb.refcountBlocks

/-- `BLOCK_SIZE * 8`. -/
def bitsPerBlock : Nat := blockSize * 8

/-- `bitmap_span_blocks`: 0 is the legacy single-block layout. -/
def bitmapSpanBlocks (sb : Superblock) : Nat :=
  if sb.blockBitmapBlocks = 0 then 1 else sb.blockBitmapBlocks

/-- `refcount_span_blocks`. -/
def refcountSpanBlocks (sb : Superblock) : Nat :=
  if sb.refcountBlocks = 0 then 1 else sb.refcountBlocks

/-- `bitmap_index_limit`. -/
def bitmapIndexLimit (sb : Superblock) : Nat :=
  min sb.totalBlocks (sb.bitmapSpanBlocks * bitsPerBlock)

/-- `refcount_index_limit`. -/
def refcountIndexLimit (sb : Superblock) : Nat :=
  min sb.totalBlocks (sb.refcountSpanBlocks * blockSize)

end Superblock

/-- Number of bitmap blocks required to cover `total_blocks`. -/
def bitmapBlocksFor (totalBlocks : Nat) : Nat :=
  max ((totalBlocks + Superblock.bitsPerBlock - 1) / Superblock.bitsPerBlock) 1

/-- Number of refcount blocks required to cover `total_blocks`. -/
def refcountBlocksFor (totalBlocks : Nat) : Nat :=
  max ((totalBlocks + blockSize - 1) / blockSize) 1

/-! ## Inodes -/

/-- `DiskInode`: 134 bytes of fields, 136 with the trailing alignment. -/
abbrev DiskInode : Type := Bytes 136

namespace DiskInode

/-- `INODE_FLAG_BTREE`. -/
def flagBtree : UInt8 := 1

/-- `id`. -/
def id (inode : DiskInode) : Nat := inode.getLE 0 8

/-- `size`. -/
def size (inode : DiskInode) : Nat := inode.getLE 8 8

/-- `flags`. -/
def flags (inode : DiskInode) : UInt8 := inode.get 17

/-- `direct_blocks[i]`. -/
def directBlock (inode : DiskInode) (i : Nat) : Nat := inode.getLE (24 + 8 * i) 8

/-- `direct_blocks`. -/
def directBlocks (inode : DiskInode) : List Nat := (List.range 12).map inode.directBlock

/-- `btree_root`. -/
def btreeRoot (inode : DiskInode) : Nat := inode.getLE 120 8

/-- `btree_depth`: its four bytes are the first ones of the next inode's slot. -/
def btreeDepth (inode : DiskInode) : Nat := inode.getLE 128 4

/-- `flags & INODE_FLAG_BTREE != 0`. -/
def usesBtree (inode : DiskInode) : Bool := inode.flags &&& flagBtree != 0

/-- `inode.size = size`. -/
def setSize (inode : DiskInode) (size : Nat) : DiskInode := inode.putLE 8 8 size

/-- `inode.direct_blocks[i] = blk`. -/
def setDirectBlock (inode : DiskInode) (i blk : Nat) : DiskInode := inode.putLE (24 + 8 * i) 8 blk

/-- `inode.btree_root = blk`. -/
def setBtreeRoot (inode : DiskInode) (blk : Nat) : DiskInode := inode.putLE 120 8 blk

/-- The direct slots cleared and the inode turned into a B-tree one. -/
def toBtree (inode : DiskInode) (root : Nat) : DiskInode :=
  let cleared : DiskInode := (List.range 12).foldl (fun inode i => setDirectBlock inode i 0) inode
  let flagged : DiskInode := cleared.putLE 17 1 (flags inode ||| flagBtree).toNat
  (setBtreeRoot flagged root).putLE 128 4 0

/-- A fresh inode: `type_` is 0 for a file, 1 for a directory. -/
def new (id type_ : Nat) : DiskInode := (Bytes.zero : DiskInode).putLE 0 8 id |>.putLE 16 1 type_

end DiskInode

/-! ## B-tree leaves -/

/-- `BTreeLeafEntry`: an extent. -/
structure BTreeLeafEntry where
  logicalStart : Nat
  physicalBlock : Nat
  lengthBlocks : Nat
  flags : Nat
  deriving DecidableEq, Repr

namespace BTreeLeafEntry

/-- `EXTENT_FLAG_COMPRESSED`. -/
def flagCompressed : Nat := 2

/-- The entry at byte `off` of a node. -/
def read (node : Block) (off : Nat) : BTreeLeafEntry :=
  ⟨node.getLE off 8, node.getLE (off + 8) 8, node.getLE (off + 16) 4, node.getLE (off + 20) 4⟩

/-- Write the entry at byte `off` of a node. -/
def write (e : BTreeLeafEntry) (node : Block) (off : Nat) : Block :=
  node.putLE off 8 e.logicalStart |>.putLE (off + 8) 8 e.physicalBlock
    |>.putLE (off + 16) 4 e.lengthBlocks |>.putLE (off + 20) 4 e.flags

end BTreeLeafEntry

/-- `BTREE_MAGIC`. -/
def btreeMagic : Nat := 0x524254524545

/-- `header.magic`. -/
def nodeMagic (node : Block) : Nat := node.getLE 0 8

/-- `header.count`. -/
def nodeCount (node : Block) : Nat := node.getLE 10 2

/-- Leaf entry `i`, 24 bytes each after the 32-byte header. -/
def leafEntry (node : Block) (i : Nat) : BTreeLeafEntry := BTreeLeafEntry.read node (32 + 24 * i)

/-- Write leaf entry `i`. -/
def setLeafEntry (node : Block) (i : Nat) (e : BTreeLeafEntry) : Block := e.write node (32 + 24 * i)

/-! ## Tables -/

/-- `JournalEntry` (64 bytes). -/
structure JournalEntry where
  seq : Nat
  committed : UInt8
  inodeId : Nat
  blockIdxInInode : Nat
  oldBlock : Nat
  newBlock : Nat
  deriving DecidableEq, Repr

/-- `MAX_JOURNAL_ENTRIES`. -/
def maxJournalEntries : Nat := 64

/-- Journal slot `i`. -/
def JournalEntry.read (buf : Block) (i : Nat) : JournalEntry :=
  let off := i * 64
  ⟨buf.getLE off 8, buf.get (off + 9), buf.getLE (off + 16) 8, buf.getLE (off + 24) 8,
    buf.getLE (off + 32) 8, buf.getLE (off + 40) 8⟩

/-- The 64 bytes of a pending entry (`op` is 1). -/
def JournalEntry.toBytes (e : JournalEntry) : Bytes 64 :=
  (Bytes.zero : Bytes 64).putLE 0 8 e.seq |>.putLE 8 1 1 |>.putLE 9 1 e.committed.toNat
    |>.putLE 16 8 e.inodeId |>.putLE 24 8 e.blockIdxInInode |>.putLE 32 8 e.oldBlock
    |>.putLE 40 8 e.newBlock

/-- `SnapshotEntry` (264 bytes, at a stride of 256). -/
structure SnapshotEntry where
  id : UInt32
  active : UInt8
  timestamp : Nat
  bitmapBlock : Nat
  rootInode : DiskInode
  inodeTableSnapBlock : Nat
  inodeBitmapSnapBlock : Nat
  deriving DecidableEq

/-- `MAX_SNAPSHOTS`. -/
def maxSnapshots : Nat := 16

/-- Snapshot slot `i`. -/
def SnapshotEntry.read (buf : Block) (i : Nat) : SnapshotEntry :=
  let off := i * 256
  ⟨UInt32.ofNat (buf.getLE off 4), buf.get (off + 4), buf.getLE (off + 8) 8,
    buf.getLE (off + 16) 8, buf.slice (off + 24), buf.getLE (off + 160) 8,
    buf.getLE (off + 168) 8⟩

/-- The 264 bytes of an entry. -/
def SnapshotEntry.toBytes (e : SnapshotEntry) : Bytes 264 :=
  (Bytes.zero : Bytes 264).putLE 0 4 e.id.toNat |>.putLE 4 1 e.active.toNat
    |>.putLE 8 8 e.timestamp |>.putLE 16 8 e.bitmapBlock |>.splice 24 e.rootInode
    |>.putLE 160 8 e.inodeTableSnapBlock |>.putLE 168 8 e.inodeBitmapSnapBlock

namespace SnapshotEntry

variable {buf : Block} {e : SnapshotEntry} {slot : Nat}

/-- The fields of an encoded entry. -/
theorem getLE_toBytes (hb : e.bitmapBlock < 256 ^ 8) (hit : e.inodeTableSnapBlock < 256 ^ 8)
    (hib : e.inodeBitmapSnapBlock < 256 ^ 8) :
    e.toBytes.getLE 0 4 = e.id.toNat ∧ e.toBytes.getLE 16 8 = e.bitmapBlock ∧
      e.toBytes.getLE 160 8 = e.inodeTableSnapBlock ∧
      e.toBytes.getLE 168 8 = e.inodeBitmapSnapBlock := by
  have hid : e.id.toNat < 256 ^ 4 := e.id.toNat_lt
  unfold toBytes
  simp only [Bytes.getLE_putLE_of_disjoint, Bytes.getLE_splice_of_disjoint, Nat.reduceAdd,
    Nat.reduceLeDiff, Nat.zero_add, true_or, Bytes.getLE_putLE_self, hid, hb, hit, hib,
    and_self]

theorem get_toBytes_active : e.toBytes.get 4 = e.active := by
  have hbyte : ((Bytes.zero : Bytes 264).putLE 0 4 e.id.toNat |>.putLE 4 1 e.active.toNat).get (4 + 0)
      = UInt8.ofNat (e.active.toNat >>> (8 * 0)) := Bytes.get_putLE_of_mem _ (by omega) (by omega)
  unfold toBytes
  rw [Bytes.get_putLE_of_ne _ (by omega), Bytes.get_putLE_of_ne _ (by omega),
    Bytes.get_splice_of_ne _ _ (by omega), Bytes.get_putLE_of_ne _ (by omega),
    Bytes.get_putLE_of_ne _ (by omega), hbyte, Nat.mul_zero, Nat.shiftRight_zero, UInt8.ofNat_toNat]

theorem slice_toBytes_root : (e.toBytes.slice 24 : DiskInode) = e.rootInode := by
  refine Eq.trans (Bytes.slice_congr fun j hj => ?_) (Bytes.slice_splice_self
    ((Bytes.zero : Bytes 264).putLE 0 4 e.id.toNat |>.putLE 4 1 e.active.toNat
      |>.putLE 8 8 e.timestamp |>.putLE 16 8 e.bitmapBlock) (i := 24) e.rootInode (by omega))
  unfold toBytes
  rw [Bytes.get_putLE_of_ne _ (by omega), Bytes.get_putLE_of_ne _ (by omega)]

/-- The last eight bytes of an entry, which lie over the next slot, are zero. -/
theorem get_toBytes_tail {k : Nat} (hk : 176 ≤ k) : e.toBytes.get k = 0 := by
  unfold toBytes
  rw [Bytes.get_putLE_of_ne _ (by omega), Bytes.get_putLE_of_ne _ (by omega),
    Bytes.get_splice_of_ne _ _ (by omega), Bytes.get_putLE_of_ne _ (by omega),
    Bytes.get_putLE_of_ne _ (by omega), Bytes.get_putLE_of_ne _ (by omega),
    Bytes.get_putLE_of_ne _ (by omega)]
  rw [Bytes.get]
  split <;> rfl

/-- What two entries agree on apart from the time. -/
structure Same (e e' : SnapshotEntry) : Prop where
  id : e.id = e'.id
  active : e.active = e'.active
  bitmapBlock : e.bitmapBlock = e'.bitmapBlock
  rootInode : e.rootInode = e'.rootInode
  inodeTableSnapBlock : e.inodeTableSnapBlock = e'.inodeTableSnapBlock
  inodeBitmapSnapBlock : e.inodeBitmapSnapBlock = e'.inodeBitmapSnapBlock

/-- **A slot reads back the entry written to it.** -/
theorem read_splice_self (hslot : slot < maxSnapshots) (hb : e.bitmapBlock < 256 ^ 8)
    (hit : e.inodeTableSnapBlock < 256 ^ 8) (hib : e.inodeBitmapSnapBlock < 256 ^ 8) :
    Same (read (buf.splice (slot * 256) e.toBytes) slot) e := by
  rw [maxSnapshots] at hslot
  obtain ⟨hid, hbm, hitb, hibb⟩ := getLE_toBytes hb hit hib
  have hfield : ∀ off len, off + len ≤ 176 →
      (buf.splice (slot * 256) e.toBytes).getLE (slot * 256 + off) len = e.toBytes.getLE off len :=
    fun off len h => Bytes.getLE_splice_of_mem buf e.toBytes (by omega) (by rw [blockSize]; omega)
  constructor <;> simp only [read]
  · have := hfield 0 4 (by omega)
    rw [Nat.add_zero] at this
    rw [this, hid, UInt32.ofNat_toNat]
  · rw [Bytes.get_splice_of_mem buf e.toBytes (by omega) (by rw [blockSize]; omega),
      get_toBytes_active]
  · rw [hfield 16 8 (by omega), hbm]
  · refine Eq.trans (Bytes.slice_congr fun j hj => ?_) slice_toBytes_root
    rw [Nat.add_assoc]
    exact Bytes.get_splice_of_mem buf e.toBytes (by omega) (by rw [blockSize]; omega)
  · rw [hfield 160 8 (by omega), hitb]
  · rw [hfield 168 8 (by omega), hibb]

/-- **Writing a slot overwrites the id and the active flag of the next one.** -/
theorem read_splice_next (hslot : slot + 1 < maxSnapshots) :
    (read (buf.splice (slot * 256) e.toBytes) (slot + 1)).active = 0 := by
  rw [maxSnapshots] at hslot
  show (buf.splice (slot * 256) e.toBytes).get ((slot + 1) * 256 + 4) = 0
  rw [show (slot + 1) * 256 + 4 = slot * 256 + 260 by omega,
    Bytes.get_splice_of_mem buf e.toBytes (by omega) (by rw [blockSize]; omega),
    get_toBytes_tail (by omega)]

/-- Every other slot is as it was. -/
theorem read_splice_of_ne {i : Nat} (hi : i ≠ slot) (hnext : i ≠ slot + 1) :
    read (buf.splice (slot * 256) e.toBytes) i = read buf i := by
  have hfar : ∀ k < 176, i * 256 + k < slot * 256 ∨ slot * 256 + 264 ≤ i * 256 + k := by
    intro k hk
    rcases Nat.lt_or_gt_of_ne hi with hlt | hgt
    · left
      calc i * 256 + k < i * 256 + 256 := Nat.add_lt_add_left (by omega) _
        _ = (i + 1) * 256 := (Nat.succ_mul i 256).symm
        _ ≤ slot * 256 := Nat.mul_le_mul_right 256 hlt
    · right
      calc slot * 256 + 264 ≤ slot * 256 + 2 * 256 := Nat.add_le_add_left (by decide) _
        _ = (slot + 2) * 256 := (Nat.add_mul slot 2 256).symm
        _ ≤ i * 256 := Nat.mul_le_mul_right 256 (by omega)
        _ ≤ i * 256 + k := Nat.le_add_right _ _
  have hget : ∀ k < 176,
      (buf.splice (slot * 256) e.toBytes).get (i * 256 + k) = buf.get (i * 256 + k) :=
    fun k hk => Bytes.get_splice_of_ne buf e.toBytes (hfar k hk)
  have hfield : ∀ off len, off + len ≤ 176 →
      (buf.splice (slot * 256) e.toBytes).getLE (i * 256 + off) len
        = buf.getLE (i * 256 + off) len := by
    intro off len h
    refine Bytes.getLE_congr fun k hk => ?_
    rw [Nat.add_assoc]
    exact hget _ (by omega)
  have hroot : (Bytes.slice (buf.splice (slot * 256) e.toBytes) (i * 256 + 24) : DiskInode)
      = buf.slice (i * 256 + 24) := by
    refine Bytes.slice_congr fun k hk => ?_
    rw [Nat.add_assoc]
    exact hget _ (by omega)
  have hid := hfield 0 4 (by omega)
  rw [Nat.add_zero] at hid
  simp only [read]
  rw [hid, hfield 8 8 (by omega), hfield 16 8 (by omega), hfield 160 8 (by omega),
    hfield 168 8 (by omega), hroot, hget 4 (by omega)]

end SnapshotEntry

/-- `DirEntry` (64 bytes); `name` is all 55 bytes of the field. -/
structure DirEntry where
  inode : Nat
  nameLen : Nat
  name : Bytes 55

/-- Directory slot `i` of a block. -/
def DirEntry.read (buf : Block) (i : Nat) : DirEntry :=
  ⟨buf.getLE (i * 64) 8, (buf.get (i * 64 + 8)).toNat, buf.slice (i * 64 + 9)⟩

/-- The 64 bytes of an entry. -/
def DirEntry.toBytes (e : DirEntry) : Bytes 64 :=
  (Bytes.zero : Bytes 64).putLE 0 8 e.inode |>.putLE 8 1 e.nameLen |>.splice 9 e.name

/-- `DiskBucketEntry` (64 bytes). -/
structure DiskBucketEntry where
  appId : Nat
  rootInode : Nat
  quotaBlocks : Nat
  usedBlocks : Nat
  capsFlags : Nat
  maxFileSize : Nat
  deriving DecidableEq, Repr

/-- `MAX_BUCKETS`. -/
def maxBuckets : Nat := 64

/-- Bucket slot `i`. -/
def DiskBucketEntry.read (buf : Block) (i : Nat) : DiskBucketEntry :=
  let off := i * 64
  ⟨buf.getLE off 8, buf.getLE (off + 8) 8, buf.getLE (off + 16) 8, buf.getLE (off + 24) 8,
    buf.getLE (off + 32) 4, buf.getLE (off + 40) 8⟩

/-- The 64 bytes of an entry. -/
def DiskBucketEntry.toBytes (e : DiskBucketEntry) : Bytes 64 :=
  (Bytes.zero : Bytes 64).putLE 0 8 e.appId |>.putLE 8 8 e.rootInode
    |>.putLE 16 8 e.quotaBlocks |>.putLE 24 8 e.usedBlocks |>.putLE 32 4 e.capsFlags
    |>.putLE 40 8 e.maxFileSize

namespace DiskBucketEntry

variable {buf : Block} {e : DiskBucketEntry} {slot : Nat}

/-- What fits the fields of an entry. -/
structure Fits (e : DiskBucketEntry) : Prop where
  appId : e.appId < 256 ^ 8
  rootInode : e.rootInode < 256 ^ 8
  quotaBlocks : e.quotaBlocks < 256 ^ 8
  usedBlocks : e.usedBlocks < 256 ^ 8
  capsFlags : e.capsFlags < 256 ^ 4
  maxFileSize : e.maxFileSize < 256 ^ 8

theorem fits_read (buf : Block) (i : Nat) : (read buf i).Fits :=
  ⟨Bytes.getLE_lt .., Bytes.getLE_lt .., Bytes.getLE_lt .., Bytes.getLE_lt .., Bytes.getLE_lt ..,
    Bytes.getLE_lt ..⟩

/-- A slot reads back the entry written to it. -/
theorem read_splice_self (hslot : slot < maxBuckets) (h : e.Fits) :
    read (buf.splice (slot * 64) e.toBytes) slot = e := by
  rw [maxBuckets] at hslot
  have hfield : ∀ off len, off + len ≤ 64 →
      (buf.splice (slot * 64) e.toBytes).getLE (slot * 64 + off) len = e.toBytes.getLE off len :=
    fun off len hlen => Bytes.getLE_splice_of_mem buf e.toBytes (by omega) (by rw [blockSize]; omega)
  have hzero := hfield 0 8 (by omega)
  rw [Nat.add_zero] at hzero
  simp only [read]
  rw [hzero, hfield 8 8 (by omega), hfield 16 8 (by omega), hfield 24 8 (by omega),
    hfield 32 4 (by omega), hfield 40 8 (by omega)]
  obtain ⟨happ, hroot, hquota, hused, hcaps, hmax⟩ := h
  unfold toBytes
  simp only [Bytes.getLE_putLE_of_disjoint, Nat.reduceAdd, Nat.reduceLeDiff, true_or,
    Bytes.getLE_putLE_self, happ, hroot, hquota, hused, hcaps, hmax]

/-- Every other slot is as it was. -/
theorem read_splice_of_ne {i : Nat} (hi : i ≠ slot) :
    read (buf.splice (slot * 64) e.toBytes) i = read buf i := by
  have hfield : ∀ off len, off + len ≤ 64 →
      (buf.splice (slot * 64) e.toBytes).getLE (i * 64 + off) len = buf.getLE (i * 64 + off) len := by
    intro off len hlen
    refine Bytes.getLE_congr fun k hk => Bytes.get_splice_of_ne buf e.toBytes ?_
    omega
  have hzero := hfield 0 8 (by omega)
  rw [Nat.add_zero] at hzero
  simp only [read]
  rw [hzero, hfield 8 8 (by omega), hfield 16 8 (by omega), hfield 24 8 (by omega),
    hfield 32 4 (by omega), hfield 40 8 (by omega)]

end DiskBucketEntry

/-- `DiskVersionedIndex` (32 bytes). -/
structure DiskVersionedIndex where
  inode : Nat
  metaBlock : Nat
  maxVersions : Nat
  versionCount : Nat
  currentVersion : UInt16
  deriving DecidableEq, Repr

/-- `MAX_VERSIONED_FILES`. -/
def maxVersionedFiles : Nat := 128

/-- `MAX_VERSIONS_PER_FILE`. -/
def maxVersionsPerFile : Nat := 32

/-- Index slot `i`. -/
def DiskVersionedIndex.read (buf : Block) (i : Nat) : DiskVersionedIndex :=
  let off := i * 32
  ⟨buf.getLE off 8, buf.getLE (off + 8) 8, (buf.get (off + 16)).toNat, (buf.get (off + 17)).toNat,
    UInt16.ofNat (buf.getLE (off + 18) 2)⟩

/-- The 32 bytes of an entry. -/
def DiskVersionedIndex.toBytes (e : DiskVersionedIndex) : Bytes 32 :=
  (Bytes.zero : Bytes 32).putLE 0 8 e.inode |>.putLE 8 8 e.metaBlock
    |>.putLE 16 1 e.maxVersions |>.putLE 17 1 e.versionCount |>.putLE 18 2 e.currentVersion.toNat

/-- `DiskVersionEntry` (136 bytes, at a stride of 128): the last block pointer lies in
the next entry's slot. -/
structure DiskVersionEntry where
  versionId : UInt16
  timestamp : Nat
  size : Nat
  checksum : UInt32
  blocks : List Nat
  deriving DecidableEq, Repr

/-- Version slot `i`. -/
def DiskVersionEntry.read (buf : Block) (i : Nat) : DiskVersionEntry :=
  let off := i * 128
  ⟨UInt16.ofNat (buf.getLE off 2), buf.getLE (off + 8) 8, buf.getLE (off + 16) 8,
    UInt32.ofNat (buf.getLE (off + 24) 4),
    (List.range 12).map fun j => buf.getLE (off + 40 + 8 * j) 8⟩

/-- The 136 bytes of an entry. -/
def DiskVersionEntry.toBytes (e : DiskVersionEntry) : Bytes 136 :=
  (List.range 12).foldl (fun bytes j => bytes.putLE (40 + 8 * j) 8 (e.blocks.getD j 0))
    ((Bytes.zero : Bytes 136).putLE 0 2 e.versionId.toNat |>.putLE 8 8 e.timestamp
      |>.putLE 16 8 e.size |>.putLE 24 4 e.checksum.toNat)

end AthenaOS
