import AthenaOS.AthFS.Operation

/-!
# What the allocator does to a formatted volume

On the layout `format` writes, the bitmap is block 2 and the refcounts are block 4.
Each primitive call is given as an equation: the outcome, and the volume it leaves
with the device writes it made, in order.
-/

namespace AthenaOS

open Lib Fallible
open Function (update update_of_ne update_self)

/-! ## Programs, run -/

/-- A device write, recorded. -/
def Volume.write (v : Volume) (b : Nat) (data : Block) : Volume :=
  (v.note (.write b data)).put b data

/-- A recorded write to a block the superblock does not name. -/
def Volume.store (v : Volume) (b : Nat) (data : Block) : Volume := (v.note (.store b)).write b data

/-- A change of the superblock. -/
def Volume.setSuperblock (v : Volume) (g : Superblock → Superblock) : Volume :=
  { v with superblock := g v.superblock }

section Run

variable (v : Volume)

@[simp] theorem superblock_run : superblock v = (some v.superblock, v) := rfl

@[simp] theorem readBlock_run (b : Nat) : readBlock b v = (some (v.disk b), v) := rfl

@[simp] theorem mark_run (call : Call) : mark call v = (some (), v.note call) := rfl

@[simp] theorem writeVolBlock_run (b : Nat) (data : Block) :
    writeVolBlock b data v = (some (), v.write b data) := rfl

@[simp] theorem storeBlock_run (b : Nat) (data : Block) :
    storeBlock b data v = (some (), v.store b data) := rfl

@[simp] theorem updateSuperblock_run (g : Superblock → Superblock) :
    updateSuperblock g v = (some (), v.setSuperblock g) := rfl

@[simp] theorem pure_run {α : Type} (a : α) : (pure a : AthM α) v = (some a, v) := rfl

theorem ofOption_run {α : Type} (a : α) : (ofOption (some a) : AthM α) v = (some a, v) := rfl

theorem ofOption_none_run {α : Type} : (ofOption none : AthM α) v = (none, v) := rfl

theorem require_run {c : Bool} (h : c = true) : (require c : AthM Unit) v = (some (), v) := by
  rw [require, if_pos h]
  rfl

@[simp] theorem fail_run {α : Type} : (fail : AthM α) v = (none, v) := rfl

@[simp] theorem flushSuperblock_run :
    flushSuperblock v = (some (), v.write 0 v.superblock.toBlock) := rfl

@[simp] theorem note_superblock (call : Call) : (v.note call).superblock = v.superblock := rfl

@[simp] theorem note_disk (call : Call) : (v.note call).disk = v.disk := rfl

@[simp] theorem write_superblock (b : Nat) (data : Block) :
    (v.write b data).superblock = v.superblock := rfl

@[simp] theorem write_disk (b : Nat) (data : Block) :
    (v.write b data).disk = update v.disk b data := rfl

@[simp] theorem store_disk (b : Nat) (data : Block) :
    (v.store b data).disk = update v.disk b data := rfl

@[simp] theorem setSuperblock_superblock (g : Superblock → Superblock) :
    (v.setSuperblock g).superblock = g v.superblock := rfl

@[simp] theorem setSuperblock_disk (g : Superblock → Superblock) :
    (v.setSuperblock g).disk = v.disk := rfl

end Run

/-! ## Refcounts -/

section Formatted

variable {v : Volume} {b : Nat}

/-- A refcount byte replaced. -/
def putByte (buf : Block) (i : Nat) (val : UInt8) : Block := buf.putLE i 1 val.toNat

theorem get_putByte (buf : Block) {i j : Nat} (val : UInt8) (hi : i < blockSize) :
    (putByte buf i val).get j = if j = i then val else buf.get j := by
  split
  · rename_i h
    have hbyte := @Bytes.get_putLE_of_mem _ 0 i 1 val.toNat buf (by omega) (by omega)
    rw [h, putByte]
    rw [Nat.add_zero, Nat.mul_zero, Nat.shiftRight_zero, UInt8.ofNat_toNat] at hbyte
    exact hbyte
  · rename_i h
    exact Bytes.get_putLE_of_ne _ (by omega)

/-- The volume with the count of `b` written to its block of the refcount run. -/
def Volume.counted (v : Volume) (b : Nat) (val : UInt8) : Volume :=
  let blk := v.superblock.refcountBlockOf b
  v.write blk (putByte (v.disk blk) (b % blockSize) val)

theorem readRefcount_run (v : Volume) (b : Nat) :
    readRefcount b v =
      (some (if b < v.superblock.refcountIndexLimit then some (v.refcount b) else none), v) := by
  unfold readRefcount
  rw [bind_some (superblock_run v)]
  by_cases hb : b < v.superblock.refcountIndexLimit
  · rw [if_neg (Nat.not_le.mpr hb), bind_some (readBlock_run v _), if_pos hb]
    rfl
  · rw [if_pos (Nat.not_lt.mp hb), if_neg hb]
    rfl

theorem writeRefcount_run (v : Volume) (b : Nat) (val : UInt8) :
    writeRefcount b val v =
      if b < v.superblock.refcountIndexLimit then (some (), v.counted b val) else (none, v) := by
  unfold writeRefcount
  rw [bind_some (superblock_run v)]
  by_cases hb : b < v.superblock.refcountIndexLimit
  · rw [if_neg (Nat.not_le.mpr hb), bind_some (readBlock_run v _), if_pos hb]
    rfl
  · rw [if_pos (Nat.not_lt.mp hb), if_neg hb, fail_run]

theorem decRefcount_run (v : Volume) (b : Nat) :
    decRefcount b v =
      if b < v.superblock.refcountIndexLimit then
        (some (satPred (v.refcount b)), v.counted b (satPred (v.refcount b)))
      else (none, v) := by
  unfold decRefcount
  rw [bind_some (superblock_run v)]
  by_cases hb : b < v.superblock.refcountIndexLimit
  · rw [if_neg (Nat.not_le.mpr hb), bind_some (readBlock_run v _), if_pos hb]
    rfl
  · rw [if_pos (Nat.not_lt.mp hb), if_neg hb, fail_run]

/-- The byte of a block in the refcount block. -/
theorem refcount_place (hb : b < 256) : b / blockSize = 0 ∧ b % blockSize = b := by
  rw [blockSize]
  omega

theorem refcount_eq (hsb : v.superblock.Formatted) (hb : b < 256) :
    v.refcount b = (v.disk 4).get b := by
  obtain ⟨hdiv, hmod⟩ := refcount_place hb
  rw [Volume.refcount, Superblock.refcountBlockOf, hsb.refcountBlock, hdiv, hmod]

theorem counted_eq (hsb : v.superblock.Formatted) (hb : b < 256) (val : UInt8) :
    v.counted b val = v.write 4 (putByte (v.disk 4) b val) := by
  obtain ⟨hdiv, hmod⟩ := refcount_place hb
  rw [Volume.counted, Superblock.refcountBlockOf, hsb.refcountBlock, hdiv, hmod]

theorem readRefcount_eq (hsb : v.superblock.Formatted) :
    readRefcount b v = (some (if b < 256 then some ((v.disk 4).get b) else none), v) := by
  rw [readRefcount_run, hsb.refcountIndexLimit]
  by_cases hb : b < 256
  · rw [if_pos hb, if_pos hb, refcount_eq hsb hb]
  · rw [if_neg hb, if_neg hb]

theorem writeRefcount_eq (hsb : v.superblock.Formatted) (val : UInt8) :
    writeRefcount b val v =
      if b < 256 then (some (), v.write 4 (putByte (v.disk 4) b val)) else (none, v) := by
  rw [writeRefcount_run, hsb.refcountIndexLimit]
  by_cases hb : b < 256
  · rw [if_pos hb, if_pos hb, counted_eq hsb hb]
  · rw [if_neg hb, if_neg hb]

theorem decRefcount_eq (hsb : v.superblock.Formatted) :
    decRefcount b v =
      if b < 256 then
        (some (satPred ((v.disk 4).get b)),
          v.write 4 (putByte (v.disk 4) b (satPred ((v.disk 4).get b))))
      else (none, v) := by
  rw [decRefcount_run, hsb.refcountIndexLimit]
  by_cases hb : b < 256
  · rw [if_pos hb, if_pos hb, counted_eq hsb hb, refcount_eq hsb hb]
  · rw [if_neg hb, if_neg hb]

/-! ## Blocks -/

/-- The block `allocate_block` takes: the first clear bit of the bitmap. -/
def firstFree (bm : Block) : Option Nat := (List.range' 0 256).find? fun i => !bm.bit i

/-- The volume after `allocate_block` took `b`: bitmap, free count, refcount,
superblock. -/
def Volume.allocated (v : Volume) (b : Nat) : Volume :=
  let v := (v.note .allocateBlock).write 2 ((v.disk 2).setBit b)
  let v := v.setSuperblock fun sb => { sb with freeBlocks := sb.freeBlocks - 1 }
  let v := v.write 4 (putByte (v.disk 4) b 1)
  v.write 0 v.superblock.toBlock

/-- The volume after `free_block`: bitmap, refcount, free count, superblock. -/
def Volume.freed (v : Volume) (b : Nat) : Volume :=
  let v := (v.note (.freeBlock b)).write 2 ((v.disk 2).clearBit b)
  let v := v.write 4 (putByte (v.disk 4) b 0)
  let v := v.setSuperblock fun sb => { sb with freeBlocks := sb.freeBlocks + 1 }
  v.write 0 v.superblock.toBlock

theorem firstFree_eq_some {bm : Block} (h : firstFree bm = some b) :
    b < 256 ∧ bm.bit b = false ∧ ∀ i < b, bm.bit i = true := by
  rw [firstFree, List.find?_range'_eq_some] at h
  obtain ⟨hclear, hmem, hbefore⟩ := h
  rw [List.mem_range'_1] at hmem
  refine ⟨by omega, by simpa using hclear, fun i hi => ?_⟩
  simpa using hbefore i (Nat.zero_le i) hi

/-- What `allocate_block` takes, on a volume of any size: a block that the bitmap has free, with
one reference from then on. -/
structure Volume.Took (v v' : Volume) (b : Nat) : Prop where
  free : v.blockBit b = false
  inRange : b < v.superblock.refcountIndexLimit
  superblock : v'.superblock = { v.superblock with freeBlocks := v.superblock.freeBlocks - 1 }
  /-- The superblock is written last, to block 0. -/
  counted : v.superblock.refcountBlock ≠ 0 → v'.refcount b = 1

theorem allocateIn_eq (hsb : v.superblock.Formatted) :
    allocateIn 0 0 256 (v.note .allocateBlock) =
      match firstFree (v.disk 2) with
      | none => (some none, v.note .allocateBlock)
      | some b => (some (some b), v.allocated b) := by
  unfold allocateIn
  rw [bind_some (superblock_run _), bind_some (readBlock_run _ _), note_disk, note_superblock,
    hsb.blockBitmapBlock]
  rw [Nat.add_zero, Nat.sub_zero, ← firstFree]
  cases hfree : firstFree (v.disk 2) with
  | none => rfl
  | some b =>
    obtain ⟨hb, -, -⟩ := firstFree_eq_some hfree
    have hsb' : ((v.note .allocateBlock).write 2 ((v.disk 2).setBit b)
        |>.setSuperblock fun sb => { sb with freeBlocks := sb.freeBlocks - 1 }).superblock.Formatted :=
      hsb.setFree _
    show ((writeVolBlock 2 ((v.disk 2).setBit b) >>= fun _ => _) : AthM (Option Nat)) _ = _
    rw [bind_some (writeVolBlock_run _ _ _), bind_some (updateSuperblock_run _ _), Nat.zero_add,
      bind_some ((writeRefcount_eq hsb' 1).trans (if_pos hb)), bind_some (flushSuperblock_run _)]
    rfl

/-- **`allocate_block`** takes the first clear bit, or fails without a write. -/
theorem allocateBlock_eq (hsb : v.superblock.Formatted) :
    allocateBlock v =
      match firstFree (v.disk 2) with
      | none => (none, v.note .allocateBlock)
      | some b => (some b, v.allocated b) := by
  unfold allocateBlock
  rw [bind_some (mark_run _ _), bind_some (superblock_run _), note_superblock,
    hsb.bitmapSpanBlocks, allocateScan, bind_some (superblock_run _), note_superblock,
    hsb.bitmapIndexLimit, Nat.zero_mul, if_neg (by decide), Nat.zero_add,
    Nat.min_eq_right (by decide)]
  cases hfree : firstFree (v.disk 2) with
  | none =>
    rw [bind_some (allocateIn_eq hsb |>.trans (by rw [hfree]))]
    rfl
  | some b =>
    rw [bind_some (allocateIn_eq hsb |>.trans (by rw [hfree]))]
    rfl

/-- **`free_block`** clears the bit and the refcount of any block below the limit. -/
theorem freeBlock_eq (hsb : v.superblock.Formatted) :
    freeBlock b v = if b < 256 then (some (), v.freed b) else (none, v.note (.freeBlock b)) := by
  unfold freeBlock
  rw [bind_some (mark_run _ _), bind_some (superblock_run _), note_superblock,
    hsb.bitmapIndexLimit]
  by_cases hb : b < 256
  · have hplace : b / Superblock.bitsPerBlock = 0 ∧ b % Superblock.bitsPerBlock = b := by
      rw [Superblock.bitsPerBlock, blockSize]
      omega
    have hsb' : ((v.note (.freeBlock b)).write 2 ((v.disk 2).clearBit b)).superblock.Formatted := hsb
    rw [if_neg (by omega), bind_some (readBlock_run _ _), hsb.blockBitmapBlock, hplace.1, hplace.2,
      if_pos hb, note_disk, Nat.add_zero, bind_some (writeVolBlock_run _ _ _),
      bind_some ((writeRefcount_eq hsb' 0).trans (if_pos hb)), bind_some (updateSuperblock_run _ _)]
    rfl
  · rw [if_pos (by omega), if_neg hb, fail_run]

/-! ## Inodes -/

/-- The volume after `write_inode`. -/
def Volume.inodeWritten (v : Volume) (inode : DiskInode) : Volume :=
  let b := 3 + inode.id / 32
  (v.note (.overwrite b)).store b ((v.disk b).splice (inode.id % 32 * 128) inode)

theorem getInode_run (hsb : v.superblock.Formatted) :
    getInode 0 v = (some ((v.disk 3).slice 0), v) := by
  unfold getInode
  rw [bind_some (superblock_run _), bind_some (readBlock_run _ _), Superblock.inodeBlockOf,
    hsb.inodeTableBlock]
  rfl

theorem inodeWritten_superblock (v : Volume) (inode : DiskInode) :
    (v.inodeWritten inode).superblock = v.superblock := rfl

theorem writeInode_eq (hsb : v.superblock.Formatted) (inode : DiskInode) :
    writeInode inode v = (some (), v.inodeWritten inode) := by
  unfold writeInode
  rw [bind_some (superblock_run _), bind_some (readBlock_run _ _), Superblock.inodeBlockOf,
    hsb.inodeTableBlock]
  rfl

/-! ## Rollback -/

/-- A frozen block copied back, if there is one. -/
def Volume.restored (v : Volume) (dst frozen : Nat) : Volume :=
  if frozen = 0 then v else v.write dst (v.disk frozen)

/-- The volume after `rollback_to_snapshot` found `snap`: refcounts, bitmap, inode
table, inode bitmap, root inode, free count, superblock. -/
def Volume.rolledBack (v : Volume) (snap : SnapshotEntry) : Volume :=
  let bm := v.disk snap.bitmapBlock
  let v := (v.note (.rollback snap)).write 4 (rollbackBlocks (v.disk 4) (v.disk 2) bm 256)
  let v := v.write 2 bm
  let v := v.restored 3 snap.inodeTableSnapBlock
  let v := v.restored 1 snap.inodeBitmapSnapBlock
  let v := v.inodeWritten snap.rootInode
  let v := v.setSuperblock fun sb => { sb with freeBlocks := sb.totalBlocks - countBits bm 256 }
  v.write 0 v.superblock.toBlock

/-- On a formatted volume every refcount byte is in the one refcount block. -/
theorem refcountsInRange_eq (touched : Nat → Bool) : refcountsInRange 256 touched = true := by
  rw [refcountsInRange, List.all_eq_true]
  intro i hi
  rw [List.mem_range'_1] at hi
  rw [decide_eq_true (by rw [blockSize]; omega : i < blockSize), Bool.or_true]

theorem restored_run (v : Volume) (frozen dst : Nat) :
    when (frozen ≠ 0) (do writeVolBlock dst (← readBlock frozen)) v =
      (some (), v.restored dst frozen) := by
  unfold Volume.restored
  by_cases h : frozen = 0
  · rw [if_pos h, when, if_neg (by simpa using h)]
    rfl
  · rw [if_neg h, when, if_pos (by simpa using h)]
    rfl

theorem restored_superblock (v : Volume) (dst frozen : Nat) :
    (v.restored dst frozen).superblock = v.superblock := by
  unfold Volume.restored
  split <;> rfl

theorem restored_disk_of_ne (v : Volume) {dst k : Nat} (frozen : Nat) (hk : k ≠ dst) :
    (v.restored dst frozen).disk k = v.disk k := by
  unfold Volume.restored
  split
  · rfl
  · rw [write_disk, update_of_ne hk]

theorem restored_disk_self (v : Volume) (dst frozen : Nat) :
    (v.restored dst frozen).disk dst = if frozen = 0 then v.disk dst else v.disk frozen := by
  unfold Volume.restored
  split
  · rfl
  · rw [write_disk, update_self]

/-- **`rollback_to_snapshot`** fails without a write, or runs to its end. -/
theorem rollbackToSnapshot_eq (hsb : v.superblock.Formatted) (snapId : UInt32) :
    rollbackToSnapshot snapId v =
      match findSnapshot (v.disk 5) snapId with
      | none => (none, v)
      | some slot => (some (), v.rolledBack (SnapshotEntry.read (v.disk 5) slot)) := by
  unfold rollbackToSnapshot
  rw [bind_some (superblock_run _), bind_some (readBlock_run _ _), hsb.snapshotBlock]
  cases hslot : findSnapshot (v.disk 5) snapId with
  | none => exact bind_none rfl
  | some slot =>
    refine (bind_some (ofOption_run v slot)).trans ?_
    show _ = (some (), v.rolledBack (SnapshotEntry.read (v.disk 5) slot))
    generalize SnapshotEntry.read (v.disk 5) slot = snap
    rw [bind_some (mark_run _ _), bind_some (readBlock_run _ _), bind_some (readBlock_run _ _),
      bind_some (readBlock_run _ _), hsb.bitmapIndexLimit, hsb.blockBitmapBlock, hsb.refcountBlock,
      hsb.inodeTableBlock, hsb.inodeBitmapBlock, refcountsInRange_eq,
      bind_some (require_run _ (by decide)), bind_some (require_run _ rfl),
      bind_some (writeVolBlock_run _ _ _), bind_some (writeVolBlock_run _ _ _),
      bind_some (restored_run _ _ _), bind_some (restored_run _ _ _)]
    rw [bind_some (writeInode_eq (by rw [restored_superblock, restored_superblock]; exact hsb) _),
      bind_some (updateSuperblock_run _ _), flushSuperblock_run]
    simp only [note_disk, Volume.rolledBack]

/-! ## Taking a snapshot -/

/-- A fresh block that takes a copy. -/
def Volume.copied (v : Volume) (b : Nat) (data : Block) : Volume := (v.allocated b).store b data

/-- The entry `create_snapshot` writes. -/
def Volume.newSnapshot (v : Volume) (timestamp bblk itblk ibblk : Nat) : SnapshotEntry :=
  ⟨v.superblock.snapshotCount + 1, 1, timestamp, bblk, (v.disk 3).slice 0, itblk, ibblk⟩

/-- The volume after `create_snapshot`, in slot `slot` and with its three blocks. -/
def Volume.snapshotted (v : Volume) (timestamp slot bblk itblk ibblk : Nat) : Volume :=
  let entry := v.newSnapshot timestamp bblk itblk ibblk
  let table := (v.disk 5).splice (slot * 256) entry.toBytes
  let bm := v.disk 2
  let v := ((v.copied bblk bm).copied itblk (v.disk 3)).copied ibblk (v.disk 1)
  let v := v.write 4 (holdBlocks (v.disk 4) bm 256)
  let v := v.setSuperblock fun sb => { sb with snapshotCount := sb.snapshotCount + 1 }
  let v := v.write 5 table
  v.write 0 v.superblock.toBlock

/-- The slot `create_snapshot` takes. -/
def freeSnapshotSlot (snapBuf : Block) : Option Nat :=
  (List.range' 0 maxSnapshots).find? fun i => (SnapshotEntry.read snapBuf i).active = 0

theorem copied_formatted (hsb : v.superblock.Formatted) (b : Nat) (data : Block) :
    (v.copied b data).superblock.Formatted := hsb.setFree _

theorem allocateBlock_eq_some (hsb : v.superblock.Formatted) {v' : Volume}
    (h : allocateBlock v = (some b, v')) : firstFree (v.disk 2) = some b ∧ v' = v.allocated b := by
  rw [allocateBlock_eq hsb] at h
  cases hfree : firstFree (v.disk 2) with
  | none =>
    rw [hfree] at h
    exact absurd (congrArg Prod.fst h) (by simp)
  | some b' =>
    rw [hfree] at h
    obtain ⟨hb, hv⟩ := Prod.mk.inj h
    exact ⟨congrArg some (Option.some.inj hb), by rw [← hv, Option.some.inj hb]⟩

/-- **`create_snapshot`** that succeeds found a slot and three blocks. -/
theorem createSnapshot_eq_some (hsb : v.superblock.Formatted) {ts : Nat} {id : UInt32} {v' : Volume}
    (h : createSnapshot ts v = (some id, v')) :
    ∃ slot bblk itblk ibblk, freeSnapshotSlot (v.disk 5) = some slot ∧
      firstFree (v.disk 2) = some bblk ∧
      firstFree ((v.copied bblk (v.disk 2)).disk 2) = some itblk ∧
      firstFree (((v.copied bblk (v.disk 2)).copied itblk (v.disk 3)).disk 2) = some ibblk ∧
      id = v.superblock.snapshotCount + 1 ∧ v' = v.snapshotted ts slot bblk itblk ibblk := by
  unfold createSnapshot at h
  rw [bind_some (superblock_run _), bind_some (require_run _ (by rw [hsb.bitmapSpanBlocks]; rfl)),
    bind_some (readBlock_run _ _), hsb.snapshotBlock, ← freeSnapshotSlot] at h
  cases hslot : freeSnapshotSlot (v.disk 5) with
  | none =>
    rw [hslot, bind_none (ofOption_none_run _)] at h
    exact absurd (congrArg Prod.fst h) (by simp)
  | some slot =>
    rw [hslot, bind_some (ofOption_run v slot), bind_some (readBlock_run _ _),
      bind_some (readBlock_run _ _), bind_some (readBlock_run _ _), hsb.blockBitmapBlock,
      hsb.inodeTableBlock, hsb.inodeBitmapBlock, hsb.refcountBlock, hsb.bitmapIndexLimit,
      hsb.rootInode, bind_some (getInode_run hsb)] at h
    obtain ⟨bblk, v1, h1, h⟩ := bind_eq_some h
    obtain ⟨hfree1, rfl⟩ := allocateBlock_eq_some hsb h1
    rw [bind_some (storeBlock_run _ _ _)] at h
    have hsb1 := copied_formatted hsb bblk (v.disk 2)
    obtain ⟨itblk, v2, h2, h⟩ := bind_eq_some h
    obtain ⟨hfree2, rfl⟩ := allocateBlock_eq_some hsb1 h2
    rw [bind_some (storeBlock_run _ _ _)] at h
    have hsb2 := copied_formatted hsb1 itblk (v.disk 3)
    obtain ⟨ibblk, v3, h3, h⟩ := bind_eq_some h
    obtain ⟨hfree3, rfl⟩ := allocateBlock_eq_some hsb2 h3
    rw [bind_some (storeBlock_run _ _ _), bind_some (readBlock_run _ _), refcountsInRange_eq,
      bind_some (require_run _ rfl), bind_some (writeVolBlock_run _ _ _),
      bind_some (updateSuperblock_run _ _), bind_some (superblock_run _),
      bind_some (writeVolBlock_run _ _ _), bind_some (flushSuperblock_run _)] at h
    obtain ⟨hid, hv⟩ := Prod.mk.inj h
    exact ⟨slot, bblk, itblk, ibblk, rfl, hfree1, hfree2, hfree3, (Option.some.inj hid).symm,
      hv.symm⟩

/-! ## What is left on the device -/

/-- `allocate_block` writes the bitmap, the refcounts and the superblock. -/
theorem allocated_disk_of_ne (v : Volume) (b : Nat) {k : Nat} (hk : k ∉ [0, 2, 4]) :
    (v.allocated b).disk k = v.disk k := by
  simp only [List.mem_cons, List.not_mem_nil, or_false, not_or] at hk
  obtain ⟨h0, h2, h4⟩ := hk
  simp only [Volume.allocated, write_disk, setSuperblock_disk, note_disk]
  rw [update_of_ne h0, update_of_ne h4, update_of_ne h2]

theorem allocated_bitmap (v : Volume) (b : Nat) :
    (v.allocated b).disk 2 = (v.disk 2).setBit b := by
  simp only [Volume.allocated, write_disk, setSuperblock_disk, note_disk]
  rw [update_of_ne (by decide), update_of_ne (by decide), update_self]

theorem allocated_refcounts (v : Volume) (b : Nat) :
    (v.allocated b).disk 4 = putByte (v.disk 4) b 1 := by
  simp only [Volume.allocated, write_disk, setSuperblock_disk, note_disk]
  rw [update_of_ne (by decide), update_self, update_of_ne (by decide)]

theorem freed_bitmap (v : Volume) (b : Nat) : (v.freed b).disk 2 = (v.disk 2).clearBit b := by
  simp only [Volume.freed, write_disk, setSuperblock_disk, note_disk]
  rw [update_of_ne (by decide), update_of_ne (by decide), update_self]

theorem freed_refcounts (v : Volume) (b : Nat) :
    (v.freed b).disk 4 = putByte (v.disk 4) b 0 := by
  simp only [Volume.freed, write_disk, setSuperblock_disk, note_disk]
  rw [update_of_ne (by decide), update_self, update_of_ne (by decide)]

theorem freed_disk_of_ne (v : Volume) (b : Nat) {k : Nat} (hk : k ∉ [0, 2, 4]) :
    (v.freed b).disk k = v.disk k := by
  simp only [List.mem_cons, List.not_mem_nil, or_false, not_or] at hk
  obtain ⟨h0, h2, h4⟩ := hk
  simp only [Volume.freed, write_disk, setSuperblock_disk, note_disk]
  rw [update_of_ne h0, update_of_ne h4, update_of_ne h2]

theorem freed_formatted (hsb : v.superblock.Formatted) (b : Nat) :
    (v.freed b).superblock.Formatted := hsb.setFree _

theorem copied_disk_self (v : Volume) (b : Nat) (data : Block) :
    (v.copied b data).disk b = data := by
  rw [Volume.copied, store_disk, update_self]

theorem copied_disk_of_ne (v : Volume) (b : Nat) (data : Block) {k : Nat} (hk : k ∉ [0, 2, 4])
    (hb : k ≠ b) : (v.copied b data).disk k = v.disk k := by
  rw [Volume.copied, store_disk, update_of_ne hb, allocated_disk_of_ne v b hk]

theorem copied_bitmap (v : Volume) {b : Nat} (data : Block) (hb : b ≠ 2) :
    (v.copied b data).disk 2 = (v.disk 2).setBit b := by
  rw [Volume.copied, store_disk, update_of_ne hb.symm, allocated_bitmap]

/-- A free block is not one of the metadata blocks. -/
theorem firstFree_data {bm : Block} {b : Nat} (hmeta : ∀ i < 9, bm.bit i = true)
    (h : firstFree bm = some b) : 9 ≤ b ∧ b < 256 := by
  obtain ⟨hb, hclear, -⟩ := firstFree_eq_some h
  refine ⟨?_, hb⟩
  by_contra hlt
  rw [hmeta b (by omega)] at hclear
  exact absurd hclear (by decide)

theorem copied_metadata {b : Nat} (data : Block) (hmeta : ∀ i < 9, (v.disk 2).bit i = true)
    (hb : 9 ≤ b ∧ b < 256) : ∀ i < 9, ((v.copied b data).disk 2).bit i = true := by
  intro i hi
  rw [copied_bitmap _ _ (by omega), Bytes.bit_setBit _ (by rw [blockSize]; omega), hmeta i hi,
    Bool.or_true]

/-- The next block taken is another one. -/
theorem firstFree_setBit_ne {bm : Block} {b' : Nat} (hb : b < 256)
    (h : firstFree (bm.setBit b) = some b') : b' ≠ b ∧ bm.bit b' = false := by
  obtain ⟨-, hclear, -⟩ := firstFree_eq_some h
  rw [Bytes.bit_setBit _ (by rw [blockSize]; omega), Bool.or_eq_false_iff] at hclear
  exact ⟨of_decide_eq_false hclear.1, hclear.2⟩

theorem snapshotted_table (v : Volume) (ts slot bblk itblk ibblk : Nat) :
    (v.snapshotted ts slot bblk itblk ibblk).disk 5 =
      (v.disk 5).splice (slot * 256) (v.newSnapshot ts bblk itblk ibblk).toBytes := by
  simp only [Volume.snapshotted, write_disk, setSuperblock_disk]
  rw [update_of_ne (by decide), update_self]

section Frozen

variable {bblk itblk ibblk : Nat} (ts slot : Nat)

/-- The frozen copies, in three different blocks of the data area. -/
theorem snapshotted_frozen (hb : 9 ≤ bblk) (hi : 9 ≤ itblk) (hib : 9 ≤ ibblk) (h12 : itblk ≠ bblk)
    (h13 : ibblk ≠ bblk) (h23 : ibblk ≠ itblk) :
    (v.snapshotted ts slot bblk itblk ibblk).disk bblk = v.disk 2 ∧
    (v.snapshotted ts slot bblk itblk ibblk).disk itblk = v.disk 3 ∧
    (v.snapshotted ts slot bblk itblk ibblk).disk ibblk = v.disk 1 := by
  have hmeta : ∀ k, 9 ≤ k → k ∉ [0, 2, 4] := by
    intro k hk
    simp only [List.mem_cons, List.not_mem_nil, or_false]
    omega
  refine ⟨?_, ?_, ?_⟩ <;> simp only [Volume.snapshotted, write_disk, setSuperblock_disk]
  · rw [update_of_ne (by omega), update_of_ne (by omega),
      update_of_ne (by omega), copied_disk_of_ne _ _ _ (hmeta _ hb) h13.symm,
      copied_disk_of_ne _ _ _ (hmeta _ hb) h12.symm, copied_disk_self]
  · rw [update_of_ne (by omega), update_of_ne (by omega),
      update_of_ne (by omega), copied_disk_of_ne _ _ _ (hmeta _ hi) h23.symm,
      copied_disk_self]
  · rw [update_of_ne (by omega), update_of_ne (by omega),
      update_of_ne (by omega), copied_disk_self]

end Frozen

section RolledBack

variable (v : Volume) (snap : SnapshotEntry)

theorem inodeWritten_disk_of_ne (inode : DiskInode) {k : Nat} (hk : k ≠ 3 + inode.id / 32) :
    (v.inodeWritten inode).disk k = v.disk k := update_of_ne hk _ _

theorem rolledBack_superblock :
    (v.rolledBack snap).superblock =
      { v.superblock with
        freeBlocks := v.superblock.totalBlocks - countBits (v.disk snap.bitmapBlock) 256 } := by
  have hkept : ((((v.note (.rollback snap)).write 4 (rollbackBlocks (v.disk 4) (v.disk 2)
      (v.disk snap.bitmapBlock) 256)).write 2 (v.disk snap.bitmapBlock)).restored 3
        snap.inodeTableSnapBlock |>.restored 1 snap.inodeBitmapSnapBlock).superblock
          = v.superblock := by
    rw [restored_superblock, restored_superblock]
    rfl
  simp only [Volume.rolledBack, write_superblock, setSuperblock_superblock, inodeWritten_superblock,
    hkept]

theorem rolledBack_bitmap : (v.rolledBack snap).disk 2 = v.disk snap.bitmapBlock := by
  simp only [Volume.rolledBack, write_disk, setSuperblock_disk]
  rw [update_of_ne (by decide), inodeWritten_disk_of_ne _ _ (by omega),
    restored_disk_of_ne _ _ (by decide), restored_disk_of_ne _ _ (by decide), write_disk,
    update_self]

theorem rolledBack_refcounts (hroot : snap.rootInode.id / 32 ≠ 1) :
    (v.rolledBack snap).disk 4 =
      rollbackBlocks (v.disk 4) (v.disk 2) (v.disk snap.bitmapBlock) 256 := by
  simp only [Volume.rolledBack, write_disk, setSuperblock_disk]
  rw [update_of_ne (by decide), inodeWritten_disk_of_ne _ _ (by omega),
    restored_disk_of_ne _ _ (by decide), restored_disk_of_ne _ _ (by decide), write_disk,
    update_of_ne (by decide), write_disk, update_self]

theorem rolledBack_inodeBitmap (hsnap : snap.inodeBitmapSnapBlock ∉ [2, 3, 4]) :
    (v.rolledBack snap).disk 1 =
      if snap.inodeBitmapSnapBlock = 0 then v.disk 1 else v.disk snap.inodeBitmapSnapBlock := by
  simp only [List.mem_cons, List.not_mem_nil, or_false, not_or] at hsnap
  obtain ⟨h2, h3, h4⟩ := hsnap
  have hkept : ∀ k, k ≠ 2 → k ≠ 3 → k ≠ 4 →
      ((((v.note (.rollback snap)).write 4 (rollbackBlocks (v.disk 4) (v.disk 2)
        (v.disk snap.bitmapBlock) 256)).write 2 (v.disk snap.bitmapBlock)).restored 3
          snap.inodeTableSnapBlock).disk k = v.disk k := by
    intro k hk2 hk3 hk4
    rw [restored_disk_of_ne _ _ hk3, write_disk, update_of_ne hk2, write_disk,
      update_of_ne hk4, note_disk]
  simp only [Volume.rolledBack, write_disk, setSuperblock_disk]
  rw [update_of_ne (by decide), inodeWritten_disk_of_ne _ _ (by omega),
    restored_disk_self, hkept _ h2 h3 h4, hkept 1 (by decide) (by decide) (by decide)]

end RolledBack

end Formatted

end AthenaOS
