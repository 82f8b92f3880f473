import AthenaOS.AthFS.Frame

/-!
# The inode table and its neighbours

`format` gives the inode table one block, room for 32 inodes, with the refcounts in
the next one. `allocate_inode` hands out any clear bit of a 32768-bit bitmap, and
`write_inode` puts inode `id` into block `inode_table_block + id / 32`.
-/

namespace AthenaOS

open Lib Fallible

/-- The 128-byte slot of an inode lies inside the inode table, which ends where the
refcounts begin. -/
def InTable (sb : Superblock) (inodeId : Nat) : Prop :=
  sb.inodeTableBlock ≤ sb.inodeBlockOf inodeId ∧ sb.inodeBlockOf inodeId < sb.refcountBlock ∧
    inodeId % 32 * 128 + 128 ≤ blockSize

instance (sb : Superblock) (inodeId : Nat) : Decidable (InTable sb inodeId) :=
  inferInstanceAs (Decidable (_ ∧ _ ∧ _))

/-- The id an `allocate_inode` call returns in the state it is made in. -/
def Event.issuedInode (e : Event) : Option Nat :=
  (List.range' 1 (Superblock.bitsPerBlock - 1)).find? fun i =>
    !(e.disk e.superblock.inodeBitmapBlock).bit i

/-- The condition on the calls: `allocate_inode` while one of the 31 usable slots of
the table is free; `allocate_block` while the metadata blocks are marked in use; no
file block stored over the inode bitmap; no rollback to a frozen inode bitmap that
names inodes past the table. -/
def inodeCallOk : Event → Prop
  | ⟨.allocateInode, sb, disk⟩ => ∃ i ∈ List.range' 1 31, (disk sb.inodeBitmapBlock).bit i = false
  | ⟨.allocateBlock, sb, disk⟩ => ∀ i ∈ List.range' 0 9, (disk sb.blockBitmapBlock).bit i = true
  | ⟨.store b, sb, _⟩ => b ≠ sb.inodeBitmapBlock
  | ⟨.rollback snap, _, disk⟩ => snap.inodeBitmapSnapBlock ≠ 0 → 9 ≤ snap.inodeBitmapSnapBlock ∧
    ∀ i ∈ List.range' 32 (Superblock.bitsPerBlock - 32), (disk snap.inodeBitmapSnapBlock).bit i = false
  | _ => True

instance : DecidablePred inodeCallOk
  | ⟨.allocateInode, sb, disk⟩ => inferInstanceAs
    (Decidable (∃ i ∈ List.range' 1 31, (disk sb.inodeBitmapBlock).bit i = false))
  | ⟨.allocateBlock, sb, disk⟩ => inferInstanceAs
    (Decidable (∀ i ∈ List.range' 0 9, (disk sb.blockBitmapBlock).bit i = true))
  | ⟨.store b, sb, _⟩ => inferInstanceAs (Decidable (b ≠ sb.inodeBitmapBlock))
  | ⟨.rollback snap, _, disk⟩ => inferInstanceAs (Decidable
    (snap.inodeBitmapSnapBlock ≠ 0 → 9 ≤ snap.inodeBitmapSnapBlock ∧
      ∀ i ∈ List.range' 32 (Superblock.bitsPerBlock - 32),
        (disk snap.inodeBitmapSnapBlock).bit i = false))
  | ⟨.write .., _, _⟩ => .isTrue trivial
  | ⟨.overwrite _, _, _⟩ => .isTrue trivial
  | ⟨.freeBlock _, _, _⟩ => .isTrue trivial
  | ⟨.release _, _, _⟩ => .isTrue trivial
  | ⟨.bump _, _, _⟩ => .isTrue trivial
  | ⟨.consult _, _, _⟩ => .isTrue trivial
  | ⟨.dropSnapshot _, _, _⟩ => .isTrue trivial

/-- No inode past the table's one block is allocated. -/
def TableOnly (disk : Disk) : Prop :=
  ∀ i < Superblock.bitsPerBlock, 32 ≤ i → (disk 1).bit i = false

/-- Only the first 32 ids fit. -/
theorem inTable_iff {sb : Superblock} (hsb : sb.Formatted) {id : Nat} :
    InTable sb id ↔ id < 32 := by
  unfold InTable Superblock.inodeBlockOf
  rw [hsb.inodeTableBlock, hsb.refcountBlock, blockSize]
  omega

/-- While one of the ids `1..31` is free, that is where the search ends. -/
theorem issued_lt {ibm : Block} {id : Nat} (hfree : ∃ i ∈ List.range' 1 31, ibm.bit i = false)
    (hid : (List.range' 1 (Superblock.bitsPerBlock - 1)).find? (fun i => !ibm.bit i) = some id) :
    id < 32 := by
  obtain ⟨i, hi, hclear⟩ := hfree
  rw [List.mem_range'_1] at hi
  rw [List.find?_range'_eq_some] at hid
  obtain ⟨-, -, hbefore⟩ := hid
  by_contra hge
  have hset := hbefore i hi.1 (by omega)
  rw [hclear] at hset
  exact absurd hset (by decide)

/-- While the metadata blocks are marked, a fresh block is a data block. -/
theorem firstFree_ge {bm : Block} {b : Nat} (hmarked : ∀ i ∈ List.range' 0 9, bm.bit i = true)
    (h : firstFree bm = some b) : 9 ≤ b := by
  obtain ⟨-, hclear, -⟩ := firstFree_eq_some h
  by_contra hlt
  have hset := hmarked b (List.mem_range'_1.mpr (by omega))
  rw [hclear] at hset
  exact absurd hset (by decide)

section Obligations

variable {c : Prop}

/-- A write elsewhere leaves the inode bitmap. -/
theorem tableOnly_write {disk : Disk} {b : Nat} {data : Block} (hb : b ≠ 1) (h : TableOnly disk) :
    TableOnly (writeBlock disk b data) := by
  unfold TableOnly writeBlock
  rw [Function.update_of_ne hb.symm]
  exact h

theorem tableOnly_ignores : Ignores inodeCallOk TableOnly fun _ => True where
  tables disk b data hb h := by
    refine tableOnly_write ?_ h
    rintro rfl
    exact absurd hb (by decide)
  store sb disk b data hsb _ hok h := by
    refine tableOnly_write ?_ h
    rw [← hsb.inodeBitmapBlock]
    exact hok
  overwrite _ _ _ _ _ _ := trivial
  consult _ _ _ _ _ _ _ := trivial
  fresh _ _ _ _ _ _ _ := trivial
  issue sb disk i hsb hok hi h := by
    have hfree : ∃ i ∈ List.range' 1 31, (disk sb.inodeBitmapBlock).bit i = false := hok
    rw [hsb.inodeBitmapBlock] at hfree
    have hlt : i < 32 := issued_lt hfree hi
    intro j hj hge
    unfold writeBlock
    rw [Function.update_self, Bytes.bit_setBit _ (by rw [blockSize]; omega), h j hj hge,
      decide_eq_false (by omega : ¬ j = i), Bool.or_false]
  retire disk i h := by
    intro j hj hge
    unfold writeBlock
    rw [Function.update_self, Bytes.bit_clearBit, h j hj hge, Bool.and_false]

/-- A rollback brings back a frozen bitmap that names no inode past the table. -/
theorem tableOnly_rollback (id : UInt32) :
    Preserves (Guarded inodeCallOk (fun _ => TableOnly) c) (rollbackToSnapshot id) := by
  refine ⟨fun v hv => ?_⟩
  rw [rollbackToSnapshot_eq hv.1]
  cases findSnapshot (v.disk 5) id with
  | none => exact hv
  | some slot =>
    show Guarded inodeCallOk (fun _ => TableOnly) c _
    generalize SnapshotEntry.read (v.disk 5) slot = snap
    refine ⟨?_, fun ha => ?_⟩
    · rw [rolledBack_superblock]
      exact hv.1.setFree _
    · obtain ⟨hbefore, hok, -⟩ := allowed_rolledBack ha
      obtain ⟨hI, hc⟩ := hv.2 hbefore
      refine ⟨fun i hi hge => ?_, hc⟩
      by_cases hzero : snap.inodeBitmapSnapBlock = 0
      · rw [rolledBack_inodeBitmap _ _ (by simp [hzero]), if_pos hzero]
        exact hI i hi hge
      · obtain ⟨hdata, hfrozen⟩ := hok hzero
        rw [rolledBack_inodeBitmap, if_neg hzero]
        · exact hfrozen i (List.mem_range'_1.mpr (by omega))
        · simp only [List.mem_cons, List.not_mem_nil, or_false]
          omega

end Obligations

/-- The formatted inode bitmap has the root and the shared root. -/
theorem tableOnly_format (device : Disk) : TableOnly (formatDisk device) := by
  intro i _ hge
  show ((Bytes.ofList [0b0000_0011] : Block).get (i / 8)).toNat.testBit (i % 8) = false
  have hbyte : (Bytes.ofList [0b0000_0011] : Block).get (i / 8) = 0 := by
    rw [Bytes.get]
    split
    · exact List.getD_eq_default _ _ (show 1 ≤ i / 8 by omega)
    · rfl
  rw [hbyte]
  exact Nat.zero_testBit _

/-! ## The frozen table -/

/-- **A snapshot freezes the table's one block**, in a block the entry names, when the
metadata blocks are marked in use while it allocates. -/
theorem createSnapshot_freezes {v v' : Volume} {ts : Nat} {id : UInt32}
    (hsb : v.superblock.Formatted) (h : createSnapshot ts v = (some id, v'))
    (hok : v'.Allowed inodeCallOk) :
    ∃ slot, freeSnapshotSlot (v.disk 5) = some slot ∧
      v'.disk (SnapshotEntry.read (v'.disk 5) slot).inodeTableSnapBlock = v.disk 3 := by
  obtain ⟨slot, bblk, itblk, ibblk, hslot, hb, hit, hib, -, rfl⟩ := createSnapshot_eq_some hsb h
  obtain ⟨-, hok1, ⟨sb2, hok2, hsb2⟩, sb3, hok3, hsb3⟩ := allowed_snapshotted hok
  have hlt := (firstFree_eq_some hb).1
  have hlt' := (firstFree_eq_some hit).1
  have hlt'' := (firstFree_eq_some hib).1
  -- each allocation hands out a data block
  have hge : 9 ≤ bblk := by
    have hmarked : ∀ i ∈ List.range' 0 9, (v.disk v.superblock.blockBitmapBlock).bit i = true := hok1
    rw [hsb.blockBitmapBlock] at hmarked
    exact firstFree_ge hmarked hb
  have hge' : 9 ≤ itblk := by
    have hmarked : ∀ i ∈ List.range' 0 9,
        ((v.copied bblk (v.disk 2)).disk sb2.blockBitmapBlock).bit i = true := hok2
    rw [(hsb2 hsb).blockBitmapBlock] at hmarked
    exact firstFree_ge hmarked hit
  have hge'' : 9 ≤ ibblk := by
    have hmarked : ∀ i ∈ List.range' 0 9, (((v.copied bblk (v.disk 2)).copied itblk
        (v.disk 3)).disk sb3.blockBitmapBlock).bit i = true := hok3
    rw [(hsb3 hsb).blockBitmapBlock] at hmarked
    exact firstFree_ge hmarked hib
  -- and never one of the blocks taken before
  rw [copied_bitmap _ _ (by omega)] at hit
  have h12 := firstFree_setBit_ne hlt hit
  rw [copied_bitmap _ _ (by omega), copied_bitmap _ _ (by omega)] at hib
  have h23 := firstFree_setBit_ne hlt' hib
  have h13 : ibblk ≠ bblk := by
    rintro rfl
    have hclear := h23.2
    rw [Bytes.bit_setBit _ (by rw [blockSize]; omega), decide_eq_true rfl, Bool.true_or] at hclear
    exact absurd hclear (by decide)
  have hentry : SnapshotEntry.Same (SnapshotEntry.read ((v.snapshotted ts slot bblk itblk
      ibblk).disk 5) slot) (v.newSnapshot ts bblk itblk ibblk) := by
    rw [snapshotted_table]
    refine SnapshotEntry.read_splice_self ?_ ?_ ?_ ?_
    · rw [freeSnapshotSlot, List.find?_range'_eq_some] at hslot
      have hmem := List.mem_range'_1.mp hslot.2.1
      omega
    · show bblk < 256 ^ 8
      omega
    · show itblk < 256 ^ 8
      omega
    · show ibblk < 256 ^ 8
      omega
  refine ⟨slot, hslot, ?_⟩
  rw [hentry.inodeTableSnapBlock]
  exact (snapshotted_frozen ts slot hge hge' hge'' h12.1 h13 h23.1).2.1

/-! ## Runs -/

/-- **In every run whose calls meet the condition**: the ids handed out and the inodes
allocated lie in the table, writing an allocated inode leaves every other metadata
block, and a snapshot's frozen table holds the slot of every allocated inode. -/
theorem inodeRegion_of_run {aes : Aes} {v : Volume}
    (h : (athfsMachine aes).Run (callsMeet aes inodeCallOk) v) :
    (∀ e ∈ v.trace, e.call = .allocateInode → ∀ id, e.issuedInode = some id →
      InTable v.superblock id) ∧
    (∀ id < Superblock.bitsPerBlock, v.inodeBit id = true → InTable v.superblock id) ∧
    (∀ inode : DiskInode, inode.id < Superblock.bitsPerBlock → v.inodeBit inode.id = true →
      ∀ b ≠ v.superblock.inodeTableBlock, (writeInode inode v).2.disk b = v.disk b) ∧
    (∀ ts snapId v', createSnapshot ts v = (some snapId, v') → v'.Allowed inodeCallOk →
      ∃ slot, freeSnapshotSlot (v.disk v.superblock.snapshotBlock) = some slot ∧
        ∀ id < Superblock.bitsPerBlock, v.inodeBit id = true →
          v'.disk (SnapshotEntry.read (v'.disk v.superblock.snapshotBlock) slot).inodeTableSnapBlock
            = v.disk (v.superblock.inodeBlockOf id)) := by
  obtain ⟨hsb, hallowed, htable⟩ := tableOnly_ignores.keeps.invariant tableOnly_format
    (fun ts => tableOnly_ignores.createSnapshot
      (fun _ _ => tableOnly_write (by decide)) ts)
    (fun id => tableOnly_rollback id)
    (fun id => tableOnly_ignores.deleteSnapshot
      (fun _ _ => tableOnly_write (by decide)) id) h
  have hlt : ∀ id < Superblock.bitsPerBlock, v.inodeBit id = true → id < 32 := by
    intro id hid hbit
    rw [Volume.inodeBit, hsb.inodeBitmapBlock] at hbit
    by_contra hge
    rw [htable id hid (by omega)] at hbit
    exact absurd hbit (by decide)
  refine ⟨?_, ?_, ?_, ?_⟩
  · rintro ⟨call, sb, disk⟩ he rfl id hid
    exact (inTable_iff hsb).mpr (issued_lt (hallowed _ he) hid)
  · intro id hid hbit
    exact (inTable_iff hsb).mpr (hlt id hid hbit)
  · intro inode hid hbit b hb
    have hin := hlt _ hid hbit
    rw [hsb.inodeTableBlock] at hb
    rw [writeInode_eq hsb]
    exact inodeWritten_disk_of_ne v inode (by omega)
  · intro ts snapId v' hcreate hok
    obtain ⟨slot, hslot, hfrozen⟩ := createSnapshot_freezes hsb hcreate hok
    rw [hsb.snapshotBlock]
    refine ⟨slot, hslot, fun id hid hbit => ?_⟩
    have hin := hlt _ hid hbit
    rw [Superblock.inodeBlockOf, hsb.inodeTableBlock, show 3 + id / 32 = 3 by omega]
    exact hfrozen

/-- The first bucket of a fresh volume gets inode 2. -/
theorem inodeRegion_of_run_bucket :
    InTable (runOps Aes.unused [(Op.createBucket 1 10 0 0).plain] blankVolume).superblock 2 :=
  (inodeRegion_of_run 
    (v := runOps Aes.unused [(Op.createBucket 1 10 0 0).plain] blankVolume)
    (.snoc (.start ⟨_, rfl⟩) (show ∀ e ∈ ((Op.createBucket 1 10 0 0).plain.next Aes.unused
      blankVolume).trace, inodeCallOk e by decide) rfl)).2.1 2 (by decide) (by decide)

/-- Thirty buckets on a fresh volume. -/
def thirtyBuckets : Volume :=
  runOps Aes.unused ((List.range' 1 30).map fun appId => (Op.createBucket appId 10 0 0).plain)
    blankVolume

/-- **The next bucket's inode is written over the refcounts**: `allocate_inode` returns
32, past the table, and the refcount of block 0 becomes the low byte of its id. -/
theorem bucket32_hits_refcounts :
    (athfsMachine Aes.unused).Reachable thirtyBuckets ∧
      (createBucket 31 10 0 0 thirtyBuckets).1 = some 32 ∧ ¬ InTable thirtyBuckets.superblock 32 ∧
      (thirtyBuckets.disk 4).get 0 = 1 ∧
      ((createBucket 31 10 0 0 thirtyBuckets).2.disk 4).get 0 = 32 :=
  ⟨reachable_runOps _ (.start ⟨_, rfl⟩), by decide +kernel⟩

end AthenaOS
