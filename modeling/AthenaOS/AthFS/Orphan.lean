import AthenaOS.AthFS.Coherence
import AthenaOS.AthFS.Frame

/-!
# Orphan inode cleanup

`fsck_orphan_inode_cleanup` looks at the first 32 inodes. An allocated one that no
entry in the direct blocks of the root or the shared directory names is an orphan:
its direct blocks and its B-tree root are freed, its record is zeroed and its bit in
the inode bitmap is cleared.
-/

namespace AthenaOS

open Lib Fallible

/-! ## The scan -/

/-- `type_`. -/
def DiskInode.type_ (inode : DiskInode) : UInt8 := inode.get 16

/-- The loop of `collect_dir_inode_refs` over the direct blocks, with `seen` entries
behind it. A hole is skipped and counts for nothing. -/
def collectDirBlocks (disk : Disk) (entryCount : Nat) : List Nat → Nat → List Nat
  | [], _ => []
  | blk :: blocks, seen =>
    if blk = 0 ∨ entryCount ≤ seen then collectDirBlocks disk entryCount blocks seen
    else
      let slots := min 64 (entryCount - seen)
      (entryInodes (disk blk) slots).filter (· < 32) ++
        collectDirBlocks disk entryCount blocks (seen + slots)

/-- `collect_dir_inode_refs`: the indices it sets in `referenced`. -/
def collectDirInodeRefs (dirInodeId : Nat) : AthM (List Nat) := do
  let dir ← getInode dirInodeId
  if dir.type_ ≠ 1 then return []
  else return collectDirBlocks (← get).disk (dir.size / 64) dir.directBlocks 0

/-- `OrphanCleanupReport`. -/
structure OrphanCleanupReport where
  scannedInodes : Nat
  orphanedInodes : Nat
  cleanedInodes : Nat
  deriving DecidableEq, Repr

/-- The body of the cleanup for one orphan: its blocks, then its record. -/
def reclaimInode (inodeIdx : Nat) : AthM Unit := do
  let inode ← getInode inodeIdx
  (inode.directBlocks.filter (· ≠ 0)).forM fun blk => do
    let _ ← attempt (freeBlock blk)
  when (inode.btreeRoot ≠ 0) do
    let _ ← attempt (freeBlock inode.btreeRoot)
  let _ ← attempt (writeInode (DiskInode.new inodeIdx 0))

/-- The loop over the inode table. The bits are cleared in a copy of the bitmap. -/
def cleanupLoop (referenced : List Nat) : List Nat → Block → OrphanCleanupReport →
    AthM (Block × OrphanCleanupReport)
  | [], ibm, report => return (ibm, report)
  | inodeIdx :: idxs, ibm, report => do
    if !ibm.bit inodeIdx then cleanupLoop referenced idxs ibm report
    else
      let report := { report with scannedInodes := report.scannedInodes + 1 }
      if inodeIdx ∈ referenced then cleanupLoop referenced idxs ibm report
      else
        let report := { report with orphanedInodes := report.orphanedInodes + 1 }
        reclaimInode inodeIdx
        cleanupLoop referenced idxs (ibm.clearBit inodeIdx)
          { report with cleanedInodes := report.cleanedInodes + 1 }

/-- `fsck_orphan_inode_cleanup`. -/
def fsckOrphanInodeCleanup : AthM OrphanCleanupReport := do
  let sb ← superblock
  let rootRefs ← collectDirInodeRefs sb.rootInode
  let sharedRefs ← collectDirInodeRefs sb.sharedRootInode
  let referenced := sb.rootInode :: sb.sharedRootInode :: (rootRefs ++ sharedRefs)
  let ibm ← readBlock sb.inodeBitmapBlock
  let (ibm, report) ← cleanupLoop referenced (List.range' 0 32) ibm ⟨0, 0, 0⟩
  writeVolBlock sb.inodeBitmapBlock ibm
  return report

/-! ## What the filesystem refers to -/

section Reachable

variable (aes : Aes) (settings : DataBlockSettings)

namespace Volume

/-- The inodes a directory lists: in its direct blocks up to the first hole, where
names are looked up, or in the blocks its extents map, where `read_at` reads. -/
def Lists (v : Volume) (dir inodeId : Nat) : Prop :=
  inodeId ≠ 0 ∧ ∃ k buf, inodeId ∈ entryInodes buf (entriesInBlock (v.inode dir).size k) ∧
    ((∃ blk, (k, blk) ∈ dirBlocks (v.inode dir) ∧ buf = v.disk blk) ∨
      extentBlock aes settings v.disk (v.inode dir) k = some buf)

/-- The bucket in a slot of the bucket table. -/
def bucket (v : Volume) (slot : Nat) : DiskBucketEntry :=
  DiskBucketEntry.read (v.disk v.superblock.bucketTableBlock) slot

/-- The root directory, the shared directory and the root of every registered bucket. -/
inductive Top (v : Volume) : Nat → Prop
  | root : Top v v.superblock.rootInode
  | shared : Top v v.superblock.sharedRootInode
  | bucket {slot : Nat} : slot < maxBuckets → (v.bucket slot).appId ≠ 0 →
    Top v (v.bucket slot).rootInode

/-- The inodes that can be reached from one of these. -/
inductive Names (v : Volume) : Nat → Prop
  | top {dir : Nat} : v.Top dir → Names v dir
  | entry {dir inodeId : Nat} : v.Top dir → v.Lists aes settings dir inodeId → Names v inodeId

/-- The blocks of an inode: its index nodes and the blocks of its content. -/
def Owns (v : Volume) (inodeId b : Nat) : Prop := ∃ l, b ∈ readBlocks v.disk (v.inode inodeId) l

end Volume

end Reachable

/-! ## Orphans -/

namespace Volume

/-- What `collect_dir_inode_refs` finds in a directory. -/
def dirRefs (v : Volume) (dir : Nat) : List Nat :=
  if (v.inode dir).type_ ≠ 1 then []
  else collectDirBlocks v.disk ((v.inode dir).size / 64) (v.inode dir).directBlocks 0

/-- The inodes the cleanup takes as referenced. -/
def referenced (v : Volume) : List Nat :=
  v.superblock.rootInode :: v.superblock.sharedRootInode ::
    (v.dirRefs v.superblock.rootInode ++ v.dirRefs v.superblock.sharedRootInode)

/-- The inodes the cleanup reclaims. -/
def orphans (v : Volume) : List Nat :=
  (List.range' 0 32).filter fun i => v.inodeBit i && i ∉ v.referenced

end Volume

/-- The blocks the cleanup frees with an inode. -/
def DiskInode.reclaimed (inode : DiskInode) : List Nat :=
  inode.directBlocks.filter (· ≠ 0) ++ [inode.btreeRoot].filter (· ≠ 0)

/-- The blocks the cleanup frees. -/
def Volume.reclaimed (v : Volume) : List Nat :=
  v.orphans.flatMap fun i => (v.inode i).reclaimed

/-! ## One orphan -/

/-- The volume after `free_block` was tried. -/
def Volume.freeTried (v : Volume) (b : Nat) : Volume :=
  if b < 256 then v.freed b else v.note (.freeBlock b)

variable {v : Volume} {aes : Aes}

theorem attempt_freeBlock_run (hsb : v.superblock.Formatted) (b : Nat) :
    attempt (freeBlock b) v = (some (if b < 256 then some () else none), v.freeTried b) := by
  refine attempt_run ?_
  rw [freeBlock_eq hsb, Volume.freeTried]
  split <;> rfl

theorem freeTried_formatted (hsb : v.superblock.Formatted) (b : Nat) :
    (v.freeTried b).superblock.Formatted := by
  unfold Volume.freeTried
  split
  · exact hsb.setFree _
  · exact hsb

theorem tryFree_run (hsb : v.superblock.Formatted) (b : Nat) :
    (do let _ ← attempt (freeBlock b) : AthM Unit) v = (some (), v.freeTried b) :=
  bind_some (attempt_freeBlock_run hsb b)

/-- The blocks of an orphan go one after the other. -/
theorem forM_freeBlock_run (hsb : v.superblock.Formatted) (blocks : List Nat) :
    (blocks.forM fun blk => do let _ ← attempt (freeBlock blk) : AthM Unit) v =
      (some (), blocks.foldl Volume.freeTried v) := by
  induction blocks generalizing v with
  | nil => rfl
  | cons b blocks ih =>
    have hrest := ih (freeTried_formatted hsb b)
    have hfirst : (do let _ ← attempt (freeBlock b) : AthM Unit) v = (some (), v.freeTried b) :=
      tryFree_run hsb b
    exact (bind_some hfirst).trans hrest

theorem foldl_freeTried_formatted (hsb : v.superblock.Formatted) (blocks : List Nat) :
    (blocks.foldl Volume.freeTried v).superblock.Formatted := by
  induction blocks generalizing v with
  | nil => exact hsb
  | cons b blocks ih => exact ih (freeTried_formatted hsb b)

/-- The B-tree root of an orphan goes too, if it has one. -/
theorem when_freeBlock_run (hsb : v.superblock.Formatted) (root : Nat) :
    (when (root ≠ 0) (do let _ ← attempt (freeBlock root)) : AthM Unit) v =
      (some (), ([root].filter (· ≠ 0)).foldl Volume.freeTried v) := by
  by_cases hroot : root = 0
  · subst hroot
    rfl
  · rw [when, if_pos (by simpa using hroot), List.filter_cons_of_pos (by simpa using hroot)]
    exact tryFree_run hsb root

/-- **Reclaiming an orphan** frees its blocks and writes a fresh record. -/
theorem reclaimInode_run (hsb : v.superblock.Formatted) (i : Nat) :
    reclaimInode i v = (some (), ((v.inode i).reclaimed.foldl Volume.freeTried v).inodeWritten
      (DiskInode.new i 0)) := by
  unfold reclaimInode DiskInode.reclaimed
  rw [bind_some (show getInode i v = (some (v.inode i), v) from rfl), List.foldl_append]
  generalize (v.inode i).directBlocks.filter (· ≠ 0) = direct
  generalize (v.inode i).btreeRoot = root
  have hsb' := foldl_freeTried_formatted hsb direct
  have hsb'' := foldl_freeTried_formatted hsb' ([root].filter (· ≠ 0))
  rw [bind_some (forM_freeBlock_run hsb direct), bind_some (when_freeBlock_run hsb' root),
    bind_some (attempt_run (writeInode_eq hsb'' _))]
  rfl

/-! ## What has changed so far -/

namespace Volume

/-- Some inodes of the table reclaimed and some blocks freed. Slot `i + 1` loses the
eight bytes that the record of inode `i` is longer than its slot. -/
structure Cleaned (v v' : Volume) (inodes blocks : List Nat) : Prop where
  formatted : v'.superblock.Formatted
  other : ∀ k ∉ [0, 2, 3, 4], v'.disk k = v.disk k
  bit : ∀ b, (v'.disk 2).bit b = ((v.disk 2).bit b && !decide (b < 256 ∧ b ∈ blocks))
  count : ∀ b, (v'.disk 4).get b = if b < 256 ∧ b ∈ blocks then 0 else (v.disk 4).get b
  slot : ∀ r < 32, ∀ k < 128, r ∉ inodes →
    (v'.disk 3).get (r * 128 + k) =
      if k < 8 ∧ ∃ i ∈ inodes, i + 1 = r then 0 else (v.disk 3).get (r * 128 + k)

namespace Cleaned

variable {v v' : Volume} {inodes blocks : List Nat}

theorem refl (hsb : v.superblock.Formatted) : Cleaned v v [] [] where
  formatted := hsb
  other _ _ := rfl
  bit b := by simp
  count b := by simp
  slot r _ k _ _ := by simp

/-- One block more. -/
theorem freeTried (h : Cleaned v v' inodes blocks) (b : Nat) :
    Cleaned v (v'.freeTried b) inodes (blocks ++ [b]) := by
  have hmem : ∀ i, i < 256 ∧ i ∈ blocks ++ [b] ↔ (i < 256 ∧ i ∈ blocks) ∨ i < 256 ∧ i = b := by
    intro i
    rw [List.mem_append, List.mem_singleton]
    exact and_or_left
  by_cases hb : b < 256
  · rw [Volume.freeTried, if_pos hb]
    refine ⟨h.formatted.setFree _, fun k hk => ?_, fun i => ?_, fun i => ?_, fun r hr k hk hi => ?_⟩
    · rw [freed_disk_of_ne v' b (by grind), h.other k hk]
    · rw [freed_bitmap, Bytes.bit_clearBit, h.bit i, Bool.and_comm, Bool.and_assoc]
      congr 1
      rw [← Bool.not_or, ← Bool.decide_or]
      congr 1
      refine decide_eq_decide.mpr ((hmem i).trans (or_congr_right ?_)).symm
      exact ⟨And.right, fun hi => ⟨hi ▸ hb, hi⟩⟩
    · rw [freed_refcounts, get_putByte _ _ (by rw [blockSize]; omega), h.count i]
      by_cases hi : i = b
      · rw [if_pos hi, if_pos ((hmem i).mpr (.inr ⟨hi ▸ hb, hi⟩))]
      · rw [if_neg hi]
        exact if_congr ((hmem i).trans (or_iff_left fun h => hi h.2)).symm rfl rfl
    · rw [freed_disk_of_ne v' b (by decide), h.slot r hr k hk hi]
  · rw [Volume.freeTried, if_neg hb]
    have hsame : ∀ i, i < 256 ∧ i ∈ blocks ++ [b] ↔ i < 256 ∧ i ∈ blocks := by
      intro i
      refine (hmem i).trans (or_iff_left ?_)
      rintro ⟨hi, rfl⟩
      exact hb hi
    refine ⟨h.formatted, h.other, fun i => ?_, fun i => ?_, h.slot⟩
    · rw [decide_eq_decide.mpr (hsame i)]
      exact h.bit i
    · rw [if_congr (hsame i) rfl rfl]
      exact h.count i

/-- Some blocks more. -/
theorem foldl_freeTried (h : Cleaned v v' inodes blocks) (bs : List Nat) :
    Cleaned v (bs.foldl Volume.freeTried v') inodes (blocks ++ bs) := by
  induction bs generalizing v' blocks with
  | nil => rwa [List.append_nil]
  | cons b bs ih =>
    have hrest := ih (h.freeTried b)
    rwa [List.append_assoc] at hrest

variable {i : Nat}

/-- One inode more. Its slot is not there to be kept, the next one loses its id. -/
theorem inodeWritten (h : Cleaned v v' inodes blocks) (hi : i < 32) :
    Cleaned v (v'.inodeWritten (DiskInode.new i 0)) (inodes ++ [i]) blocks := by
  have hid : (DiskInode.new i 0).id = i := by
    unfold DiskInode.new DiskInode.id
    rw [Bytes.getLE_putLE_of_disjoint _ (by omega), Bytes.getLE_putLE_self _ (by omega) (by omega)]
  have hblk : 3 + (DiskInode.new i 0).id / 32 = 3 := by rw [hid]; omega
  have hdisk : (v'.inodeWritten (DiskInode.new i 0)).disk =
      Function.update v'.disk 3 ((v'.disk 3).splice (i * 128) (DiskInode.new i 0)) := by
    unfold Volume.inodeWritten
    simp only [store_disk, note_disk, hblk]
    rw [hid, Nat.mod_eq_of_lt hi]
  refine ⟨h.formatted, fun k hk => ?_, fun b => ?_, fun b => ?_, fun r hr k hk hnot => ?_⟩
  · rw [hdisk, Function.update_of_ne (by grind)]
    exact h.other k hk
  · rw [hdisk, Function.update_of_ne (by decide)]
    exact h.bit b
  · rw [hdisk, Function.update_of_ne (by decide)]
    exact h.count b
  · rw [List.mem_append, List.mem_singleton, not_or] at hnot
    rw [hdisk, Function.update_self]
    by_cases hspill : i + 1 = r ∧ k < 8
    · -- the trailing eight bytes of the record are zero
      have htail : (DiskInode.new i 0).get (128 + k) = 0 := by
        unfold DiskInode.new
        rw [Bytes.get_putLE_of_ne _ (by omega), Bytes.get_putLE_of_ne _ (by omega), Bytes.get]
        split <;> rfl
      rw [if_pos ⟨hspill.2, i, List.mem_append_right _ (List.mem_singleton_self i), hspill.1⟩,
        show r * 128 + k = i * 128 + (128 + k) by omega,
        Bytes.get_splice_of_mem _ _ (by omega) (by rw [blockSize]; omega), htail]
    · rw [Bytes.get_splice_of_ne _ _ (by omega), h.slot r hr k hk hnot.1]
      refine if_congr (and_congr_right fun hk8 => ?_) rfl rfl
      constructor
      · rintro ⟨j, hj, hjr⟩
        exact ⟨j, List.mem_append_left _ hj, hjr⟩
      · rintro ⟨j, hj, hjr⟩
        rcases List.mem_append.mp hj with hj | hj
        · exact ⟨j, hj, hjr⟩
        · exact absurd ⟨List.mem_singleton.mp hj ▸ hjr, hk8⟩ hspill

/-- The fields of a record that has not been reclaimed are where they were. -/
theorem reclaimed_eq (hsb : v.superblock.Formatted) (h : Cleaned v v' inodes blocks) (hi : i < 32)
    (hnot : i ∉ inodes) : (v'.inode i).reclaimed = (v.inode i).reclaimed := by
  have hfield : ∀ off, 8 ≤ off → off + 8 ≤ 128 →
      (v'.inode i).getLE off 8 = (v.inode i).getLE off 8 := by
    intro off hlow hhigh
    refine Bytes.getLE_congr fun k hk => ?_
    have hblk : ∀ {w : Volume}, w.superblock.Formatted →
        (w.inode i).get (off + k) = (w.disk 3).get (i * 128 + (off + k)) := by
      intro w hw
      rw [Volume.inode, Superblock.inodeBlockOf, hw.inodeTableBlock, Nat.div_eq_of_lt hi,
        Nat.mod_eq_of_lt hi, Bytes.get_of_lt _ (by omega)]
      rfl
    rw [hblk hsb, hblk h.formatted, h.slot i hi _ (by omega) hnot, if_neg (by omega)]
  unfold DiskInode.reclaimed DiskInode.directBlocks DiskInode.btreeRoot
  have hdirect : (List.range 12).map (v'.inode i).directBlock =
      (List.range 12).map (v.inode i).directBlock :=
    List.map_congr_left fun k hk => hfield _ (by omega) (by have := List.mem_range.mp hk; omega)
  rw [hdirect, hfield 120 (by omega) (by omega)]

end Cleaned

end Volume

/-! ## The whole cleanup -/

/-- **The loop** reclaims the indices whose bit is set and that are not referenced. -/
theorem cleanupLoop_run {v' : Volume} {inodes blocks : List Nat} (hsb : v.superblock.Formatted)
    (referenced idxs : List Nat) (ibm : Block) (report : OrphanCleanupReport)
    (h : v.Cleaned v' inodes blocks) (hlt : ∀ i ∈ idxs, i < 32) (hnodup : idxs.Nodup)
    (hfresh : ∀ i ∈ idxs, i ∉ inodes) :
    ∃ ibm' report' v'', cleanupLoop referenced idxs ibm report v' = (some (ibm', report'), v'') ∧
      (∀ j, ibm'.bit j = (ibm.bit j &&
        !decide (j ∈ idxs.filter fun i => ibm.bit i && i ∉ referenced))) ∧
      v.Cleaned v'' (inodes ++ idxs.filter fun i => ibm.bit i && i ∉ referenced)
        (blocks ++ (idxs.filter fun i => ibm.bit i && i ∉ referenced).flatMap
          fun i => (v.inode i).reclaimed) := by
  induction idxs generalizing v' inodes blocks ibm report with
  | nil =>
    refine ⟨ibm, report, v', rfl, fun j => by simp, ?_⟩
    simpa using h
  | cons i idxs ih =>
    rw [List.forall_mem_cons] at hlt hfresh
    obtain ⟨hnew, hnodup⟩ := List.nodup_cons.mp hnodup
    rw [cleanupLoop]
    by_cases hbit : ibm.bit i = true
    swap
    · rw [if_pos (by simpa using hbit), List.filter_cons_of_neg (by simp [hbit])]
      exact ih ibm report h hlt.2 hnodup hfresh.2
    rw [if_neg (by simp [hbit])]
    by_cases hmem : i ∈ referenced
    · rw [List.filter_cons_of_neg (by simp [hmem])]
      dsimp only
      rw [if_pos hmem]
      exact ih ibm _ h hlt.2 hnodup hfresh.2
    · -- an orphan
      rw [List.filter_cons_of_pos (by simp [hbit, hmem])]
      dsimp only
      rw [if_neg hmem, bind_some (reclaimInode_run h.formatted i)]
      have hreclaimed := (h.foldl_freeTried (v'.inode i).reclaimed).inodeWritten hlt.1
      rw [h.reclaimed_eq hsb hlt.1 hfresh.1] at hreclaimed ⊢
      have hrest : idxs.filter (fun j => (ibm.clearBit i).bit j && j ∉ referenced) =
          idxs.filter fun j => ibm.bit j && j ∉ referenced := by
        refine List.filter_congr fun j hj => ?_
        rw [Bytes.bit_clearBit, decide_eq_false (fun hji : j = i => hnew (hji ▸ hj)), Bool.not_false,
          Bool.true_and]
      obtain ⟨ibm', report', v'', hrun, hibm, hclean⟩ := ih (ibm.clearBit i) _ hreclaimed
        hlt.2 hnodup (fun j hj => by
          rw [List.mem_append, List.mem_singleton, not_or]
          exact ⟨hfresh.2 j hj, fun hji => hnew (hji ▸ hj)⟩)
      rw [hrest] at hibm hclean
      refine ⟨ibm', report', v'', hrun, fun j => ?_, ?_⟩
      · rw [hibm j, Bytes.bit_clearBit]
        generalize idxs.filter (fun j => ibm.bit j && j ∉ referenced) = rest
        by_cases hji : j = i <;> simp [hji, List.mem_cons]
      · rwa [List.append_assoc, List.append_assoc, List.singleton_append] at hclean

/-- **The cleanup** reclaims the orphans and clears their bits. -/
theorem fsckOrphanInodeCleanup_run (hsb : v.superblock.Formatted) :
    ∃ report v' ibm, fsckOrphanInodeCleanup v = (some report, v'.write 1 ibm) ∧
      (∀ j, ibm.bit j = ((v.disk 1).bit j && !decide (j ∈ v.orphans))) ∧
      v.Cleaned v' v.orphans v.reclaimed := by
  have hrefs : ∀ dir, collectDirInodeRefs dir v = (some (v.dirRefs dir), v) := by
    intro dir
    unfold collectDirInodeRefs Volume.dirRefs
    rw [bind_some (show getInode dir v = (some (v.inode dir), v) from rfl)]
    split <;> rfl
  obtain ⟨ibm, report, v', hrun, hibm, hclean⟩ := cleanupLoop_run hsb v.referenced
    (List.range' 0 32) (v.disk 1) ⟨0, 0, 0⟩ (.refl hsb)
    (fun i hi => by simpa using (List.mem_range'_1.mp hi).2) List.nodup_range'
    fun i _ => List.not_mem_nil
  have horphans : v.orphans = (List.range' 0 32).filter fun i =>
      (v.disk 1).bit i && i ∉ v.referenced := by
    unfold Volume.orphans Volume.inodeBit
    rw [hsb.inodeBitmapBlock]
  rw [← horphans] at hibm hclean
  refine ⟨report, v', ibm, ?_, hibm, hclean⟩
  unfold fsckOrphanInodeCleanup
  rw [bind_some (superblock_run v), bind_some (hrefs _), bind_some (hrefs _),
    bind_some (readBlock_run _ _), hsb.inodeBitmapBlock]
  exact bind_some hrun

/-- The volume after the cleanup. -/
def Volume.cleanedUp (v : Volume) : Volume := (fsckOrphanInodeCleanup v).2

/-- An inode comes out of the cleanup as it went in: its bit, the 128 bytes of its slot
and the bits of its blocks. -/
structure Spared (v v' : Volume) (r : Nat) : Prop where
  bit : v.inodeBit r = true → v'.inodeBit r = true
  record : ∀ k < 128, (v'.inode r).get k = (v.inode r).get k
  blocks : ∀ b < 256, v.Owns r b → v.blockBit b = true → v'.blockBit b = true

/-- What keeps an inode out of the way of the cleanup. -/
structure Volume.OutOfReach (v : Volume) (r : Nat) : Prop where
  /-- It is not an orphan. -/
  referenced : r ∉ v.orphans
  /-- The record before it, eight bytes longer than its slot, is no orphan's. -/
  successor : ∀ i ∈ v.orphans, i + 1 = r → r < 32 → (v.inode r).id = 0
  /-- Past the inode table, the slot is not in the refcounts the cleanup clears. -/
  table : ∀ b ∈ v.reclaimed, b < 256 → 32 + b / 128 = r → v.refcount b = 0
  /-- It shares no block with an orphan. -/
  unshared : ∀ b ∈ v.reclaimed, b < 256 → v.Owns r b → v.blockBit b = false

/-- A field is zero when its bytes are. -/
theorem Bytes.getLE_eq_zero_iff {n : Nat} (data : Bytes n) :
    ∀ off len, data.getLE off len = 0 ↔ ∀ k < len, data.get (off + k) = 0
  | off, 0 => by simp [Bytes.getLE]
  | off, len + 1 => by
    have htail := Bytes.getLE_eq_zero_iff data (off + 1) len
    rw [Bytes.getLE, Nat.add_eq_zero_iff, Nat.mul_eq_zero, or_iff_right (by decide), htail]
    constructor
    · rintro ⟨hhead, hrest⟩ k hk
      cases k with
      | zero => exact UInt8.toNat_inj.mp hhead
      | succ k => rw [Nat.add_left_comm, Nat.add_comm]; exact hrest k (by omega)
    · intro h
      refine ⟨by rw [show data.get off = 0 from h 0 (by omega)]; rfl, fun k hk => ?_⟩
      rw [Nat.add_assoc, Nat.add_comm 1 k]
      exact h (k + 1) (by omega)

section Spared

variable {v v' : Volume} {ibm : Block}

variable {k : Nat}

theorem inode_get (hsb : v.superblock.Formatted) (r : Nat) (hk : k < 136) :
    (v.inode r).get k = (v.disk (3 + r / 32)).get (r % 32 * 128 + k) := by
  rw [Volume.inode, Superblock.inodeBlockOf, hsb.inodeTableBlock, Bytes.get_of_lt _ hk]
  rfl

theorem inodeBit_eq (hsb : v.superblock.Formatted) (r : Nat) :
    v.inodeBit r = (v.disk 1).bit r := by
  rw [Volume.inodeBit, hsb.inodeBitmapBlock]

theorem blockBit_eq (hsb : v.superblock.Formatted) {b : Nat} (hb : b < 256) :
    v.blockBit b = (v.disk 2).bit b := by
  have hplace : b / Superblock.bitsPerBlock = 0 ∧ b % Superblock.bitsPerBlock = b := by
    rw [Superblock.bitsPerBlock, blockSize]
    omega
  rw [Volume.blockBit, hsb.blockBitmapBlock, hplace.1, hplace.2]

/-- What a cleanup makes of the record of an inode that is not an orphan. -/
theorem cleaned_record (hsb : v.superblock.Formatted) (h : v.Cleaned v' v.orphans v.reclaimed)
    {r : Nat} (hr : r ∉ v.orphans) (hk : k < 128) :
    ((v'.write 1 ibm).inode r).get k =
      if (r < 32 ∧ k < 8 ∧ ∃ i ∈ v.orphans, i + 1 = r) ∨
        (∃ b ∈ v.reclaimed, b < 256 ∧ 32 + b / 128 = r ∧ b % 128 = k) then 0
      else (v.inode r).get k := by
  have hsb' : (v'.write 1 ibm).superblock.Formatted := h.formatted
  rw [inode_get hsb' r (by omega), inode_get hsb r (by omega), write_disk,
    Function.update_of_ne (by omega)]
  rcases Nat.lt_or_ge r 32 with hlt | hge
  · -- in the inode table
    rw [Nat.div_eq_of_lt hlt, Nat.mod_eq_of_lt hlt, Nat.add_zero, h.slot r hlt k hk hr]
    refine if_congr ⟨fun hspill => .inl ⟨hlt, hspill⟩, ?_⟩ rfl rfl
    rintro (hspill | ⟨b, -, -, hb, -⟩)
    · exact hspill.2
    · omega
  · rcases Nat.lt_or_ge r 64 with h64 | h64
    · -- in the refcount block
      rw [show 3 + r / 32 = 4 by omega, h.count]
      refine if_congr ⟨fun ⟨hb, hmem⟩ => .inr ⟨_, hmem, hb, by omega, by omega⟩, ?_⟩ rfl rfl
      rintro (⟨hlt, -⟩ | ⟨b, hmem, hb, hr, hk⟩)
      · omega
      · rw [show r % 32 * 128 + k = b by omega]
        exact ⟨hb, hmem⟩
    · rw [h.other _ (by simp only [List.mem_cons, List.not_mem_nil, or_false]; omega), if_neg]
      rintro (⟨hlt, -⟩ | ⟨b, -, hb, hr, -⟩) <;> omega

/-- **An inode is spared exactly when it is out of reach.** -/
theorem spared_iff (hsb : v.superblock.Formatted) (r : Nat) :
    Spared v v.cleanedUp r ↔ v.OutOfReach r := by
  obtain ⟨report, v', ibm, hrun, hibm, hclean⟩ := fsckOrphanInodeCleanup_run hsb
  rw [Volume.cleanedUp, hrun]
  have hsb' : (v'.write 1 ibm).superblock.Formatted := hclean.formatted
  have hbit : (v'.write 1 ibm).inodeBit r = (v.inodeBit r && !decide (r ∈ v.orphans)) := by
    rw [inodeBit_eq hsb', inodeBit_eq hsb, write_disk, Function.update_self, hibm]
  have hblock : ∀ b < 256, (v'.write 1 ibm).blockBit b =
      (v.blockBit b && !decide (b ∈ v.reclaimed)) := by
    intro b hb
    rw [blockBit_eq hsb' hb, blockBit_eq hsb hb, write_disk, Function.update_of_ne (by decide),
      hclean.bit b, decide_eq_decide.mpr (and_iff_right hb)]
  have hset : r ∈ v.orphans → v.inodeBit r = true := by
    intro hr
    have hcond := (List.mem_filter.mp hr).2
    rw [Bool.and_eq_true] at hcond
    exact hcond.1
  constructor
  · rintro ⟨hkept, hrecord, hblocks⟩
    have hnot : r ∉ v.orphans := by
      intro hr
      have h := hkept (hset hr)
      rw [hbit, decide_eq_true hr] at h
      simp at h
    refine ⟨hnot, fun i hi hir hlt => ?_, fun b hmem hb hir => ?_, fun b hmem hb howns => ?_⟩
    · refine (Bytes.getLE_eq_zero_iff _ 0 8).mpr fun k hk => ?_
      rw [Nat.zero_add, ← hrecord k (by omega), cleaned_record hsb hclean hnot (by omega),
        if_pos (.inl ⟨hlt, hk, i, hi, hir⟩)]
    · have h := hrecord (b % 128) (Nat.mod_lt _ (by decide))
      rw [cleaned_record hsb hclean hnot (Nat.mod_lt _ (by decide)),
        if_pos (.inr ⟨b, hmem, hb, hir, rfl⟩), inode_get hsb r (by omega)] at h
      rw [refcount_eq hsb hb, h]
      congr 1 <;> [skip; omega]
      congr 1
      omega
    · by_contra hmarked
      have h := hblocks b hb howns (by simpa using hmarked)
      rw [hblock b hb, decide_eq_true hmem] at h
      simp at h
  · rintro ⟨hnot, hsucc, htable, hunshared⟩
    refine ⟨fun h => ?_, fun k hk => ?_, fun b hb howns h => ?_⟩
    · rw [hbit, h, decide_eq_false hnot]
      rfl
    · rw [cleaned_record hsb hclean hnot hk]
      split
      · rename_i hzero
        rcases hzero with ⟨hlt, hk8, i, hi, hir⟩ | ⟨b, hmem, hb, hir, hbk⟩
        · have hid := (Bytes.getLE_eq_zero_iff _ 0 8).mp (hsucc i hi hir hlt) k hk8
          rw [Nat.zero_add] at hid
          exact hid.symm
        · have hcount := htable b hmem hb hir
          rw [refcount_eq hsb hb] at hcount
          rw [inode_get hsb r (by omega), show 3 + r / 32 = 4 by omega,
            show r % 32 * 128 + k = b by omega, hcount]
      · rfl
    · rw [hblock b hb, h, decide_eq_false]
      · rfl
      · intro hmem
        rw [hunshared b hmem hb howns] at h
        exact absurd h (by decide)

end Spared

/-! ## Every reachable volume -/

/-- Any operations and cleanups, in any order. -/
def fsckMachine (aes : Aes) : Machine Volume (Option Label) where
  init := (athfsMachine aes).init
  step v l v' := match l with
    | some l => (athfsMachine aes).step v l v'
    | none => v' = v.cleanedUp

/-- The invariant that says nothing meets its obligations. -/
theorem trivial_ignores : Ignores (fun _ => True) (fun _ => True) fun _ => True where
  tables _ _ _ _ _ := trivial
  store _ _ _ _ _ _ _ _ := trivial
  overwrite _ _ _ _ _ _ := trivial
  consult _ _ _ _ _ _ _ := trivial
  fresh _ _ _ _ _ _ _ := trivial
  issue _ _ _ _ _ _ _ := trivial
  retire _ _ _ := trivial

theorem next_formatted (hsb : v.superblock.Formatted) (l : Label) :
    (l.next aes v).superblock.Formatted := by
  refine ((trivial_ignores.keeps.exec aes ?_ ?_ ?_ l.settings l.op).snd
    ⟨hsb, fun _ => ⟨trivial, trivial⟩⟩).1
  · exact fun ts => trivial_ignores.createSnapshot (fun _ _ _ => trivial) ts
  · refine fun id => ⟨fun v hv => ?_⟩
    rw [rollbackToSnapshot_eq hv.1]
    cases findSnapshot (v.disk 5) id with
    | none => exact hv
    | some slot =>
      refine ⟨?_, fun _ => ⟨trivial, trivial⟩⟩
      rw [rolledBack_superblock]
      exact hv.1.setFree _
  · exact fun id => trivial_ignores.deleteSnapshot (fun _ _ _ => trivial) id

/-- Every operation and every cleanup keeps the layout. -/
theorem formatted_of_reachable (h : (fsckMachine aes).Reachable v) : v.superblock.Formatted := by
  refine h.invariant (I := fun v => v.superblock.Formatted) ?_ ?_
  · rintro v ⟨device, rfl⟩
    rfl
  · rintro v (_ | l) v' hsb - hstep
    · obtain ⟨report, v₁, ibm, hrun, -, hclean⟩ := fsckOrphanInodeCleanup_run hsb
      rw [show v' = v.cleanedUp from hstep, Volume.cleanedUp, hrun]
      exact hclean.formatted
    · rw [show v' = l.next aes v from hstep]
      exact next_formatted hsb l

/-- **On every volume, the cleanup spares the root directory, the shared directory, the
buckets and their files exactly when all of them are out of its reach.** -/
theorem cleanup_spares_named {aes : Aes} {v : Volume} (settings : DataBlockSettings)
    (h : (fsckMachine aes).Reachable v) :
    (∀ r, v.Names aes settings r → Spared v v.cleanedUp r) ↔
      ∀ r, v.Names aes settings r → v.OutOfReach r :=
  forall_congr' fun r => imp_congr_right fun _ => spared_iff (formatted_of_reachable h) r

/-- One file in the root directory. -/
def oneFile : Volume :=
  runOps Aes.unused [(Op.findOrCreateFileOn [0x61]).plain] blankVolume

/-- It is named there, so the cleanup finds no orphan. -/
theorem cleanup_spares_named_oneFile :
    oneFile.orphans = [] ∧ ∀ r, oneFile.Names Aes.unused ⟨false, none⟩ r → Spared oneFile oneFile.cleanedUp r := by
  have horphans : oneFile.orphans = [] := by decide
  have hreclaimed : oneFile.reclaimed = [] := by rw [Volume.reclaimed, horphans]; rfl
  have hreach : (fsckMachine Aes.unused).Reachable oneFile :=
    .snoc (l := some (Op.findOrCreateFileOn [0x61]).plain) (.start ⟨_, rfl⟩) trivial rfl
  refine ⟨horphans, (cleanup_spares_named _ hreach).mpr fun r _ => ⟨?_, ?_, ?_, ?_⟩⟩
  · rw [horphans]
    exact List.not_mem_nil
  · intro i hi
    rw [horphans] at hi
    exact absurd hi List.not_mem_nil
  · intro b hb
    rw [hreclaimed] at hb
    exact absurd hb List.not_mem_nil
  · intro b hb
    rw [hreclaimed] at hb
    exact absurd hb List.not_mem_nil

/-- One bucket. -/
def oneBucket : Volume := runOps Aes.unused [(Op.createBucket 7 10 0 0).plain] blankVolume

/-- **The root of a bucket is an orphan**: no directory names it, so the cleanup that
follows every mount clears its bit. -/
theorem cleanup_takes_bucket :
    (fsckMachine Aes.unused).Reachable oneBucket ∧ oneBucket.Names Aes.unused ⟨false, none⟩ 2 ∧
      oneBucket.inodeBit 2 = true ∧ oneBucket.cleanedUp.inodeBit 2 = false ∧
      ¬ Spared oneBucket oneBucket.cleanedUp 2 := by
  have hroot : (oneBucket.bucket 0).rootInode = 2 ∧ (oneBucket.bucket 0).appId = 7 := by
    decide
  have hbit : oneBucket.inodeBit 2 = true := by decide
  have hcleared : oneBucket.cleanedUp.inodeBit 2 = false := by decide
  refine ⟨?_, ?_, hbit, hcleared, fun h => ?_⟩
  · exact .snoc (l := some (Op.createBucket 7 10 0 0).plain) (.start ⟨_, rfl⟩) trivial rfl
  · have htop : oneBucket.Top (oneBucket.bucket 0).rootInode :=
      .bucket (by decide) (by rw [hroot.2]; decide)
    rw [hroot.1] at htop
    exact .top htop
  · have hkept := h.bit hbit
    rw [hcleared] at hkept
    exact absurd hkept (by decide)

end AthenaOS
