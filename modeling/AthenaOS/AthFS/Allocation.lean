import AthenaOS.AthFS.Frame

/-!
# Bitmap, refcounts and the free count

Three structures say which blocks are in use: the bitmap (block 2), the refcount
bytes (block 4) and `free_blocks`. Every operation updates them one after the other.
-/

namespace AthenaOS

open Lib Fallible

/-! ## Counting bits -/

variable {b : Nat} {bm : Block}

/-- One element more. -/
theorem countP_range'_of_extra {p q : Nat → Bool} {n : Nat} (hb : b < n) (hp : p b = false)
    (hq : q b = true) (h : ∀ i, i ≠ b → q i = p i) :
    (List.range' 0 n).countP q = (List.range' 0 n).countP p + 1 := by
  induction n with
  | zero => omega
  | succ n ih =>
    rw [List.range'_1_concat, List.countP_append, List.countP_append, Nat.zero_add]
    simp only [List.countP_singleton]
    by_cases hbn : b = n
    · subst hbn
      have hsame : (List.range' 0 b).countP q = (List.range' 0 b).countP p := by
        refine List.countP_congr fun i hi => ?_
        rw [h i (by have := (List.mem_range'_1.mp hi).2; omega)]
      rw [hsame, if_pos hq, if_neg (by rw [hp]; decide)]
    · rw [ih (by omega), h n (Ne.symm hbn)]
      omega

theorem countBits_setBit (hb : b < 256) (hclear : bm.bit b = false) :
    countBits (bm.setBit b) 256 = countBits bm 256 + 1 := by
  have hbyte : b / 8 < blockSize := by rw [blockSize]; omega
  refine countP_range'_of_extra hb hclear ?_ fun i hi => ?_
  · rw [Bytes.bit_setBit _ hbyte, decide_eq_true rfl, Bool.true_or]
  · rw [Bytes.bit_setBit _ hbyte, decide_eq_false hi, Bool.false_or]

theorem countBits_clearBit (hb : b < 256) (hset : bm.bit b = true) :
    countBits bm 256 = countBits (bm.clearBit b) 256 + 1 := by
  refine countP_range'_of_extra hb ?_ hset fun i hi => ?_
  · rw [Bytes.bit_clearBit, decide_eq_true rfl, Bool.not_true, Bool.false_and]
  · rw [Bytes.bit_clearBit, decide_eq_false hi, Bool.not_false, Bool.true_and]

theorem countBits_le (bm : Block) : countBits bm 256 ≤ 256 :=
  List.countP_le_length.trans (le_of_eq List.length_range')

/-! ## The three structures together -/

/-- The bitmap, the refcounts and the free count of a volume agree. -/
structure Consistent (free : Nat) (bm rc : Block) : Prop where
  marked : ∀ i < 256, bm.bit i = true ↔ rc.get i ≠ 0
  free_add : free + countBits bm 256 = 256

namespace Consistent

variable {n b : Nat} {bm rc : Block}

theorem allocate (h : Consistent n bm rc) (hb : b < 256) (hclear : bm.bit b = false) :
    Consistent (n - 1) (bm.setBit b) (putByte rc b 1) where
  marked i hi := by
    rw [Bytes.bit_setBit _ (by rw [blockSize]; omega), get_putByte _ _ (by rw [blockSize]; omega)]
    by_cases hib : i = b
    · simp [hib]
    · rw [decide_eq_false hib, Bool.false_or, if_neg hib]
      exact h.marked i hi
  free_add := by
    have hcount := countBits_setBit hb hclear
    have hle := countBits_le (bm.setBit b)
    have hadd := h.free_add
    omega

/-- Freeing a marked block, whatever its refcount has become. -/
theorem free (h : Consistent n bm rc) (hb : b < 256) (hset : bm.bit b = true) {rc' : Block}
    (hrc : ∀ i, i ≠ b → rc'.get i = rc.get i) :
    Consistent (n + 1) (bm.clearBit b) (putByte rc' b 0) where
  marked i hi := by
    rw [Bytes.bit_clearBit, get_putByte _ _ (by rw [blockSize]; omega)]
    by_cases hib : i = b
    · simp [hib]
    · rw [decide_eq_false hib, Bool.not_false, Bool.true_and, if_neg hib, hrc i hib]
      exact h.marked i hi
  free_add := by
    have hcount := countBits_clearBit hb hset
    have hadd := h.free_add
    omega

/-- Another count for a block in use. -/
theorem setCount (h : Consistent n bm rc) (hb : b < 256) (hset : bm.bit b = true) {val : UInt8}
    (hval : val ≠ 0) : Consistent n bm (putByte rc b val) where
  marked i hi := by
    rw [get_putByte _ _ (by rw [blockSize]; omega)]
    by_cases hib : i = b
    · rw [if_pos hib, hib]
      exact iff_of_true hset hval
    · rw [if_neg hib]
      exact h.marked i hi
  free_add := h.free_add

theorem satSucc_ne_zero (val : UInt8) : satSucc val ≠ 0 := by
  rw [satSucc]
  split
  · decide
  · rename_i hne
    intro hzero
    have hval : val + 1 - 1 = 0 - 1 := congrArg (· - 1) hzero
    rw [UInt8.add_sub_cancel] at hval
    exact hne (hval.trans (by decide))

theorem satPred_ne_zero {val : UInt8} (h : 1 < val) : satPred val ≠ 0 := by
  rw [satPred, if_neg (by rintro rfl; exact absurd h (by decide))]
  intro hzero
  have hval : val - 1 + 1 = 0 + 1 := congrArg (· + 1) hzero
  rw [UInt8.sub_add_cancel] at hval
  rw [hval] at h
  exact absurd h (by decide)

variable {i : Nat}

theorem get_holdBlocks (rc held : Block) (hi : i < 256) :
    (holdBlocks rc held 256).get i = if held.bit i then satSucc (rc.get i) else rc.get i := by
  have hlt : i < blockSize := by rw [blockSize]; omega
  rw [Bytes.get_of_lt _ hlt, Bytes.get_of_lt _ hlt, holdBlocks]
  simp only [hi, true_and]

theorem get_dropBlocks (rc held : Block) (hi : i < 256) :
    (dropBlocks rc held 256).get i = if held.bit i then satPred (rc.get i) else rc.get i := by
  have hlt : i < blockSize := by rw [blockSize]; omega
  rw [Bytes.get_of_lt _ hlt, Bytes.get_of_lt _ hlt, dropBlocks]
  simp only [hi, true_and]

theorem get_rollbackBlocks (rc cur snap : Block) (hi : i < 256) :
    (rollbackBlocks rc cur snap 256).get i =
      if cur.bit i && !snap.bit i then satPred (rc.get i)
      else if !cur.bit i && snap.bit i then satSucc (rc.get i) else rc.get i := by
  have hlt : i < blockSize := by rw [blockSize]; omega
  rw [Bytes.get_of_lt _ hlt, Bytes.get_of_lt _ hlt, rollbackBlocks]
  simp only [hi, if_true]

/-- One more reference on blocks in use. -/
theorem hold (h : Consistent n bm rc) {held : Block}
    (hheld : ∀ i < 256, held.bit i = true → bm.bit i = true) :
    Consistent n bm (holdBlocks rc held 256) where
  marked i hi := by
    rw [get_holdBlocks _ _ hi]
    by_cases hset : held.bit i = true
    · rw [if_pos hset]
      exact iff_of_true (hheld i hi hset) (satSucc_ne_zero _)
    · rw [if_neg hset]
      exact h.marked i hi
  free_add := h.free_add

/-- One reference less, where there are two. -/
theorem drop (h : Consistent n bm rc) {held : Block}
    (hheld : ∀ i < 256, held.bit i = true → bm.bit i = true → 1 < rc.get i) :
    Consistent n bm (dropBlocks rc held 256) where
  marked i hi := by
    rw [get_dropBlocks _ _ hi]
    by_cases hset : held.bit i = true
    · rw [if_pos hset]
      by_cases hused : bm.bit i = true
      · exact iff_of_true hused (satPred_ne_zero (hheld i hi hset hused))
      · have hzero : rc.get i = 0 := by
          by_contra hne
          exact hused ((h.marked i hi).mpr hne)
        rw [hzero]
        exact iff_of_false hused (by decide)
    · rw [if_neg hset]
      exact h.marked i hi
  free_add := h.free_add

/-- A rollback to a bitmap that drops only blocks with one reference. -/
theorem rollback (h : Consistent n bm rc) {snap : Block}
    (hsnap : ∀ i < 256, bm.bit i = true → snap.bit i = false → rc.get i ≤ 1) :
    Consistent (256 - countBits snap 256) snap (rollbackBlocks rc bm snap 256) where
  marked i hi := by
    rw [get_rollbackBlocks _ _ _ hi]
    have hmarked := h.marked i hi
    cases hcur : bm.bit i <;> cases hs : snap.bit i <;> rw [hcur] at hmarked
    · simpa using hmarked
    · have hzero : rc.get i = 0 := by simpa using hmarked
      rw [hzero]
      decide
    · have hone := hsnap i hi hcur hs
      have hnz : rc.get i ≠ 0 := hmarked.mp rfl
      have : rc.get i = 1 := by
        apply UInt8.toNat_inj.mp
        have h1 : (rc.get i).toNat ≤ 1 := hone
        have h0 : (rc.get i).toNat ≠ 0 := fun hz => hnz (UInt8.toNat_inj.mp hz)
        show (rc.get i).toNat = 1
        omega
      rw [this]
      decide
    · simpa using hmarked
  free_add := by
    have hle := countBits_le snap
    omega

end Consistent

/-! ## The condition on the calls -/

/-- No file block is stored over the bitmap or the refcounts; `free_block` and a new
reference only on a block marked in use; a rollback only drops blocks with one
reference; a deleted snapshot held every block of its bitmap that is in use. -/
def blockCallOk : Event → Prop
  | ⟨.store b, sb, _⟩ => b ≠ sb.blockBitmapBlock ∧ b ≠ sb.refcountBlock
  | ⟨.freeBlock b, sb, disk⟩ => b < 256 → (disk sb.blockBitmapBlock).bit b = true
  | ⟨.bump b, sb, disk⟩ => b < 256 → (disk sb.blockBitmapBlock).bit b = true
  | ⟨.rollback snap, sb, disk⟩ => ∀ i ∈ List.range' 0 256,
    (disk sb.blockBitmapBlock).bit i = true → (disk snap.bitmapBlock).bit i = false →
      (disk sb.refcountBlock).get i ≤ 1
  | ⟨.dropSnapshot snap, sb, disk⟩ => ∀ i ∈ List.range' 0 256,
    (disk snap.bitmapBlock).bit i = true → (disk sb.blockBitmapBlock).bit i = true →
      1 < (disk sb.refcountBlock).get i
  | _ => True

instance : DecidablePred blockCallOk
  | ⟨.store b, sb, _⟩ =>
    inferInstanceAs (Decidable (b ≠ sb.blockBitmapBlock ∧ b ≠ sb.refcountBlock))
  | ⟨.freeBlock b, sb, disk⟩ =>
    inferInstanceAs (Decidable (b < 256 → (disk sb.blockBitmapBlock).bit b = true))
  | ⟨.bump b, sb, disk⟩ =>
    inferInstanceAs (Decidable (b < 256 → (disk sb.blockBitmapBlock).bit b = true))
  | ⟨.rollback snap, sb, disk⟩ => inferInstanceAs (Decidable (∀ i ∈ List.range' 0 256,
    (disk sb.blockBitmapBlock).bit i = true → (disk snap.bitmapBlock).bit i = false →
      (disk sb.refcountBlock).get i ≤ 1))
  | ⟨.dropSnapshot snap, sb, disk⟩ => inferInstanceAs (Decidable (∀ i ∈ List.range' 0 256,
    (disk snap.bitmapBlock).bit i = true → (disk sb.blockBitmapBlock).bit i = true →
      1 < (disk sb.refcountBlock).get i))
  | ⟨.write .., _, _⟩ => .isTrue trivial
  | ⟨.overwrite _, _, _⟩ => .isTrue trivial
  | ⟨.allocateBlock, _, _⟩ => .isTrue trivial
  | ⟨.allocateInode, _, _⟩ => .isTrue trivial
  | ⟨.release _, _, _⟩ => .isTrue trivial
  | ⟨.consult _, _, _⟩ => .isTrue trivial

/-- The three structures agree, and the bitmap and the refcounts satisfy `X`. -/
def Allocated (X : Block → Block → Prop) (sb : Superblock) (disk : Disk) : Prop :=
  Consistent sb.freeBlocks (disk 2) (disk 4) ∧ X (disk 2) (disk 4)

/-- A fact about the bitmap and the refcounts that taking a free block keeps. -/
def Stable (X : Block → Block → Prop) : Prop :=
  ∀ bm rc b, b < 256 → bm.bit b = false → X bm rc → X (bm.setBit b) (putByte rc b 1)

theorem stable_true : Stable fun _ _ => True := fun _ _ _ _ _ _ => trivial

section Steps

variable {X : Block → Block → Prop} {c : Prop} {v : Volume}

variable {sb : Superblock} {disk : Disk} {b : Nat} {data : Block}

/-- A write that is neither to the bitmap nor to the refcounts. -/
theorem allocated_write (h2 : b ≠ 2) (h4 : b ≠ 4) (h : Allocated X sb disk) :
    Allocated X sb (writeBlock disk b data) := by
  unfold Allocated writeBlock
  rw [Function.update_of_ne h2.symm, Function.update_of_ne h4.symm]
  exact h

theorem allocated_writeVolBlock (h2 : b ≠ 2) (h4 : b ≠ 4) :
    Preserves (Guarded blockCallOk (Allocated X) c) (writeVolBlock b data) :=
  guarded_write fun _ _ _ _ h => allocated_write h2 h4 h

theorem allocated_store_of_ok (hsb : sb.Formatted) (hok : blockCallOk ⟨.store b, sb, disk⟩)
    (h : Allocated X sb disk) : Allocated X sb (writeBlock disk b data) := by
  have hne : b ≠ sb.blockBitmapBlock ∧ b ≠ sb.refcountBlock := hok
  rw [hsb.blockBitmapBlock, hsb.refcountBlock] at hne
  exact allocated_write hne.1 hne.2 h

theorem allocated_storeBlock (b : Nat) (data : Block) :
    Preserves (Guarded blockCallOk (Allocated X) c) (storeBlock b data) := by
  refine ⟨fun v hv => ?_⟩
  have hnoted : Guarded blockCallOk (Allocated X) (c ∧ blockCallOk ⟨.store b, v.superblock, v.disk⟩)
      (v.note (.store b)) := hv.note fun hok _ hc => ⟨hc, hok⟩
  refine (Guarded.write hnoted fun hsb hc h => ?_).mono And.left
  exact allocated_store_of_ok hsb hc.2 h

/-- `allocate_block` updates all three. -/
theorem allocated_allocateBlock (hX : Stable X) :
    Preserves (Guarded blockCallOk (Allocated X) c) allocateBlock := by
  refine ⟨fun v hv => ?_⟩
  rw [allocateBlock_eq hv.1]
  cases hfree : firstFree (v.disk 2) with
  | none => exact hv.note fun _ _ hc => hc
  | some b =>
    obtain ⟨hb, hclear, -⟩ := firstFree_eq_some hfree
    refine ⟨hv.1.setFree _, fun ha => ?_⟩
    simp only [Volume.allocated, allowed_write, allowed_setSuperblock, allowed_note] at ha
    obtain ⟨⟨hI, hx⟩, hc⟩ := hv.2 ha.1.1.1.1
    refine ⟨⟨?_, ?_⟩, hc⟩ <;> rw [allocated_bitmap, allocated_refcounts]
    · exact hI.allocate hb hclear
    · exact hX _ _ _ hb hclear hx

/-- `free_block` of a marked block, also after its last reference went. -/
theorem consistent_freed {rc : Block} (hsb : v.superblock.Formatted) (hb : b < 256)
    (hrc : ∀ i, i ≠ b → (v.disk 4).get i = rc.get i)
    (h : Consistent v.superblock.freeBlocks (v.disk 2) rc) (ha : (v.freed b).Allowed blockCallOk) :
    Consistent (v.freed b).superblock.freeBlocks ((v.freed b).disk 2) ((v.freed b).disk 4) := by
  simp only [Volume.freed, allowed_write, allowed_setSuperblock, allowed_note] at ha
  have hset : b < 256 → (v.disk v.superblock.blockBitmapBlock).bit b = true := ha.1.1.1.2
  rw [hsb.blockBitmapBlock] at hset
  rw [freed_bitmap, freed_refcounts]
  exact h.free hb (hset hb) hrc

theorem allowed_freed {ok : Event → Prop} (h : (v.freed b).Allowed ok) : v.Allowed ok := by
  simp only [Volume.freed, allowed_write, allowed_setSuperblock, allowed_note] at h
  exact h.1.1.1.1

theorem allocated_freeBlock (b : Nat) :
    Preserves (Guarded blockCallOk (Allocated fun _ _ => True) c) (freeBlock b) := by
  refine ⟨fun v hv => ?_⟩
  rw [freeBlock_eq hv.1]
  split
  · rename_i hb
    refine ⟨hv.1.setFree _, fun ha => ?_⟩
    obtain ⟨⟨hI, -⟩, hc⟩ := hv.2 (allowed_freed ha)
    exact ⟨⟨consistent_freed hv.1 hb (fun _ _ => rfl) hI ha, trivial⟩, hc⟩
  · exact hv.note fun _ _ hc => hc

theorem allocated_releaseBlock (b : Nat) :
    Preserves (Guarded blockCallOk (Allocated fun _ _ => True) c) (releaseBlock b) := by
  refine ⟨fun v hv => ?_⟩
  unfold releaseBlock
  have hnoted : Guarded blockCallOk (Allocated fun _ _ => True) c (v.note (.release b)) :=
    hv.note fun _ _ hc => hc
  rw [bind_some (mark_run _ _)]
  by_cases hb : b < 256
  · rw [bind_some ((decRefcount_eq hnoted.1).trans (if_pos hb))]
    by_cases hlast : satPred ((v.disk 4).get b) = 0
    · -- the last reference: the count is 0 before `free_block` clears the bit
      have hsb : ((v.note (.release b)).write 4 (putByte (v.disk 4) b
          (satPred ((v.disk 4).get b)))).superblock.Formatted := hv.1
      rw [note_disk, if_pos hlast, freeBlock_eq hsb, if_pos hb]
      refine ⟨hsb.setFree _, fun ha => ?_⟩
      obtain ⟨⟨hI, -⟩, hc⟩ := hnoted.2 (allowed_write.mp (allowed_freed ha)).1
      refine ⟨⟨@consistent_freed _ b (v.disk 4) hsb hb (fun i hi => ?_) ?_ ha, trivial⟩, hc⟩
      · rw [write_disk, Function.update_self, get_putByte _ _ (by rw [blockSize]; omega), if_neg hi]
      · rw [write_disk, Function.update_of_ne (by decide)]
        exact hI
    · rw [note_disk, if_neg hlast]
      refine Guarded.write hnoted fun _ _ h => ⟨?_, trivial⟩
      have hset : (v.disk 2).bit b = true := by
        refine (h.1.marked b hb).mpr fun hzero => hlast ?_
        rw [show (v.disk 4).get b = 0 from hzero]
        rfl
      unfold writeBlock
      rw [Function.update_of_ne (by decide), Function.update_self]
      exact h.1.setCount hb hset hlast
  · rw [bind_none ((decRefcount_eq hnoted.1).trans (if_neg hb))]
    exact hnoted

theorem allocated_bumpRefcount (b : Nat) :
    Preserves (Guarded blockCallOk (Allocated fun _ _ => True) c) (bumpRefcount b) := by
  refine ⟨fun v hv => ?_⟩
  unfold bumpRefcount
  have hnoted : Guarded blockCallOk (Allocated fun _ _ => True)
      (c ∧ blockCallOk ⟨.bump b, v.superblock, v.disk⟩) (v.note (.bump b)) :=
    hv.note fun hok _ hc => ⟨hc, hok⟩
  rw [bind_some (mark_run _ _), bind_some (readRefcount_eq hnoted.1)]
  by_cases hb : b < 256
  · rw [if_pos hb]
    show Outcome _ _ ((attempt (writeRefcount b (satSucc ((v.disk 4).get b))) >>= fun _ =>
      (pure () : AthM Unit)) (v.note (.bump b)))
    rw [bind_some (attempt_run ((writeRefcount_eq hnoted.1 _).trans (if_pos hb)))]
    refine (Guarded.write hnoted fun hsb hc h => ⟨?_, trivial⟩).mono And.left
    have hset : b < 256 → (v.disk v.superblock.blockBitmapBlock).bit b = true := hc.2
    rw [hv.1.blockBitmapBlock] at hset
    unfold writeBlock
    rw [Function.update_of_ne (by decide), Function.update_self]
    exact h.1.setCount hb (hset hb) (Consistent.satSucc_ne_zero _)
  · rw [if_neg hb]
    exact hnoted.mono And.left

theorem Guarded.forget (h : Guarded blockCallOk (Allocated X) c v) :
    Guarded blockCallOk (Allocated fun _ _ => True) c v :=
  ⟨h.1, fun ha => ⟨⟨(h.2 ha).1.1, trivial⟩, (h.2 ha).2⟩⟩

/-- Block `b` is shared. -/
def Shared (b : Nat) (bm rc : Block) : Prop := b < 256 ∧ bm.bit b = true ∧ 1 < rc.get b

/-- A shared block is not the one allocated next. -/
theorem stable_shared (b : Nat) : Stable (Shared b) := by
  rintro bm rc new hnew hclear ⟨hb, hset, hrc⟩
  have hne : b ≠ new := by
    rintro rfl
    rw [hset] at hclear
    exact absurd hclear (by decide)
  refine ⟨hb, ?_, ?_⟩
  · rw [Bytes.bit_setBit _ (by rw [blockSize]; omega), hset, Bool.or_true]
  · rw [get_putByte _ _ (by rw [blockSize]; omega), if_neg hne]
    exact hrc

/-- A refcount above 1 is the count of a shared block. -/
theorem allocated_consultRefcount (b : Nat) :
    Spec (Guarded blockCallOk (Allocated fun _ _ => True) c) (consultRefcount b)
      (fun rc v => Guarded blockCallOk (Allocated fun _ _ => True) c v ∧
        (¬ rc ≤ 1 → Guarded blockCallOk (Allocated (Shared b)) c v))
      (Guarded blockCallOk (Allocated fun _ _ => True) c) := by
  refine ⟨fun v hv => ?_⟩
  unfold consultRefcount
  have hnoted : Guarded blockCallOk (Allocated fun _ _ => True) c (v.note (.consult b)) :=
    hv.note fun _ _ hc => hc
  rw [bind_some (mark_run _ _), bind_some (readRefcount_eq hnoted.1)]
  refine ⟨hnoted, fun hrc => ⟨hnoted.1, fun ha => ?_⟩⟩
  obtain ⟨⟨hI, -⟩, hc⟩ := hnoted.2 ha
  by_cases hb : b < 256
  · rw [if_pos hb] at hrc
    have hgt : 1 < (v.disk 4).get b := UInt8.not_le.mp hrc
    refine ⟨⟨hI, hb, (hI.marked b hb).mpr fun hzero => ?_, hgt⟩, hc⟩
    rw [show (v.disk 4).get b = 0 from hzero] at hgt
    exact absurd hgt (by decide)
  · rw [if_neg hb] at hrc
    exact absurd (by decide) hrc

/-- Taking back one reference of a shared block. -/
theorem allocated_decRefcount (b : Nat) :
    Spec (Guarded blockCallOk (Allocated (Shared b)) c) (decRefcount b)
      (fun _ => Guarded blockCallOk (Allocated fun _ _ => True) c)
      (Guarded blockCallOk (Allocated fun _ _ => True) c) := by
  refine ⟨fun v hv => ?_⟩
  rw [decRefcount_eq hv.1]
  split
  · refine ⟨hv.1, fun ha => ?_⟩
    obtain ⟨⟨hI, hb, hset, hrc⟩, hc⟩ := hv.2 (allowed_write.mp ha).1
    refine ⟨⟨?_, trivial⟩, hc⟩
    rw [write_disk, Function.update_of_ne (by decide), Function.update_self]
    exact hI.setCount hb hset (Consistent.satPred_ne_zero hrc)
  · exact hv.forget

theorem allocated_writeBtreeNodeCow (buf : Block) (inode : DiskInode) :
    Preserves (Guarded blockCallOk (Allocated fun _ _ => True) c)
      (writeBtreeNodeCow inode.btreeRoot buf inode) := by
  unfold writeBtreeNodeCow
  refine Spec.bind (allocated_consultRefcount _) fun rc => Spec.ite (fun _ => ?inPlace)
    fun hrc => ?copy
  case inPlace =>
    refine .pre ?_ fun _ h => h.1
    exact Preserves.bind (allocated_storeBlock _ _) fun _ => Preserves.pure
  case copy =>
    rw [if_pos rfl]
    refine .pre ?_ fun _ h => h.2 hrc
    -- the shared count survives the allocation and the copy
    refine .bind (Q := fun _ => Guarded blockCallOk (Allocated (Shared inode.btreeRoot)) c)
      ?_ fun o => ?_
    · exact (Preserves.attempt (allocated_allocateBlock (stable_shared _))).post (fun _ _ h => h)
        fun _ h => h.forget
    cases o with
    | none => exact .pure fun _ h => h.forget
    | some new =>
      refine .bind (Q := fun _ => Guarded blockCallOk (Allocated (Shared inode.btreeRoot)) c)
        ?_ fun _ => ?_
      · exact (allocated_storeBlock _ _).post (fun _ _ h => h) fun _ h => h.forget
      refine .bind (Q := fun _ => Guarded blockCallOk (Allocated fun _ _ => True) c) ?_
        fun _ => Preserves.pure
      exact .attempt (allocated_decRefcount _)

theorem allocated_allocateInode :
    Preserves (Guarded blockCallOk (Allocated fun _ _ => True) c) allocateInode := by
  unfold allocateInode
  refine .bind (guarded_mark _) fun _ => ?_
  refine Spec.bind guarded_superblock fun sb => Guarded.pre fun hsb => ?_
  refine .bind (guarded_readBlock _) fun buf => ?_
  rw [hsb.inodeBitmapBlock]
  split
  · exact Preserves.fail
  · exact Preserves.bind (allocated_writeVolBlock (by decide) (by decide)) fun _ => Preserves.pure

theorem allocated_clearInodeBit (id : Nat) :
    Preserves (Guarded blockCallOk (Allocated fun _ _ => True) c) (clearInodeBit id) := by
  unfold clearInodeBit
  refine Spec.bind guarded_superblock fun sb => Guarded.pre fun hsb => ?_
  refine .bind (guarded_readBlock _) fun buf => ?_
  rw [hsb.inodeBitmapBlock]
  exact allocated_writeVolBlock (by decide) (by decide)

theorem allocated_keeps : Keeps blockCallOk (Allocated fun _ _ => True) fun _ => True where
  tables sb disk b data _ hb h := by
    have hne : b ≠ 2 ∧ b ≠ 4 := by
      simp only [List.mem_cons, List.not_mem_nil, or_false] at hb
      omega
    exact allocated_write hne.1 hne.2 h
  counters _ _ _ h := h
  store _ _ _ _ hsb _ hok h := allocated_store_of_ok hsb hok h
  overwrite _ _ _ _ _ _ := trivial
  consult c b := by
    refine (allocated_consultRefcount b).post ?_ fun _ h => h
    intro rc v hv
    exact hv.1.mono fun hc => ⟨hc, fun _ => trivial⟩
  allocate c := by
    refine (allocated_allocateBlock stable_true).post ?_ fun _ h => h
    intro b v hv
    exact hv.mono fun hc => ⟨hc, trivial⟩
  free _ b := allocated_freeBlock b
  release _ b := allocated_releaseBlock b
  bump _ b := allocated_bumpRefcount b
  nodeCow _ buf inode := allocated_writeBtreeNodeCow buf inode
  allocateInode _ := allocated_allocateInode
  clearInodeBit _ id := allocated_clearInodeBit id

/-! ## Snapshot operations -/

/-- Every block of `held` is in use. -/
def Covers (held bm _rc : Block) : Prop := ∀ i < 256, held.bit i = true → bm.bit i = true

theorem stable_covers (held : Block) : Stable (Covers held) := by
  intro bm rc b hb _ h i hi hset
  rw [Bytes.bit_setBit _ (by rw [blockSize]; omega), h i hi hset, Bool.or_true]

theorem allocated_flushSuperblock :
    Preserves (Guarded blockCallOk (Allocated fun _ _ => True) c) flushSuperblock :=
  ⟨fun v hv => (allocated_writeVolBlock (by decide) (by decide)).run v hv⟩

/-- The bitmap `create_snapshot` read stays in use while it allocates. -/
theorem allocated_readBitmap (hsb : sb.Formatted) :
    Spec (Guarded blockCallOk (Allocated fun _ _ => True) c) (readBlock sb.blockBitmapBlock)
      (fun bm => Guarded blockCallOk (Allocated (Covers bm)) c)
      (Guarded blockCallOk (Allocated fun _ _ => True) c) := by
  refine ⟨fun v hv => ⟨hv.1, fun ha => ?_⟩⟩
  obtain ⟨⟨hI, -⟩, hc⟩ := hv.2 ha
  refine ⟨⟨hI, fun i _ hset => ?_⟩, hc⟩
  rw [hsb.blockBitmapBlock] at hset
  exact hset

/-- One frozen copy. -/
theorem allocated_copy (held data : Block) {β : Type} {f : Nat → AthM β}
    {R : β → Volume → Prop}
    (hf : ∀ b, Spec (Guarded blockCallOk (Allocated (Covers held)) c) (f b) R
      (Guarded blockCallOk (Allocated fun _ _ => True) c)) :
    Spec (Guarded blockCallOk (Allocated (Covers held)) c) (do
      let b ← allocateBlock
      storeBlock b data
      f b) R (Guarded blockCallOk (Allocated fun _ _ => True) c) := by
  refine .bind (Q := fun _ => Guarded blockCallOk (Allocated (Covers held)) c) ?_ fun b => ?_
  · exact (allocated_allocateBlock (stable_covers held)).post (fun _ _ h => h) fun _ h => h.forget
  refine .bind (Q := fun _ => Guarded blockCallOk (Allocated (Covers held)) c) ?_ fun _ => hf b
  exact (allocated_storeBlock b data).post (fun _ _ h => h) fun _ h => h.forget

theorem allocated_createSnapshot (ts : Nat) :
    Preserves (Guarded blockCallOk (Allocated fun _ _ => True) c) (createSnapshot ts) := by
  unfold createSnapshot
  refine Spec.bind guarded_superblock fun sb => Guarded.pre fun hsb => ?_
  refine .bind Preserves.require fun _ => ?_
  refine .bind (guarded_readBlock _) fun snapBuf => ?_
  refine .bind Preserves.ofOption fun slot => ?_
  refine Spec.bind (allocated_readBitmap hsb) fun bm => ?_
  refine Spec.bind ((guarded_readBlock _).post (fun _ _ h => h) fun _ h => h.forget) fun itable => ?_
  refine Spec.bind ((guarded_readBlock _).post (fun _ _ h => h) fun _ h => h.forget) fun ibm => ?_
  refine Spec.bind ((guarded_getInode _).post (fun _ _ h => h) fun _ h => h.forget) fun root => ?_
  refine allocated_copy bm _ fun bblk => ?_
  refine allocated_copy bm _ fun itblk => ?_
  refine allocated_copy bm _ fun ibblk => ?_
  rw [hsb.refcountBlock, hsb.snapshotBlock, hsb.bitmapIndexLimit, refcountsInRange_eq]
  refine ⟨fun v hv => ?_⟩
  rw [bind_some (readBlock_run _ _), bind_some (require_run _ rfl),
    bind_some (writeVolBlock_run _ _ _)]
  -- one more reference on blocks that are all still in use
  have hheld : Guarded blockCallOk (Allocated fun _ _ => True) c
      (v.write 4 (holdBlocks (v.disk 4) bm 256)) := by
    refine ⟨hv.1, fun ha => ?_⟩
    obtain ⟨⟨hI, hcovers⟩, hc⟩ := hv.2 (allowed_write.mp ha).1
    refine ⟨⟨?_, trivial⟩, hc⟩
    rw [write_disk, Function.update_of_ne (by decide), Function.update_self]
    exact hI.hold hcovers
  refine Spec.run ?_ _ hheld
  refine .bind (guarded_modify (fun _ h => h.setCount _) fun _ _ _ h => h) fun _ => ?_
  refine Spec.bind guarded_superblock fun _ => Guarded.pre fun _ => ?_
  refine .bind (allocated_writeVolBlock (by decide) (by decide)) fun _ => ?_
  exact Preserves.bind allocated_flushSuperblock fun _ => Preserves.pure

theorem allocated_rollback (id : UInt32) :
    Preserves (Guarded blockCallOk (Allocated fun _ _ => True) c) (rollbackToSnapshot id) := by
  refine ⟨fun v hv => ?_⟩
  rw [rollbackToSnapshot_eq hv.1]
  cases findSnapshot (v.disk 5) id with
  | none => exact hv
  | some slot =>
    show Guarded blockCallOk (Allocated fun _ _ => True) c _
    generalize SnapshotEntry.read (v.disk 5) slot = snap
    refine ⟨by rw [rolledBack_superblock]; exact hv.1.setFree _, fun ha => ?_⟩
    obtain ⟨hbefore, hok, disk, -, hstore⟩ := allowed_rolledBack ha
    obtain ⟨⟨hI, -⟩, hc⟩ := hv.2 hbefore
    have hroot : 3 + snap.rootInode.id / 32 ≠ v.superblock.refcountBlock := hstore.2
    have honly : ∀ i ∈ List.range' 0 256, (v.disk v.superblock.blockBitmapBlock).bit i = true →
        (v.disk snap.bitmapBlock).bit i = false →
          (v.disk v.superblock.refcountBlock).get i ≤ 1 := hok
    rw [hv.1.refcountBlock] at hroot honly
    rw [hv.1.blockBitmapBlock] at honly
    refine ⟨⟨?_, trivial⟩, hc⟩
    rw [rolledBack_superblock, rolledBack_bitmap, rolledBack_refcounts _ _ (by omega),
      hv.1.totalBlocks]
    refine hI.rollback fun i hi => honly i ?_
    rw [List.mem_range'_1]
    omega

theorem allocated_deleteSnapshot (id : UInt32) :
    Preserves (Guarded blockCallOk (Allocated fun _ _ => True) c) (deleteSnapshot id) := by
  refine ⟨fun v hv => ?_⟩
  unfold deleteSnapshot
  have hsb := hv.1
  rw [bind_some (superblock_run _), bind_some (readBlock_run _ _), hsb.snapshotBlock]
  cases findSnapshot (v.disk 5) id with
  | none =>
    rw [bind_none (ofOption_none_run _)]
    exact hv
  | some slot =>
    rw [bind_some (ofOption_run v slot)]
    generalize SnapshotEntry.read (v.disk 5) slot = snap
    rw [bind_some (mark_run _ _), bind_some (readBlock_run _ _), bind_some (readBlock_run _ _),
      hsb.bitmapIndexLimit, hsb.refcountBlock, refcountsInRange_eq,
      bind_some (require_run _ (by decide)), bind_some (require_run _ rfl),
      bind_some (writeVolBlock_run _ _ _), note_disk]
    have hnoted : Guarded blockCallOk (Allocated fun _ _ => True)
        (c ∧ blockCallOk ⟨.dropSnapshot snap, v.superblock, v.disk⟩) (v.note (.dropSnapshot snap)) :=
      hv.note fun hok _ hc => ⟨hc, hok⟩
    have hdropped : Guarded blockCallOk (Allocated fun _ _ => True) c
        ((v.note (.dropSnapshot snap)).write 4
          (dropBlocks (v.disk 4) (v.disk snap.bitmapBlock) 256)) := by
      refine (Guarded.write hnoted fun _ hc h => ⟨?_, trivial⟩).mono And.left
      have htwo : ∀ i ∈ List.range' 0 256, (v.disk snap.bitmapBlock).bit i = true →
          (v.disk v.superblock.blockBitmapBlock).bit i = true →
            1 < (v.disk v.superblock.refcountBlock).get i := hc.2
      rw [hsb.blockBitmapBlock, hsb.refcountBlock] at htwo
      unfold writeBlock
      rw [Function.update_of_ne (by decide), Function.update_self]
      refine h.1.drop fun i hi => htwo i ?_
      rw [List.mem_range'_1]
      omega
    refine Spec.run ?_ _ hdropped
    refine .bind (allocated_freeBlock _) fun _ => ?_
    refine .bind (Preserves.when (allocated_freeBlock _)) fun _ => ?_
    refine .bind (Preserves.when (allocated_freeBlock _)) fun _ => ?_
    refine .bind (allocated_writeVolBlock (by decide) (by decide)) fun _ => ?_
    refine .bind (guarded_modify (fun _ h => h.setCount _) fun _ _ _ h => h) fun _ => ?_
    exact allocated_flushSuperblock

end Steps

/-! ## Runs -/

/-- The metadata blocks are in use on a formatted volume, and only they are. -/
theorem consistent_format : Consistent 247 (Bytes.ofList [0xFF, 0b0000_0001])
    (Bytes.ofList (List.replicate 9 1)) := by
  constructor
  · decide +kernel
  · decide +kernel

/-- **In every run whose calls meet the condition, bitmap, refcounts and free count
agree**: a bit is set exactly when the refcount is at least 1, `fsck_integrity` finds
no mismatch, and `free_blocks` is the number of blocks less the bits set. -/
theorem allocation_of_run {aes : Aes} {v : Volume}
    (h : (athfsMachine aes).Run (callsMeet aes blockCallOk) v) :
    (∀ i < v.superblock.bitmapIndexLimit, v.blockBit i = true ↔ 1 ≤ v.refcount i) ∧
      (fsckIntegrity v).bitmapRefcountMismatches = 0 ∧
      v.superblock.freeBlocks = v.superblock.totalBlocks -
        (List.range' 0 v.superblock.bitmapIndexLimit).countP v.blockBit := by
  obtain ⟨hsb, -, hI, -⟩ := allocated_keeps.invariant (fun _ => ⟨consistent_format, trivial⟩)
    (fun ts => allocated_createSnapshot ts) (fun id => allocated_rollback id)
    (fun id => allocated_deleteSnapshot id) h
  have hbit : ∀ i < 256, v.blockBit i = (v.disk 2).bit i := by
    intro i hi
    have hplace : i / Superblock.bitsPerBlock = 0 ∧ i % Superblock.bitsPerBlock = i := by
      rw [Superblock.bitsPerBlock, blockSize]
      omega
    rw [Volume.blockBit, hsb.blockBitmapBlock, hplace.1, hplace.2]
  have hrc : ∀ i < 256, v.refcount i = (v.disk 4).get i := by
    intro i hi
    obtain ⟨hdiv, hmod⟩ := refcount_place hi
    rw [Volume.refcount, Superblock.refcountBlockOf, hsb.refcountBlock, hdiv, hmod]
  refine ⟨?_, ?_, ?_⟩
  · intro i hi
    rw [hsb.bitmapIndexLimit] at hi
    rw [hbit i hi, hrc i hi, hI.marked i hi]
    exact ⟨fun hne => Nat.one_le_iff_ne_zero.mpr fun hz => hne (UInt8.toNat_inj.mp hz),
      fun hle hz => absurd (hz ▸ hle) (by decide)⟩
  · rw [fsckIntegrity, hsb.bitmapIndexLimit, hsb.refcountIndexLimit]
    refine List.countP_eq_zero.mpr fun i hi => ?_
    have hlt : i < 256 := by
      have := (List.mem_range'_1.mp hi).2
      omega
    have hmarked := hI.marked i hlt
    rw [hbit i hlt, hrc i hlt]
    cases hset : (v.disk 2).bit i <;> rw [hset] at hmarked <;> simpa using hmarked
  · rw [hsb.totalBlocks, hsb.bitmapIndexLimit]
    have hcount : (List.range' 0 256).countP v.blockBit = countBits (v.disk 2) 256 := by
      refine List.countP_congr fun i hi => ?_
      rw [hbit i (by have := (List.mem_range'_1.mp hi).2; omega)]
    have hadd := hI.free_add
    omega

/-- A snapshot taken and deleted again. -/
def snapshotDeleted : List Label := [(Op.createSnapshot 0).plain, (Op.deleteSnapshot 1).plain]

theorem snapshotDeleted_run :
    (athfsMachine Aes.unused).Run (callsMeet Aes.unused blockCallOk)
      (runOps Aes.unused snapshotDeleted blankVolume) := by
  have hfirst : callsMeet Aes.unused blockCallOk blankVolume (Op.createSnapshot 0).plain := by
    unfold callsMeet Volume.Allowed
    decide +kernel
  have hsecond : callsMeet Aes.unused blockCallOk
      ((Op.createSnapshot 0).plain.next Aes.unused blankVolume) (Op.deleteSnapshot 1).plain := by
    unfold callsMeet Volume.Allowed
    decide +kernel
  exact .snoc (.snoc (.start ⟨_, rfl⟩) hfirst rfl) hsecond rfl

theorem allocation_of_run_snapshot :
    (fsckIntegrity (runOps Aes.unused snapshotDeleted blankVolume)).bitmapRefcountMismatches = 0 :=
  (allocation_of_run snapshotDeleted_run).2.1

/-- Two snapshots, then a rollback to the first. -/
def rolledBackPastSecond : List Label :=
  [(Op.createSnapshot 0).plain, (Op.createSnapshot 1).plain, (Op.rollbackToSnapshot 1).plain]

/-- **Rolling back past a second snapshot leaves refcounts on blocks the bitmap frees**:
the first snapshot's three blocks carry the second one's reference, lose one of two
and are marked free. -/
theorem rollback_leaves_refcounts :
    (athfsMachine Aes.unused).Reachable (runOps Aes.unused rolledBackPastSecond blankVolume) ∧
      (rollbackToSnapshot 1 (runOps Aes.unused (rolledBackPastSecond.take 2) blankVolume)).1
        = some () ∧
      (runOps Aes.unused rolledBackPastSecond blankVolume).blockBit 9 = false ∧
      (runOps Aes.unused rolledBackPastSecond blankVolume).refcount 9 = 1 ∧
      (fsckIntegrity (runOps Aes.unused rolledBackPastSecond blankVolume))
        = ⟨256, 3⟩ :=
  ⟨reachable_runOps _ (.start ⟨_, rfl⟩), by decide +kernel⟩

end AthenaOS
