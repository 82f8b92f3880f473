import AthenaOS.AthFS.Effect
import AthenaOS.AthFS.Keep

/-!
# What a write to a file leaves alone

A write to one file fills fresh blocks and blocks of its own, updates the allocator's
tables and the journal, and rewrites the file's inode record. Bytes elsewhere stay as
they are, on a volume of any layout, as long as the allocator and the refcounts do not
lead the write astray.
-/

namespace AthenaOS

open Lib Fallible

/-! ## Layout -/

namespace Superblock

/-- The superblock without its counters. -/
def layout (sb : Superblock) : Superblock :=
  { sb with freeBlocks := 0, snapshotCount := 0, journalSeq := 0 }

/-- The blocks a write updates besides file blocks and the inode table. -/
def isTable (sb : Superblock) (b : Nat) : Prop :=
  b = 0 ∨ b = sb.journalBlock ∨
    (sb.blockBitmapBlock ≤ b ∧ b < sb.blockBitmapBlock + sb.bitmapSpanBlocks) ∨
    (sb.refcountBlock ≤ b ∧ b < sb.refcountBlock + sb.refcountSpanBlocks)

instance (sb : Superblock) (b : Nat) : Decidable (sb.isTable b) :=
  inferInstanceAs (Decidable (_ ∨ _ ∨ _ ∨ _))

variable {sb sb' : Superblock}

variable {b : Nat}

theorem isTable_layout : sb.layout.isTable b ↔ sb.isTable b := Iff.rfl

/-- The byte of a refcount lies in the refcount run. -/
theorem isTable_refcountBlockOf (h : b < sb.refcountIndexLimit) :
    sb.isTable (sb.refcountBlockOf b) := by
  refine .inr (.inr (.inr ⟨Nat.le_add_right _ _, Nat.add_lt_add_left ?_ _⟩))
  have hlt : b < sb.refcountSpanBlocks * blockSize := Nat.lt_of_lt_of_le h (Nat.min_le_right _ _)
  exact Nat.div_lt_of_lt_mul (by rwa [Nat.mul_comm])

/-- The bit of a block lies in the bitmap run. -/
theorem isTable_bitmap (h : b < sb.bitmapIndexLimit) :
    sb.isTable (sb.blockBitmapBlock + b / bitsPerBlock) := by
  refine .inr (.inr (.inl ⟨Nat.le_add_right _ _, Nat.add_lt_add_left ?_ _⟩))
  have hlt : b < sb.bitmapSpanBlocks * bitsPerBlock := Nat.lt_of_lt_of_le h (Nat.min_le_right _ _)
  exact Nat.div_lt_of_lt_mul (by rwa [Nat.mul_comm])

end Superblock

/-! ## Protected bytes -/

/-- The condition on the calls of a write that must not reach the blocks of `F`: all of
them are in use when a block is allocated, and none has a refcount that lets the write
store to it in place. -/
def sparesBlocks (F : Nat → Prop) : Event → Prop
  | ⟨.allocateBlock, sb, disk⟩ => ∀ b, F b → b < sb.bitmapIndexLimit →
    (⟨sb, disk, []⟩ : Volume).blockBit b = true
  | ⟨.consult b, sb, disk⟩ => F b → b < sb.refcountIndexLimit ∧
    1 < (⟨sb, disk, []⟩ : Volume).refcount b
  | _ => True

/-- Sparing more blocks. -/
theorem sparesBlocks_mono {F F' : Nat → Prop} (h : ∀ b, F b → F' b) {e : Event}
    (he : sparesBlocks F' e) : sparesBlocks F e := by
  obtain ⟨call, sb, disk⟩ := e
  cases call with
  | allocateBlock => exact fun b hb => he b (h b hb)
  | consult b => exact fun hb => he (h b hb)
  | _ => trivial

/-- Bytes of a volume that must be left alone. -/
structure Shield where
  /-- The volume before the calls. -/
  start : Volume
  /-- The protected bytes of a block. -/
  bytes : Nat → Nat → Prop
  /-- No protected byte is in a table. -/
  tables : ∀ b k, bytes b k → ¬ start.superblock.isTable b

/-- Bytes that a write to inode `i` of a volume must leave alone. -/
structure Protected extends Shield where
  inodeId : Nat
  /-- The record of the inode carries the inode's number. -/
  own : (start.inode inodeId).id = inodeId
  /-- The record overlaps protected bytes only with its number. -/
  record : ∀ k, bytes (start.superblock.inodeBlockOf inodeId) k → inodeId % 32 * 128 ≤ k →
    k < inodeId % 32 * 128 + 136 → k < inodeId % 32 * 128 + 8

namespace Shield

variable (W : Shield)

/-- A block with protected bytes. -/
def block (b : Nat) : Prop := ∃ k, W.bytes b k

/-- The protected bytes are as they were. -/
def Intact (disk : Disk) : Prop :=
  ∀ b k, k < blockSize → W.bytes b k → (disk b).get k = (W.start.disk b).get k

/-- While the calls made so far spared the protected blocks, their bytes are intact and
`c` holds. -/
def Spared (c : Prop) (v : Volume) : Prop :=
  v.superblock.layout = W.start.superblock.layout ∧
    (v.Allowed (sparesBlocks W.block) → W.Intact v.disk ∧ c)

variable {W} {c c' : Prop} {v : Volume} {α β : Type} {m : AthM α} {f : α → AthM β}

theorem Spared.mono (hc : c' → c) (h : W.Spared c' v) : W.Spared c v :=
  ⟨h.1, fun ha => ⟨(h.2 ha).1, hc (h.2 ha).2⟩⟩

/-- A program that keeps the stronger fact, seen from the weaker one. -/
theorem Spared.last {Q : α → Volume → Prop} (hc : c' → c)
    (h : Spec (W.Spared c') m Q (W.Spared c')) : Spec (W.Spared c') m Q (W.Spared c) :=
  h.post (fun _ _ hv => hv) fun _ hv => hv.mono hc

/-- One step of a program under a fact that only the rest of it needs. -/
theorem Spared.step {R : β → Volume → Prop} (hc : c' → c) (h : Preserves (W.Spared c') m)
    (hf : ∀ a, Spec (W.Spared c') (f a) R (W.Spared c)) :
    Spec (W.Spared c') (m >>= f) R (W.Spared c) :=
  Spec.bind (Spared.last hc h) hf

/-- A pure fact about what was read can be added to the precondition. -/
theorem Spared.pre {p : Prop} {R : α → Volume → Prop} {E : Volume → Prop}
    (h : p → Spec (W.Spared c) m R E) : Spec (fun v => W.Spared c v ∧ p) m R E :=
  ⟨fun v hv => (h hv.2).run v hv.1⟩

theorem spared_superblock :
    Spec (W.Spared c) superblock
      (fun sb v => W.Spared c v ∧ sb.layout = W.start.superblock.layout) (W.Spared c) :=
  ⟨fun _ hv => ⟨hv, hv.1⟩⟩

theorem spared_readBlock (b : Nat) : Preserves (W.Spared c) (readBlock b) := ⟨fun _ hv => hv⟩

theorem spared_mark (call : Call) : Preserves (W.Spared c) (mark call) :=
  ⟨fun _ hv => ⟨hv.1, fun ha => hv.2 (allowed_note.mp ha).1⟩⟩

theorem spared_modify {g : Superblock → Superblock} (hg : ∀ sb, (g sb).layout = sb.layout) :
    Preserves (W.Spared c) (updateSuperblock g) :=
  ⟨fun _ hv => ⟨(hg _).trans hv.1, hv.2⟩⟩

variable {b : Nat} {data : Block} {sb : Superblock}

/-- Writing a block without protected bytes. -/
theorem Intact.write {disk : Disk} (h : W.Intact disk) (data : Block) (hb : ¬ W.block b) :
    W.Intact (writeBlock disk b data) := by
  intro b' k hk hbytes
  have hne : b' ≠ b := by
    rintro rfl
    exact hb ⟨k, hbytes⟩
  rw [writeBlock, Function.update_of_ne hne]
  exact h b' k hk hbytes

theorem spared_write (hb : c → ¬ W.block b) : Preserves (W.Spared c) (writeVolBlock b data) := by
  refine ⟨fun v hv => ⟨hv.1, fun ha => ?_⟩⟩
  have ha : (v.note (.write b data)).Allowed (sparesBlocks W.block) := ha
  obtain ⟨hI, hc⟩ := hv.2 (allowed_note.mp ha).1
  exact ⟨hI.write data (hb hc), hc⟩

/-- A block of the tables has no protected bytes. -/
theorem not_block_of_isTable (hsb : sb.layout = W.start.superblock.layout) (h : sb.isTable b) :
    ¬ W.block b := by
  rintro ⟨k, hk⟩
  refine W.tables b k hk (Superblock.isTable_layout.mp ?_)
  rw [← hsb]
  exact Superblock.isTable_layout.mpr h

theorem spared_writeTable (hsb : sb.layout = W.start.superblock.layout) (h : sb.isTable b) :
    Preserves (W.Spared c) (writeVolBlock b data) :=
  spared_write fun _ => not_block_of_isTable hsb h

theorem spared_store (hb : c → ¬ W.block b) : Preserves (W.Spared c) (storeBlock b data) :=
  .bind (spared_mark _) fun _ => spared_write hb

theorem spared_flush : Preserves (W.Spared c) flushSuperblock := by
  unfold flushSuperblock
  refine Spec.bind spared_superblock fun sb => Spared.pre fun hsb => ?_
  exact spared_writeTable hsb (.inl rfl)

/-! ## Refcounts -/

theorem spared_writeRefcount (b : Nat) (val : UInt8) :
    Preserves (W.Spared c) (writeRefcount b val) := by
  unfold writeRefcount
  refine Spec.bind spared_superblock fun sb => Spared.pre fun hsb => ?_
  refine .ite (fun _ => Preserves.fail) fun hlt => ?_
  refine .bind (spared_readBlock _) fun buf => ?_
  exact spared_writeTable hsb (Superblock.isTable_refcountBlockOf (Nat.lt_of_not_le hlt))

theorem spared_decRefcount (b : Nat) : Preserves (W.Spared c) (decRefcount b) := by
  unfold decRefcount
  refine Spec.bind spared_superblock fun sb => Spared.pre fun hsb => ?_
  refine .ite (fun _ => Preserves.fail) fun hlt => ?_
  refine .bind (spared_readBlock _) fun buf => ?_
  refine .bind (spared_writeTable hsb
    (Superblock.isTable_refcountBlockOf (Nat.lt_of_not_le hlt))) fun _ => ?_
  exact Preserves.pure

theorem readRefcount_run (v : Volume) (b : Nat) :
    readRefcount b v =
      (some (if b < v.superblock.refcountIndexLimit then some (v.refcount b) else none), v) := by
  unfold readRefcount
  rw [bind_some (superblock_run v)]
  by_cases hb : b < v.superblock.refcountIndexLimit
  · rw [if_pos hb, if_neg (Nat.not_le.mpr hb)]
    rfl
  · rw [if_neg hb, if_pos (Nat.le_of_not_lt hb)]
    rfl

/-- A consulted refcount of at most 1 belongs to a block without protected bytes. -/
theorem spared_consult (b : Nat) :
    Spec (W.Spared c) (consultRefcount b)
      (fun rc => W.Spared (c ∧ (rc ≤ 1 → ¬ W.block b))) (W.Spared c) := by
  refine ⟨fun v hv => ?_⟩
  unfold consultRefcount
  rw [bind_some (mark_run v _), bind_some (readRefcount_run _ b)]
  refine ⟨hv.1, fun ha => ?_⟩
  obtain ⟨hbefore, hok⟩ := allowed_note.mp ha
  obtain ⟨hI, hc⟩ := hv.2 hbefore
  refine ⟨hI, hc, fun hrc hblock => ?_⟩
  have hshared : b < v.superblock.refcountIndexLimit ∧ 1 < v.refcount b := hok hblock
  rw [note_superblock, if_pos hshared.1] at hrc
  exact absurd hshared.2 (UInt8.not_lt.mpr hrc)

/-! ## Blocks -/

/-- Every protected block below the limit is marked in the bitmap. -/
def Marked (W : Shield) (v : Volume) : Prop :=
  ∀ b, W.block b → b < v.superblock.bitmapIndexLimit → v.blockBit b = true

theorem spared_allocateIn {bm first last : Nat} (hfirst : first = bm * Superblock.bitsPerBlock)
    (hlast : ∀ sb : Superblock, sb.layout = W.start.superblock.layout →
      last ≤ first + Superblock.bitsPerBlock ∧ last ≤ sb.bitmapIndexLimit) :
    Spec (fun v => W.Spared c v ∧ (v.Allowed (sparesBlocks W.block) → W.Marked v))
      (allocateIn bm first last)
      (fun o v => match o with
        | none => W.Spared c v ∧ (v.Allowed (sparesBlocks W.block) → W.Marked v)
        | some b => W.Spared (c ∧ ¬ W.block b) v)
      (W.Spared c) := by
  refine ⟨fun v hv => ?_⟩
  obtain ⟨hle, hlimit⟩ := hlast _ hv.1.1
  unfold allocateIn
  rw [bind_some (superblock_run v), bind_some (readBlock_run v _)]
  cases hfind : (List.range' 0 (last - first)).find? fun i =>
      !(v.disk (v.superblock.blockBitmapBlock + bm)).bit i with
  | none => exact hv
  | some i =>
    rw [List.find?_range'_eq_some] at hfind
    obtain ⟨hclear, hmem, -⟩ := hfind
    rw [List.mem_range'_1] at hmem
    have hi : i < Superblock.bitsPerBlock := by omega
    -- the block taken has a clear bit, so it is none of the protected ones
    have hbit : v.blockBit (first + i) = false := by
      have hdiv : (bm * Superblock.bitsPerBlock + i) / Superblock.bitsPerBlock = bm := by
        rw [Nat.mul_comm, Nat.mul_add_div (by decide), Nat.div_eq_of_lt hi, Nat.add_zero]
      have hmod : (bm * Superblock.bitsPerBlock + i) % Superblock.bitsPerBlock = i := by
        rw [Nat.mul_add_mod_self_right, Nat.mod_eq_of_lt hi]
      rw [Volume.blockBit, hfirst, hdiv, hmod]
      simpa using hclear
    have hfree : W.Spared (c ∧ ¬ W.block (first + i)) v := by
      refine ⟨hv.1.1, fun ha => ⟨(hv.1.2 ha).1, (hv.1.2 ha).2, fun hblock => ?_⟩⟩
      have hset := hv.2 ha _ hblock (by omega)
      rw [hbit] at hset
      exact absurd hset (by decide)
    have htable : v.superblock.isTable (v.superblock.blockBitmapBlock + bm) := by
      have := Superblock.isTable_bitmap (show first < v.superblock.bitmapIndexLimit by omega)
      rwa [hfirst, Nat.mul_div_cancel _ (by decide)] at this
    show Outcome _ _ ((writeVolBlock _ _ >>= fun _ => _ : AthM (Option Nat)) v)
    refine (Spec.bind (P := W.Spared (c ∧ ¬ W.block (first + i)))
      (Spared.last And.left (spared_writeTable hv.1.1 htable)) fun _ => ?_).run v hfree
    refine Spared.step And.left (spared_modify fun _ => rfl) fun _ => ?_
    refine Spared.step And.left (spared_writeRefcount _ _) fun _ => ?_
    refine Spared.step And.left spared_flush fun _ => ?_
    exact .pure fun _ h => h

theorem spared_allocateScan (n bm : Nat) :
    Spec (fun v => W.Spared c v ∧ (v.Allowed (sparesBlocks W.block) → W.Marked v))
      (allocateScan n bm) (fun b => W.Spared (c ∧ ¬ W.block b)) (W.Spared c) := by
  induction n generalizing bm with
  | zero => exact .fail fun _ h => h.1
  | succ n ih =>
    rw [allocateScan]
    refine .bind (Q := fun sb v => (W.Spared c v ∧ (v.Allowed (sparesBlocks W.block) →
      W.Marked v)) ∧ sb.layout = W.start.superblock.layout) ⟨fun v hv => ⟨hv, hv.1.1⟩⟩ fun sb => ?_
    refine ⟨fun v hv => ?_⟩
    refine (Spec.ite (P := fun v => W.Spared c v ∧ (v.Allowed (sparesBlocks W.block) → W.Marked v))
      (fun _ => Spec.fail fun _ h => h.1) fun _ => ?_).run v hv.1
    refine .bind (spared_allocateIn rfl fun sb' hsb' => ⟨Nat.min_le_left _ _, ?_⟩) fun o => ?_
    · refine (Nat.min_le_right _ _).trans (Nat.le_of_eq ?_)
      show sb.layout.bitmapIndexLimit = sb'.layout.bitmapIndexLimit
      rw [hv.2, hsb']
    · cases o with
      | none => exact ih (bm + 1)
      | some b => exact .pure fun _ h => h

/-- A block handed out has no protected bytes. -/
theorem spared_allocateBlock :
    Spec (W.Spared c) allocateBlock (fun b => W.Spared (c ∧ ¬ W.block b)) (W.Spared c) := by
  unfold allocateBlock
  refine .bind (Q := fun _ v => W.Spared c v ∧ (v.Allowed (sparesBlocks W.block) → W.Marked v))
    ⟨fun v hv => ?_⟩ fun _ => ?_
  · refine ⟨⟨hv.1, fun ha => hv.2 (allowed_note.mp ha).1⟩, fun ha => ?_⟩
    exact (allowed_note.mp ha).2
  · refine .bind (Q := fun _ v => W.Spared c v ∧ (v.Allowed (sparesBlocks W.block) →
      W.Marked v)) ⟨fun v hv => hv⟩ fun sb => ?_
    exact spared_allocateScan _ _

theorem spared_tryAllocate :
    Spec (W.Spared c) (attempt allocateBlock)
      (fun o => W.Spared (c ∧ ∀ b, o = some b → ¬ W.block b)) (W.Spared c) := by
  refine .attempt (spared_allocateBlock.post ?_ ?_)
  · intro b v hv
    exact hv.mono fun hc => ⟨hc.1, fun b' hb' => Option.some.inj hb' ▸ hc.2⟩
  · intro v hv
    exact hv.mono fun hc => ⟨hc, fun b hb => absurd hb (by simp)⟩

theorem spared_freeBlock (b : Nat) : Preserves (W.Spared c) (freeBlock b) := by
  unfold freeBlock
  refine .bind (spared_mark _) fun _ => ?_
  refine Spec.bind spared_superblock fun sb => Spared.pre fun hsb => ?_
  refine .ite (fun _ => Preserves.fail) fun hlt => ?_
  refine .bind (spared_readBlock _) fun buf => ?_
  refine .bind (spared_writeTable hsb
    (Superblock.isTable_bitmap (Nat.lt_of_not_le hlt))) fun _ => ?_
  refine .bind (spared_writeRefcount _ _) fun _ => ?_
  exact .bind (spared_modify fun _ => rfl) fun _ => spared_flush

theorem spared_releaseBlock (b : Nat) : Preserves (W.Spared c) (releaseBlock b) := by
  unfold releaseBlock
  refine .bind (spared_mark _) fun _ => ?_
  refine .bind (spared_decRefcount _) fun _ => ?_
  exact Preserves.ite (spared_freeBlock b) Preserves.pure

/-! ## Journal -/

theorem spared_journalBegin (id idx old new : Nat) :
    Preserves (W.Spared c) (journalBegin id idx old new) := by
  unfold journalBegin
  refine Spec.bind spared_superblock fun sb => Spared.pre fun hsb => ?_
  refine .bind (spared_readBlock _) fun buf => ?_
  split
  · exact Preserves.fail
  · refine .bind (spared_modify fun _ => rfl) fun _ => ?_
    refine .bind spared_superblock fun _ => Spared.pre fun _ => ?_
    exact Preserves.bind (spared_writeTable hsb (.inr (.inl rfl))) fun _ => Preserves.pure

theorem spared_journalCommit (slot : Nat) : Preserves (W.Spared c) (journalCommit slot) := by
  unfold journalCommit
  refine Spec.bind spared_superblock fun sb => Spared.pre fun hsb => ?_
  refine .bind (spared_readBlock _) fun buf => ?_
  exact spared_writeTable hsb (.inr (.inl rfl))

/-! ## Inode records -/

/-- Writing a record changes no protected byte, if it agrees with them. -/
theorem spared_writeInode {inode : DiskInode} (h : ∀ k,
      W.bytes (W.start.superblock.inodeBlockOf inode.id) k → inode.id % 32 * 128 ≤ k →
      k < inode.id % 32 * 128 + 136 → inode.get (k - inode.id % 32 * 128) =
      (W.start.disk (W.start.superblock.inodeBlockOf inode.id)).get k) :
    Preserves (W.Spared c) (writeInode inode) := by
  refine ⟨fun v hv => ?_⟩
  have hblk : v.superblock.inodeBlockOf inode.id = W.start.superblock.inodeBlockOf inode.id := by
    show v.superblock.layout.inodeBlockOf inode.id = W.start.superblock.layout.inodeBlockOf inode.id
    rw [hv.1]
  unfold writeInode
  rw [bind_some (superblock_run v), bind_some (readBlock_run v _), hblk]
  refine ⟨hv.1, fun ha => ?_⟩
  obtain ⟨hI, hc⟩ := hv.2 (allowed_note.mp (allowed_note.mp (allowed_note.mp ha).1).1).1
  refine ⟨fun b k hk hbytes => ?_, hc⟩
  show (writeBlock v.disk _ _ b).get k = _
  by_cases hb : b = W.start.superblock.inodeBlockOf inode.id
  · subst hb
    rw [writeBlock, Function.update_self]
    by_cases hin : inode.id % 32 * 128 ≤ k ∧ k < inode.id % 32 * 128 + 136
    · rw [← h k hbytes hin.1 hin.2]
      obtain ⟨j, rfl⟩ := Nat.exists_eq_add_of_le hin.1
      rw [Bytes.get_splice_of_mem _ _ (by omega) hk, Nat.add_sub_cancel_left]
    · rw [Bytes.get_splice_of_ne _ _ (by omega)]
      exact hI _ k hk hbytes
  · rw [writeBlock, Function.update_of_ne hb]
    exact hI b k hk hbytes

end Shield

/-! ## The inode's record -/

namespace Protected

open Shield

variable (W : Protected)

/-- An inode that may be written back: its number is the record's. -/
def Owned (inode : DiskInode) : Prop := ∀ k < 8, inode.get k = (W.start.inode W.inodeId).get k

variable {W} {c : Prop}

variable {inode : DiskInode}

theorem Owned.id (h : W.Owned inode) : inode.id = W.inodeId := by
  refine Eq.trans (Bytes.getLE_congr fun k hk => ?_) W.own
  rw [Nat.zero_add]
  exact h k hk

/-- Setting a field past the number. -/
theorem Owned.putLE (h : W.Owned inode) {off : Nat} (len val : Nat) (hoff : 8 ≤ off) :
    W.Owned (inode.putLE off len val) := by
  intro k hk
  rw [Bytes.get_putLE_of_ne _ (by omega)]
  exact h k hk

theorem Owned.toBtree (h : W.Owned inode) (root : Nat) : W.Owned (inode.toBtree root) := by
  have hcleared : ∀ (l : List Nat) (inode : DiskInode), W.Owned inode →
      W.Owned (l.foldl (fun inode i => inode.setDirectBlock i 0) inode) := by
    intro l
    induction l with
    | nil => exact fun _ h => h
    | cons i l ih => exact fun inode h => ih _ (h.putLE 8 0 (by omega))
  refine Owned.putLE (Owned.putLE (Owned.putLE (hcleared _ _ h) _ _ ?_) _ _ ?_) _ _ ?_ <;> decide

theorem spared_writeInode (h : W.Owned inode) : Preserves (W.Spared c) (writeInode inode) := by
  refine Shield.spared_writeInode fun k hbytes hlo hhi => ?_
  -- where record and protected bytes meet, both hold the inode's number
  rw [h.id] at hbytes hlo hhi ⊢
  have hnum := W.record k hbytes hlo hhi
  obtain ⟨j, rfl⟩ := Nat.exists_eq_add_of_le hlo
  rw [Nat.add_sub_cancel_left, h j (by omega), Bytes.get_of_lt _ (by omega : j < 136)]
  rfl

/-! ## Extents -/

theorem spared_writeBtreeNodeCow (buf : Block) (h : W.Owned inode) :
    Spec (W.Spared c) (writeBtreeNodeCow inode.btreeRoot buf inode)
      (fun r v => W.Spared c v ∧ W.Owned r.2) (W.Spared c) := by
  unfold writeBtreeNodeCow
  refine .bind (spared_consult _) fun rc => ?_
  refine .ite (fun hrc => ?_) fun _ => Spec.ite (fun _ => ?_) fun hroot => absurd rfl hroot
  · refine Spared.step And.left (spared_store fun hc => hc.2 hrc) fun _ => ?_
    exact .pure fun _ hv => ⟨hv.mono And.left, h⟩
  · refine .pre ?_ fun _ hv => hv.mono And.left
    refine .bind spared_tryAllocate fun o => ?_
    cases o with
    | none => exact .pure fun _ hv => ⟨hv.mono And.left, h⟩
    | some new =>
      refine Spared.step And.left (spared_store (b := new) fun hc => hc.2 new rfl) fun _ => ?_
      refine Spared.step And.left (Preserves.attempt (spared_decRefcount _)) fun _ => ?_
      exact .pure fun _ hv => ⟨hv.mono And.left, h.putLE 8 new (by omega)⟩

theorem spared_insertIntoNode (depth : Nat) (extent : BTreeLeafEntry) (h : W.Owned inode) :
    Spec (W.Spared c) (insertIntoNode inode.btreeRoot depth extent inode)
      (fun r v => W.Spared c v ∧ W.Owned r.2) (W.Spared c) := by
  unfold insertIntoNode
  refine .bind (spared_readBlock _) fun buf => ?_
  refine .ite (fun _ => Spec.pure fun _ hv => ⟨hv, h⟩) fun _ => ?_
  split
  · exact spared_writeBtreeNodeCow _ h
  · exact .ite (fun _ => spared_writeBtreeNodeCow _ h) fun _ => Spec.pure fun _ hv => ⟨hv, h⟩

theorem spared_insertExtent (h : W.Owned inode) (extent : BTreeLeafEntry) :
    Spec (W.Spared c) (insertExtent inode extent)
      (fun r v => W.Spared c v ∧ W.Owned r.2) (W.Spared c) := by
  unfold insertExtent
  refine .ite (fun _ => spared_insertIntoNode _ _ h) fun _ => ?_
  refine .bind spared_tryAllocate fun o => ?_
  cases o with
  | none => exact .pure fun _ hv => ⟨hv.mono And.left, h⟩
  | some root =>
    refine Spared.step And.left (spared_store (b := root) fun hc => hc.2 root rfl) fun _ => ?_
    refine .pre ?_ fun _ hv => hv.mono And.left
    exact spared_insertIntoNode _ _ (h.toBtree root)

/-- `cow_write_block` into the inode: a fresh block, an unshared one, or a copy. -/
theorem spared_cowWriteBlock (h : W.Owned inode) (idx : Nat) (data : Block) :
    Spec (W.Spared c) (cowWriteBlock inode idx data)
      (fun r v => W.Spared c v ∧ W.Owned r.2) (W.Spared c) := by
  have hset : ∀ new, W.Owned (inode.setDirectBlock idx new) := fun new => h.putLE 8 new (by omega)
  unfold cowWriteBlock
  refine .ite (fun _ => Spec.pure fun _ hv => ⟨hv, h⟩) fun _ => Spec.ite (fun _ => ?fresh)
    fun _ => ?mapped
  case fresh =>
    refine .bind spared_tryAllocate fun o => ?_
    cases o with
    | none => exact .pure fun _ hv => ⟨hv.mono And.left, h⟩
    | some new =>
      refine Spared.step And.left (spared_store (b := new) fun hc => hc.2 new rfl) fun _ => ?_
      refine Spared.step And.left (spared_writeInode (hset new)) fun _ => ?_
      exact .pure fun _ hv => ⟨hv.mono And.left, hset new⟩
  case mapped =>
    refine .bind (spared_consult _) fun rc => ?_
    refine .ite (fun hrc => ?_) fun _ => ?_
    · refine Spared.step And.left (spared_store fun hc => hc.2 hrc) fun _ => ?_
      exact .pure fun _ hv => ⟨hv.mono And.left, h⟩
    · refine .pre ?_ fun _ hv => hv.mono And.left
      refine .bind spared_tryAllocate fun o => ?_
      cases o with
      | none => exact .pure fun _ hv => ⟨hv.mono And.left, h⟩
      | some new =>
        refine Spared.step And.left (Preserves.attempt (spared_journalBegin _ _ _ _)) fun slot => ?_
        cases slot with
        | none =>
          refine Spared.step And.left (Preserves.attempt (spared_freeBlock _)) fun _ => ?_
          exact .pure fun _ hv => ⟨hv.mono And.left, h⟩
        | some slot =>
          refine Spared.step And.left (spared_store (b := new) fun hc => hc.2 new rfl) fun _ => ?_
          refine Spared.step And.left (spared_writeInode (hset new)) fun _ => ?_
          refine Spared.step And.left (spared_journalCommit _) fun _ => ?_
          refine Spared.step And.left (Preserves.attempt (spared_releaseBlock _)) fun _ => ?_
          exact .pure fun _ hv => ⟨hv.mono And.left, hset new⟩

/-! ## Writing -/

section DataPath

variable (aes : Aes) (settings : DataBlockSettings)

variable {inode : DiskInode}

theorem spared_cowDiverge (h : W.Owned inode) (lb old : Nat) (buf : Block) (flags : Nat) :
    Spec (W.Spared c) (cowDivergeExtentJournaled aes settings inode lb old buf flags)
      (fun r v => W.Spared c v ∧ W.Owned r.2) (W.Spared c) := by
  unfold cowDivergeExtentJournaled
  refine .bind spared_tryAllocate fun o => ?_
  cases o with
  | none => exact .pure fun _ hv => ⟨hv.mono And.left, h⟩
  | some new =>
    refine Spared.step And.left (Preserves.attempt (spared_journalBegin _ _ _ _)) fun slot => ?_
    cases slot with
    | none =>
      refine Spared.step And.left (Preserves.attempt (spared_freeBlock _)) fun _ => ?_
      exact .pure fun _ hv => ⟨hv.mono And.left, h⟩
    | some slot =>
      refine Spared.step And.left (spared_store (b := new) fun hc => hc.2 new rfl) fun _ => ?_
      refine .pre ?_ fun _ hv => hv.mono And.left
      refine .bind (spared_insertExtent h _) fun r => Spared.pre fun hr => ?_
      refine .ite (fun _ => ?_) fun _ => ?_
      · refine .bind (Preserves.attempt (spared_journalCommit _)) fun _ => ?_
        refine .bind (Preserves.attempt (spared_freeBlock _)) fun _ => ?_
        exact .pure fun _ hv => ⟨hv, hr⟩
      · refine .bind (spared_writeInode hr) fun _ => ?_
        refine .bind (spared_journalCommit _) fun _ => ?_
        refine .bind (Preserves.attempt (spared_releaseBlock _)) fun _ => ?_
        exact .pure fun _ hv => ⟨hv, hr⟩

theorem spared_resolveBlock (h : W.Owned inode) (lb : Nat) (probe : Option Block) :
    Spec (W.Spared c) (resolveBlock settings inode lb probe)
      (fun r v => W.Spared c v ∧ W.Owned r.2) (W.Spared c) := by
  unfold resolveBlock
  refine .bind (Spec.get (Q := fun _ => W.Spared c) fun _ hv => hv) fun v => ?_
  split
  · exact .pure fun _ hv => ⟨hv, h⟩
  · refine .bind spared_tryAllocate fun o => ?_
    cases o with
    | none => exact .pure fun _ hv => ⟨hv.mono And.left, h⟩
    | some new =>
      refine .pre ?_ fun _ hv => hv.mono And.left
      refine .bind (spared_insertExtent h _) fun r => Spared.pre fun hr => ?_
      exact .pure fun _ hv => ⟨hv, hr⟩

theorem spared_writeOneBlock (stamp : Bool) (h : W.Owned inode) (offset : Nat) (data : List UInt8) :
    Spec (W.Spared c) (writeOneBlock aes settings stamp inode offset data)
      (fun r v => W.Spared c v ∧ W.Owned r.2) (W.Spared c) := by
  unfold writeOneBlock
  refine .bind (spared_resolveBlock settings h _ _) fun r => Spared.pre fun hr => ?_
  obtain ⟨_ | diskBlock, inode⟩ := r
  · exact .pure fun _ hv => ⟨hv, hr⟩
  · refine .bind (Spec.get (Q := fun _ => W.Spared c) fun _ hv => hv) fun v => ?_
    split
    · exact .pure fun _ hv => ⟨hv, hr⟩
    · refine .bind (spared_consult _) fun rc => ?_
      refine .ite (fun _ => ?_) fun hrc => ?_
      · refine .pre ?_ fun _ hv => hv.mono And.left
        exact spared_cowDiverge aes settings hr _ _ _ _
      · -- the in-place branch is the one where the refcount was at most 1
        refine Spared.step And.left
          (spared_store fun hc => hc.2 (UInt8.not_lt.mp hrc)) fun _ => ?_
        exact .pure fun _ hv => ⟨hv.mono And.left, hr⟩

theorem spared_writeLoop (stamp : Bool) (h : W.Owned inode) (offset : Nat) (data : List UInt8)
    (written : Nat) :
    Spec (W.Spared c) (writeLoop aes settings stamp inode offset data written)
      (fun r v => W.Spared c v ∧ W.Owned r.1) (W.Spared c) := by
  induction hn : data.length using Nat.strong_induction_on generalizing inode offset data written with
  | _ n ih =>
    subst hn
    rw [writeLoop]
    split
    · exact .pure fun _ hv => ⟨hv, h⟩
    · rename_i hdata
      refine .bind (spared_writeOneBlock aes settings _ h _ _) fun r => Spared.pre fun hr => ?_
      obtain ⟨_ | _, inode⟩ := r
      · exact .pure fun _ hv => ⟨hv, hr⟩
      · refine ih _ ?_ ?_ _ _ _ rfl
        · have hpos : 0 < data.length := List.length_pos_iff.mpr hdata
          have hmod : offset % blockSize < blockSize := Nat.mod_lt _ (by decide)
          rw [List.length_drop]
          omega
        · split
          · exact Owned.putLE hr 8 _ (by omega)
          · exact hr

/-- **A write to an inode leaves the protected bytes as they were**, if its calls spare
their blocks. -/
theorem intact_writeInodeBytes (W : Protected) (stamp : Bool) (offset : Nat) (data : List UInt8)
    (hcalls : (writeInodeBytes aes settings stamp W.inodeId offset data W.start.untraced).2.Allowed
      (sparesBlocks W.block)) :
    let v := (writeInodeBytes aes settings stamp W.inodeId offset data W.start.untraced).2
    v.superblock.layout = W.start.superblock.layout ∧ W.Intact v.disk := by
  have hstart : W.Spared True W.start.untraced :=
    ⟨rfl, fun _ => ⟨fun _ _ _ _ => rfl, trivial⟩⟩
  have hown : W.Owned (W.start.inode W.inodeId) := fun _ _ => rfl
  have hspec : Preserves (W.Spared True)
      (writeLoop aes settings stamp (W.start.inode W.inodeId) offset data 0 >>= fun r =>
        if 0 < r.2 then do writeInode r.1; return r.2 else return r.2) := by
    refine Spec.bind (spared_writeLoop aes settings stamp hown offset data 0) fun r => ?_
    refine Spared.pre fun hr => ?_
    refine Preserves.ite (.bind (spared_writeInode hr) fun _ => .pure) ?_
    exact .pure
  exact ⟨(hspec.snd hstart).1, ((hspec.snd hstart).2 hcalls).1⟩

end DataPath

end Protected

end AthenaOS
