import AthenaOS.Lib.Checked
import AthenaOS.AthFS.SnapshotIds

/-!
# Buffer accesses of the snapshot operations

The snapshot operations with every access to a 4096-byte buffer in view, on a volume
of any size. An index out of range panics and ends the call; a structure read or
written through a raw pointer may reach past the buffer unnoticed.
-/

namespace AthenaOS

open Lib Fallible

namespace Bounded

/-- How a call ends without a result. -/
inductive Halt where
  /-- `None` or `Err(())`. -/
  | refused
  /-- An index out of range, or a subtraction below 0. -/
  | panicked
  deriving DecidableEq

/-- A volume, and whether a raw access has reached past its buffer. -/
structure State where
  volume : Volume
  overrun : Bool

/-- Code that runs on a mounted volume, with its buffers in view. -/
abbrev BoundM : Type → Type := Checked Halt State

/-! ## Accesses -/

/-- Code that touches no buffer: the device and the superblock. -/
def lift {α : Type} (m : AthM α) : BoundM α := ExceptT.mk fun s =>
  match m s.volume with
  | (some a, v) => (.ok a, ⟨v, s.overrun⟩)
  | (none, v) => (.error .refused, ⟨v, s.overrun⟩)

/-- `buf[i]`. -/
def index (i : Nat) : BoundM Unit := Checked.require (decide (i < blockSize)) .panicked

/-- `ptr::read` or `ptr::write` of `len` bytes at `off`. -/
def span (off len : Nat) : BoundM Unit :=
  Checked.write fun s => { s with overrun := s.overrun || decide (blockSize < off + len) }

/-- `ptr::read(buf.add(i * 256) as *const SnapshotEntry)`. -/
def readEntry (buf : Block) (i : Nat) : BoundM SnapshotEntry := do
  span (i * 256) 264
  return SnapshotEntry.read buf i

/-- The first slot of a list whose entry satisfies `p`. -/
def findSlot (buf : Block) (p : SnapshotEntry → Bool) : List Nat → BoundM (Option Nat)
  | [] => return none
  | i :: is => do
    let e ← readEntry buf i
    if p e then return some i else findSlot buf p is

/-- The first clear bit of a list. -/
def findClear (buf : Block) : List Nat → BoundM (Option Nat)
  | [] => return none
  | i :: is => do
    index (i / 8)
    if buf.bit i then findClear buf is else return some i

/-- `for i in ..`: look up the bitmaps at bit `i`, and change `rc[i]`. -/
def adjust (change : Nat → Option (UInt8 → UInt8)) : List Nat → Block → BoundM Block
  | [], rc => return rc
  | i :: is, rc => do
    index (i / 8)
    match change i with
    | none => adjust change is rc
    | some f => do
      index i
      adjust change is (putByte rc i (f (rc.get i)))

/-- The number of bits of a list that are set. -/
def countUsed (bm : Block) : List Nat → BoundM Nat
  | [] => return 0
  | i :: is => do
    index (i / 8)
    let used ← countUsed bm is
    return if bm.bit i then used + 1 else used

/-! ## Primitives -/

/-- `write_refcount`. -/
def writeRefcount (blockId : Nat) (val : UInt8) : BoundM Unit := do
  let sb ← lift superblock
  Checked.require (decide (blockId < sb.refcountIndexLimit)) .refused
  let buf ← lift (readBlock (sb.refcountBlockOf blockId))
  index (blockId % blockSize)
  lift (writeVolBlock (sb.refcountBlockOf blockId) (buf.putLE (blockId % blockSize) 1 val.toNat))

/-- One block of the bitmap run: take its first clear bit below `last`. -/
def allocateIn (bm first last : Nat) : BoundM (Option Nat) := do
  let blk := (← lift superblock).blockBitmapBlock + bm
  let buf ← lift (readBlock blk)
  match ← findClear buf (List.range' 0 (last - first)) with
  | none => return none
  | some i => do
    lift (writeVolBlock blk (buf.setBit i))
    -- `self.superblock.free_blocks -= 1`
    let sb ← lift superblock
    Checked.require (decide (1 ≤ sb.freeBlocks)) .panicked
    lift (updateSuperblock fun sb => { sb with freeBlocks := sb.freeBlocks - 1 })
    writeRefcount (first + i) 1
    lift flushSuperblock
    return some (first + i)

/-- The loop of `allocate_block` over the bitmap run. -/
def allocateScan : Nat → Nat → BoundM Nat
  | 0, _ => Checked.ofExcept (.error .refused)
  | n + 1, bm => do
    let limit := (← lift superblock).bitmapIndexLimit
    let first := bm * Superblock.bitsPerBlock
    if limit ≤ first then Checked.ofExcept (.error .refused)
    else
      match ← allocateIn bm first (min (first + Superblock.bitsPerBlock) limit) with
      | some block => return block
      | none => allocateScan n (bm + 1)

/-- `allocate_block`. -/
def allocateBlock : BoundM Nat := do
  lift (mark .allocateBlock)
  allocateScan (← lift superblock).bitmapSpanBlocks 0

/-- `free_block`. -/
def freeBlock (blockId : Nat) : BoundM Unit := do
  lift (mark (.freeBlock blockId))
  let sb ← lift superblock
  Checked.require (decide (blockId < sb.bitmapIndexLimit)) .refused
  let blk := sb.blockBitmapBlock + blockId / Superblock.bitsPerBlock
  let buf ← lift (readBlock blk)
  index (blockId % Superblock.bitsPerBlock / 8)
  lift (writeVolBlock blk (buf.clearBit (blockId % Superblock.bitsPerBlock)))
  writeRefcount blockId 0
  lift (updateSuperblock fun sb => { sb with freeBlocks := sb.freeBlocks + 1 })
  lift flushSuperblock

/-- `get_inode`. -/
def getInode (inodeId : Nat) : BoundM DiskInode := do
  span (inodeId % 32 * 128) 136
  lift (AthenaOS.getInode inodeId)

/-- `write_inode`. -/
def writeInode (inode : DiskInode) : BoundM Unit := do
  span (inode.id % 32 * 128) 136
  lift (AthenaOS.writeInode inode)

/-! ## Operations -/

/-- `f` on the counts of the blocks a bitmap has in use. -/
def onBits (bm : Block) (f : UInt8 → UInt8) (i : Nat) : Option (UInt8 → UInt8) :=
  if bm.bit i then some f else none

/-- `create_snapshot`. -/
def createSnapshot (timestamp : Nat) : BoundM UInt32 := do
  let sb ← lift superblock
  Checked.require (decide (sb.bitmapSpanBlocks ≤ 1)) .refused
  let snapBuf ← lift (readBlock sb.snapshotBlock)
  let slot ← Checked.okOr (← findSlot snapBuf (·.active = 0) (List.range' 0 maxSnapshots)) .refused
  let bitmapCopy ← lift (readBlock sb.blockBitmapBlock)
  let itableCopy ← lift (readBlock sb.inodeTableBlock)
  let ibitmapCopy ← lift (readBlock sb.inodeBitmapBlock)
  let root ← getInode sb.rootInode
  let bblk ← allocateBlock
  lift (storeBlock bblk bitmapCopy)
  let itblk ← allocateBlock
  lift (storeBlock itblk itableCopy)
  let ibblk ← allocateBlock
  lift (storeBlock ibblk ibitmapCopy)
  let rcBuf ← lift (readBlock sb.refcountBlock)
  let rcBuf ← adjust (onBits bitmapCopy satSucc) (List.range' 0 sb.bitmapIndexLimit) rcBuf
  lift (writeVolBlock sb.refcountBlock rcBuf)
  lift (updateSuperblock fun sb => { sb with snapshotCount := sb.snapshotCount + 1 })
  let snapId := (← lift superblock).snapshotCount
  let entry : SnapshotEntry := ⟨snapId, 1, timestamp, bblk, root, itblk, ibblk⟩
  span (slot * 256) 264
  lift (writeVolBlock sb.snapshotBlock (snapBuf.splice (slot * 256) entry.toBytes))
  lift flushSuperblock
  return snapId

/-- The active entries with an id. -/
def named (snapId : UInt32) (e : SnapshotEntry) : Bool := e.active ≠ 0 ∧ e.id = snapId

/-- What a rollback does to `rc[i]`. -/
def rollbackChange (cur snap : Block) (i : Nat) : Option (UInt8 → UInt8) :=
  if cur.bit i && !snap.bit i then some satPred
  else if !cur.bit i && snap.bit i then some satSucc
  else none

/-- `rollback_to_snapshot`. -/
def rollbackToSnapshot (snapId : UInt32) : BoundM Unit := do
  let sb ← lift superblock
  let snapBuf ← lift (readBlock sb.snapshotBlock)
  let slot ← Checked.okOr (← findSlot snapBuf (named snapId) (List.range' 0 maxSnapshots)) .refused
  let snap := SnapshotEntry.read snapBuf slot
  lift (mark (.rollback snap))
  let curBm ← lift (readBlock sb.blockBitmapBlock)
  let snapBm ← lift (readBlock snap.bitmapBlock)
  let rc ← lift (readBlock sb.refcountBlock)
  let limit := sb.bitmapIndexLimit
  let rc ← adjust (rollbackChange curBm snapBm) (List.range' 0 limit) rc
  lift (writeVolBlock sb.refcountBlock rc)
  lift (writeVolBlock sb.blockBitmapBlock snapBm)
  lift (when (snap.inodeTableSnapBlock ≠ 0) do
    writeVolBlock sb.inodeTableBlock (← readBlock snap.inodeTableSnapBlock))
  lift (when (snap.inodeBitmapSnapBlock ≠ 0) do
    writeVolBlock sb.inodeBitmapBlock (← readBlock snap.inodeBitmapSnapBlock))
  writeInode snap.rootInode
  let used ← countUsed snapBm (List.range' 0 limit)
  -- `self.superblock.total_blocks - used`
  Checked.require (decide (used ≤ sb.totalBlocks)) .panicked
  lift (updateSuperblock fun sb => { sb with freeBlocks := sb.totalBlocks - used })
  lift flushSuperblock

/-- `if blk != 0 { self.free_block(blk)? }`. -/
def freeIfSet (blk : Nat) : BoundM Unit := if blk ≠ 0 then freeBlock blk else pure ()

/-- `delete_snapshot`. -/
def deleteSnapshot (snapId : UInt32) : BoundM Unit := do
  let sb ← lift superblock
  let snapBuf ← lift (readBlock sb.snapshotBlock)
  let slot ← Checked.okOr (← findSlot snapBuf (named snapId) (List.range' 0 maxSnapshots)) .refused
  let snap := SnapshotEntry.read snapBuf slot
  lift (mark (.dropSnapshot snap))
  let snapBm ← lift (readBlock snap.bitmapBlock)
  let rc ← lift (readBlock sb.refcountBlock)
  let rc ← adjust (onBits snapBm satPred) (List.range' 0 sb.bitmapIndexLimit) rc
  lift (writeVolBlock sb.refcountBlock rc)
  freeBlock snap.bitmapBlock
  freeIfSet snap.inodeTableSnapBlock
  freeIfSet snap.inodeBitmapSnapBlock
  span (slot * 256) 264
  lift (writeVolBlock sb.snapshotBlock
    (snapBuf.splice (slot * 256) SnapshotEntry.cleared.toBytes))
  lift (updateSuperblock fun sb =>
    { sb with snapshotCount := if sb.snapshotCount = 0 then 0 else sb.snapshotCount - 1 })
  lift flushSuperblock

/-! ## Running the accesses -/

section Run

variable {α β : Type} {s : State} {m : BoundM α} {f : α → BoundM β}

/-- The call ends in a panic. -/
def Panics (m : BoundM α) (s : State) : Prop := (m.exec s).1 = .error .panicked

variable {a : α} {v : Volume} {i off len : Nat} {s' : State} {e : Halt} {c : Bool}

theorem lift_exec_some {m : AthM α} (h : m s.volume = (some a, v)) :
    (lift m).exec s = (.ok a, ⟨v, s.overrun⟩) := by
  show (match m s.volume with
    | (some a, v) => (Except.ok a, State.mk v s.overrun)
    | (none, v) => (.error Halt.refused, ⟨v, s.overrun⟩)) = _
  rw [h]

theorem lift_exec_none {m : AthM α} (h : m s.volume = (none, v)) :
    (lift m).exec s = (.error .refused, ⟨v, s.overrun⟩) := by
  show (match m s.volume with
    | (some a, v) => (Except.ok a, State.mk v s.overrun)
    | (none, v) => (.error Halt.refused, ⟨v, s.overrun⟩)) = _
  rw [h]

theorem lift_exec_congr {m m' : AthM α} (h : m s.volume = m' s.volume) :
    (lift m).exec s = (lift m').exec s := by
  show (match m s.volume with
    | (some a, v) => (Except.ok a, State.mk v s.overrun)
    | (none, v) => (.error Halt.refused, ⟨v, s.overrun⟩)) = _
  rw [h]
  rfl

/-- Reading a block or the superblock. -/
theorem readBlock_exec (b : Nat) :
    (lift (readBlock b)).exec s = (.ok (s.volume.disk b), s) := lift_exec_some rfl

theorem superblock_exec : (lift superblock).exec s = (.ok s.volume.superblock, s) :=
  lift_exec_some rfl

theorem index_exec (h : i < blockSize) : (index i).exec s = (.ok (), s) :=
  Checked.require_exec (decide_eq_true h)

theorem index_panics (h : ¬ i < blockSize) : (index i).exec s = (.error .panicked, s) := by
  rw [index, decide_eq_false h]
  rfl

theorem Panics.of_ok (h : m.exec s = (.ok a, s')) : Panics (m >>= f) s ↔ Panics (f a) s' := by
  rw [Panics, Panics, Checked.bind_ok h]

theorem Panics.of_error (h : m.exec s = (.error e, s')) : Panics (m >>= f) s ↔ e = .panicked := by
  rw [Panics, Checked.exec_bind, h]
  exact ⟨fun h => Except.error.inj h, fun h => congrArg _ h⟩

/-- Code that never panics. -/
def Calm (m : BoundM α) : Prop := ∀ s, ¬ Panics m s

theorem Calm.bind (hm : Calm m) (hf : ∀ a, Calm (f a)) : Calm (m >>= f) := by
  intro s
  rcases hrun : m.exec s with ⟨e | a, s'⟩
  · rw [Panics.of_error hrun]
    rintro rfl
    exact hm s (congrArg Prod.fst hrun)
  · rw [Panics.of_ok hrun]
    exact hf a s'

theorem Calm.pure : Calm (pure a : BoundM α) := fun _ h => nomatch h

theorem Calm.refused : Calm (Checked.ofExcept (.error .refused) : BoundM α) :=
  fun _ h => nomatch (Except.error.inj h : Halt.refused = .panicked)

theorem Calm.lift {m : AthM α} : Calm (lift m) := by
  intro s h
  rcases hrun : m s.volume with ⟨_ | a, v⟩
  · rw [Panics, lift_exec_none hrun] at h
    exact nomatch (Except.error.inj h : Halt.refused = .panicked)
  · rw [Panics, lift_exec_some hrun] at h
    exact nomatch h

theorem Calm.span : Calm (span off len) := fun _ h => nomatch h

theorem Calm.require : Calm (Checked.require c Halt.refused) := by
  cases c with
  | false => exact .refused
  | true => exact .pure

theorem Calm.index (h : i < blockSize) : Calm (index i) := by
  intro s hp
  rw [Panics, index_exec h] at hp
  exact nomatch hp

/-- Code under which the overrun flag stays `b`. -/
def Stays (b : Bool) (m : BoundM α) : Prop := ∀ s, s.overrun = b → (m.exec s).2.overrun = b

variable {b : Bool}

theorem Stays.bind (hm : Stays b m) (hf : ∀ a, Stays b (f a)) : Stays b (m >>= f) := by
  intro s hs
  have hkept := hm s hs
  rw [Checked.exec_bind]
  rcases hrun : m.exec s with ⟨e | a, s'⟩ <;> rw [hrun] at hkept
  · exact hkept
  · exact hf a s' hkept

theorem Stays.pure : Stays b (pure a : BoundM α) := fun _ h => h

theorem Stays.ofExcept {r : Except Halt α} : Stays b (Checked.ofExcept r : BoundM α) := fun _ h => h

theorem Stays.require : Stays b (Checked.require c e : BoundM Unit) :=
  Stays.ofExcept

theorem Stays.lift {m : AthM α} : Stays b (lift m) := by
  intro s hs
  rcases hrun : m s.volume with ⟨_ | a, v⟩
  · rw [lift_exec_none hrun]
    exact hs
  · rw [lift_exec_some hrun]
    exact hs

/-- A raw access within the buffer, or after one that was not. -/
theorem Stays.span (h : off + len ≤ blockSize ∨ b = true) : Stays b (span off len) := by
  intro s hs
  show (s.overrun || decide (blockSize < off + len)) = b
  rw [hs]
  rcases h with h | rfl
  · rw [decide_eq_false (by omega), Bool.or_false]
  · exact Bool.true_or _

end Run

/-! ## Loops -/

section Loops

variable {s : State} {b : Bool}

variable {change : Nat → Option (UInt8 → UInt8)} {l : List Nat} {rc : Block}

theorem stays_adjust : Stays b (adjust change l rc) := by
  induction l generalizing rc with
  | nil => exact .pure
  | cons i is ih =>
    refine .bind Stays.require fun _ => ?_
    cases change i with
    | none => exact ih
    | some f => exact .bind Stays.require fun _ => ih

/-- Every access of a loop over the refcounts is in range. -/
def InRange (change : Nat → Option (UInt8 → UInt8)) (l : List Nat) : Prop :=
  ∀ i ∈ l, i / 8 < blockSize ∧ ((change i).isSome → i < blockSize)

/-- What the loop leaves in the buffer. -/
def adjusted (change : Nat → Option (UInt8 → UInt8)) (l : List Nat) (rc : Block) : Block :=
  l.foldl (fun rc i => match change i with
    | none => rc
    | some f => putByte rc i (f (rc.get i))) rc

theorem adjust_exec (h : InRange change l) :
    (adjust change l rc).exec s = (.ok (adjusted change l rc), s) := by
  induction l generalizing rc with
  | nil => rfl
  | cons i is ih =>
    have hi := h i List.mem_cons_self
    have hrest : InRange change is := fun j hj => h j (List.mem_cons_of_mem _ hj)
    rw [adjust, Checked.bind_ok (index_exec hi.1), adjusted, List.foldl_cons]
    cases hc : change i with
    | none => exact ih hrest
    | some f =>
      dsimp only
      rw [Checked.bind_ok (index_exec (hi.2 (by rw [hc]; rfl)))]
      exact ih hrest

theorem adjust_panics (h : ¬ InRange change l) :
    (adjust change l rc).exec s = (.error .panicked, s) := by
  induction l generalizing rc with
  | nil => exact absurd (fun i hi => nomatch hi) h
  | cons i is ih =>
    rw [adjust, Checked.exec_bind]
    by_cases h8 : i / 8 < blockSize
    · rw [index_exec h8]
      have hrest : ((change i).isSome → i < blockSize) → ¬ InRange change is := by
        intro hi hin
        refine h fun j hj => ?_
        rcases List.mem_cons.mp hj with rfl | hj
        · exact ⟨h8, hi⟩
        · exact hin j hj
      cases hc : change i with
      | none => exact ih (hrest fun hs => by rw [hc] at hs; exact nomatch hs)
      | some f =>
        dsimp only
        rw [Checked.exec_bind]
        by_cases hi : i < blockSize
        · rw [index_exec hi]
          exact ih (hrest fun _ => hi)
        · rw [index_panics hi]
    · rw [index_panics h8]

/-- The scan for a slot reads the last one if none before it will do. -/
theorem findSlot_exec (buf : Block) (p : SnapshotEntry → Bool) :
    (findSlot buf p (List.range' 0 maxSnapshots)).exec s =
      (.ok ((List.range' 0 maxSnapshots).find? fun i => p (SnapshotEntry.read buf i)),
        ⟨s.volume, s.overrun || !(List.range' 0 15).any fun i => p (SnapshotEntry.read buf i)⟩) := by
  have happ : ∀ l : List Nat, (∀ i ∈ l, i < 15) → ∀ s,
      (findSlot buf p (l ++ [15])).exec s =
        (.ok ((l ++ [15]).find? fun i => p (SnapshotEntry.read buf i)),
          ⟨s.volume, s.overrun || !l.any fun i => p (SnapshotEntry.read buf i)⟩) := by
    intro l
    induction l with
    | nil =>
      intro _ s
      have hlast : (readEntry buf 15).exec s =
          (.ok (SnapshotEntry.read buf 15), ⟨s.volume, true⟩) := by
        show (Except.ok _, (⟨s.volume, s.overrun || true⟩ : State)) = _
        rw [Bool.or_true]
      rw [List.nil_append, findSlot, Checked.bind_ok hlast, List.any_nil, Bool.not_false,
        Bool.or_true, List.find?_cons]
      cases hp : p (SnapshotEntry.read buf 15) <;> rfl
    | cons i is ih =>
      intro hl s
      have hi := hl i List.mem_cons_self
      have hread : (readEntry buf i).exec s = (.ok (SnapshotEntry.read buf i), s) := by
        show (Except.ok _, (⟨s.volume, s.overrun || decide (blockSize < i * 256 + 264)⟩ : State)) = _
        rw [decide_eq_false (by rw [blockSize]; omega), Bool.or_false]
      rw [List.cons_append, findSlot, Checked.bind_ok hread, List.any_cons, List.find?_cons]
      cases hp : p (SnapshotEntry.read buf i) with
      | true =>
        rw [if_pos rfl, Bool.true_or, Bool.not_true, Bool.or_false]
        rfl
      | false =>
        rw [if_neg (by decide), ih (fun j hj => hl j (List.mem_cons_of_mem _ hj)) s, Bool.false_or]
  have hsplit : List.range' 0 maxSnapshots = List.range' 0 15 ++ [15] := by decide
  rw [hsplit]
  refine happ _ (fun i hi => ?_) s
  have := (List.mem_range'_1.mp hi).2
  omega

theorem findClear_exec {buf : Block} (h : ∀ i ∈ l, i / 8 < blockSize) :
    (findClear buf l).exec s = (.ok (l.find? fun i => !buf.bit i), s) := by
  induction l with
  | nil => rfl
  | cons i is ih =>
    rw [findClear, Checked.bind_ok (index_exec (h i List.mem_cons_self)), List.find?_cons]
    cases buf.bit i with
    | true => exact ih fun j hj => h j (List.mem_cons_of_mem _ hj)
    | false => rfl

theorem countUsed_exec {bm : Block} (h : ∀ i ∈ l, i / 8 < blockSize) :
    (countUsed bm l).exec s = (.ok (l.countP bm.bit), s) := by
  induction l with
  | nil => rfl
  | cons i is ih =>
    rw [countUsed, Checked.bind_ok (index_exec (h i List.mem_cons_self)),
      Checked.bind_ok (ih fun j hj => h j (List.mem_cons_of_mem _ hj)), List.countP_cons]
    cases bm.bit i <;> rfl

end Loops

/-! ## Volumes of any size -/

/-- A superblock whose tables are as long as the volume needs. -/
structure Sized (sb : Superblock) : Prop where
  total : 9 ≤ sb.totalBlocks
  bitmap : sb.blockBitmapBlocks = bitmapBlocksFor sb.totalBlocks
  refcount : sb.refcountBlocks = refcountBlocksFor sb.totalBlocks

namespace Sized

variable {sb : Superblock}

theorem bitmapIndexLimit (h : Sized sb) : sb.bitmapIndexLimit = sb.totalBlocks := by
  rw [Superblock.bitmapIndexLimit, Superblock.bitmapSpanBlocks, h.bitmap, bitmapBlocksFor,
    Superblock.bitsPerBlock, blockSize]
  split <;> omega

theorem refcountIndexLimit (h : Sized sb) : sb.refcountIndexLimit = sb.totalBlocks := by
  rw [Superblock.refcountIndexLimit, Superblock.refcountSpanBlocks, h.refcount, refcountBlocksFor,
    blockSize]
  split <;> omega

/-- One bitmap block covers 32768 blocks. -/
theorem total_le (h : Sized sb) (hspan : sb.bitmapSpanBlocks ≤ 1) :
    sb.totalBlocks ≤ Superblock.bitsPerBlock := by
  rw [Superblock.bitmapSpanBlocks, h.bitmap, bitmapBlocksFor, Superblock.bitsPerBlock,
    blockSize] at hspan
  rw [Superblock.bitsPerBlock, blockSize]
  split at hspan <;> omega

theorem bitmapSpanBlocks (_ : Sized sb) (hspan : sb.bitmapSpanBlocks ≤ 1) :
    sb.bitmapSpanBlocks = 1 := by
  rw [Superblock.bitmapSpanBlocks] at hspan ⊢
  split at hspan <;> split <;> omega

end Sized

/-- The volume after `allocate_block` took `b` from a one-block bitmap. -/
def taken (v : Volume) (b : Nat) : Volume :=
  let bitmap := v.superblock.blockBitmapBlock
  let v := (v.note .allocateBlock).write bitmap ((v.disk bitmap).setBit b)
  let v := v.setSuperblock fun sb => { sb with freeBlocks := sb.freeBlocks - 1 }
  let rc := v.superblock.refcountBlockOf b
  let v := v.write rc ((v.disk rc).putLE (b % blockSize) 1 (1 : UInt8).toNat)
  v.write 0 v.superblock.toBlock

/-- The first clear bit below the number of blocks. -/
def freeBlockOf (v : Volume) : Option Nat :=
  (List.range' 0 v.superblock.totalBlocks).find? fun i =>
    !(v.disk v.superblock.blockBitmapBlock).bit i

theorem freeBlockOf_lt {v : Volume} {b : Nat} (h : freeBlockOf v = some b) :
    b < v.superblock.totalBlocks := by
  rw [freeBlockOf, List.find?_range'_eq_some, List.mem_range'_1] at h
  omega

section Allocate

variable {v : Volume} {s : State} {b : Nat}

theorem writeRefcount_sized (h : Sized v.superblock) (hb : b < v.superblock.totalBlocks)
    (val : UInt8) : AthenaOS.writeRefcount b val v = (some (), v.counted b val) := by
  rw [writeRefcount_run, h.refcountIndexLimit, if_pos hb]

/-- The check in `write_refcount` is always met. -/
theorem writeRefcount_exec (b : Nat) (val : UInt8) :
    (writeRefcount b val).exec s = (lift (AthenaOS.writeRefcount b val)).exec s := by
  have hindex : b % blockSize < blockSize := Nat.mod_lt _ (by decide)
  rw [writeRefcount, Checked.bind_ok superblock_exec]
  by_cases hb : b < s.volume.superblock.refcountIndexLimit
  · rw [Checked.bind_ok (Checked.require_exec (decide_eq_true hb)),
      Checked.bind_ok (readBlock_exec _), Checked.bind_ok (index_exec hindex)]
    refine lift_exec_congr ?_
    unfold AthenaOS.writeRefcount
    rw [bind_some (superblock_run _), if_neg (by omega)]
    rfl
  · rw [decide_eq_false hb, Checked.exec_bind]
    refine Eq.trans rfl (lift_exec_none ?_).symm
    unfold AthenaOS.writeRefcount
    rw [bind_some (superblock_run _), if_pos (by omega)]
    rfl

theorem allocateBlock_run (h : Sized v.superblock) (hspan : v.superblock.bitmapSpanBlocks ≤ 1) :
    AthenaOS.allocateBlock v =
      match freeBlockOf v with
      | none => (none, v.note .allocateBlock)
      | some b => (some b, taken v b) := by
  have htotal := h.total
  unfold AthenaOS.allocateBlock
  rw [bind_some (mark_run _ _), bind_some (superblock_run _), note_superblock,
    h.bitmapSpanBlocks hspan, AthenaOS.allocateScan, bind_some (superblock_run _), note_superblock,
    h.bitmapIndexLimit, Nat.zero_mul, if_neg (by omega), Nat.zero_add,
    Nat.min_eq_right (h.total_le hspan)]
  have hin : AthenaOS.allocateIn 0 0 v.superblock.totalBlocks (v.note .allocateBlock) =
      match freeBlockOf v with
      | none => (some none, v.note .allocateBlock)
      | some b => (some (some b), taken v b) := by
    unfold AthenaOS.allocateIn
    rw [bind_some (superblock_run _), bind_some (readBlock_run _ _), note_disk, note_superblock,
      Nat.add_zero, Nat.sub_zero, ← freeBlockOf]
    cases hfree : freeBlockOf v with
    | none => rfl
    | some b =>
      have hb := freeBlockOf_lt hfree
      show ((writeVolBlock v.superblock.blockBitmapBlock _ >>= fun _ => _) : AthM (Option Nat)) _ = _
      have hsized : (((v.note .allocateBlock).write v.superblock.blockBitmapBlock
          ((v.disk v.superblock.blockBitmapBlock).setBit b)).setSuperblock fun sb =>
            { sb with freeBlocks := sb.freeBlocks - 1 }).superblock |> Sized :=
        ⟨h.total, h.bitmap, h.refcount⟩
      rw [bind_some (writeVolBlock_run _ _ _), bind_some (updateSuperblock_run _ _), Nat.zero_add,
        bind_some (writeRefcount_sized hsized hb 1), bind_some (flushSuperblock_run _)]
      rfl
  cases hfree : freeBlockOf v with
  | none =>
    rw [bind_some (hin.trans (by rw [hfree]))]
    rfl
  | some b =>
    rw [bind_some (hin.trans (by rw [hfree]))]
    rfl

variable {o : Bool}

/-- One bitmap block of a volume that has only one. -/
theorem allocateIn_exec (h : Sized v.superblock) (hspan : v.superblock.bitmapSpanBlocks ≤ 1) :
    (allocateIn 0 0 v.superblock.totalBlocks).exec ⟨v.note .allocateBlock, o⟩ =
      match freeBlockOf v with
      | none => (.ok none, ⟨v.note .allocateBlock, o⟩)
      | some b =>
        if v.superblock.freeBlocks = 0 then
          (.error .panicked, ⟨(v.note .allocateBlock).write v.superblock.blockBitmapBlock
            ((v.disk v.superblock.blockBitmapBlock).setBit b), o⟩)
        else (.ok (some b), ⟨taken v b, o⟩) := by
  have hle := h.total_le hspan
  have hclear : (findClear (v.disk v.superblock.blockBitmapBlock)
      (List.range' 0 v.superblock.totalBlocks)).exec ⟨v.note .allocateBlock, o⟩
        = (.ok (freeBlockOf v), ⟨v.note .allocateBlock, o⟩) := by
    refine findClear_exec fun i hi => ?_
    have := (List.mem_range'_1.mp hi).2
    rw [Superblock.bitsPerBlock, blockSize] at hle
    rw [blockSize]
    omega
  rw [allocateIn, Checked.bind_ok superblock_exec, Checked.bind_ok (readBlock_exec _)]
  dsimp only [note_superblock, note_disk]
  rw [Nat.add_zero, Nat.sub_zero, Checked.bind_ok hclear]
  cases hfree : freeBlockOf v with
  | none => rfl
  | some b =>
    have hb := freeBlockOf_lt hfree
    dsimp only
    have hwrite : ∀ data, (lift (writeVolBlock v.superblock.blockBitmapBlock data)).exec
        ⟨v.note .allocateBlock, o⟩ =
          (.ok (), ⟨(v.note .allocateBlock).write v.superblock.blockBitmapBlock data, o⟩) :=
      fun _ => lift_exec_some rfl
    rw [Checked.bind_ok (hwrite _), Checked.bind_ok superblock_exec]
    by_cases hzero : v.superblock.freeBlocks = 0
    · rw [if_pos hzero]
      exact Checked.bind_error (Checked.require_fails (decide_eq_false (Nat.not_le.mpr (by
        rw [write_superblock, note_superblock]
        omega))))
    · have hone : decide (1 ≤ v.superblock.freeBlocks) = true := decide_eq_true (by omega)
      rw [if_neg hzero, Nat.zero_add]
      refine (Checked.bind_ok (Checked.require_exec hone)).trans ?_
      refine (Checked.bind_ok (lift_exec_some rfl)).trans ?_
      have hsized : (((v.note .allocateBlock).write v.superblock.blockBitmapBlock
          ((v.disk v.superblock.blockBitmapBlock).setBit b)).setSuperblock fun sb =>
            { sb with freeBlocks := sb.freeBlocks - 1 }).superblock |> Sized :=
        ⟨h.total, h.bitmap, h.refcount⟩
      refine (Checked.bind_ok ((writeRefcount_exec b 1).trans
        (lift_exec_some (writeRefcount_sized hsized hb 1)))).trans ?_
      exact Checked.bind_ok (lift_exec_some rfl)

/-- `allocate_block` panics when it finds a block that `free_blocks` does not count. -/
theorem allocateBlock_exec (h : Sized v.superblock) (hspan : v.superblock.bitmapSpanBlocks ≤ 1) :
    allocateBlock.exec ⟨v, o⟩ =
      match freeBlockOf v with
      | none => (.error .refused, ⟨v.note .allocateBlock, o⟩)
      | some b =>
        if v.superblock.freeBlocks = 0 then
          (.error .panicked, ⟨(v.note .allocateBlock).write v.superblock.blockBitmapBlock
            ((v.disk v.superblock.blockBitmapBlock).setBit b), o⟩)
        else (.ok b, ⟨taken v b, o⟩) := by
  have htotal := h.total
  have hmark : (lift (mark .allocateBlock)).exec ⟨v, o⟩ = (.ok (), ⟨v.note .allocateBlock, o⟩) :=
    lift_exec_some rfl
  rw [allocateBlock, Checked.bind_ok hmark, Checked.bind_ok superblock_exec]
  dsimp only
  rw [note_superblock, h.bitmapSpanBlocks hspan, allocateScan, Checked.bind_ok superblock_exec]
  dsimp only
  rw [note_superblock, h.bitmapIndexLimit, Nat.zero_mul, if_neg (by omega), Nat.zero_add,
    Nat.min_eq_right (h.total_le hspan), Checked.exec_bind, allocateIn_exec h hspan]
  cases freeBlockOf v with
  | none => rfl
  | some b =>
    dsimp only
    by_cases hzero : v.superblock.freeBlocks = 0
    · rw [if_pos hzero, if_pos hzero]
    · rw [if_neg hzero, if_neg hzero]
      rfl

end Allocate

/-! ## Panics -/

/-- How many copies in a row find a block: `allocate_block`, then the write of the
copy. -/
def copiesTaken : List Block → Volume → Nat
  | [], _ => 0
  | data :: copies, v =>
    match AthenaOS.allocateBlock v with
    | (some b, v) => copiesTaken copies (v.store b data) + 1
    | (none, _) => 0

/-- The copies `create_snapshot` makes. -/
def frozenCopies (v : Volume) : List Block :=
  [v.disk v.superblock.blockBitmapBlock, v.disk v.superblock.inodeTableBlock,
    v.disk v.superblock.inodeBitmapBlock]

/-- Every set bit below the number of blocks has its refcount byte in the first block. -/
def BitsInFirst (total : Nat) (bm : Block) : Prop := ∀ i < total, bm.bit i = true → i < blockSize

section Panic

variable {v : Volume} {o : Bool} {β : Type}

variable {s : State} {limit : Nat}

theorem getInode_exec (id : Nat) :
    (getInode id).exec s =
    (.ok ((s.volume.disk (s.volume.superblock.inodeBlockOf id)).slice (id % 32 * 128)),
      ⟨s.volume, s.overrun || decide (blockSize < id % 32 * 128 + 136)⟩) := rfl

/-- One frozen copy: the volume keeps its layout, with one free block less. -/
theorem copied_sized (h : Sized v.superblock) (b : Nat) (data : Block) :
    Sized ((taken v b).store b data).superblock := ⟨h.total, h.bitmap, h.refcount⟩

theorem panics_copy (h : Sized v.superblock) (hspan : v.superblock.bitmapSpanBlocks ≤ 1)
    (data : Block) (f : Nat → BoundM β) :
    Panics (do let b ← allocateBlock; lift (storeBlock b data); f b) ⟨v, o⟩ ↔
      ∃ b, freeBlockOf v = some b ∧
        (v.superblock.freeBlocks = 0 ∨ Panics (f b) ⟨(taken v b).store b data, o⟩) := by
  have hexec := allocateBlock_exec (o := o) h hspan
  cases hfree : freeBlockOf v with
  | none =>
    rw [hfree] at hexec
    rw [Panics.of_error hexec]
    constructor
    · intro hhalt
      exact nomatch hhalt
    · rintro ⟨b, hb, -⟩
      exact nomatch hb
  | some b =>
    rw [hfree] at hexec
    by_cases hzero : v.superblock.freeBlocks = 0
    · rw [Panics.of_error (hexec.trans (if_pos hzero))]
      exact ⟨fun _ => ⟨b, rfl, .inl hzero⟩, fun _ => rfl⟩
    · rw [Panics.of_ok (hexec.trans (if_neg hzero)),
        Panics.of_ok (lift_exec_some (storeBlock_run _ _ _))]
      constructor
      · intro hp
        exact ⟨b, rfl, .inr hp⟩
      · rintro ⟨b', hb, hp⟩
        obtain rfl := Option.some.inj hb
        exact hp.resolve_left hzero

theorem copiesTaken_cons (h : Sized v.superblock) (hspan : v.superblock.bitmapSpanBlocks ≤ 1)
    (data : Block) (copies : List Block) : copiesTaken (data :: copies) v =
      match freeBlockOf v with
      | none => 0
      | some b => copiesTaken copies ((taken v b).store b data) + 1 := by
  rw [copiesTaken, allocateBlock_run h hspan]
  cases freeBlockOf v <;> rfl

/-- One copy, and then the others. -/
theorem panics_copies (h : Sized v.superblock) (hspan : v.superblock.bitmapSpanBlocks ≤ 1)
    (data : Block) (copies : List Block) (p : Prop) {f : Nat → BoundM β}
    (hf : ∀ b, Panics (f b) ⟨(taken v b).store b data, o⟩ ↔
      v.superblock.freeBlocks - 1 < copiesTaken copies ((taken v b).store b data) ∨
        (copiesTaken copies ((taken v b).store b data) = copies.length ∧ p)) :
    Panics (do let b ← allocateBlock; lift (storeBlock b data); f b) ⟨v, o⟩ ↔
      v.superblock.freeBlocks < copiesTaken (data :: copies) v ∨
        (copiesTaken (data :: copies) v = copies.length + 1 ∧ p) := by
  rw [panics_copy h hspan, copiesTaken_cons h hspan]
  cases hfree : freeBlockOf v with
  | none =>
    dsimp only
    constructor
    · rintro ⟨b, hb, -⟩
      exact nomatch hb
    · rintro (hlt | ⟨hlen, -⟩) <;> omega
  | some b =>
    dsimp only
    generalize htaken : copiesTaken copies ((taken v b).store b data) = k at hf
    have hiff := hf b
    rw [htaken] at hiff
    show _ ↔ v.superblock.freeBlocks < k + 1 ∨ (k + 1 = copies.length + 1 ∧ p)
    constructor
    · rintro ⟨b', hb, hzero | hp⟩
      · left
        omega
      · obtain rfl := Option.some.inj hb
        rcases hiff.mp hp with hlt | ⟨hlen, hp⟩
        · left
          omega
        · right
          exact ⟨by omega, hp⟩
    · intro hcond
      refine ⟨b, rfl, ?_⟩
      by_cases hzero : v.superblock.freeBlocks = 0
      · exact .inl hzero
      · refine .inr (hiff.mpr ?_)
        rcases hcond with hlt | ⟨hlen, hp⟩
        · left
          omega
        · right
          exact ⟨by omega, hp⟩

/-- A loop over the refcounts, and then code that does not panic. -/
theorem panics_adjust {change : Nat → Option (UInt8 → UInt8)} {l : List Nat} {rc : Block}
    {rest : Block → BoundM β} (hrest : InRange change l → ∀ rc, Calm (rest rc)) :
    Panics (adjust change l rc >>= rest) s ↔ ¬ InRange change l := by
  by_cases hin : InRange change l
  · rw [Panics.of_ok (adjust_exec hin)]
    exact iff_of_false (hrest hin _ _) (not_not.mpr hin)
  · rw [Panics.of_error (adjust_panics hin)]
    exact iff_of_true rfl hin

theorem calm_writeRefcount (b : Nat) (val : UInt8) : Calm (writeRefcount b val) := by
  intro s hp
  rw [Panics, writeRefcount_exec] at hp
  exact Calm.lift s hp

theorem calm_freeBlock (b : Nat) : Calm (freeBlock b) := by
  have hindex : b % Superblock.bitsPerBlock / 8 < blockSize := by
    rw [Superblock.bitsPerBlock, blockSize]
    omega
  unfold freeBlock
  refine .bind Calm.lift fun _ => Calm.bind Calm.lift fun sb => ?_
  refine .bind Calm.require fun _ => Calm.bind Calm.lift fun buf => ?_
  refine .bind (Calm.index hindex) fun _ => Calm.bind Calm.lift fun _ => ?_
  refine .bind (calm_writeRefcount _ _) fun _ => Calm.bind Calm.lift fun _ => Calm.lift

theorem calm_freeIfSet (b : Nat) : Calm (freeIfSet b) := by
  unfold freeIfSet
  split
  · exact calm_freeBlock b
  · exact .pure

/-- The loops over one bitmap stay in range when its bits do. -/
theorem inRange_iff {bm : Block} {f : UInt8 → UInt8} :
    InRange (onBits bm f) (List.range' 0 limit) ↔
      limit ≤ Superblock.bitsPerBlock ∧ BitsInFirst limit bm := by
  constructor
  · intro h
    constructor
    · by_contra hlimit
      rw [Superblock.bitsPerBlock, blockSize] at hlimit
      have hlast := (h 32768 (List.mem_range'_1.mpr (by omega))).1
      rw [blockSize] at hlast
      omega
    · intro i hi hset
      refine (h i (List.mem_range'_1.mpr (by omega))).2 ?_
      rw [onBits, if_pos hset]
      rfl
  · rintro ⟨hlimit, hbits⟩ i hi
    rw [Superblock.bitsPerBlock, blockSize] at hlimit
    have hlt := (List.mem_range'_1.mp hi).2
    refine ⟨by rw [blockSize]; omega, fun hsome => hbits i (by omega) ?_⟩
    by_contra hset
    rw [onBits, if_neg hset] at hsome
    cases hsome

/-- **When `create_snapshot` panics**: it counts more free blocks than `free_blocks`,
or a block in use past the first 4096. -/
theorem createSnapshot_panics (h : Sized v.superblock) (ts : Nat) :
    Panics (createSnapshot ts) ⟨v, o⟩ ↔
      v.superblock.bitmapSpanBlocks ≤ 1 ∧ (freeSnapshotSlot v.snapshotTable).isSome = true ∧
        (v.superblock.freeBlocks < copiesTaken (frozenCopies v) v ∨
          (copiesTaken (frozenCopies v) v = 3 ∧
            ¬ BitsInFirst v.superblock.totalBlocks (v.disk v.superblock.blockBitmapBlock))) := by
  rw [createSnapshot, Panics.of_ok superblock_exec]
  dsimp only
  by_cases hspan : v.superblock.bitmapSpanBlocks ≤ 1
  swap
  · rw [Panics.of_error (Checked.require_fails (decide_eq_false hspan))]
    exact iff_of_false (by decide) fun hcond => hspan hcond.1
  rw [Panics.of_ok (Checked.require_exec (decide_eq_true hspan)), Panics.of_ok (readBlock_exec _),
    Panics.of_ok (findSlot_exec _ _)]
  dsimp only
  rw [← Volume.snapshotTable, ← freeSnapshotSlot]
  cases hslot : freeSnapshotSlot v.snapshotTable with
  | none =>
    rw [Panics.of_error Checked.okOr_none_exec]
    exact iff_of_false (by decide) (by rintro ⟨_, ⟨⟩, _⟩)
  | some slot =>
    rw [Panics.of_ok Checked.okOr_some_exec, Panics.of_ok (readBlock_exec _),
      Panics.of_ok (readBlock_exec _), Panics.of_ok (readBlock_exec _),
      Panics.of_ok (getInode_exec _)]
    dsimp only
    refine (panics_copies h hspan _ [v.disk v.superblock.inodeTableBlock,
      v.disk v.superblock.inodeBitmapBlock] (¬ BitsInFirst v.superblock.totalBlocks
        (v.disk v.superblock.blockBitmapBlock)) fun b1 => ?_).trans ?_
    · refine panics_copies (copied_sized h b1 _) hspan _ [_] _ fun b2 => ?_
      refine panics_copies (copied_sized (copied_sized h b1 _) b2 _) hspan _ [] _ fun b3 => ?_
      rw [Panics.of_ok (readBlock_exec _), panics_adjust, h.bitmapIndexLimit, inRange_iff]
      · rw [copiesTaken]
        simp [h.total_le hspan]
      · intro _ rc
        refine .bind Calm.lift fun _ => Calm.bind Calm.lift fun _ => ?_
        refine .bind Calm.lift fun _ => Calm.bind Calm.span fun _ => ?_
        exact .bind Calm.lift fun _ => Calm.bind Calm.lift fun _ => Calm.pure
    · rw [← frozenCopies]
      exact ⟨fun hcond => ⟨hspan, rfl, hcond⟩, fun hcond => hcond.2.2⟩

/-- The loop of a rollback touches the blocks that are in one bitmap only. -/
def BitsAgree (total : Nat) (cur snap : Block) : Prop :=
  ∀ i < total, blockSize ≤ i → cur.bit i = snap.bit i

theorem rollback_inRange_iff {cur snap : Block} :
    InRange (rollbackChange cur snap) (List.range' 0 limit) ↔
      limit ≤ Superblock.bitsPerBlock ∧ BitsAgree limit cur snap := by
  have htouched : ∀ i, (rollbackChange cur snap i).isSome = true ↔ cur.bit i ≠ snap.bit i := by
    intro i
    rw [rollbackChange]
    cases cur.bit i <;> cases snap.bit i <;> decide
  constructor
  · intro h
    constructor
    · by_contra hlimit
      rw [Superblock.bitsPerBlock, blockSize] at hlimit
      have hlast := (h 32768 (List.mem_range'_1.mpr (by omega))).1
      rw [blockSize] at hlast
      omega
    · intro i hi hge
      by_contra hne
      have hlt := (h i (List.mem_range'_1.mpr (by omega))).2 ((htouched i).mpr hne)
      omega
  · rintro ⟨hlimit, hagree⟩ i hi
    rw [Superblock.bitsPerBlock, blockSize] at hlimit
    have hlt := (List.mem_range'_1.mp hi).2
    refine ⟨by rw [blockSize]; omega, fun hsome => ?_⟩
    by_contra hge
    exact (htouched i).mp hsome (hagree i (by omega) (by omega))

theorem calm_writeInode (inode : DiskInode) : Calm (writeInode inode) :=
  Calm.bind Calm.span fun _ => Calm.lift

theorem findSnapshot_named (buf : Block) (id : UInt32) :
    ((List.range' 0 maxSnapshots).find? fun i => named id (SnapshotEntry.read buf i))
      = findSnapshot buf id := rfl

/-- **When `rollback_to_snapshot` panics**: more than one bitmap block, or a block past
the first 4096 that only one of the bitmaps has in use. -/
theorem rollbackToSnapshot_panics (h : Sized v.superblock) (id : UInt32) :
    Panics (rollbackToSnapshot id) ⟨v, o⟩ ↔
      ∃ slot, findSnapshot v.snapshotTable id = some slot ∧
        ¬ (v.superblock.totalBlocks ≤ Superblock.bitsPerBlock ∧
          BitsAgree v.superblock.totalBlocks (v.disk v.superblock.blockBitmapBlock)
            (v.disk (SnapshotEntry.read v.snapshotTable slot).bitmapBlock)) := by
  rw [rollbackToSnapshot, Panics.of_ok superblock_exec]
  dsimp only
  rw [Panics.of_ok (readBlock_exec _), Panics.of_ok (findSlot_exec _ _)]
  dsimp only
  rw [← Volume.snapshotTable, findSnapshot_named]
  cases hslot : findSnapshot v.snapshotTable id with
  | none =>
    rw [Panics.of_error Checked.okOr_none_exec]
    exact iff_of_false (by decide) (by rintro ⟨_, ⟨⟩, _⟩)
  | some slot =>
    rw [Panics.of_ok Checked.okOr_some_exec, Panics.of_ok (lift_exec_some (mark_run _ _)),
      Panics.of_ok (readBlock_exec _), Panics.of_ok (readBlock_exec _),
      Panics.of_ok (readBlock_exec _)]
    dsimp only [note_disk]
    rw [h.bitmapIndexLimit, panics_adjust, rollback_inRange_iff]
    · constructor
      · intro hcond
        exact ⟨slot, rfl, hcond⟩
      · rintro ⟨slot', hsome, hcond⟩
        obtain rfl := Option.some.inj hsome
        exact hcond
    · intro hin rc
      refine .bind Calm.lift fun _ => Calm.bind Calm.lift fun _ => ?_
      refine .bind Calm.lift fun _ => Calm.bind Calm.lift fun _ => ?_
      refine .bind (calm_writeInode _) fun _ s => ?_
      -- the bits in use are at most as many as the blocks
      have hused := List.countP_le_length (p := (v.disk (SnapshotEntry.read v.snapshotTable
        slot).bitmapBlock).bit) (l := List.range' 0 v.superblock.totalBlocks)
      rw [List.length_range'] at hused
      rw [Panics.of_ok (countUsed_exec fun i hi => (hin i hi).1),
        Panics.of_ok (Checked.require_exec (decide_eq_true hused))]
      exact Calm.bind Calm.lift (fun _ => Calm.lift) s

/-- **When `delete_snapshot` panics**: more than one bitmap block, or a block past the
first 4096 in the frozen bitmap. -/
theorem deleteSnapshot_panics (h : Sized v.superblock) (id : UInt32) :
    Panics (deleteSnapshot id) ⟨v, o⟩ ↔
      ∃ slot, findSnapshot v.snapshotTable id = some slot ∧
        ¬ (v.superblock.totalBlocks ≤ Superblock.bitsPerBlock ∧
          BitsInFirst v.superblock.totalBlocks
            (v.disk (SnapshotEntry.read v.snapshotTable slot).bitmapBlock)) := by
  rw [deleteSnapshot, Panics.of_ok superblock_exec]
  dsimp only
  rw [Panics.of_ok (readBlock_exec _), Panics.of_ok (findSlot_exec _ _)]
  dsimp only
  rw [← Volume.snapshotTable, findSnapshot_named]
  cases hslot : findSnapshot v.snapshotTable id with
  | none =>
    rw [Panics.of_error Checked.okOr_none_exec]
    exact iff_of_false (by decide) (by rintro ⟨_, ⟨⟩, _⟩)
  | some slot =>
    rw [Panics.of_ok Checked.okOr_some_exec, Panics.of_ok (lift_exec_some (mark_run _ _)),
      Panics.of_ok (readBlock_exec _), Panics.of_ok (readBlock_exec _)]
    dsimp only [note_disk]
    rw [h.bitmapIndexLimit, panics_adjust, inRange_iff]
    · constructor
      · intro hcond
        exact ⟨slot, rfl, hcond⟩
      · rintro ⟨slot', hsome, hcond⟩
        obtain rfl := Option.some.inj hsome
        exact hcond
    · intro _ rc
      refine .bind Calm.lift fun _ => Calm.bind (calm_freeBlock _) fun _ => ?_
      refine .bind (calm_freeIfSet _) fun _ => Calm.bind (calm_freeIfSet _) fun _ => ?_
      refine .bind Calm.span fun _ => Calm.bind Calm.lift fun _ => ?_
      exact .bind Calm.lift fun _ => Calm.lift

end Panic

/-! ## Raw accesses -/

section Overrun

variable {v : Volume} {b : Bool}

theorem stays_writeRefcount (blockId : Nat) (val : UInt8) : Stays b (writeRefcount blockId val) := by
  intro s hs
  rw [writeRefcount_exec]
  exact Stays.lift s hs

theorem stays_findClear (buf : Block) (l : List Nat) : Stays b (findClear buf l) := by
  induction l with
  | nil => exact .pure
  | cons i is ih =>
    refine .bind Stays.require fun _ => ?_
    split
    · exact ih
    · exact .pure

theorem stays_allocateScan (n bm : Nat) : Stays b (allocateScan n bm) := by
  induction n generalizing bm with
  | zero => exact .ofExcept
  | succ n ih =>
    refine .bind Stays.lift fun sb => ?_
    dsimp only
    split
    · exact .ofExcept
    · refine .bind ?_ fun found => ?_
      · refine .bind Stays.lift fun sb => Stays.bind Stays.lift fun buf => ?_
        refine .bind (stays_findClear _ _) fun found => ?_
        cases found with
        | none => exact .pure
        | some i =>
          refine .bind Stays.lift fun _ => Stays.bind Stays.lift fun _ => ?_
          refine .bind Stays.require fun _ => Stays.bind Stays.lift fun _ => ?_
          refine .bind (stays_writeRefcount _ _) fun _ => ?_
          exact .bind Stays.lift fun _ => Stays.pure
      · cases found with
        | none => exact ih _
        | some block => exact .pure

theorem stays_allocateBlock : Stays b allocateBlock :=
  Stays.bind Stays.lift fun _ => Stays.bind Stays.lift fun _ => stays_allocateScan _ _

theorem stays_freeBlock (blockId : Nat) : Stays b (freeBlock blockId) := by
  refine .bind Stays.lift fun _ => Stays.bind Stays.lift fun sb => ?_
  refine .bind Stays.require fun _ => Stays.bind Stays.lift fun buf => ?_
  refine .bind Stays.require fun _ => Stays.bind Stays.lift fun _ => ?_
  refine .bind (stays_writeRefcount _ _) fun _ => ?_
  exact .bind Stays.lift fun _ => Stays.lift

theorem stays_freeIfSet (blockId : Nat) : Stays b (freeIfSet blockId) := by
  unfold freeIfSet
  split
  · exact stays_freeBlock blockId
  · exact .pure

theorem stays_countUsed (bm : Block) (l : List Nat) : Stays b (countUsed bm l) := by
  induction l with
  | nil => exact .pure
  | cons i is ih => exact .bind Stays.require fun _ => Stays.bind ih fun _ => Stays.pure

variable {slot : Nat} {buf : Block} {p : SnapshotEntry → Bool} {α β : Type} {s s' : State}

/-- The write of a slot reaches past the buffer only for the last one. -/
theorem stays_slot (h : slot < 15 ∨ b = true) : Stays b (span (slot * 256) 264) := by
  refine .span (h.imp_left fun hlt => ?_)
  rw [blockSize]
  omega

/-- Some slot before the last one satisfies `p`. -/
def FoundBeforeLast (buf : Block) (p : SnapshotEntry → Bool) : Prop :=
  ∃ i < 15, p (SnapshotEntry.read buf i) = true

theorem any_iff :
    ((List.range' 0 15).any fun i => p (SnapshotEntry.read buf i)) = true ↔
      FoundBeforeLast buf p := by
  rw [List.any_eq_true]
  constructor
  · rintro ⟨i, hi, hp⟩
    exact ⟨i, by have := (List.mem_range'_1.mp hi).2; omega, hp⟩
  · rintro ⟨i, hi, hp⟩
    exact ⟨i, by rw [List.mem_range'_1]; omega, hp⟩

/-- The first match is before the last slot exactly if any is. -/
theorem find_lt_iff
    (h : ((List.range' 0 maxSnapshots).find? fun i => p (SnapshotEntry.read buf i)) = some slot) :
    slot < 15 ↔ FoundBeforeLast buf p := by
  rw [List.find?_range'_eq_some, List.mem_range'_1] at h
  obtain ⟨hmatch, -, hbefore⟩ := h
  constructor
  · intro hlt
    exact ⟨slot, hlt, hmatch⟩
  · rintro ⟨i, hi, hp⟩
    by_contra hge
    have hnot := hbefore i (Nat.zero_le i) (by omega)
    rw [hp] at hnot
    exact absurd hnot (by decide)

theorem exists_find (h : FoundBeforeLast buf p) :
    ∃ slot < 15, ((List.range' 0 maxSnapshots).find? fun i => p (SnapshotEntry.read buf i))
      = some slot := by
  cases hfind : (List.range' 0 maxSnapshots).find? fun i => p (SnapshotEntry.read buf i) with
  | none =>
    obtain ⟨i, hi, hp⟩ := h
    rw [List.find?_eq_none] at hfind
    exact absurd hp (hfind i (by rw [List.mem_range'_1, maxSnapshots]; omega))
  | some slot => exact ⟨slot, (find_lt_iff hfind).mpr h, rfl⟩

/-- An inode record reaches past the buffer in the last place of its block. -/
theorem inodeSpan_iff (id : Nat) : blockSize < id % 32 * 128 + 136 ↔ id % 32 = 31 := by
  rw [blockSize]
  omega

/-- What follows a step that succeeds. -/
theorem overrun_of_ok {m : BoundM α} {f : α → BoundM β} {a : α} (h : m.exec s = (.ok a, s')) :
    ((m >>= f).exec s).2.overrun = ((f a).exec s').2.overrun := by
  rw [Checked.bind_ok h]

theorem overrun_of_error {m : BoundM α} {f : α → BoundM β} {e : Halt}
    (h : m.exec s = (.error e, s')) : ((m >>= f).exec s).2.overrun = s'.overrun := by
  rw [Checked.bind_error h]

/-- `i` is past the last slot before the last if none before it will do. -/
theorem any_eq_false_of_none
    (h : ((List.range' 0 maxSnapshots).find? fun i => p (SnapshotEntry.read buf i)) = none) :
    ((List.range' 0 15).any fun i => p (SnapshotEntry.read buf i)) = false := by
  rw [List.find?_eq_none] at h
  rw [List.any_eq_false]
  intro i hi
  refine h i ?_
  rw [List.mem_range'_1] at hi ⊢
  rw [maxSnapshots]
  omega

/-- After the scan found `slot`, its write cannot be the first to reach past a buffer. -/
theorem slot_or_flag (c : Bool)
    (h : ((List.range' 0 maxSnapshots).find? fun i => p (SnapshotEntry.read buf i)) = some slot) :
    slot < 15 ∨ (!((List.range' 0 15).any fun i => p (SnapshotEntry.read buf i)) || c) = true := by
  cases hany : (List.range' 0 15).any fun i => p (SnapshotEntry.read buf i) with
  | true => exact .inl ((find_lt_iff h).mpr (any_iff.mp hany))
  | false => exact .inr rfl

theorem createSnapshot_overrun (hspan : v.superblock.bitmapSpanBlocks ≤ 1) (ts : Nat) :
    ((createSnapshot ts).exec ⟨v, false⟩).2.overrun =
      (!((List.range' 0 15).any fun i =>
          decide ((SnapshotEntry.read v.snapshotTable i).active = 0)) ||
        decide (blockSize < v.superblock.rootInode % 32 * 128 + 136)) := by
  rw [createSnapshot, overrun_of_ok superblock_exec]
  dsimp only
  rw [overrun_of_ok (Checked.require_exec (decide_eq_true hspan)), overrun_of_ok (readBlock_exec _),
    overrun_of_ok (findSlot_exec _ _)]
  dsimp only
  rw [← Volume.snapshotTable, Bool.false_or]
  cases hslot : (List.range' 0 maxSnapshots).find? fun i =>
      decide ((SnapshotEntry.read v.snapshotTable i).active = 0) with
  | none =>
    rw [overrun_of_error Checked.okOr_none_exec, any_eq_false_of_none (p := (·.active = 0)) hslot]
    rfl
  | some slot =>
    have hkeep := slot_or_flag (p := (·.active = 0))
      (decide (blockSize < v.superblock.rootInode % 32 * 128 + 136)) hslot
    rw [overrun_of_ok Checked.okOr_some_exec, overrun_of_ok (readBlock_exec _),
      overrun_of_ok (readBlock_exec _), overrun_of_ok (readBlock_exec _),
      overrun_of_ok (getInode_exec _)]
    refine Stays.bind stays_allocateBlock (fun _ => Stays.bind Stays.lift fun _ => ?_) _ rfl
    refine Stays.bind stays_allocateBlock fun _ => Stays.bind Stays.lift fun _ => ?_
    refine .bind stays_allocateBlock fun _ => Stays.bind Stays.lift fun _ => ?_
    refine .bind Stays.lift fun _ => Stays.bind stays_adjust fun _ => ?_
    refine .bind Stays.lift fun _ => Stays.bind Stays.lift fun _ => ?_
    refine .bind Stays.lift fun _ => Stays.bind (stays_slot hkeep) fun _ => ?_
    exact .bind Stays.lift fun _ => Stays.bind Stays.lift fun _ => Stays.pure

theorem deleteSnapshot_overrun (id : UInt32) :
    ((deleteSnapshot id).exec ⟨v, false⟩).2.overrun =
      !((List.range' 0 15).any fun i => named id (SnapshotEntry.read v.snapshotTable i)) := by
  rw [deleteSnapshot, overrun_of_ok superblock_exec]
  dsimp only
  rw [overrun_of_ok (readBlock_exec _), overrun_of_ok (findSlot_exec _ _)]
  dsimp only
  rw [← Volume.snapshotTable, Bool.false_or]
  cases hslot : (List.range' 0 maxSnapshots).find? fun i =>
      named id (SnapshotEntry.read v.snapshotTable i) with
  | none =>
    rw [overrun_of_error Checked.okOr_none_exec]
  | some slot =>
    have hkeep := slot_or_flag (p := named id) false hslot
    rw [Bool.or_false] at hkeep
    rw [overrun_of_ok Checked.okOr_some_exec]
    refine Stays.bind Stays.lift (fun _ => Stays.bind Stays.lift fun _ => ?_) _ rfl
    refine Stays.bind Stays.lift fun _ => Stays.bind stays_adjust fun _ => ?_
    refine .bind Stays.lift fun _ => Stays.bind (stays_freeBlock _) fun _ => ?_
    refine .bind (stays_freeIfSet _) fun _ => Stays.bind (stays_freeIfSet _) fun _ => ?_
    refine .bind (stays_slot hkeep) fun _ => Stays.bind Stays.lift fun _ => ?_
    exact .bind Stays.lift fun _ => Stays.lift

theorem writeInode_exec (inode : DiskInode) :
    (writeInode inode).exec s =
    (.ok (), ⟨(AthenaOS.writeInode inode s.volume).2,
      s.overrun || decide (blockSize < inode.id % 32 * 128 + 136)⟩) := rfl

theorem rollbackToSnapshot_overrun (h : Sized v.superblock) (id : UInt32)
    (hrun : ¬ Panics (rollbackToSnapshot id) ⟨v, false⟩) :
    ((rollbackToSnapshot id).exec ⟨v, false⟩).2.overrun =
      match findSnapshot v.snapshotTable id with
      | none => true
      | some slot =>
        !((List.range' 0 15).any fun i => named id (SnapshotEntry.read v.snapshotTable i)) ||
          decide (blockSize < (SnapshotEntry.read v.snapshotTable slot).rootInode.id % 32 * 128 + 136)
      := by
  rw [rollbackToSnapshot_panics h] at hrun
  rw [rollbackToSnapshot, overrun_of_ok superblock_exec]
  dsimp only
  rw [overrun_of_ok (readBlock_exec _), overrun_of_ok (findSlot_exec _ _)]
  dsimp only
  rw [← Volume.snapshotTable, Bool.false_or, findSnapshot_named]
  cases hslot : findSnapshot v.snapshotTable id with
  | none =>
    rw [overrun_of_error Checked.okOr_none_exec, any_eq_false_of_none (p := named id) hslot]
    rfl
  | some slot =>
    have hin : InRange (rollbackChange (v.disk v.superblock.blockBitmapBlock)
        (v.disk (SnapshotEntry.read v.snapshotTable slot).bitmapBlock))
          (List.range' 0 v.superblock.totalBlocks) := by
      rw [rollback_inRange_iff]
      by_contra hnot
      exact hrun ⟨slot, hslot, hnot⟩
    rw [overrun_of_ok Checked.okOr_some_exec, overrun_of_ok (lift_exec_some (mark_run _ _)),
      overrun_of_ok (readBlock_exec _), overrun_of_ok (readBlock_exec _),
      overrun_of_ok (readBlock_exec _)]
    dsimp only [note_disk]
    rw [h.bitmapIndexLimit, overrun_of_ok (adjust_exec hin),
      overrun_of_ok (lift_exec_some (writeVolBlock_run _ _ _)),
      overrun_of_ok (lift_exec_some (writeVolBlock_run _ _ _)),
      overrun_of_ok (lift_exec_some (restored_run _ _ _)),
      overrun_of_ok (lift_exec_some (restored_run _ _ _)), overrun_of_ok (writeInode_exec _)]
    refine Stays.bind (stays_countUsed _ _) (fun _ => ?_) _ rfl
    exact Stays.bind Stays.require fun _ => Stays.bind Stays.lift fun _ => Stays.lift

end Overrun

/-! ## When the operations are safe -/

/-- No panic, and no access past a buffer. -/
def Safe {α : Type} (m : BoundM α) (v : Volume) : Prop :=
  ¬ Panics m ⟨v, false⟩ ∧ (m.exec ⟨v, false⟩).2.overrun = false

/-- `create_snapshot` refuses a longer bitmap, or finds a slot before the last one, the
root inode not in the last place of its block, a free count as high as its copies need
and, if all copies are made, no block in use past the first 4096. -/
def CreateInBounds (v : Volume) : Prop :=
  1 < v.superblock.bitmapSpanBlocks ∨
    (FoundBeforeLast v.snapshotTable (·.active = 0) ∧ v.superblock.rootInode % 32 ≠ 31 ∧
      copiesTaken (frozenCopies v) v ≤ v.superblock.freeBlocks ∧
      (copiesTaken (frozenCopies v) v = 3 →
        BitsInFirst v.superblock.totalBlocks (v.disk v.superblock.blockBitmapBlock)))

/-- `rollback_to_snapshot` finds its entry before the last slot, with a root inode not
in the last place of its block, on a volume of one bitmap block whose two bitmaps agree
past the first 4096 blocks. -/
def RollbackInBounds (v : Volume) (id : UInt32) : Prop :=
  ∃ slot < 15, findSnapshot v.snapshotTable id = some slot ∧
    (SnapshotEntry.read v.snapshotTable slot).rootInode.id % 32 ≠ 31 ∧
    v.superblock.totalBlocks ≤ Superblock.bitsPerBlock ∧
    BitsAgree v.superblock.totalBlocks (v.disk v.superblock.blockBitmapBlock)
      (v.disk (SnapshotEntry.read v.snapshotTable slot).bitmapBlock)

/-- `delete_snapshot` finds its entry before the last slot, on a volume of one bitmap
block whose frozen bitmap has no block past the first 4096. -/
def DeleteInBounds (v : Volume) (id : UInt32) : Prop :=
  ∃ slot < 15, findSnapshot v.snapshotTable id = some slot ∧
    v.superblock.totalBlocks ≤ Superblock.bitsPerBlock ∧
    BitsInFirst v.superblock.totalBlocks
      (v.disk (SnapshotEntry.read v.snapshotTable slot).bitmapBlock)

section Safety

variable {v : Volume}

theorem createSnapshot_safe_iff (h : Sized v.superblock) (ts : Nat) :
    Safe (createSnapshot ts) v ↔ CreateInBounds v := by
  rw [Safe, createSnapshot_panics h]
  by_cases hspan : v.superblock.bitmapSpanBlocks ≤ 1
  · rw [createSnapshot_overrun hspan, Bool.or_eq_false_iff, Bool.not_eq_false', decide_eq_false_iff_not,
      inodeSpan_iff, any_iff (p := (·.active = 0))]
    constructor
    · rintro ⟨hcalm, hfound, hroot⟩
      obtain ⟨slot, -, hslot⟩ := exists_find hfound
      have hsome : (freeSnapshotSlot v.snapshotTable).isSome = true := by
        rw [freeSnapshotSlot, hslot]
        rfl
      refine .inr ⟨hfound, hroot, ?_, ?_⟩
      · by_contra hlt
        exact hcalm ⟨hspan, hsome, .inl (Nat.lt_of_not_le hlt)⟩
      · intro hthree
        by_contra hnot
        exact hcalm ⟨hspan, hsome, .inr ⟨hthree, hnot⟩⟩
    · rintro (hlt | ⟨hfound, hroot, hfree, hbits⟩)
      · omega
      · refine ⟨?_, hfound, hroot⟩
        rintro ⟨-, -, hlt | ⟨hthree, hnot⟩⟩
        · omega
        · exact hnot (hbits hthree)
  · have hrefused : ((createSnapshot ts).exec ⟨v, false⟩).2.overrun = false := by
      rw [createSnapshot, overrun_of_ok superblock_exec]
      exact overrun_of_error (Checked.require_fails (decide_eq_false hspan))
    exact iff_of_true ⟨fun hp => hspan hp.1, hrefused⟩ (.inl (by omega))

theorem rollbackToSnapshot_safe_iff (h : Sized v.superblock) (id : UInt32) :
    Safe (rollbackToSnapshot id) v ↔ RollbackInBounds v id := by
  have hpanics := rollbackToSnapshot_panics (o := false) h id
  constructor
  · rintro ⟨hcalm, hover⟩
    rw [rollbackToSnapshot_overrun h id hcalm] at hover
    cases hslot : findSnapshot v.snapshotTable id with
    | none =>
      rw [hslot] at hover
      exact nomatch hover
    | some slot =>
      rw [hslot] at hover
      dsimp only at hover
      rw [Bool.or_eq_false_iff, Bool.not_eq_false', decide_eq_false_iff_not, inodeSpan_iff,
        any_iff] at hover
      have hin : v.superblock.totalBlocks ≤ Superblock.bitsPerBlock ∧
          BitsAgree v.superblock.totalBlocks (v.disk v.superblock.blockBitmapBlock)
            (v.disk (SnapshotEntry.read v.snapshotTable slot).bitmapBlock) := by
        by_contra hnot
        exact hcalm (hpanics.mpr ⟨slot, hslot, hnot⟩)
      exact ⟨slot, (find_lt_iff (p := named id) hslot).mpr hover.1, hslot, hover.2, hin⟩
  · rintro ⟨slot, hlt, hslot, hroot, hin⟩
    have hcalm : ¬ Panics (rollbackToSnapshot id) ⟨v, false⟩ := by
      rw [hpanics]
      rintro ⟨slot', hslot', hnot⟩
      obtain rfl := Option.some.inj (hslot.symm.trans hslot')
      exact hnot hin
    refine ⟨hcalm, ?_⟩
    rw [rollbackToSnapshot_overrun h id hcalm, hslot]
    dsimp only
    rw [Bool.or_eq_false_iff, Bool.not_eq_false', decide_eq_false_iff_not, inodeSpan_iff, any_iff]
    exact ⟨(find_lt_iff (p := named id) hslot).mp hlt, hroot⟩

theorem deleteSnapshot_safe_iff (h : Sized v.superblock) (id : UInt32) :
    Safe (deleteSnapshot id) v ↔ DeleteInBounds v id := by
  rw [Safe, deleteSnapshot_panics h, deleteSnapshot_overrun, Bool.not_eq_false', any_iff]
  constructor
  · rintro ⟨hcalm, hfound⟩
    obtain ⟨slot, hlt, hslot⟩ := exists_find hfound
    refine ⟨slot, hlt, hslot, ?_⟩
    by_contra hnot
    exact hcalm ⟨slot, hslot, hnot⟩
  · rintro ⟨slot, hlt, hslot, hin⟩
    refine ⟨fun ⟨slot', hslot', hnot⟩ => ?_, (find_lt_iff (p := named id) hslot).mp hlt⟩
    obtain rfl := Option.some.inj (hslot.symm.trans hslot')
    exact hnot hin

/-- **When the snapshot operations keep to their buffers**, on a volume of any size. -/
theorem snapshot_accesses_iff (v : Volume) (h : Sized v.superblock) :
    (∀ ts, Safe (createSnapshot ts) v ↔ CreateInBounds v) ∧
      (∀ id, Safe (rollbackToSnapshot id) v ↔ RollbackInBounds v id) ∧
      ∀ id, Safe (deleteSnapshot id) v ↔ DeleteInBounds v id :=
  ⟨createSnapshot_safe_iff h, rollbackToSnapshot_safe_iff h, deleteSnapshot_safe_iff h⟩

theorem snapshot_accesses_iff_blank : Safe (createSnapshot 0) blankVolume := by
  refine ((snapshot_accesses_iff blankVolume ⟨by decide, by decide, by decide⟩).1 0).mpr (.inr ?_)
  refine ⟨⟨0, by decide, by decide⟩, by decide, by decide, fun _ i hi _ => ?_⟩
  exact Nat.lt_of_lt_of_le hi (by decide)

/-- A volume of 8192 blocks: one bitmap block at 9, two refcount blocks at 10. -/
def largeSuperblock : Superblock :=
  { formatSuperblock with
    totalBlocks := 8192, freeBlocks := 8192 - 14, blockBitmapBlock := 9, refcountBlock := 10,
    blockBitmapBlocks := 1, refcountBlocks := 2 }

/-- The metadata blocks and block 5000 are in use. -/
def largeVolume : Volume where
  superblock := largeSuperblock
  disk b := if b = 9 then (Bytes.ofList [0xFF, 0b0001_1111] : Block).setBit 5000 else Bytes.zero
  trace := []

/-- **A block in use past the first 4096** is a refcount index past the buffer. -/
theorem largeVolume_panics : Panics (createSnapshot 0) ⟨largeVolume, false⟩ := by
  refine (createSnapshot_panics ⟨by decide, by decide, by decide⟩ 0).mpr
    ⟨by decide, by decide, .inr ⟨by decide, fun hbits => ?_⟩⟩
  exact absurd (hbits 5000 (by decide) (by decide)) (by decide)

theorem snapshot_accesses_past_end :
    ¬ ∀ v, Sized v.superblock → (∀ ts, Safe (createSnapshot ts) v) ∧
      (∀ id, Safe (rollbackToSnapshot id) v) ∧ ∀ id, Safe (deleteSnapshot id) v := by
  intro h
  exact ((h largeVolume ⟨by decide, by decide, by decide⟩).1 0).1 largeVolume_panics

end Safety

end Bounded

end AthenaOS
