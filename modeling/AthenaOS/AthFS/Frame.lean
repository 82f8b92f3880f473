import AthenaOS.AthFS.Effect
import AthenaOS.AthFS.Keep

/-!
# Invariants the allocator's tables do not touch

An invariant of the device that does not look at the superblock, the bitmap, the
refcounts, the journal, the bucket table or the versioned index is kept by every
call that only writes those. What is left to show is small: the blocks that file
data goes to, and the inode bitmap.
-/

namespace AthenaOS

open Lib Fallible

/-! ## States step by step -/

section Guard

variable {ok : Event → Prop} {I : Superblock → Disk → Prop} {c c' : Prop} {v : Volume}

variable {b : Nat} {data : Block} {g : Superblock → Superblock}

theorem allowed_write :
    (v.write b data).Allowed ok ↔ v.Allowed ok ∧ ok ⟨.write b data, v.superblock, v.disk⟩ :=
  allowed_note

theorem allowed_setSuperblock : (v.setSuperblock g).Allowed ok ↔ v.Allowed ok := Iff.rfl

theorem allowed_copied (h : (v.copied b data).Allowed ok) :
    v.Allowed ok ∧ ok ⟨.allocateBlock, v.superblock, v.disk⟩ := by
  simp only [Volume.copied, Volume.store, Volume.allocated, allowed_write, allowed_note,
    allowed_setSuperblock] at h
  exact h.1.1.1.1.1

/-- The three allocations of a snapshot, each in the state it was made in. -/
theorem allowed_snapshotted {ts slot bblk itblk ibblk : Nat}
    (h : (v.snapshotted ts slot bblk itblk ibblk).Allowed ok) :
    v.Allowed ok ∧ ok ⟨.allocateBlock, v.superblock, v.disk⟩ ∧
      (∃ sb, ok ⟨.allocateBlock, sb, (v.copied bblk (v.disk 2)).disk⟩ ∧
        (v.superblock.Formatted → sb.Formatted)) ∧
      ∃ sb, ok ⟨.allocateBlock, sb, ((v.copied bblk (v.disk 2)).copied itblk (v.disk 3)).disk⟩ ∧
        (v.superblock.Formatted → sb.Formatted) := by
  simp only [Volume.snapshotted, allowed_write, allowed_setSuperblock] at h
  obtain ⟨h2, hok3⟩ := allowed_copied h.1.1.1
  obtain ⟨h1, hok2⟩ := allowed_copied h2
  obtain ⟨h0, hok1⟩ := allowed_copied h1
  refine ⟨h0, hok1, ⟨_, hok2, fun hsb => copied_formatted hsb _ _⟩, ⟨_, hok3, fun hsb => ?_⟩⟩
  exact copied_formatted (copied_formatted hsb _ _) _ _

theorem allowed_restored {dst frozen : Nat} (h : (v.restored dst frozen).Allowed ok) :
    v.Allowed ok := by
  unfold Volume.restored at h
  split at h
  · exact h
  · exact (allowed_write.mp h).1

theorem allowed_rolledBack {snap : SnapshotEntry} (h : (v.rolledBack snap).Allowed ok) :
    v.Allowed ok ∧ ok ⟨.rollback snap, v.superblock, v.disk⟩ ∧
      ∃ disk, ok ⟨.overwrite (3 + snap.rootInode.id / 32), v.superblock, disk⟩ ∧
        ok ⟨.store (3 + snap.rootInode.id / 32), v.superblock, disk⟩ := by
  simp only [Volume.rolledBack, Volume.inodeWritten, Volume.store, allowed_write, allowed_note,
    allowed_setSuperblock, note_superblock, restored_superblock, write_superblock] at h
  obtain ⟨⟨⟨⟨hrestored, hover⟩, hstore⟩, -⟩, -⟩ := h
  have hwritten := allowed_restored (allowed_restored hrestored)
  simp only [allowed_write, allowed_note] at hwritten
  exact ⟨hwritten.1.1.1, hwritten.1.1.2, _, hover, hstore⟩

/-- What a recorded call says, added to the fact. -/
theorem Guarded.note {call : Call} (hv : Guarded ok I c v)
    (hcall : ok ⟨call, v.superblock, v.disk⟩ → I v.superblock v.disk → c → c') :
    Guarded ok I c' (v.note call) := by
  refine ⟨hv.1, fun ha => ?_⟩
  obtain ⟨hbefore, hok⟩ := allowed_note.mp ha
  obtain ⟨hI, hc⟩ := hv.2 hbefore
  exact ⟨hI, hcall hok hI hc⟩

theorem Guarded.write (hv : Guarded ok I c v) (h : v.superblock.Formatted → c →
      I v.superblock v.disk → I v.superblock (writeBlock v.disk b data)) :
    Guarded ok I c (v.write b data) := by
  refine ⟨hv.1, fun ha => ?_⟩
  obtain ⟨hI, hc⟩ := hv.2 (allowed_write.mp ha).1
  exact ⟨h hv.1 hc hI, hc⟩

theorem Guarded.setSuperblock (hv : Guarded ok I c v)
    (hg : v.superblock.Formatted → (g v.superblock).Formatted)
    (h : I v.superblock v.disk → I (g v.superblock) v.disk) :
    Guarded ok I c (v.setSuperblock g) := by
  refine ⟨hg hv.1, fun ha => ?_⟩
  obtain ⟨hI, hc⟩ := hv.2 ha
  exact ⟨h hI, hc⟩

end Guard

/-! ## Obligations -/

/-- What an invariant of the device that ignores the allocator's tables has to do.
`w b` says that storing to block `b` is harmless. -/
structure Ignores (ok : Event → Prop) (J : Disk → Prop) (w : Nat → Prop) : Prop where
  tables : ∀ disk b data, b ∈ [0, 2, 4, 6, 7, 8] → J disk → J (writeBlock disk b data)
  store : ∀ sb disk b data, sb.Formatted → w b → ok ⟨.store b, sb, disk⟩ → J disk →
    J (writeBlock disk b data)
  overwrite : ∀ sb disk b, sb.Formatted → ok ⟨.overwrite b, sb, disk⟩ → J disk → w b
  consult : ∀ sb disk b, sb.Formatted → ok ⟨.consult b, sb, disk⟩ →
    (b < 256 → (disk 4).get b ≤ 1) → J disk → w b
  fresh : ∀ sb disk b, sb.Formatted → ok ⟨.allocateBlock, sb, disk⟩ →
    firstFree (disk 2) = some b → J disk → w b
  issue : ∀ sb disk i, sb.Formatted → ok ⟨.allocateInode, sb, disk⟩ →
    (List.range' 1 (Superblock.bitsPerBlock - 1)).find? (fun i => !(disk 1).bit i) = some i →
    J disk → J (writeBlock disk 1 ((disk 1).setBit i))
  retire : ∀ disk i, J disk → J (writeBlock disk 1 ((disk 1).clearBit i))

namespace Ignores

variable {ok : Event → Prop} {J : Disk → Prop} {w : Nat → Prop} {c : Prop} {v : Volume}

variable {b : Nat} {data : Block}

/-- A write to one of the ignored tables. -/
theorem guarded (K : Ignores ok J w) (hv : Guarded ok (fun _ => J) c v)
    (hb : b ∈ [0, 2, 4, 6, 7, 8]) : Guarded ok (fun _ => J) c (v.write b data) :=
  hv.write fun _ _ hJ => K.tables _ _ _ hb hJ

theorem writeTable (K : Ignores ok J w) (hb : b ∈ [0, 2, 4, 6, 7, 8]) :
    Preserves (Guarded ok (fun _ => J) c) (writeVolBlock b data) :=
  ⟨fun _ hv => K.guarded hv hb⟩

theorem writeRefcount (K : Ignores ok J w) (b : Nat) (val : UInt8) :
    Preserves (Guarded ok (fun _ => J) c) (writeRefcount b val) := by
  refine ⟨fun v hv => ?_⟩
  rw [writeRefcount_eq hv.1]
  split
  · exact K.guarded hv (by decide)
  · exact hv

theorem decRefcount (K : Ignores ok J w) (b : Nat) :
    Preserves (Guarded ok (fun _ => J) c) (decRefcount b) := by
  refine ⟨fun v hv => ?_⟩
  rw [decRefcount_eq hv.1]
  split
  · exact K.guarded hv (by decide)
  · exact hv

theorem consultRefcount (K : Ignores ok J w) (b : Nat) :
    Spec (Guarded ok (fun _ => J) c) (consultRefcount b)
      (fun rc => Guarded ok (fun _ => J) (c ∧ (rc ≤ 1 → w b))) (Guarded ok (fun _ => J) c) := by
  refine ⟨fun v hv => ?_⟩
  unfold AthenaOS.consultRefcount
  have hsb : (v.note (.consult b)).superblock.Formatted := hv.1
  rw [bind_some (mark_run _ _), bind_some (readRefcount_eq hsb)]
  refine hv.note fun hok hJ hc => ⟨hc, fun hrc => K.consult _ _ _ hv.1 hok (fun hb => ?_) hJ⟩
  rw [if_pos hb] at hrc
  exact hrc

theorem allocateBlock (K : Ignores ok J w) :
    Spec (Guarded ok (fun _ => J) c) allocateBlock (fun b => Guarded ok (fun _ => J) (c ∧ w b))
      (Guarded ok (fun _ => J) c) := by
  refine ⟨fun v hv => ?_⟩
  rw [allocateBlock_eq hv.1]
  cases hfree : firstFree (v.disk 2) with
  | none => exact hv.note fun _ _ hc => hc
  | some b =>
    have htaken : Guarded ok (fun _ => J) (c ∧ w b) (v.note .allocateBlock) :=
      hv.note fun hok hJ hc => ⟨hc, K.fresh _ _ _ hv.1 hok hfree hJ⟩
    refine K.guarded (K.guarded ?_ (by decide)) (by decide)
    refine Guarded.setSuperblock ?_ (fun h => h.setFree _) fun h => h
    exact K.guarded htaken (by decide)

theorem freeBlock (K : Ignores ok J w) (b : Nat) :
    Preserves (Guarded ok (fun _ => J) c) (freeBlock b) := by
  refine ⟨fun v hv => ?_⟩
  rw [freeBlock_eq hv.1]
  have hnoted : Guarded ok (fun _ => J) c (v.note (.freeBlock b)) := hv.note fun _ _ hc => hc
  split
  · refine K.guarded (Guarded.setSuperblock ?_ (fun h => h.setFree _) fun h => h) (by decide)
    exact K.guarded (K.guarded hnoted (by decide)) (by decide)
  · exact hnoted

theorem releaseBlock (K : Ignores ok J w) (b : Nat) :
    Preserves (Guarded ok (fun _ => J) c) (releaseBlock b) := by
  unfold AthenaOS.releaseBlock
  refine .bind (guarded_mark _) fun _ => ?_
  refine .bind (K.decRefcount b) fun _ => ?_
  exact .ite (K.freeBlock b) Preserves.pure

theorem bumpRefcount (K : Ignores ok J w) (b : Nat) :
    Preserves (Guarded ok (fun _ => J) c) (bumpRefcount b) := by
  unfold AthenaOS.bumpRefcount
  refine .bind (guarded_mark _) fun _ => ?_
  refine .bind (guarded_readRefcount b) fun cur => ?_
  cases cur with
  | none => exact .pure
  | some cur =>
    exact .bind (.attempt (K.writeRefcount b _)) fun _ => .pure

theorem storeBlock (K : Ignores ok J w) (hb : c → w b) :
    Preserves (Guarded ok (fun _ => J) c) (storeBlock b data) := by
  refine ⟨fun v hv => ?_⟩
  have hnoted : Guarded ok (fun _ => J) (c ∧ ok ⟨.store b, v.superblock, v.disk⟩)
      (v.note (.store b)) := hv.note fun hok _ hc => ⟨hc, hok⟩
  have hstored : Guarded ok (fun _ => J) (c ∧ ok ⟨.store b, v.superblock, v.disk⟩)
      ((v.note (.store b)).write b data) :=
    hnoted.write fun hsb hc hJ => K.store _ _ _ _ hsb (hb hc.1) hc.2 hJ
  exact hstored.mono And.left

/-- `write_btree_node_cow` as `insert_extent` calls it, on the root. -/
theorem writeBtreeNodeCow (K : Ignores ok J w) (buf : Block) (inode : DiskInode) :
    Preserves (Guarded ok (fun _ => J) c) (writeBtreeNodeCow inode.btreeRoot buf inode) := by
  unfold AthenaOS.writeBtreeNodeCow
  refine Spec.bind (K.consultRefcount _) fun rc => ?_
  refine .ite (fun hrc => ?inPlace) fun _ => ?copy
  case inPlace =>
    refine Guarded.step And.left (K.storeBlock fun h => h.2 hrc) fun _ => ?_
    exact .pure fun _ h => h.mono And.left
  case copy =>
    refine .pre ?_ fun _ h => h.mono And.left
    rw [if_pos rfl]
    refine .bind (Q := fun o => Guarded ok (fun _ => J) (c ∧ ∀ b, o = some b → w b))
      (Spec.attempt (K.allocateBlock.post ?_ ?_)) fun o => ?_
    · intro b v hv
      exact hv.mono fun hc => ⟨hc.1, fun b' hb' => Option.some.inj hb' ▸ hc.2⟩
    · intro v hv
      exact hv.mono fun hc => ⟨hc, fun b hb => absurd hb (by simp)⟩
    · cases o with
      | none => exact .pure fun _ h => h.mono And.left
      | some new =>
        refine Guarded.step And.left (K.storeBlock (b := new) fun h => h.2 new rfl) fun _ => ?_
        refine Guarded.step And.left (.attempt (K.decRefcount _)) fun _ => ?_
        exact .pure fun _ h => h.mono And.left

theorem allocateInode (K : Ignores ok J w) :
    Preserves (Guarded ok (fun _ => J) c) allocateInode := by
  refine ⟨fun v hv => ?_⟩
  unfold AthenaOS.allocateInode
  have hnoted : Guarded ok (fun _ => J) (c ∧ ok ⟨.allocateInode, v.superblock, v.disk⟩)
      (v.note .allocateInode) := hv.note fun hok _ hc => ⟨hc, hok⟩
  rw [bind_some (mark_run _ _), bind_some (superblock_run _), bind_some (readBlock_run _ _),
    note_disk, note_superblock, hv.1.inodeBitmapBlock]
  cases hfree : (List.range' 1 (Superblock.bitsPerBlock - 1)).find?
      fun i => !(v.disk 1).bit i with
  | none => exact hnoted.mono And.left
  | some i =>
    exact (hnoted.write fun hsb hc hJ => K.issue _ _ _ hsb hc.2 hfree hJ).mono And.left

theorem clearInodeBit (K : Ignores ok J w) (id : Nat) :
    Preserves (Guarded ok (fun _ => J) c) (clearInodeBit id) := by
  refine ⟨fun v hv => ?_⟩
  unfold AthenaOS.clearInodeBit
  rw [bind_some (superblock_run _), bind_some (readBlock_run _ _), hv.1.inodeBitmapBlock]
  exact hv.write fun _ _ hJ => K.retire _ _ hJ

/-! ## Snapshot operations -/

theorem flushSuperblock (K : Ignores ok J w) :
    Preserves (Guarded ok (fun _ => J) c) flushSuperblock := by
  refine ⟨fun v hv => ?_⟩
  exact K.guarded hv (by decide)

/-- One frozen copy: allocate a block and store to it. -/
theorem allocateStore (K : Ignores ok J w) (data : Block) {β : Type} {f : Nat → AthM β}
    (hf : ∀ b, Preserves (Guarded ok (fun _ => J) c) (f b)) :
    Preserves (Guarded ok (fun _ => J) c) (do
      let b ← AthenaOS.allocateBlock
      AthenaOS.storeBlock b data
      f b) := by
  refine Spec.bind K.allocateBlock fun b => ?_
  refine Guarded.step And.left (K.storeBlock And.right) fun _ => ?_
  exact (hf b).pre fun _ h => h.mono And.left

theorem createSnapshot (K : Ignores ok J w)
    (htable : ∀ disk data, J disk → J (writeBlock disk 5 data)) (ts : Nat) :
    Preserves (Guarded ok (fun _ => J) c) (createSnapshot ts) := by
  unfold AthenaOS.createSnapshot
  refine Spec.bind guarded_superblock fun sb => Guarded.pre fun hsb => ?_
  refine .bind Preserves.require fun _ => ?_
  refine .bind (guarded_readBlock _) fun snapBuf => ?_
  refine .bind Preserves.ofOption fun slot => ?_
  refine .bind (guarded_readBlock _) fun bitmapCopy => ?_
  refine .bind (guarded_readBlock _) fun itableCopy => ?_
  refine .bind (guarded_readBlock _) fun ibitmapCopy => ?_
  refine .bind (guarded_getInode _) fun root => ?_
  refine K.allocateStore _ fun bblk => ?_
  refine K.allocateStore _ fun itblk => ?_
  refine K.allocateStore _ fun ibblk => ?_
  refine .bind (guarded_readBlock _) fun rcBuf => ?_
  refine .bind Preserves.require fun _ => ?_
  rw [hsb.refcountBlock, hsb.snapshotBlock]
  refine .bind (K.writeTable (by decide)) fun _ => ?_
  refine .bind (guarded_modify (fun _ h => h.setCount _) fun _ _ _ h => h) fun _ => ?_
  refine Spec.bind guarded_superblock fun _ => Guarded.pre fun _ => ?_
  refine .bind (guarded_write fun _ _ _ _ h => htable _ _ h) fun _ => ?_
  exact Preserves.bind K.flushSuperblock fun _ => Preserves.pure

theorem deleteSnapshot (K : Ignores ok J w)
    (htable : ∀ disk data, J disk → J (writeBlock disk 5 data)) (id : UInt32) :
    Preserves (Guarded ok (fun _ => J) c) (deleteSnapshot id) := by
  unfold AthenaOS.deleteSnapshot
  refine Spec.bind guarded_superblock fun sb => Guarded.pre fun hsb => ?_
  refine .bind (guarded_readBlock _) fun snapBuf => ?_
  refine .bind Preserves.ofOption fun slot => ?_
  refine .bind (guarded_mark _) fun _ => ?_
  refine .bind (guarded_readBlock _) fun snapBm => ?_
  refine .bind (guarded_readBlock _) fun rc => ?_
  refine .bind Preserves.require fun _ => ?_
  refine .bind Preserves.require fun _ => ?_
  rw [hsb.refcountBlock, hsb.snapshotBlock]
  refine .bind (K.writeTable (by decide)) fun _ => ?_
  refine .bind (K.freeBlock _) fun _ => ?_
  refine .bind (Preserves.when (K.freeBlock _)) fun _ => ?_
  refine .bind (Preserves.when (K.freeBlock _)) fun _ => ?_
  refine .bind (guarded_write fun _ _ _ _ h => htable _ _ h) fun _ => ?_
  refine .bind (guarded_modify (fun _ h => h.setCount _) fun _ _ _ h => h) fun _ => ?_
  exact K.flushSuperblock

/-! ## All obligations -/

/-- **An invariant that ignores the allocator's tables meets every obligation.** -/
theorem keeps (K : Ignores ok J w) : Keeps ok (fun _ => J) w where
  tables _ disk b data _ hb hJ := by
    refine K.tables disk b data ?_ hJ
    simp only [List.mem_cons, List.not_mem_nil, or_false] at hb ⊢
    omega
  counters _ _ _ hJ := hJ
  store := K.store
  overwrite := K.overwrite
  consult _ b := K.consultRefcount b
  allocate _ := K.allocateBlock
  free _ b := K.freeBlock b
  release _ b := K.releaseBlock b
  bump _ b := K.bumpRefcount b
  nodeCow _ buf inode := K.writeBtreeNodeCow buf inode
  allocateInode _ := K.allocateInode
  clearInodeBit _ id := K.clearInodeBit id

end Ignores

end AthenaOS
