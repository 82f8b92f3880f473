import AthenaOS.AthFS.Operation

/-!
# Lifting an invariant through the operations

A property of the volume is proved once for the primitive calls (allocate, free,
count, store) and then holds through every file, bucket, shared and version
operation, whatever its arguments and wherever it fails.

- `Keeps ok I w`: the obligations of `I` for the primitive calls. `w b` says that
  storing to block `b` is harmless; it comes from the allocator, from a refcount of
  at most 1, or from the guard of an unchecked write.
-/

namespace AthenaOS

open Lib Fallible

/-! ## Guarded invariants -/

/-- While all recorded calls met `ok`, both `I` and `c` hold. -/
def Guarded (ok : Event → Prop) (I : Superblock → Disk → Prop) (c : Prop) (v : Volume) : Prop :=
  v.superblock.Formatted ∧ (v.Allowed ok → I v.superblock v.disk ∧ c)

section Basics

variable {ok : Event → Prop} {I : Superblock → Disk → Prop} {c c' : Prop} {v : Volume}
variable {α β : Type} {m : AthM α} {f : α → AthM β}

theorem allowed_note {call : Call} :
    (v.note call).Allowed ok ↔ v.Allowed ok ∧ ok ⟨call, v.superblock, v.disk⟩ := by
  constructor
  · intro h
    exact ⟨fun e he => h e (List.mem_append_left _ he),
      h _ (List.mem_append_right _ (List.mem_singleton_self _))⟩
  · rintro ⟨hv, hcall⟩ e he
    rcases List.mem_append.mp he with he | he
    · exact hv e he
    · rw [List.mem_singleton.mp he]
      exact hcall

theorem Guarded.mono (hc : c' → c) (h : Guarded ok I c' v) : Guarded ok I c v :=
  ⟨h.1, fun ha => ⟨(h.2 ha).1, hc (h.2 ha).2⟩⟩

/-- A program that keeps the stronger fact, seen from the weaker one. -/
theorem Guarded.last (hc : c' → c) (h : Preserves (Guarded ok I c') m) :
    Spec (Guarded ok I c') m (fun _ => Guarded ok I c) (Guarded ok I c) :=
  h.post (fun _ _ hv => hv.mono hc) fun _ hv => hv.mono hc

/-- One step of a program under a fact that only the rest of it needs. -/
theorem Guarded.step {R : β → Volume → Prop} (hc : c' → c) (h : Preserves (Guarded ok I c') m)
    (hf : ∀ a, Spec (Guarded ok I c') (f a) R (Guarded ok I c)) :
    Spec (Guarded ok I c') (m >>= f) R (Guarded ok I c) := by
  refine .bind (Q := fun _ => Guarded ok I c') ?_ hf
  exact h.post (fun _ _ hv => hv) fun _ hv => hv.mono hc

/-- A pure fact about what was read can be added to the precondition. -/
theorem Guarded.pre {p : Prop} {R : α → Volume → Prop} {E : Volume → Prop}
    (h : p → Spec (Guarded ok I c) m R E) :
    Spec (fun v => Guarded ok I c v ∧ p) m R E := ⟨fun v hv => (h hv.2).run v hv.1⟩

theorem guarded_mark (call : Call) : Preserves (Guarded ok I c) (mark call) :=
  ⟨fun _ hv => ⟨hv.1, fun ha => hv.2 (allowed_note.mp ha).1⟩⟩

theorem guarded_readBlock (b : Nat) : Preserves (Guarded ok I c) (readBlock b) :=
  ⟨fun _ hv => hv⟩

theorem guarded_readBlockIf (p : Bool) (b : Nat) : Preserves (Guarded ok I c) (readBlockIf p b) :=
  Preserves.ite (guarded_readBlock b) Preserves.pure

theorem guarded_superblock :
    Spec (Guarded ok I c) superblock (fun sb v => Guarded ok I c v ∧ sb.Formatted) (Guarded ok I c) :=
  ⟨fun _ hv => ⟨hv, hv.1⟩⟩

theorem guarded_getInode (id : Nat) : Preserves (Guarded ok I c) (getInode id) :=
  ⟨fun _ hv => hv⟩

theorem guarded_readRefcount (b : Nat) : Preserves (Guarded ok I c) (readRefcount b) := by
  refine Spec.bind guarded_superblock fun sb => Guarded.pre fun _ => ?_
  refine Preserves.ite Preserves.pure ?_
  exact .bind (guarded_readBlock _) fun _ => .pure

/-- A write to a block keeps the invariant if the invariant does not look there. -/
theorem guarded_write {b : Nat} {data : Block}
    (h : ∀ sb disk, sb.Formatted → c → I sb disk → I sb (writeBlock disk b data)) :
    Preserves (Guarded ok I c) (writeVolBlock b data) := by
  refine ⟨fun v hv => ⟨hv.1, fun ha => ?_⟩⟩
  have ha : (v.note (.write b data)).Allowed ok := ha
  obtain ⟨hI, hc⟩ := hv.2 (allowed_note.mp ha).1
  exact ⟨h _ _ hv.1 hc hI, hc⟩

/-- A change of the superblock's counters. -/
theorem guarded_modify {g : Superblock → Superblock} (hg : ∀ sb, sb.Formatted → (g sb).Formatted)
    (h : ∀ sb disk, sb.Formatted → I sb disk → I (g sb) disk) :
    Preserves (Guarded ok I c) (updateSuperblock g) := by
  refine ⟨fun v hv => ⟨hg _ hv.1, fun ha => ?_⟩⟩
  obtain ⟨hI, hc⟩ := hv.2 ha
  exact ⟨h _ _ hv.1 hI, hc⟩

end Basics

/-! ## Obligations of an invariant -/

/-- What an invariant has to do for the primitive calls. -/
structure Keeps (ok : Event → Prop) (I : Superblock → Disk → Prop) (w : Nat → Prop) : Prop where
  /-- Superblock, journal, bucket table and versioned index may change. -/
  tables : ∀ sb disk b data, sb.Formatted → b ∈ [0, 6, 7, 8] → I sb disk →
    I sb (writeBlock disk b data)
  counters : ∀ (sb : Superblock) disk n, I sb disk → I { sb with journalSeq := n } disk
  store : ∀ sb disk b data, sb.Formatted → w b → ok ⟨.store b, sb, disk⟩ → I sb disk →
    I sb (writeBlock disk b data)
  overwrite : ∀ sb disk b, sb.Formatted → ok ⟨.overwrite b, sb, disk⟩ → I sb disk → w b
  consult : ∀ c b, Spec (Guarded ok I c) (consultRefcount b)
    (fun rc => Guarded ok I (c ∧ (rc ≤ 1 → w b))) (Guarded ok I c)
  allocate : ∀ c, Spec (Guarded ok I c) allocateBlock (fun b => Guarded ok I (c ∧ w b))
    (Guarded ok I c)
  free : ∀ c b, Preserves (Guarded ok I c) (freeBlock b)
  release : ∀ c b, Preserves (Guarded ok I c) (releaseBlock b)
  bump : ∀ c b, Preserves (Guarded ok I c) (bumpRefcount b)
  nodeCow : ∀ c buf inode, Preserves (Guarded ok I c) (writeBtreeNodeCow inode.btreeRoot buf inode)
  allocateInode : ∀ c, Preserves (Guarded ok I c) AthenaOS.allocateInode
  clearInodeBit : ∀ c id, Preserves (Guarded ok I c) (AthenaOS.clearInodeBit id)

namespace Keeps

variable {ok : Event → Prop} {I : Superblock → Disk → Prop} {w : Nat → Prop} {c : Prop}

/-! ## Writes -/

theorem writeTable (K : Keeps ok I w) {b : Nat} {data : Block} (hb : b ∈ [0, 6, 7, 8]) :
    Preserves (Guarded ok I c) (writeVolBlock b data) :=
  guarded_write fun sb disk hsb _ hI => K.tables sb disk b data hsb hb hI

theorem storeBlock (K : Keeps ok I w) {b : Nat} {data : Block} (hb : c → w b) :
    Preserves (Guarded ok I c) (AthenaOS.storeBlock b data) := by
  refine ⟨fun v hv => ⟨hv.1, fun ha => ?_⟩⟩
  have ha : ((v.note (.store b)).note (.write b data)).Allowed ok := ha
  obtain ⟨hbefore, hok⟩ := allowed_note.mp (allowed_note.mp ha).1
  obtain ⟨hI, hc⟩ := hv.2 hbefore
  exact ⟨K.store _ _ _ _ hv.1 (hb hc) hok hI, hc⟩

theorem overwriteBlock (K : Keeps ok I w) (b : Nat) (data : Block) :
    Preserves (Guarded ok I c) (AthenaOS.overwriteBlock b data) := by
  -- the unchecked write's own guard makes the block storable
  have hmark : Spec (Guarded ok I c) (mark (.overwrite b)) (fun _ => Guarded ok I (c ∧ w b))
      (Guarded ok I c) := by
    refine ⟨fun v hv => ⟨hv.1, fun ha => ?_⟩⟩
    obtain ⟨hbefore, hok⟩ := allowed_note.mp ha
    obtain ⟨hI, hc⟩ := hv.2 hbefore
    exact ⟨hI, hc, K.overwrite _ _ _ hv.1 hok hI⟩
  refine Spec.bind hmark fun _ => ?_
  exact Guarded.last And.left (K.storeBlock And.right)

theorem writeInode (K : Keeps ok I w) (inode : DiskInode) :
    Preserves (Guarded ok I c) (AthenaOS.writeInode inode) := by
  unfold AthenaOS.writeInode
  refine Spec.bind guarded_superblock fun sb => Guarded.pre fun _ => ?_
  refine .bind (guarded_readBlock _) fun _ => ?_
  exact K.overwriteBlock _ _

theorem tryAllocate (K : Keeps ok I w) :
    Spec (Guarded ok I c) (attempt allocateBlock)
      (fun o => Guarded ok I (c ∧ ∀ b, o = some b → w b)) (Guarded ok I c) := by
  refine .attempt ((K.allocate c).post ?_ ?_)
  · intro b v hv
    exact hv.mono fun hc => ⟨hc.1, fun b' hb' => Option.some.inj hb' ▸ hc.2⟩
  · intro v hv
    exact hv.mono fun hc => ⟨hc, fun b hb => absurd hb (by simp)⟩

/-! ## Journal -/

theorem journalBegin (K : Keeps ok I w) (id idx old new : Nat) :
    Preserves (Guarded ok I c) (AthenaOS.journalBegin id idx old new) := by
  unfold AthenaOS.journalBegin
  refine Spec.bind guarded_superblock fun sb => Guarded.pre fun hsb => ?_
  refine .bind (guarded_readBlock _) fun buf => ?_
  split
  · exact Preserves.fail
  · refine .bind (guarded_modify (fun _ h => h.setSeq _)
      fun _ _ _ hI => K.counters _ _ _ hI) fun _ => ?_
    refine .bind guarded_superblock fun _ => Guarded.pre fun _ => ?_
    refine Preserves.bind (K.writeTable ?_) fun _ => Preserves.pure
    rw [hsb.journalBlock]
    decide

theorem journalCommit (K : Keeps ok I w) (slot : Nat) :
    Preserves (Guarded ok I c) (AthenaOS.journalCommit slot) := by
  unfold AthenaOS.journalCommit
  refine Spec.bind guarded_superblock fun sb => Guarded.pre fun hsb => ?_
  refine .bind (guarded_readBlock _) fun buf => ?_
  refine K.writeTable ?_
  rw [hsb.journalBlock]
  decide

/-! ## Extents and copy-on-write -/

theorem insertIntoNode (K : Keeps ok I w) (depth : Nat) (extent : BTreeLeafEntry)
    (inode : DiskInode) :
    Preserves (Guarded ok I c) (AthenaOS.insertIntoNode inode.btreeRoot depth extent inode) := by
  unfold AthenaOS.insertIntoNode
  refine .bind (guarded_readBlock _) fun buf => ?_
  refine .ite .pure ?_
  split
  · exact K.nodeCow _ _ _
  · exact .ite (K.nodeCow _ _ _) Preserves.pure

theorem insertExtent (K : Keeps ok I w) (inode : DiskInode) (extent : BTreeLeafEntry) :
    Preserves (Guarded ok I c) (AthenaOS.insertExtent inode extent) := by
  unfold AthenaOS.insertExtent
  refine .ite (K.insertIntoNode _ _ _) ?_
  refine Spec.bind K.tryAllocate fun o => ?_
  cases o with
  | none => exact .pure fun _ h => h.mono And.left
  | some root =>
    refine Guarded.step And.left (K.storeBlock (b := root) fun h => h.2 root rfl) fun _ => ?_
    exact Guarded.last And.left (K.insertIntoNode _ _ _)

theorem cowWriteBlock (K : Keeps ok I w) (inode : DiskInode) (idx : Nat) (data : Block) :
    Preserves (Guarded ok I c) (AthenaOS.cowWriteBlock inode idx data) := by
  unfold AthenaOS.cowWriteBlock
  refine .ite .pure (.ite ?fresh ?shared)
  case fresh =>
    refine Spec.bind K.tryAllocate fun o => ?_
    cases o with
    | none => exact .pure fun _ h => h.mono And.left
    | some new =>
      refine Guarded.step And.left (K.storeBlock (b := new) fun h => h.2 new rfl) fun _ => ?_
      refine Guarded.step And.left (K.writeInode _) fun _ => ?_
      exact .pure fun _ h => h.mono And.left
  case shared =>
    refine Spec.bind (K.consult c _) fun rc => ?_
    refine .ite (fun hrc => ?_) fun _ => ?_
    · refine Guarded.step And.left (K.storeBlock fun h => h.2 hrc) fun _ => ?_
      exact .pure fun _ h => h.mono And.left
    · refine .pre ?_ fun _ h => h.mono And.left
      refine .bind K.tryAllocate fun o => ?_
      cases o with
      | none => exact .pure fun _ h => h.mono And.left
      | some new =>
        refine Guarded.step And.left (.attempt (K.journalBegin _ _ _ _)) fun slot => ?_
        cases slot with
        | none =>
          refine Guarded.step And.left (.attempt (K.free _ _)) fun _ => ?_
          exact .pure fun _ h => h.mono And.left
        | some slot =>
          refine Guarded.step And.left (K.storeBlock (b := new) fun h => h.2 new rfl) fun _ => ?_
          refine Guarded.step And.left (K.writeInode _) fun _ => ?_
          refine Guarded.step And.left (K.journalCommit _) fun _ => ?_
          refine Guarded.step And.left (.attempt (K.release _ _)) fun _ => ?_
          exact .pure fun _ h => h.mono And.left

theorem cowDiverge (K : Keeps ok I w) (aes : Aes) (settings : DataBlockSettings) (inode : DiskInode)
    (lb old : Nat) (buf : Block) (flags : Nat) :
    Preserves (Guarded ok I c)
      (AthenaOS.cowDivergeExtentJournaled aes settings inode lb old buf flags) := by
  unfold AthenaOS.cowDivergeExtentJournaled
  refine Spec.bind K.tryAllocate fun o => ?_
  cases o with
  | none => exact .pure fun _ h => h.mono And.left
  | some new =>
    refine Guarded.step And.left (.attempt (K.journalBegin _ _ _ _)) fun slot => ?_
    cases slot with
    | none =>
      refine Guarded.step And.left (.attempt (K.free _ _)) fun _ => ?_
      exact .pure fun _ h => h.mono And.left
    | some slot =>
      refine Guarded.step And.left (K.storeBlock (b := new) fun h => h.2 new rfl) fun _ => ?_
      refine Guarded.step And.left (K.insertExtent _ _) fun r => ?_
      refine .ite (fun _ => ?_) fun _ => ?_
      · refine Guarded.step And.left (.attempt (K.journalCommit _)) fun _ => ?_
        refine Guarded.step And.left (.attempt (K.free _ _)) fun _ => ?_
        exact .pure fun _ h => h.mono And.left
      · refine Guarded.step And.left (K.writeInode _) fun _ => ?_
        refine Guarded.step And.left (K.journalCommit _) fun _ => ?_
        refine Guarded.step And.left (.attempt (K.release _ _)) fun _ => ?_
        exact .pure fun _ h => h.mono And.left

/-! ## Files -/

theorem findFlatInodeOn (name : List UInt8) :
    Preserves (Guarded ok I c) (AthenaOS.findFlatInodeOn name) := by
  unfold AthenaOS.findFlatInodeOn
  refine .ite .pure ?_
  refine Spec.bind guarded_superblock fun _ => Guarded.pre fun _ => ?_
  refine .bind (guarded_getInode _) fun _ => ?_
  exact Preserves.bind .get fun _ => Preserves.pure

theorem createIn (K : Keeps ok I w) (dir : DiskInode) (name : List UInt8) :
    Preserves (Guarded ok I c) (AthenaOS.createIn dir name) := by
  unfold AthenaOS.createIn
  refine .bind (K.allocateInode c) fun _ => ?_
  refine .bind (K.writeInode _) fun _ => ?_
  refine .bind .require fun _ => ?_
  refine .bind (guarded_readBlockIf _ _) fun _ => ?_
  refine .bind (K.cowWriteBlock _ _ _) fun _ => ?_
  refine .bind .require fun _ => ?_
  exact .bind (K.writeInode _) fun _ => .pure

theorem findOrCreateFileOn (K : Keeps ok I w) (path : List UInt8) :
    Preserves (Guarded ok I c) (AthenaOS.findOrCreateFileOn path) := by
  unfold AthenaOS.findOrCreateFileOn
  refine .bind .require fun _ => ?_
  refine .bind (findFlatInodeOn _) fun found => ?_
  cases found with
  | some id => exact .pure
  | none =>
    refine Spec.bind guarded_superblock fun _ => Guarded.pre fun _ => ?_
    refine .bind (guarded_getInode _) fun root => ?_
    refine .bind Preserves.get fun v => ?_
    split
    · exact Preserves.pure
    · exact K.createIn _ _

section DataPath

variable (aes : Aes) (settings : DataBlockSettings)

theorem resolveBlock (K : Keeps ok I w) (inode : DiskInode) (lb : Nat) (probe : Option Block) :
    Spec (Guarded ok I c) (AthenaOS.resolveBlock settings inode lb probe)
      (fun _ => Guarded ok I c) (Guarded ok I c) := by
  unfold AthenaOS.resolveBlock
  refine .bind Preserves.get fun v => ?_
  split
  · exact Preserves.pure
  · refine .bind K.tryAllocate fun o => ?_
    cases o with
    | none => exact .pure fun _ h => h.mono And.left
    | some new =>
      refine Guarded.step And.left (K.insertExtent _ _) fun _ => ?_
      exact .pure fun _ h => h.mono And.left

theorem writeOneBlock (K : Keeps ok I w) (stamp : Bool) (inode : DiskInode) (offset : Nat)
    (data : List UInt8) :
    Preserves (Guarded ok I c) (AthenaOS.writeOneBlock aes settings stamp inode offset data) := by
  unfold AthenaOS.writeOneBlock
  refine .bind (K.resolveBlock settings _ _ _) fun r => ?_
  obtain ⟨_ | diskBlock, inode⟩ := r
  · exact .pure
  · refine .bind .get fun v => ?_
    split
    · exact .pure
    · refine Spec.bind (K.consult c _) fun rc => ?_
      refine .ite (fun _ => ?_) fun hrc => ?_
      · exact Guarded.last And.left (K.cowDiverge _ _ _ _ _ _ _)
      · -- the in-place branch is the one where the refcount was at most 1
        refine Guarded.step And.left (K.storeBlock fun h => h.2 (UInt8.not_lt.mp hrc)) fun _ => ?_
        exact .pure fun _ h => h.mono And.left

theorem writeLoop (K : Keeps ok I w) (stamp : Bool) (inode : DiskInode) (offset : Nat)
    (data : List UInt8) (written : Nat) :
    Preserves (Guarded ok I c) (AthenaOS.writeLoop aes settings stamp inode offset data written) := by
  induction hn : data.length using Nat.strong_induction_on generalizing inode offset data written with
  | _ n ih =>
    subst hn
    rw [AthenaOS.writeLoop]
    split
    · exact .pure
    · rename_i hdata
      refine .bind (K.writeOneBlock aes settings _ _ _ _) fun r => ?_
      obtain ⟨_ | _, inode⟩ := r
      · exact .pure
      · refine ih _ ?_ _ _ _ _ rfl
        have hpos : 0 < data.length := List.length_pos_iff.mpr hdata
        have hmod : offset % blockSize < blockSize := Nat.mod_lt _ (by decide)
        rw [List.length_drop]
        omega

theorem writeInodeBytes (K : Keeps ok I w) (stamp : Bool) (id offset : Nat) (data : List UInt8) :
    Preserves (Guarded ok I c) (AthenaOS.writeInodeBytes aes settings stamp id offset data) := by
  unfold AthenaOS.writeInodeBytes
  refine .bind (guarded_getInode _) fun inode => ?_
  refine .bind (K.writeLoop aes settings _ _ _ _ _) fun r => ?_
  exact .ite (.bind (K.writeInode _) fun _ => .pure) Preserves.pure

theorem writeFileBytesOn (K : Keeps ok I w) (name data : List UInt8) :
    Preserves (Guarded ok I c) (AthenaOS.writeFileBytesOn aes settings name data) := by
  unfold AthenaOS.writeFileBytesOn
  refine .bind (findFlatInodeOn _) fun found => ?_
  cases found with
  | some id => exact .bind (K.writeInodeBytes aes settings _ _ _ _) fun _ => .pure
  | none =>
    refine .bind (.attempt (K.findOrCreateFileOn _)) fun created => ?_
    cases created with
    | none => exact .pure
    | some id =>
      exact .bind (K.writeInodeBytes aes settings _ _ _ _) fun _ => .pure

end DataPath

/-! ## Buckets and the shared region -/

theorem findBucketSlot (appId : Nat) :
    Preserves (Guarded ok I c) (AthenaOS.findBucketSlot appId) := by
  refine Spec.bind guarded_superblock fun _ => Guarded.pre fun _ => ?_
  exact Preserves.bind (guarded_readBlock _) fun _ => Preserves.pure

theorem lookupBucket (appId : Nat) :
    Preserves (Guarded ok I c) (AthenaOS.lookupBucket appId) := by
  refine .bind (findBucketSlot _) fun _ => ?_
  refine .bind .ofOption fun _ => ?_
  refine .bind ?_ fun _ => .pure
  refine .bind .require fun _ => ?_
  refine Spec.bind guarded_superblock fun _ => Guarded.pre fun _ => ?_
  exact Preserves.bind (guarded_readBlock _) fun _ => Preserves.pure

theorem writeBucketEntry (K : Keeps ok I w) (slot : Nat) (entry : DiskBucketEntry) :
    Preserves (Guarded ok I c) (AthenaOS.writeBucketEntry slot entry) := by
  refine .bind .require fun _ => ?_
  refine Spec.bind guarded_superblock fun sb => Guarded.pre fun hsb => ?_
  refine .bind (guarded_readBlock _) fun _ => K.writeTable ?_
  rw [hsb.bucketTableBlock]
  decide

theorem createBucket (K : Keeps ok I w) (appId quota caps maxSize : Nat) :
    Preserves (Guarded ok I c) (AthenaOS.createBucket appId quota caps maxSize) := by
  unfold AthenaOS.createBucket
  refine .bind .require fun _ => ?_
  refine .bind (findBucketSlot _) fun found => ?_
  cases found with
  | some _ => exact .fail
  | none =>
    refine Spec.bind guarded_superblock fun _ => Guarded.pre fun _ => ?_
    refine .bind (guarded_readBlock _) fun _ => ?_
    refine .bind Preserves.ofOption fun _ => ?_
    refine .bind (K.allocateInode c) fun _ => ?_
    refine .bind (K.writeInode _) fun _ => ?_
    exact Preserves.bind (K.writeBucketEntry _ _) fun _ => Preserves.pure

theorem openInBucket (K : Keeps ok I w) (appId : Nat) (path : List UInt8) (write : Bool) :
    Preserves (Guarded ok I c) (AthenaOS.openInBucket appId path write) := by
  unfold AthenaOS.openInBucket
  refine .bind (lookupBucket _) fun _ => ?_
  refine .bind .require fun _ => ?_
  refine .bind .require fun _ => ?_
  refine .bind (guarded_getInode _) fun _ => ?_
  refine .bind .get fun _ => ?_
  split
  · exact .pure
  · refine .bind .require fun _ => ?_
    exact .bind .require fun _ => K.createIn _ _

theorem bucketWriteOne (K : Keeps ok I w) (bucket : DiskBucketEntry) (inode : DiskInode)
    (offset : Nat) (data : List UInt8) :
    Preserves (Guarded ok I c) (AthenaOS.bucketWriteOne bucket inode offset data) := by
  unfold AthenaOS.bucketWriteOne
  refine .ite .pure (.ite .pure ?_)
  refine .bind (guarded_readBlockIf _ _) fun _ => ?_
  refine .bind (K.cowWriteBlock _ _ _) fun _ => ?_
  exact .bind .require fun _ => .pure

theorem bucketWriteLoop (K : Keeps ok I w) (bucket : DiskBucketEntry) (inode : DiskInode)
    (offset : Nat) (data : List UInt8) (written : Nat) :
    Preserves (Guarded ok I c) (AthenaOS.bucketWriteLoop bucket inode offset data written) := by
  induction hn : data.length using Nat.strong_induction_on
    generalizing bucket inode offset data written with
  | _ n ih =>
    subst hn
    rw [AthenaOS.bucketWriteLoop]
    split
    · exact .pure
    · rename_i hdata
      refine .bind (K.bucketWriteOne _ _ _ _) fun r => ?_
      obtain _ | ⟨bucket, inode⟩ := r
      · exact .pure
      · refine ih _ ?_ _ _ _ _ _ rfl
        have hpos : 0 < data.length := List.length_pos_iff.mpr hdata
        have hmod : offset % blockSize < blockSize := Nat.mod_lt _ (by decide)
        rw [List.length_drop]
        omega

theorem bucketWriteAt (K : Keeps ok I w) (appId id offset : Nat) (data : List UInt8) :
    Preserves (Guarded ok I c) (AthenaOS.bucketWriteAt appId id offset data) := by
  unfold AthenaOS.bucketWriteAt
  refine .bind (lookupBucket _) fun _ => ?_
  refine .bind .require fun _ => ?_
  refine .bind (guarded_getInode _) fun _ => ?_
  refine .bind .require fun _ => ?_
  refine .bind (K.bucketWriteLoop _ _ _ _ _) fun _ => ?_
  refine .ite ?_ Preserves.pure
  refine .bind (K.writeInode _) fun _ => ?_
  exact .bind (K.writeBucketEntry _ _) fun _ => .pure

theorem freeDirBlocks (K : Keeps ok I w) (size : Nat) (blocks : List (Nat × Nat)) (inodes : List Nat) :
    Preserves (Guarded ok I c) (AthenaOS.freeDirBlocks size blocks inodes) := by
  induction blocks generalizing inodes with
  | nil => exact .pure
  | cons p blocks ih =>
    rw [AthenaOS.freeDirBlocks]
    refine .bind (guarded_readBlock _) fun _ => ?_
    exact .bind (K.free _ _) fun _ => ih _

theorem freeInode (K : Keeps ok I w) (id : Nat) :
    Preserves (Guarded ok I c) (AthenaOS.freeInode id) :=
  .bind .require fun _ => K.clearInodeBit c id

theorem freeFile (K : Keeps ok I w) (id : Nat) :
    Preserves (Guarded ok I c) (AthenaOS.freeFile id) := by
  refine .bind (guarded_getInode _) fun _ => ?_
  refine .bind (.forM fun blk _ => ?_) fun _ => K.freeInode id
  exact .bind (.attempt (K.free _ _)) fun _ => .pure

theorem deleteBucket (K : Keeps ok I w) (appId : Nat) :
    Preserves (Guarded ok I c) (AthenaOS.deleteBucket appId) := by
  unfold AthenaOS.deleteBucket
  refine .bind (lookupBucket _) fun _ => ?_
  refine .bind (guarded_getInode _) fun _ => ?_
  refine .bind (K.freeDirBlocks _ _ _) fun _ => ?_
  refine .bind (.forM fun _ _ => K.freeFile _) fun _ => ?_
  refine .bind (K.freeInode _) fun _ => ?_
  exact K.writeBucketEntry _ _

theorem openShared (K : Keeps ok I w) (path : List UInt8) (write : Bool) :
    Preserves (Guarded ok I c) (AthenaOS.openShared path write) := by
  unfold AthenaOS.openShared
  refine .bind Preserves.require fun _ => ?_
  refine Spec.bind guarded_superblock fun _ => Guarded.pre fun _ => ?_
  refine .bind (guarded_getInode _) fun _ => ?_
  refine .bind Preserves.get fun _ => ?_
  split
  · exact Preserves.pure
  · exact .bind Preserves.require fun _ => K.createIn _ _

theorem shareSlots (K : Keeps ok I w) (src : DiskInode) (slots : List Nat) (dst : DiskInode) :
    Preserves (Guarded ok I c) (AthenaOS.shareSlots src slots dst) := by
  induction slots generalizing dst with
  | nil => exact .pure
  | cons i slots ih =>
    rw [AthenaOS.shareSlots]
    refine .bind ?_ fun _ => ih _
    unfold AthenaOS.shareSlot
    refine .bind (.when ?_) fun _ => ?_
    · exact .bind (.attempt (K.release _ _)) fun _ => .pure
    · exact .bind (.when (K.bump _ _)) fun _ => .pure

theorem publishToShared (K : Keeps ok I w) (appId : Nat) (src dst : List UInt8) :
    Preserves (Guarded ok I c) (AthenaOS.publishToShared appId src dst) := by
  unfold AthenaOS.publishToShared
  refine .bind (lookupBucket _) fun _ => ?_
  refine .bind .require fun _ => ?_
  refine .bind (K.openInBucket _ _ _) fun _ => ?_
  refine .bind (guarded_getInode _) fun _ => ?_
  refine .bind (K.openShared _ _) fun _ => ?_
  refine .bind (guarded_getInode _) fun _ => ?_
  refine .bind (K.shareSlots _ _ _) fun _ => ?_
  exact .bind (K.writeInode _) fun _ => .pure

theorem importFromShared (K : Keeps ok I w) (appId : Nat) (src dst : List UInt8) :
    Preserves (Guarded ok I c) (AthenaOS.importFromShared appId src dst) := by
  unfold AthenaOS.importFromShared
  refine .bind (lookupBucket _) fun _ => ?_
  refine .bind .require fun _ => ?_
  refine .bind (K.openShared _ _) fun _ => ?_
  refine .bind (guarded_getInode _) fun _ => ?_
  refine .bind (K.openInBucket _ _ _) fun _ => ?_
  refine .bind (guarded_getInode _) fun _ => ?_
  refine .bind .require fun _ => ?_
  refine .bind (K.shareSlots _ _ _) fun _ => ?_
  refine .bind (K.writeInode _) fun _ => ?_
  exact .bind (K.writeBucketEntry _ _) fun _ => .pure

/-! ## Versions -/

theorem findVersionedSlot (inode : Nat) :
    Preserves (Guarded ok I c) (AthenaOS.findVersionedSlot inode) := by
  refine Spec.bind guarded_superblock fun _ => Guarded.pre fun _ => ?_
  exact Preserves.bind (guarded_readBlock _) fun _ => Preserves.pure

theorem readVersionedIndex (slot : Nat) :
    Preserves (Guarded ok I c) (AthenaOS.readVersionedIndex slot) := by
  refine Spec.bind guarded_superblock fun _ => Guarded.pre fun _ => ?_
  exact Preserves.bind (guarded_readBlock _) fun _ => Preserves.pure

theorem writeVersionedIndex (K : Keeps ok I w) (slot : Nat) (entry : DiskVersionedIndex) :
    Preserves (Guarded ok I c) (AthenaOS.writeVersionedIndex slot entry) := by
  refine Spec.bind guarded_superblock fun sb => Guarded.pre fun hsb => ?_
  refine .bind (guarded_readBlock _) fun _ => K.writeTable ?_
  rw [hsb.versionedMetaBlock]
  decide

theorem markVersioned (K : Keeps ok I w) (inode n : Nat) :
    Preserves (Guarded ok I c) (AthenaOS.markVersioned inode n) := by
  unfold AthenaOS.markVersioned
  refine .bind .require fun _ => ?_
  refine .bind (findVersionedSlot _) fun found => ?_
  cases found with
  | some _ => exact .pure
  | none =>
    refine Spec.bind guarded_superblock fun _ => Guarded.pre fun _ => ?_
    refine .bind (guarded_readBlock _) fun _ => ?_
    refine .bind Preserves.ofOption fun _ => ?_
    refine .bind (K.allocate c) fun b => ?_
    refine Guarded.step And.left (K.storeBlock And.right) fun _ => ?_
    exact Guarded.last And.left (K.writeVersionedIndex _ _)

theorem pruneOldestVersion (K : Keeps ok I w) (metaBlock count : Nat) :
    Preserves (Guarded ok I c) (AthenaOS.pruneOldestVersion metaBlock count) := by
  unfold AthenaOS.pruneOldestVersion
  refine .ite .pure ?_
  refine .bind (guarded_readBlock _) fun _ => ?_
  refine Spec.bind guarded_superblock fun _ => Guarded.pre fun _ => ?_
  exact Preserves.forM fun blk _ => K.release _ blk

theorem versionSlot (K : Keeps ok I w) (idx : DiskVersionedIndex) :
    Preserves (Guarded ok I c) (AthenaOS.versionSlot idx) := by
  unfold AthenaOS.versionSlot
  refine .ite .pure ?_
  refine .bind (K.pruneOldestVersion _ _) fun _ => ?_
  refine .bind (guarded_readBlock _) fun _ => ?_
  refine .bind .require fun _ => ?_
  exact .bind (K.overwriteBlock _ _) fun _ => .pure

theorem saveVersion (K : Keeps ok I w) (inode ts : Nat) :
    Preserves (Guarded ok I c) (AthenaOS.saveVersion inode ts) := by
  unfold AthenaOS.saveVersion
  refine .bind (findVersionedSlot _) fun _ => ?_
  refine .bind .ofOption fun _ => ?_
  refine .bind (readVersionedIndex _) fun _ => ?_
  refine .bind (guarded_getInode _) fun _ => ?_
  refine .bind (.forM fun blk _ => K.bump _ blk) fun _ => ?_
  refine .bind (K.versionSlot _) fun _ => ?_
  refine .bind (guarded_readBlock _) fun _ => ?_
  refine .bind (K.overwriteBlock _ _) fun _ => ?_
  exact .bind (K.writeVersionedIndex _ _) fun _ => .pure

theorem rollbackVersion (K : Keeps ok I w) (inode : Nat) (ver : UInt16) (save : Bool) (ts : Nat) :
    Preserves (Guarded ok I c) (AthenaOS.rollbackVersion inode ver save ts) := by
  unfold AthenaOS.rollbackVersion
  refine .bind (.when ?_) fun _ => ?_
  · exact .bind (.attempt (K.saveVersion _ _)) fun _ => .pure
  · refine .bind (findVersionedSlot _) fun _ => ?_
    refine .bind .ofOption fun _ => ?_
    refine .bind (readVersionedIndex _) fun _ => ?_
    refine .bind (guarded_readBlock _) fun _ => ?_
    refine .bind .ofOption fun _ => ?_
    refine .bind (guarded_getInode _) fun _ => ?_
    refine .bind (.forM fun i _ => K.release _ _) fun _ => ?_
    refine .bind (.forM fun blk _ => K.bump _ blk) fun _ => ?_
    exact K.writeInode _

/-! ## Every operation -/

theorem ignore {α : Type} {m : AthM α} (h : Preserves (Guarded ok I c) m) :
    Preserves (Guarded ok I c) (AthenaOS.ignore m) :=
  .bind h fun _ => .pure

/-- **An invariant that meets its obligations is kept by every operation**, once it is
by the three snapshot ones. -/
theorem exec (K : Keeps ok I w) (aes : Aes)
    (hcreate : ∀ ts, Preserves (Guarded ok I True) (AthenaOS.createSnapshot ts))
    (hrollback : ∀ id, Preserves (Guarded ok I True) (AthenaOS.rollbackToSnapshot id))
    (hdelete : ∀ id, Preserves (Guarded ok I True) (AthenaOS.deleteSnapshot id))
    (settings : DataBlockSettings) (op : Op) :
    Preserves (Guarded ok I True) (op.exec aes settings) := by
  cases op with
  | allocateBlock => exact ignore ((K.allocate True).post (fun _ _ h => h.mono And.left) fun _ h => h)
  | writeInodeBytesAt => exact ignore (K.writeInodeBytes aes settings _ _ _ _)
  | vfsWriteAt => exact ignore (K.writeInodeBytes aes settings _ _ _ _)
  | writeFileBytesOn => exact ignore (K.writeFileBytesOn aes settings _ _)
  | findOrCreateFileOn => exact ignore (K.findOrCreateFileOn _)
  | cowWriteBlock => exact ignore (K.cowWriteBlock _ _ _)
  | createSnapshot => exact ignore (hcreate _)
  | rollbackToSnapshot => exact hrollback _
  | deleteSnapshot => exact hdelete _
  | createBucket => exact ignore (K.createBucket _ _ _ _)
  | openInBucket => exact ignore (K.openInBucket _ _ _)
  | bucketWriteAt => exact ignore (K.bucketWriteAt _ _ _ _)
  | deleteBucket => exact K.deleteBucket _
  | openShared => exact ignore (K.openShared _ _)
  | publishToShared => exact ignore (K.publishToShared _ _ _)
  | importFromShared => exact ignore (K.importFromShared _ _ _)
  | markVersioned => exact K.markVersioned _ _
  | saveVersion => exact ignore (K.saveVersion _ _)
  | rollbackVersion => exact K.rollbackVersion _ _ _ _

/-- **Every guarded run keeps the invariant**: it holds of a formatted volume, and the
snapshot operations keep it. -/
theorem invariant (K : Keeps ok I w) {aes : Aes}
    (hinit : ∀ device, I formatSuperblock (formatDisk device))
    (hcreate : ∀ ts, Preserves (Guarded ok I True) (AthenaOS.createSnapshot ts))
    (hrollback : ∀ id, Preserves (Guarded ok I True) (AthenaOS.rollbackToSnapshot id))
    (hdelete : ∀ id, Preserves (Guarded ok I True) (AthenaOS.deleteSnapshot id))
    {v : Volume} (h : (athfsMachine aes).Run (callsMeet aes ok) v) :
    v.superblock.Formatted ∧ v.Allowed ok ∧ I v.superblock v.disk := by
  have hrun : Guarded ok I True v ∧ v.Allowed ok := by
    refine h.invariant (I := fun v => Guarded ok I True v ∧ v.Allowed ok) ?_ ?_
    · rintro v ⟨device, rfl⟩
      exact ⟨⟨rfl, fun _ => ⟨hinit device, trivial⟩⟩, fun e he => absurd he List.not_mem_nil⟩
    · rintro v l v' ⟨hv, -⟩ hg rfl
      exact ⟨(K.exec aes hcreate hrollback hdelete l.settings l.op).snd hv, hg⟩
  exact ⟨hrun.1.1, hrun.2, (hrun.1.2 hrun.2).1⟩

end Keeps

end AthenaOS
