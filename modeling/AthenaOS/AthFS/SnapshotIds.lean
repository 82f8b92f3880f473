import AthenaOS.AthFS.Allocation

/-!
# Which snapshot an id names

`create_snapshot` takes the next id from `snapshot_count` and the first inactive slot
of the table; `delete_snapshot` counts `snapshot_count` down again. Both write 264
bytes at a stride of 256, so they also clear the head of the slot that follows.
-/

namespace AthenaOS

open Lib Fallible
open Function (update update_of_ne update_self)

/-- The snapshot table. -/
def Volume.snapshotTable (v : Volume) : Block := v.disk v.superblock.snapshotBlock

/-- `SnapshotInfo`. -/
structure SnapshotInfo where
  id : UInt32
  timestamp : Nat
  deriving DecidableEq

/-- `list_snapshots`. -/
def listSnapshots : AthM (List SnapshotInfo) := do
  let buf ← readBlock (← superblock).snapshotBlock
  return (((List.range' 0 maxSnapshots).map (SnapshotEntry.read buf)).filter (·.active ≠ 0)).map
    fun e => ⟨e.id, e.timestamp⟩

/-! ## The machine -/

/-- The operations on the table. -/
inductive SnapshotOp where
  | create (timestamp : Nat)
  | delete (id : UInt32)

/-- A volume, and for each id the entry the last `create_snapshot` that returned it
left, until a `delete_snapshot` of that id. -/
structure SnapshotRun where
  volume : Volume
  made : UInt32 → Option SnapshotEntry

/-- One operation, successful or not. -/
def SnapshotRun.next (r : SnapshotRun) : SnapshotOp → SnapshotRun
  | .create timestamp =>
    match createSnapshot timestamp r.volume with
    | (some id, v) =>
      let slot := (freeSnapshotSlot r.volume.snapshotTable).getD 0
      ⟨v, update r.made id (some (SnapshotEntry.read v.snapshotTable slot))⟩
    | (none, v) => ⟨v, r.made⟩
  | .delete id =>
    match deleteSnapshot id r.volume with
    | (some _, v) => ⟨v, update r.made id none⟩
    | (none, v) => ⟨v, r.made⟩

/-- A volume no snapshot has been taken of: the metadata blocks are in use, and no
entry of the table is active. -/
structure NoSnapshots (v : Volume) : Prop where
  layout : v.superblock.Formatted
  metadata : ∀ i < 9, (v.disk 2).bit i = true
  inactive : ∀ i < maxSnapshots, (SnapshotEntry.read v.snapshotTable i).active = 0

/-- Creations and deletions in any order. -/
def snapshotMachine : Machine SnapshotRun SnapshotOp where
  init r := NoSnapshots r.volume ∧ r.made = fun _ => none
  step r op r' := r' = r.next op

/-- `create_snapshot` will succeed: a slot is inactive and three blocks are free. -/
def Volume.takesSnapshot (v : Volume) (slot : Nat) : Prop :=
  freeSnapshotSlot v.snapshotTable = some slot ∧
    countBits (v.disk v.superblock.blockBitmapBlock) 256 + 3 ≤ 256

/-- The id of a new snapshot is not the one of an active entry, or only of the entry
the new one overwrites. -/
def Unambiguous (r : SnapshotRun) : SnapshotOp → Prop
  | .create _ => ∀ slot, r.volume.takesSnapshot slot → ∀ i < maxSnapshots, i ≠ slot + 1 →
    (SnapshotEntry.read r.volume.snapshotTable i).active ≠ 0 →
      (SnapshotEntry.read r.volume.snapshotTable i).id ≠ r.volume.superblock.snapshotCount + 1
  | .delete _ => True

/-- The slot after the one that is written is inactive. -/
def Spares (r : SnapshotRun) : SnapshotOp → Prop
  | .create _ => ∀ slot, r.volume.takesSnapshot slot → slot + 1 < maxSnapshots →
    (SnapshotEntry.read r.volume.snapshotTable (slot + 1)).active = 0
  | .delete id => ∀ slot, findSnapshot r.volume.snapshotTable id = some slot →
    slot + 1 < maxSnapshots → (SnapshotEntry.read r.volume.snapshotTable (slot + 1)).active = 0

/-! ## `delete_snapshot`, run -/

/-- The volume after `delete_snapshot` found `snap` in `slot`. -/
def Volume.snapshotDropped (v : Volume) (slot : Nat) (snap : SnapshotEntry) : Volume :=
  let table := (v.disk 5).splice (slot * 256) SnapshotEntry.cleared.toBytes
  let v := (v.note (.dropSnapshot snap)).write 4
    (dropBlocks (v.disk 4) (v.disk snap.bitmapBlock) 256)
  let v := ((v.freed snap.bitmapBlock).freed snap.inodeTableSnapBlock).freed
    snap.inodeBitmapSnapBlock
  let v := v.write 5 table
  let v := v.setSuperblock fun sb =>
    { sb with snapshotCount := if sb.snapshotCount = 0 then 0 else sb.snapshotCount - 1 }
  v.write 0 v.superblock.toBlock

/-- The three blocks of an entry lie in the data area. -/
structure SnapshotEntry.InData (e : SnapshotEntry) : Prop where
  bitmap : 9 ≤ e.bitmapBlock ∧ e.bitmapBlock < 256
  inodeTable : 9 ≤ e.inodeTableSnapBlock ∧ e.inodeTableSnapBlock < 256
  inodeBitmap : 9 ≤ e.inodeBitmapSnapBlock ∧ e.inodeBitmapSnapBlock < 256

section Delete

variable {v : Volume}

theorem snapshotTable_eq (hsb : v.superblock.Formatted) : v.snapshotTable = v.disk 5 := by
  rw [Volume.snapshotTable, hsb.snapshotBlock]

/-- **`delete_snapshot`** fails without a write, or runs to its end. -/
theorem deleteSnapshot_eq (hsb : v.superblock.Formatted)
    (hdata : ∀ i < maxSnapshots, (SnapshotEntry.read (v.disk 5) i).active ≠ 0 →
      (SnapshotEntry.read (v.disk 5) i).InData) (id : UInt32) :
    deleteSnapshot id v =
      match findSnapshot (v.disk 5) id with
      | none => (none, v)
      | some slot => (some (), v.snapshotDropped slot (SnapshotEntry.read (v.disk 5) slot)) := by
  unfold deleteSnapshot
  rw [bind_some (superblock_run _), bind_some (readBlock_run _ _), hsb.snapshotBlock]
  cases hslot : findSnapshot (v.disk 5) id with
  | none => exact bind_none rfl
  | some slot =>
    have hin : (SnapshotEntry.read (v.disk 5) slot).InData := by
      rw [findSnapshot, List.find?_range'_eq_some] at hslot
      obtain ⟨hmatch, hmem, -⟩ := hslot
      rw [List.mem_range'_1] at hmem
      refine hdata slot (by omega) ?_
      simp only [decide_eq_true_eq] at hmatch
      exact hmatch.1
    refine (bind_some (ofOption_run v slot)).trans ?_
    show _ = (some (), v.snapshotDropped slot (SnapshotEntry.read (v.disk 5) slot))
    generalize SnapshotEntry.read (v.disk 5) slot = snap at hin
    have hfree : ∀ {w : Volume} {b : Nat}, w.superblock.Formatted → 9 ≤ b ∧ b < 256 →
        freeBlock b w = (some (), w.freed b) := fun hw hb => (freeBlock_eq hw).trans (if_pos hb.2)
    have hwhen : ∀ {b : Nat}, 9 ≤ b ∧ b < 256 → when (b ≠ 0) (freeBlock b) = freeBlock b :=
      fun hb => if_pos (decide_eq_true (by omega))
    rw [bind_some (mark_run _ _), bind_some (readBlock_run _ _), bind_some (readBlock_run _ _),
      hsb.bitmapIndexLimit, hsb.refcountBlock, refcountsInRange_eq,
      bind_some (require_run _ (by decide)), bind_some (require_run _ rfl),
      bind_some (writeVolBlock_run _ _ _), hwhen hin.inodeTable, hwhen hin.inodeBitmap]
    have hsb1 : ((v.note (.dropSnapshot snap)).write 4
        (dropBlocks (v.disk 4) (v.disk snap.bitmapBlock) 256)).superblock.Formatted := hsb
    rw [note_disk, bind_some (hfree hsb1 hin.bitmap),
      bind_some (hfree (freed_formatted hsb1 _) hin.inodeTable),
      bind_some (hfree (freed_formatted (freed_formatted hsb1 _) _) hin.inodeBitmap),
      bind_some (writeVolBlock_run _ _ _), bind_some (updateSuperblock_run _ _),
      flushSuperblock_run]
    rfl

end Delete

/-! ## The table as the operations keep it -/

/-- The entries of the active slots lie in the data area and differ in their ids; the
metadata blocks are in use. -/
structure SoundTable (v : Volume) : Prop where
  layout : v.superblock.Formatted
  metadata : ∀ i < 9, (v.disk 2).bit i = true
  data : ∀ i < maxSnapshots, (SnapshotEntry.read (v.disk 5) i).active ≠ 0 →
    (SnapshotEntry.read (v.disk 5) i).InData
  distinct : ∀ i < maxSnapshots, ∀ j < maxSnapshots,
    (SnapshotEntry.read (v.disk 5) i).active ≠ 0 → (SnapshotEntry.read (v.disk 5) j).active ≠ 0 →
      (SnapshotEntry.read (v.disk 5) i).id = (SnapshotEntry.read (v.disk 5) j).id → i = j

section Table

variable {v v' : Volume} {slot : Nat} {e : SnapshotEntry}

theorem findSnapshot_eq_some {buf : Block} {id : UInt32} (h : findSnapshot buf id = some slot) :
    slot < maxSnapshots ∧ (SnapshotEntry.read buf slot).active ≠ 0 ∧
      (SnapshotEntry.read buf slot).id = id := by
  rw [findSnapshot, List.find?_range'_eq_some] at h
  obtain ⟨hmatch, hmem, -⟩ := h
  rw [List.mem_range'_1] at hmem
  simp only [decide_eq_true_eq] at hmatch
  exact ⟨by omega, hmatch⟩

/-- With distinct ids, an active entry is the one that is found. -/
theorem SoundTable.find (h : SoundTable v) (hslot : slot < maxSnapshots)
    (hactive : (SnapshotEntry.read (v.disk 5) slot).active ≠ 0) :
    findSnapshot (v.disk 5) (SnapshotEntry.read (v.disk 5) slot).id = some slot := by
  cases hfind : findSnapshot (v.disk 5) (SnapshotEntry.read (v.disk 5) slot).id with
  | none =>
    rw [findSnapshot, List.find?_eq_none] at hfind
    refine absurd (hfind slot (by rw [List.mem_range'_1]; omega)) ?_
    rw [not_not, decide_eq_true_eq]
    exact ⟨hactive, rfl⟩
  | some i =>
    obtain ⟨hi, hiactive, hid⟩ := findSnapshot_eq_some hfind
    rw [h.distinct i hi slot hslot hiactive hactive hid]

/-- One slot written: the next one is inactive, the others are as they were. -/
theorem read_spliced {i : Nat} (buf : Block) (hi : i < maxSnapshots) (hne : i ≠ slot) :
    (i = slot + 1 ∧ (SnapshotEntry.read (buf.splice (slot * 256) e.toBytes) i).active = 0) ∨
      (i ≠ slot + 1 ∧
        SnapshotEntry.read (buf.splice (slot * 256) e.toBytes) i = SnapshotEntry.read buf i) := by
  by_cases hnext : i = slot + 1
  · subst hnext
    exact .inl ⟨rfl, SnapshotEntry.read_splice_next hi⟩
  · exact .inr ⟨hnext, SnapshotEntry.read_splice_of_ne hne hnext⟩

/-- **An entry written** whose id no other slot keeps. -/
theorem SoundTable.put (h : SoundTable v) (hlayout : v'.superblock.Formatted)
    (hmeta : ∀ i < 9, (v'.disk 2).bit i = true) (hslot : slot < maxSnapshots)
    (htable : v'.disk 5 = (v.disk 5).splice (slot * 256) e.toBytes)
    (hdata : (SnapshotEntry.read (v'.disk 5) slot).active ≠ 0 →
      (SnapshotEntry.read (v'.disk 5) slot).InData)
    (hid : (SnapshotEntry.read (v'.disk 5) slot).active ≠ 0 → ∀ i < maxSnapshots, i ≠ slot →
      i ≠ slot + 1 → (SnapshotEntry.read (v.disk 5) i).active ≠ 0 →
        (SnapshotEntry.read (v.disk 5) i).id ≠ (SnapshotEntry.read (v'.disk 5) slot).id) :
    SoundTable v' := by
  -- an active slot is the one written, or one that is as it was
  have hcases : ∀ i < maxSnapshots, (SnapshotEntry.read (v'.disk 5) i).active ≠ 0 →
      i = slot ∨ (i ≠ slot ∧ i ≠ slot + 1 ∧
        SnapshotEntry.read (v'.disk 5) i = SnapshotEntry.read (v.disk 5) i) := by
    intro i hi hactive
    by_cases hne : i = slot
    · exact .inl hne
    · rw [htable] at hactive ⊢
      rcases read_spliced _ hi hne with ⟨-, hzero⟩ | ⟨hnext, hsame⟩
      · exact absurd hzero hactive
      · exact .inr ⟨hne, hnext, hsame⟩
  refine ⟨hlayout, hmeta, fun i hi hactive => ?_, fun i hi j hj hai haj hids => ?_⟩
  · rcases hcases i hi hactive with rfl | ⟨-, -, hsame⟩
    · exact hdata hactive
    · rw [hsame] at hactive ⊢
      exact h.data i hi hactive
  · rcases hcases i hi hai with rfl | ⟨hi1, hi2, hisame⟩ <;>
      rcases hcases j hj haj with rfl | ⟨hj1, hj2, hjsame⟩
    · rfl
    · rw [hjsame] at haj hids
      exact absurd hids.symm (hid hai j hj hj1 hj2 haj)
    · rw [hisame] at hai hids
      exact absurd hids (hid haj i hi hi1 hi2 hai)
    · rw [hisame] at hai hids
      rw [hjsame] at haj hids
      exact h.distinct i hi j hj hai haj hids

end Table

/-! ## `create_snapshot` -/

section Create

variable {v v' : Volume} {slot bblk itblk ibblk ts : Nat} {id : UInt32}

/-- A creation that fails leaves the table, the count and the metadata bits. -/
theorem createSnapshot_fails (hsb : v.superblock.Formatted)
    (hmeta : ∀ i < 9, (v.disk 2).bit i = true) (h : createSnapshot ts v = (none, v')) :
    v'.superblock.Formatted ∧ v'.disk 5 = v.disk 5 ∧ (∀ i < 9, (v'.disk 2).bit i = true) := by
  let P (w : Volume) : Prop :=
    w.superblock.Formatted ∧ w.disk 5 = v.disk 5 ∧ ∀ i < 9, (w.disk 2).bit i = true
  have hcopy : ∀ {β : Type} (data : Block) (f : Nat → AthM β) (_ : ∀ b, Spec P (f b) (fun _ _ => True) P),
      Spec P (do let b ← allocateBlock; storeBlock b data; f b) (fun _ _ => True) P := by
    intro β data f hf
    refine ⟨fun w hw => ?_⟩
    have halloc := allocateBlock_eq hw.1
    cases hfree : firstFree (w.disk 2) with
    | none =>
      rw [hfree] at halloc
      rw [bind_none halloc]
      exact hw
    | some b =>
      rw [hfree] at halloc
      rw [bind_some halloc, bind_some (storeBlock_run _ _ _)]
      have hb := firstFree_data hw.2.2 hfree
      refine (hf b).run _ ⟨copied_formatted hw.1 b data, ?_, copied_metadata data hw.2.2 hb⟩
      exact (copied_disk_of_ne w b data (by decide) (by omega)).trans hw.2.1
  have hspec : Spec P (createSnapshot ts) (fun _ _ => True) P := by
    unfold createSnapshot
    refine .bind (Q := fun _ => P) ⟨fun _ hw => hw⟩ fun sb => ?_
    refine .bind (Preserves.require (I := P)) fun _ => ?_
    refine .bind (Q := fun _ => P) ⟨fun _ hw => hw⟩ fun snapBuf => ?_
    refine .bind (Preserves.ofOption (I := P)) fun slot => ?_
    refine .bind (Q := fun _ => P) ⟨fun _ hw => hw⟩ fun bm => ?_
    refine .bind (Q := fun _ => P) ⟨fun _ hw => hw⟩ fun itable => ?_
    refine .bind (Q := fun _ => P) ⟨fun _ hw => hw⟩ fun ibm => ?_
    refine .bind (Q := fun _ => P) ⟨fun _ hw => hw⟩ fun root => ?_
    refine hcopy _ _ fun bblk => hcopy _ _ fun itblk => hcopy _ _ fun ibblk => ?_
    refine .bind (Q := fun _ => P) ⟨fun _ hw => hw⟩ fun rcBuf => ?_
    -- what follows the check of the refcounts writes the table, and cannot fail
    exact .bind (Preserves.require (I := P)) fun _ => ⟨fun _ _ => trivial⟩
  have hrun := hspec.run v ⟨hsb, rfl, hmeta⟩
  rw [h] at hrun
  exact hrun

/-- What a creation that succeeds found, and what it leaves. -/
theorem createSnapshot_succeeds (h : SoundTable v) (hrun : createSnapshot ts v = (some id, v')) :
    ∃ slot, slot < maxSnapshots ∧ v.takesSnapshot slot ∧
      id = v.superblock.snapshotCount + 1 ∧ v'.superblock.Formatted ∧
      (∀ i < 9, (v'.disk 2).bit i = true) ∧
      (∃ e, v'.disk 5 = (v.disk 5).splice (slot * 256) (SnapshotEntry.toBytes e)) ∧
      (SnapshotEntry.read (v'.disk 5) slot).active ≠ 0 ∧
      (SnapshotEntry.read (v'.disk 5) slot).id = id ∧
      (SnapshotEntry.read (v'.disk 5) slot).InData := by
  obtain ⟨slot, bblk, itblk, ibblk, hslot, hfree1, hfree2, hfree3, hid, rfl⟩ :=
    createSnapshot_eq_some h.layout hrun
  have hlt : slot < maxSnapshots := by
    rw [freeSnapshotSlot, List.find?_range'_eq_some, List.mem_range'_1] at hslot
    omega
  have hb1 := firstFree_data h.metadata hfree1
  have hmeta1 := copied_metadata (v.disk 2) h.metadata hb1
  have hb2 := firstFree_data hmeta1 hfree2
  have hmeta2 := copied_metadata (v.disk 3) hmeta1 hb2
  have hb3 := firstFree_data hmeta2 hfree3
  have hbits : (v.snapshotted ts slot bblk itblk ibblk).disk 2 =
      (((v.disk 2).setBit bblk).setBit itblk).setBit ibblk := by
    simp only [Volume.snapshotted, write_disk, setSuperblock_disk]
    rw [update_of_ne (by decide), update_of_ne (by decide),
      update_of_ne (by decide), copied_bitmap _ _ (by omega), copied_bitmap _ _ (by omega),
      copied_bitmap _ _ (by omega)]
  -- each of the three blocks was free before it was taken
  have hroom : countBits (v.disk 2) 256 + 3 ≤ 256 := by
    rw [copied_bitmap _ _ (by omega)] at hfree2 hfree3
    rw [copied_bitmap _ _ (by omega)] at hfree3
    have hcount1 := countBits_setBit hb1.2 (firstFree_eq_some hfree1).2.1
    have hcount2 := countBits_setBit hb2.2 (firstFree_eq_some hfree2).2.1
    have hcount3 := countBits_setBit hb3.2 (firstFree_eq_some hfree3).2.1
    have hle := countBits_le ((((v.disk 2).setBit bblk).setBit itblk).setBit ibblk)
    omega
  obtain ⟨hsid, hsactive, hsbm, -, hsit, hsib⟩ : SnapshotEntry.Same (SnapshotEntry.read
      ((v.disk 5).splice (slot * 256) (v.newSnapshot ts bblk itblk ibblk).toBytes) slot)
      (v.newSnapshot ts bblk itblk ibblk) := SnapshotEntry.read_splice_self hlt
    (show bblk < _ by omega) (show itblk < _ by omega) (show ibblk < _ by omega)
  refine ⟨slot, hlt, ⟨?_, ?_⟩, hid, ?_, ?_, ⟨_, snapshotted_table ..⟩, ?_, ?_, ?_⟩
  · rw [snapshotTable_eq h.layout]
    exact hslot
  · rw [h.layout.blockBitmapBlock]
    exact hroom
  · exact h.layout
  · intro i hi
    have hbyte : ∀ {b : Nat}, 9 ≤ b ∧ b < 256 → b / 8 < blockSize := by
      intro b hb
      rw [blockSize]
      omega
    rw [hbits, Bytes.bit_setBit _ (hbyte hb3), Bytes.bit_setBit _ (hbyte hb2),
      Bytes.bit_setBit _ (hbyte hb1), h.metadata i hi]
    simp only [Bool.or_true]
  · rw [snapshotted_table, hsactive]
    show (1 : UInt8) ≠ 0
    decide
  · rw [snapshotted_table, hsid, hid]
    rfl
  · rw [snapshotted_table]
    constructor
    · rw [hsbm]
      exact hb1
    · rw [hsit]
      exact hb2
    · rw [hsib]
      exact hb3

end Create

/-! ## Runs -/

/-- The active entries are the ones their creations left. -/
def Recorded (r : SnapshotRun) : Prop :=
  ∀ i < maxSnapshots, (SnapshotEntry.read (r.volume.disk 5) i).active ≠ 0 →
    r.made (SnapshotEntry.read (r.volume.disk 5) i).id
      = some (SnapshotEntry.read (r.volume.disk 5) i)

/-- Every entry left by a creation and not deleted is in an active slot. -/
def Present (r : SnapshotRun) : Prop :=
  ∀ id e, r.made id = some e → ∃ i < maxSnapshots,
    (SnapshotEntry.read (r.volume.disk 5) i).active ≠ 0 ∧
      SnapshotEntry.read (r.volume.disk 5) i = e ∧ e.id = id

section Steps

variable {r : SnapshotRun} {ts : Nat} {id : UInt32}

/-- A creation keeps ids apart if it gives one that is not in use. -/
theorem create_sound (h : SoundTable r.volume) (hrec : Recorded r)
    (hguard : Unambiguous r (.create ts)) :
    SoundTable (r.next (.create ts)).volume ∧ Recorded (r.next (.create ts)) := by
  rcases hrun : createSnapshot ts r.volume with ⟨_ | id, v'⟩
  · have hnext : r.next (.create ts) = ⟨v', r.made⟩ := by
      simp only [SnapshotRun.next, hrun]
    obtain ⟨hlayout, htable, hmeta⟩ := createSnapshot_fails h.layout h.metadata hrun
    rw [hnext]
    refine ⟨⟨hlayout, hmeta, ?_, ?_⟩, ?_⟩
    · rw [htable]
      exact h.data
    · rw [htable]
      exact h.distinct
    · unfold Recorded
      simp only [htable]
      exact hrec
  · obtain ⟨slot, hlt, htakes, hid, hlayout, hmeta, ⟨e, htable⟩, hactive, hsid, hdata⟩ :=
      createSnapshot_succeeds h hrun
    have hnext : r.next (.create ts) =
        ⟨v', update r.made id (some (SnapshotEntry.read (v'.disk 5) slot))⟩ := by
      simp only [SnapshotRun.next, hrun, htakes.1, Option.getD_some, snapshotTable_eq hlayout]
    have hother : ∀ i < maxSnapshots, i ≠ slot → i ≠ slot + 1 →
        (SnapshotEntry.read (r.volume.disk 5) i).active ≠ 0 →
          (SnapshotEntry.read (r.volume.disk 5) i).id ≠ id := by
      intro i hi _ hne hia
      have hfresh := hguard slot htakes i hi hne
      rw [snapshotTable_eq h.layout] at hfresh
      rw [hid]
      exact hfresh hia
    rw [hnext]
    refine ⟨h.put hlayout hmeta hlt htable (fun _ => hdata) (fun _ => hsid.symm ▸ hother), ?_⟩
    intro i hi hia
    show update r.made id _ (SnapshotEntry.read (v'.disk 5) i).id
      = some (SnapshotEntry.read (v'.disk 5) i)
    by_cases hne : i = slot
    · subst hne
      rw [hsid, update_self]
    · have hspliced := read_spliced (r.volume.disk 5) (e := e) hi hne
      rw [← htable] at hspliced
      rcases hspliced with ⟨-, hzero⟩ | ⟨hnextslot, hsame⟩
      · exact absurd hzero hia
      · have hia' : (SnapshotEntry.read (v'.disk 5) i).active ≠ 0 := hia
        rw [hsame] at hia' ⊢
        rw [update_of_ne (hother i hi hne hnextslot hia'), hrec i hi hia']

/-- What a deletion that finds its entry leaves. -/
theorem snapshotDropped_spec {v : Volume} {slot : Nat} (h : SoundTable v)
    (hfind : findSnapshot (v.disk 5) id = some slot) :
    let v' := v.snapshotDropped slot (SnapshotEntry.read (v.disk 5) slot)
    v'.superblock.Formatted ∧ (∀ i < 9, (v'.disk 2).bit i = true) ∧
      v'.disk 5 = (v.disk 5).splice (slot * 256) SnapshotEntry.cleared.toBytes ∧
      (SnapshotEntry.read (v'.disk 5) slot).active = 0 := by
  obtain ⟨hlt, hactive, -⟩ := findSnapshot_eq_some hfind
  have hin := h.data slot hlt hactive
  generalize SnapshotEntry.read (v.disk 5) slot = snap at hin
  intro v'
  have htable : v'.disk 5 = (v.disk 5).splice (slot * 256) SnapshotEntry.cleared.toBytes := by
    simp only [v', Volume.snapshotDropped, write_disk, setSuperblock_disk]
    rw [update_of_ne (by decide), update_self]
  have hbits : v'.disk 2 = (((v.disk 2).clearBit snap.bitmapBlock).clearBit
      snap.inodeTableSnapBlock).clearBit snap.inodeBitmapSnapBlock := by
    simp only [v', Volume.snapshotDropped, write_disk, setSuperblock_disk]
    rw [update_of_ne (by decide), update_of_ne (by decide), freed_bitmap,
      freed_bitmap, freed_bitmap, write_disk, update_of_ne (by decide), note_disk]
  refine ⟨h.layout, fun i hi => ?_, htable, ?_⟩
  · have hb := hin.bitmap.1
    have hit := hin.inodeTable.1
    have hib := hin.inodeBitmap.1
    rw [hbits, Bytes.bit_clearBit, Bytes.bit_clearBit, Bytes.bit_clearBit, h.metadata i hi,
      decide_eq_false (by omega), decide_eq_false (by omega), decide_eq_false (by omega)]
    rfl
  · rw [htable]
    exact (SnapshotEntry.read_splice_self hlt (by decide) (by decide) (by decide)).active

/-- A deletion only takes an entry away. -/
theorem delete_sound (h : SoundTable r.volume) (hrec : Recorded r) :
    SoundTable (r.next (.delete id)).volume ∧ Recorded (r.next (.delete id)) := by
  have hrun := deleteSnapshot_eq h.layout h.data id
  cases hfind : findSnapshot (r.volume.disk 5) id with
  | none =>
    rw [hfind] at hrun
    have hnext : r.next (.delete id) = r := by
      simp only [SnapshotRun.next, hrun]
    rw [hnext]
    exact ⟨h, hrec⟩
  | some slot =>
    obtain ⟨hlt, hactive, hid⟩ := findSnapshot_eq_some hfind
    rw [hfind] at hrun
    obtain ⟨hlayout, hmeta, htable, hgone⟩ := snapshotDropped_spec h hfind
    dsimp only at hrun
    generalize r.volume.snapshotDropped slot (SnapshotEntry.read (r.volume.disk 5) slot) = v'
      at hrun hlayout hmeta htable hgone
    have hnext : r.next (.delete id) = ⟨v', update r.made id none⟩ := by
      simp only [SnapshotRun.next, hrun]
    rw [hnext]
    refine ⟨h.put hlayout hmeta hlt htable (fun ha => absurd hgone ha)
      (fun ha => absurd hgone ha), ?_⟩
    intro i hi hia
    show update r.made id none _ = some (SnapshotEntry.read (v'.disk 5) i)
    have hne : i ≠ slot := fun heq => hia (heq ▸ hgone)
    have hspliced := read_spliced (r.volume.disk 5) (e := SnapshotEntry.cleared) hi hne
    rw [← htable] at hspliced
    rcases hspliced with ⟨-, hzero⟩ | ⟨-, hsame⟩
    · exact absurd hzero hia
    · have hia' : (SnapshotEntry.read (v'.disk 5) i).active ≠ 0 := hia
      rw [hsame] at hia' ⊢
      have hother : (SnapshotEntry.read (r.volume.disk 5) i).id ≠ id := fun heq =>
        hne (h.distinct i hi slot hlt hia' hactive (heq.trans hid.symm))
      rw [update_of_ne hother, hrec i hi hia']

/-- A creation that spares the next slot takes no snapshot away. -/
theorem create_present (h : SoundTable r.volume) (hpres : Present r)
    (hguard : Spares r (.create ts)) : Present (r.next (.create ts)) := by
  rcases hrun : createSnapshot ts r.volume with ⟨_ | id, v'⟩
  · have hnext : r.next (.create ts) = ⟨v', r.made⟩ := by
      simp only [SnapshotRun.next, hrun]
    obtain ⟨-, htable, -⟩ := createSnapshot_fails h.layout h.metadata hrun
    rw [hnext]
    unfold Present
    simp only [htable]
    exact hpres
  · obtain ⟨slot, hlt, htakes, -, hlayout, -, ⟨e, htable⟩, hactive, hsid, -⟩ :=
      createSnapshot_succeeds h hrun
    have hnext : r.next (.create ts) =
        ⟨v', update r.made id (some (SnapshotEntry.read (v'.disk 5) slot))⟩ := by
      simp only [SnapshotRun.next, hrun, htakes.1, Option.getD_some, snapshotTable_eq hlayout]
    have hfree : (SnapshotEntry.read (r.volume.disk 5) slot).active = 0 := by
      have hslot := htakes.1
      rw [snapshotTable_eq h.layout, freeSnapshotSlot, List.find?_range'_eq_some] at hslot
      simpa using hslot.1
    rw [hnext]
    intro id' e' hmade
    dsimp only at hmade ⊢
    by_cases hsame : id' = id
    · subst hsame
      rw [update_self] at hmade
      obtain rfl := Option.some.inj hmade
      exact ⟨slot, hlt, hactive, rfl, hsid⟩
    · rw [update_of_ne hsame] at hmade
      obtain ⟨i, hi, hia, hread, hid⟩ := hpres id' e' hmade
      have hne : i ≠ slot := fun heq => hia (heq ▸ hfree)
      have hnextslot : i ≠ slot + 1 := by
        rintro rfl
        have hzero := hguard slot htakes hi
        rw [snapshotTable_eq h.layout] at hzero
        exact hia hzero
      have hkept : SnapshotEntry.read (v'.disk 5) i = SnapshotEntry.read (r.volume.disk 5) i := by
        rw [htable]
        exact SnapshotEntry.read_splice_of_ne hne hnextslot
      exact ⟨i, hi, by rw [hkept]; exact hia, by rw [hkept]; exact hread, hid⟩

/-- A deletion that spares the next slot takes only its own snapshot away. -/
theorem delete_present (h : SoundTable r.volume) (hpres : Present r)
    (hguard : Spares r (.delete id)) : Present (r.next (.delete id)) := by
  have hrun := deleteSnapshot_eq h.layout h.data id
  cases hfind : findSnapshot (r.volume.disk 5) id with
  | none =>
    rw [hfind] at hrun
    have hnext : r.next (.delete id) = r := by
      simp only [SnapshotRun.next, hrun]
    rw [hnext]
    exact hpres
  | some slot =>
    obtain ⟨hlt, hactive, hslotid⟩ := findSnapshot_eq_some hfind
    rw [hfind] at hrun
    obtain ⟨-, -, htable, -⟩ := snapshotDropped_spec h hfind
    dsimp only at hrun
    generalize r.volume.snapshotDropped slot (SnapshotEntry.read (r.volume.disk 5) slot) = v'
      at hrun htable
    have hnext : r.next (.delete id) = ⟨v', update r.made id none⟩ := by
      simp only [SnapshotRun.next, hrun]
    rw [hnext]
    intro id' e' hmade
    dsimp only at hmade ⊢
    have hother : id' ≠ id := by
      rintro rfl
      rw [update_self] at hmade
      exact nomatch hmade
    rw [update_of_ne hother] at hmade
    obtain ⟨i, hi, hia, hread, hid⟩ := hpres id' e' hmade
    have hne : i ≠ slot := by
      rintro rfl
      rw [← hread, hslotid] at hid
      exact hother hid.symm
    have hnextslot : i ≠ slot + 1 := by
      rintro rfl
      have hzero := hguard slot (by rw [snapshotTable_eq h.layout]; exact hfind) hi
      rw [snapshotTable_eq h.layout] at hzero
      exact hia hzero
    have hkept : SnapshotEntry.read (v'.disk 5) i = SnapshotEntry.read (r.volume.disk 5) i := by
      rw [htable]
      exact SnapshotEntry.read_splice_of_ne hne hnextslot
    exact ⟨i, hi, by rw [hkept]; exact hia, by rw [hkept]; exact hread, hid⟩

end Steps

/-- The invariant of a run. -/
theorem sound_of_run {G : SnapshotRun → SnapshotOp → Prop} {r : SnapshotRun}
    (hG : ∀ r op, G r op → Unambiguous r op) (h : snapshotMachine.Run G r) :
    SoundTable r.volume ∧ Recorded r := by
  refine Machine.Run.invariant (I := fun r => SoundTable r.volume ∧ Recorded r) ?_ ?_ h
  · rintro r ⟨hnone, -⟩
    have hzero := hnone.inactive
    rw [snapshotTable_eq hnone.layout] at hzero
    exact ⟨⟨hnone.layout, hnone.metadata, fun i hi ha => absurd (hzero i hi) ha,
      fun i hi _ _ ha => absurd (hzero i hi) ha⟩, fun i hi ha => absurd (hzero i hi) ha⟩
  · rintro r op _ ⟨hsound, hrec⟩ hguard rfl
    cases op with
    | create ts => exact create_sound hsound hrec (hG _ _ hguard)
    | delete id => exact delete_sound hsound hrec

theorem present_of_run {r : SnapshotRun}
    (h : snapshotMachine.Run (fun r op => Unambiguous r op ∧ Spares r op) r) : Present r := by
  induction h with
  | start h =>
    intro id e hmade
    rw [h.2] at hmade
    exact nomatch hmade
  | @snoc r r' op hrun hguard hstep ih =>
    have hsound := (sound_of_run (fun _ _ h => h.1) hrun).1
    rw [show r' = r.next op from hstep]
    cases op with
    | create ts => exact create_present hsound ih hguard.2
    | delete id => exact delete_present hsound ih hguard.2

/-- Every id names one snapshot: the active entries differ in their ids, the listing
has no id twice, and a rollback or a deletion that succeeds acts on the entry the
creation that returned the id left. -/
structure Identified (r : SnapshotRun) : Prop where
  distinct : ∀ i < maxSnapshots, ∀ j < maxSnapshots,
    (SnapshotEntry.read r.volume.snapshotTable i).active ≠ 0 →
      (SnapshotEntry.read r.volume.snapshotTable j).active ≠ 0 →
        (SnapshotEntry.read r.volume.snapshotTable i).id
          = (SnapshotEntry.read r.volume.snapshotTable j).id → i = j
  listed : ∃ infos, listSnapshots r.volume = (some infos, r.volume) ∧ (infos.map (·.id)).Nodup
  rollback : ∀ id v, rollbackToSnapshot id r.volume = (some (), v) →
    ∃ e, r.made id = some e ∧ v = r.volume.rolledBack e
  delete : ∀ id v, deleteSnapshot id r.volume = (some (), v) →
    ∃ e slot, r.made id = some e ∧ SnapshotEntry.read r.volume.snapshotTable slot = e ∧
      v = r.volume.snapshotDropped slot e

/-- Every snapshot that was made and not deleted is still there to roll back to and to
delete. -/
structure Found (r : SnapshotRun) : Prop where
  rollback : ∀ id e, r.made id = some e →
    rollbackToSnapshot id r.volume = (some (), r.volume.rolledBack e)
  delete : ∀ id e, r.made id = some e → ∃ slot,
    deleteSnapshot id r.volume = (some (), r.volume.snapshotDropped slot e)

theorem listSnapshots_nodup {v : Volume} (h : SoundTable v) :
    ∃ infos, listSnapshots v = (some infos, v) ∧ (infos.map (·.id)).Nodup := by
  refine ⟨_, rfl, ?_⟩
  show (List.map _ (List.map _ (List.filter _ (List.map
    (SnapshotEntry.read (v.disk v.superblock.snapshotBlock)) _)))).Nodup
  rw [List.map_map, List.filter_map, List.map_map, h.layout.snapshotBlock]
  -- slots with the same id are the same slot
  refine List.Nodup.map_on ?_ ((List.nodup_range' ..).filter _)
  intro i hi j hj hids
  rw [List.mem_filter, List.mem_range'_1] at hi hj
  have hia := hi.2
  have hja := hj.2
  simp only [Function.comp_apply, decide_eq_true_eq] at hia hja
  exact h.distinct i (by omega) j (by omega) hia hja hids

/-- **Ids name snapshots** while creations give unused ids; while no operation writes
over the slot of an active entry, every snapshot is also found until it is deleted. -/
theorem snapshots_of_run (r : SnapshotRun) :
    (snapshotMachine.Run Unambiguous r → Identified r) ∧
      (snapshotMachine.Run (fun r op => Unambiguous r op ∧ Spares r op) r → Found r) := by
  refine ⟨fun hrun => ?_, fun hrun => ?_⟩
  · obtain ⟨hsound, hrec⟩ := sound_of_run (fun _ _ h => h) hrun
    have htable := snapshotTable_eq hsound.layout
    refine ⟨?_, listSnapshots_nodup hsound, fun id v hv => ?_, fun id v hv => ?_⟩
    · rw [htable]
      exact hsound.distinct
    · rw [rollbackToSnapshot_eq hsound.layout] at hv
      cases hfind : findSnapshot (r.volume.disk 5) id with
      | none =>
        rw [hfind] at hv
        exact nomatch congrArg Prod.fst hv
      | some slot =>
        rw [hfind] at hv
        obtain ⟨hlt, hactive, hid⟩ := findSnapshot_eq_some hfind
        exact ⟨_, hid ▸ hrec slot hlt hactive, (congrArg Prod.snd hv).symm⟩
    · rw [deleteSnapshot_eq hsound.layout hsound.data] at hv
      cases hfind : findSnapshot (r.volume.disk 5) id with
      | none =>
        rw [hfind] at hv
        exact nomatch congrArg Prod.fst hv
      | some slot =>
        rw [hfind] at hv
        obtain ⟨hlt, hactive, hid⟩ := findSnapshot_eq_some hfind
        exact ⟨_, slot, hid ▸ hrec slot hlt hactive, by rw [htable], (congrArg Prod.snd hv).symm⟩
  · have hsound := (sound_of_run (fun _ _ h => h.1) hrun).1
    have hfound : ∀ id e, r.made id = some e → ∃ slot,
        findSnapshot (r.volume.disk 5) id = some slot ∧
          SnapshotEntry.read (r.volume.disk 5) slot = e := by
      intro id e hmade
      obtain ⟨i, hi, hia, hread, hid⟩ := present_of_run hrun id e hmade
      refine ⟨i, ?_, hread⟩
      have hfind := hsound.find hi hia
      rwa [hread, hid] at hfind
    refine ⟨fun id e hmade => ?_, fun id e hmade => ?_⟩
    · obtain ⟨slot, hfind, hread⟩ := hfound id e hmade
      rw [rollbackToSnapshot_eq hsound.layout, hfind, ← hread]
    · obtain ⟨slot, hfind, hread⟩ := hfound id e hmade
      refine ⟨slot, ?_⟩
      rw [deleteSnapshot_eq hsound.layout hsound.data, hfind, ← hread]

/-- A blank volume before any snapshot. -/
def blankRun : SnapshotRun := ⟨blankVolume, fun _ => none⟩

theorem noSnapshots_blank : NoSnapshots blankVolume := by
  constructor
  · rfl
  · decide
  · decide

theorem reachable_snapshots (ops : List SnapshotOp) {r : SnapshotRun}
    (h : snapshotMachine.Reachable r) : snapshotMachine.Reachable (ops.foldl SnapshotRun.next r) := by
  induction ops generalizing r with
  | nil => exact h
  | cons op ops ih => exact ih (.snoc h trivial rfl)

/-- A run of one creation. -/
theorem firstSnapshot_run :
    snapshotMachine.Run (fun r op => Unambiguous r op ∧ Spares r op) (blankRun.next (.create 7)) := by
  have hzero := noSnapshots_blank.inactive
  refine .snoc (s := blankRun) (.start ⟨noSnapshots_blank, rfl⟩) ⟨?_, ?_⟩ rfl
  · intro slot _ i hi _ ha
    exact absurd (hzero i hi) ha
  · intro slot _ hlt
    exact hzero _ hlt

theorem snapshots_of_run_first :
    Identified (blankRun.next (.create 7)) ∧ ∃ e, (blankRun.next (.create 7)).made 1 = some e ∧
      rollbackToSnapshot 1 (blankRun.next (.create 7)).volume
        = (some (), (blankRun.next (.create 7)).volume.rolledBack e) := by
  have hmade : ((blankRun.next (.create 7)).made 1).isSome = true := by decide +kernel
  obtain ⟨e, he⟩ := Option.isSome_iff_exists.mp hmade
  exact ⟨(snapshots_of_run _).1 (firstSnapshot_run.mono fun _ _ h => h.1), e, he,
    ((snapshots_of_run _).2 firstSnapshot_run).rollback 1 e he⟩

/-- Three snapshots, the first one deleted, and one more. -/
def reusedId : List SnapshotOp := [.create 0, .create 1, .create 2, .delete 1, .create 3]

/-- **Deleting a snapshot makes a later one take an id in use**: the fourth snapshot
gets the id 3 of the third one, in the slot the first one left. The deletion also
took the second one out of the table. -/
theorem reusedId_twice : ¬ ∀ r, snapshotMachine.Reachable r → Identified r := by
  intro h
  have hids := (h _ (reachable_snapshots reusedId (r := blankRun)
    (.start ⟨noSnapshots_blank, rfl⟩))).distinct
    0 (by decide) 2 (by decide)
  exact absurd hids (by decide +kernel)

end AthenaOS
