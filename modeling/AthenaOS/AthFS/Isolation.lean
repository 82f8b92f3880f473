import AthenaOS.AthFS.Coherence

/-!
# Buckets apart

A bucket is a root directory and a quota. `bucket_write_at` takes the number of an
inode and does not ask whose it is, so what keeps two buckets apart is the numbers an
app uses, and the allocator.
-/

namespace AthenaOS

open Lib Fallible

/-! ## What a file is read from -/

/-- The bytes the files are read from: up to their size the index nodes and the data,
and their records without the number. -/
def Volume.fileBytes (v : Volume) (files : List Nat) (b k : Nat) : Prop :=
  ∃ i ∈ files,
    (∃ l, l * blockSize < (v.inode i).size ∧ b ∈ readBlocks v.disk (v.inode i) l) ∨
    (b = v.superblock.inodeBlockOf i ∧ i % 32 * 128 + 8 ≤ k ∧
      k < i % 32 * 128 + (v.inode i).readEnd)

/-- The file has the same size and the same content. -/
def SameFile (v v' : Volume) (i : Nat) : Prop :=
  (v'.inode i).size = (v.inode i).size ∧ ∀ aes settings offset len,
    heldAt aes settings v' i offset len = heldAt aes settings v i offset len

variable {v v' : Volume} {i slot appId b : Nat} {files : List Nat} {bucket : DiskBucketEntry}
variable {name : List UInt8}

theorem SameFile.trans {v'' : Volume} (h : SameFile v v' i) (h' : SameFile v' v'' i) :
    SameFile v v'' i :=
  ⟨h'.1.trans h.1, fun aes settings offset len =>
    (h'.2 aes settings offset len).trans (h.2 aes settings offset len)⟩

/-- A read depends on the blocks below the size. -/
theorem readAtLoop_congr {σ : Type} {disk disk' : Disk} {inode inode' : DiskInode}
    {fetch fetch' : Nat → Fallible σ Block} (hsize : inode'.size = inode.size)
    (hlookup : ∀ l, l * blockSize < inode.size →
      lookupExtent disk' inode' l = lookupExtent disk inode l)
    (hfetch : ∀ l, l * blockSize < inode.size → fetch' l = fetch l) (offset room : Nat) :
    readAtLoop disk' inode' fetch' offset room = readAtLoop disk inode fetch offset room := by
  induction room using Nat.strong_induction_on generalizing offset with
  | _ room ih =>
    rw [readAtLoop, readAtLoop, hsize]
    split
    · rfl
    · rename_i hmore
      have hoffset : offset / blockSize * blockSize < inode.size :=
        Nat.lt_of_le_of_lt (Nat.div_mul_le_self _ _) (by omega)
      have hlt : room - roundLength inode.size offset room < room := by
        have := roundLength_pos inode.size offset room (by omega) (by omega)
        omega
      rw [hlookup _ hoffset, hfetch _ hoffset]
      dsimp only
      rw [ih _ hlt]

/-- The fields of a record a file is read with. -/
theorem DiskInode.readEnd_le (inode : DiskInode) :
    128 ≤ inode.readEnd ∧ inode.readEnd ≤ 132 := by
  rw [readEnd]
  split <;> omega

/-- **A file whose bytes are as they were is the same.** -/
theorem sameFile_of_intact (hlayout : v'.superblock.layout = v.superblock.layout)
    (hintact : ∀ b k, k < blockSize → v.fileBytes files b k → (v'.disk b).get k = (v.disk b).get k)
    (hi : i ∈ files) : SameFile v v' i := by
  have hblk : v'.superblock.inodeBlockOf i = v.superblock.inodeBlockOf i := by
    show v'.superblock.layout.inodeBlockOf i = v.superblock.layout.inodeBlockOf i
    rw [hlayout]
  obtain ⟨hlo, hhi⟩ := (v.inode i).readEnd_le
  have hrecord : ∀ k, 8 ≤ k → k < (v.inode i).readEnd → (v'.inode i).get k = (v.inode i).get k := by
    intro k hk hend
    rw [Bytes.get_of_lt _ (by omega), Bytes.get_of_lt _ (by omega)]
    show (v'.disk (v'.superblock.inodeBlockOf i)).get (i % 32 * 128 + k) =
      (v.disk (v.superblock.inodeBlockOf i)).get (i % 32 * 128 + k)
    rw [hblk]
    by_cases hin : i % 32 * 128 + k < blockSize
    · exact hintact _ _ hin ⟨i, hi, .inr ⟨rfl, by omega, by omega⟩⟩
    · rw [Bytes.get, Bytes.get, dif_neg hin, dif_neg hin]
  have hsize : (v'.inode i).size = (v.inode i).size :=
    Bytes.getLE_congr fun k hk => hrecord _ (by omega) (by omega)
  have hblocks : ∀ l, l * blockSize < (v.inode i).size →
      ∀ b ∈ readBlocks v.disk (v.inode i) l, v'.disk b = v.disk b := by
    intro l hl b hb
    funext k
    have := hintact b k k.isLt ⟨i, hi, .inl ⟨l, hl, hb⟩⟩
    rwa [Bytes.get_val, Bytes.get_val] at this
  refine ⟨hsize, fun aes settings offset len => ?_⟩
  refine congrArg (fun m : Fallible Unit (List UInt8) => (m ()).1)
    (readAtLoop_congr hsize (fun l hl => ?_) (fun l hl => ?_) offset len)
  · rw [lookupExtent_record hrecord, lookupExtent_congr (hblocks l hl)]
  · rw [fetchHeld, fetchHeld, extentBlock_record hrecord, extentBlock_congr (hblocks l hl)]

/-! ## The bucket table -/

/-- The first slot an app has in the bucket table, and its entry. -/
def Volume.bucketOf (v : Volume) (appId : Nat) : Option (Nat × DiskBucketEntry) :=
  let table := v.disk v.superblock.bucketTableBlock
  ((List.range' 0 maxBuckets).find? fun i => (DiskBucketEntry.read table i).appId = appId).map
    fun slot => (slot, DiskBucketEntry.read table slot)

theorem readBucketEntry_run (hslot : slot < maxBuckets) (v : Volume) :
    readBucketEntry slot v =
      (some (DiskBucketEntry.read (v.disk v.superblock.bucketTableBlock) slot), v) := by
  unfold readBucketEntry
  rw [bind_some (require_run v (decide_eq_true hslot))]
  rfl

theorem lookupBucket_run (appId : Nat) (v : Volume) :
    lookupBucket appId v = (v.bucketOf appId, v) := by
  unfold lookupBucket Volume.bucketOf
  dsimp only
  have hfind : findBucketSlot appId v = (some ((List.range' 0 maxBuckets).find? fun i =>
      (DiskBucketEntry.read (v.disk v.superblock.bucketTableBlock) i).appId = appId), v) := rfl
  rw [bind_some hfind]
  cases hslot : (List.range' 0 maxBuckets).find? fun i =>
      (DiskBucketEntry.read (v.disk v.superblock.bucketTableBlock) i).appId = appId with
  | none => exact bind_none rfl
  | some slot =>
    have hlt : slot < maxBuckets := by
      have hmem := List.mem_of_find?_eq_some hslot
      rw [List.mem_range'_1] at hmem
      omega
    rw [bind_some (ofOption_run v slot), bind_some (readBucketEntry_run hlt v)]
    rfl

/-- The entry found is in the table. -/
theorem bucketOf_eq_some (h : v.bucketOf appId = some (slot, bucket)) :
    slot < maxBuckets ∧ bucket = DiskBucketEntry.read (v.disk v.superblock.bucketTableBlock) slot ∧
      bucket.appId = appId := by
  unfold Volume.bucketOf at h
  dsimp only at h
  rw [Option.map_eq_some_iff] at h
  obtain ⟨i, hfind, heq⟩ := h
  rw [Prod.mk.injEq] at heq
  have hmem := List.mem_of_find?_eq_some hfind
  have happ := List.find?_some hfind
  rw [List.mem_range'_1] at hmem
  rw [decide_eq_true_eq, heq.2] at happ
  rw [← heq.1]
  exact ⟨by omega, heq.2.symm, happ⟩

/-- No entry of the app has used more than its quota. -/
def QuotaKept (table : Block) (appId : Nat) : Prop :=
  ∀ slot < maxBuckets, (DiskBucketEntry.read table slot).appId = appId →
    (DiskBucketEntry.read table slot).usedBlocks ≤ (DiskBucketEntry.read table slot).quotaBlocks

/-- A slot rewritten within the quota. -/
theorem QuotaKept.write {table : Block} (h : QuotaKept table appId) (hslot : slot < maxBuckets)
    {e : DiskBucketEntry} (hfits : e.Fits) (he : e.appId = appId → e.usedBlocks ≤ e.quotaBlocks) :
    QuotaKept (table.splice (slot * 64) e.toBytes) appId := by
  intro i hi
  by_cases heq : i = slot
  · subst heq
    rw [DiskBucketEntry.read_splice_self hi hfits]
    exact he
  · rw [DiskBucketEntry.read_splice_of_ne heq]
    exact h i hi

/-- What the write loop does to the entry: blocks are charged up to the quota. -/
def DiskBucketEntry.Charged (bucket bucket' : DiskBucketEntry) : Prop :=
  ∃ used, bucket' = { bucket with usedBlocks := used } ∧
    (used = bucket.usedBlocks ∨ used ≤ bucket.quotaBlocks)

theorem DiskBucketEntry.Charged.refl (bucket : DiskBucketEntry) : bucket.Charged bucket :=
  ⟨bucket.usedBlocks, rfl, .inl rfl⟩

theorem DiskBucketEntry.Charged.trans {a b c : DiskBucketEntry} (h : a.Charged b)
    (h' : b.Charged c) : a.Charged c := by
  obtain ⟨used, rfl, hused⟩ := h
  obtain ⟨used', rfl, hused'⟩ := h'
  refine ⟨used', rfl, ?_⟩
  rcases hused' with rfl | hle
  · exact hused
  · exact .inr hle

/-! ## Calls of one app -/

/-- The tables lie apart from the files, and from the bucket table. -/
structure MetaApart (v : Volume) (files : List Nat) : Prop where
  files : ∀ b k, v.fileBytes files b k → ¬ v.superblock.isTable b ∧
    b ≠ v.superblock.inodeBitmapBlock ∧ b ≠ v.superblock.bucketTableBlock
  bucketTable : ¬ v.superblock.isTable v.superblock.bucketTableBlock ∧
    v.superblock.bucketTableBlock ≠ v.superblock.inodeBitmapBlock

/-- The bytes behind the files, and the bucket table. -/
def Volume.bucketBytes (v : Volume) (files : List Nat) (b k : Nat) : Prop :=
  v.fileBytes files b k ∨ b = v.superblock.bucketTableBlock

/-- Files and bucket table, to be left alone. -/
def MetaApart.shield {v : Volume} {files : List Nat} (h : MetaApart v files) : Shield where
  start := v
  bytes := v.bucketBytes files
  tables := by
    rintro b k (hb | rfl)
    · exact (h.files b k hb).1
    · exact h.bucketTable.1

/-- Inode `i` may be written: it is none of the files, its record carries its number and
lies in none of their index or data blocks, nor in the bucket table. -/
structure WriteApart (v : Volume) (files : List Nat) (i : Nat) : Prop where
  own : (v.inode i).id = i
  other : i ∉ files
  record : ∀ j ∈ files, ∀ l, l * blockSize < (v.inode j).size →
    v.superblock.inodeBlockOf i ∉ readBlocks v.disk (v.inode j) l
  bucketTable : v.superblock.inodeBlockOf i ≠ v.superblock.bucketTableBlock

def MetaApart.protects {v : Volume} {files : List Nat} {i : Nat} (h : MetaApart v files)
    (hi : WriteApart v files i) : Protected where
  toShield := h.shield
  inodeId := i
  own := hi.own
  record := by
    rintro k (⟨j, hj, ⟨l, hl, hb⟩ | ⟨hblk, hlo, hhi⟩⟩ | hb) hge hlt
    · exact absurd hb (hi.record j hj l hl)
    · -- two records of one block overlap only in the number of the second
      have hne : j ≠ i := by
        rintro rfl
        exact hi.other hj
      have hend := (v.inode j).readEnd_le
      change v.superblock.inodeTableBlock + i / 32 = v.superblock.inodeTableBlock + j / 32 at hblk
      omega
    · exact absurd hb hi.bucketTable

/-- The number `allocate_inode` gives out next. -/
def Volume.nextInode (v : Volume) : Option Nat :=
  (List.range' 1 (Superblock.bitsPerBlock - 1)).find? fun i => !v.inodeBit i

/-- The slot of a new inode has no byte of the files or of the bucket table. -/
def SlotApart (v : Volume) (files : List Nat) (i : Nat) : Prop :=
  ∀ k, i % 32 * 128 ≤ k → k < i % 32 * 128 + 136 →
    ¬ v.bucketBytes files (v.superblock.inodeBlockOf i) k

/-- What a call leaves of the volume it started on. -/
structure Isolated (v : Volume) (files : List Nat) (appId : Nat) (v' : Volume) : Prop where
  layout : v'.superblock.layout = v.superblock.layout
  files : ∀ b k, k < blockSize → v.fileBytes files b k → (v'.disk b).get k = (v.disk b).get k
  quota : QuotaKept (v.disk v.superblock.bucketTableBlock) appId →
    QuotaKept (v'.disk v'.superblock.bucketTableBlock) appId

section Calls

open Shield Protected

variable {v : Volume} {files : List Nat} {appId i : Nat} {c : Prop}

/-- A volume some call ends in. -/
def MetaApart.Settled (h : MetaApart v files) (appId : Nat) (v' : Volume) : Prop :=
  v'.Allowed (sparesBlocks h.shield.block) → Isolated v files appId v'

theorem bucketTableBlock_layout {sb sb' : Superblock} (h : sb'.layout = sb.layout) :
    sb'.bucketTableBlock = sb.bucketTableBlock := by
  show sb'.layout.bucketTableBlock = sb.layout.bucketTableBlock
  rw [h]

/-- The bucket table is one of the protected blocks. -/
theorem bucketTable_intact (h : MetaApart v files) {disk : Disk} (hI : h.shield.Intact disk) :
    disk v.superblock.bucketTableBlock = v.disk v.superblock.bucketTableBlock := by
  funext k
  have := hI v.superblock.bucketTableBlock k k.isLt (.inr rfl)
  rwa [Bytes.get_val, Bytes.get_val] at this

theorem settled_of_spared (h : MetaApart v files) {v' : Volume} (hv : h.shield.Spared c v') :
    h.Settled appId v' := by
  intro ha
  obtain ⟨hI, -⟩ := hv.2 ha
  have hblk : v'.superblock.bucketTableBlock = v.superblock.bucketTableBlock :=
    bucketTableBlock_layout hv.1
  refine ⟨hv.1, fun b k hk hb => hI b k hk (.inl hb), fun hq => ?_⟩
  rw [hblk, bucketTable_intact h hI]
  exact hq

variable {slot : Nat} {W : Shield} {inode : DiskInode}

/-- The entry written at the end. -/
theorem settled_writeBucketEntry (h : MetaApart v files) (hslot : slot < maxBuckets)
    {e : DiskBucketEntry} (hfits : e.Fits) (he : QuotaKept (v.disk v.superblock.bucketTableBlock)
      appId → e.appId = appId → e.usedBlocks ≤ e.quotaBlocks) :
    Spec (h.shield.Spared c) (writeBucketEntry slot e) (fun _ => h.Settled appId)
      (h.Settled appId) := by
  refine ⟨fun v' hv => ?_⟩
  unfold writeBucketEntry
  rw [bind_some (require_run v' (decide_eq_true hslot)), bind_some (superblock_run v'),
    bind_some (readBlock_run v' _), writeVolBlock_run]
  intro ha
  obtain ⟨hI, -⟩ := hv.2 (allowed_note.mp ha).1
  have hblk : v'.superblock.bucketTableBlock = v.superblock.bucketTableBlock :=
    bucketTableBlock_layout hv.1
  refine ⟨hv.1, fun b k hk hb => ?_, fun hq => ?_⟩
  · have hne : b ≠ v'.superblock.bucketTableBlock := by
      rw [hblk]
      exact (h.files b k hb).2.2
    rw [write_disk, Function.update_of_ne hne]
    exact hI b k hk (.inl hb)
  · rw [write_superblock, write_disk, Function.update_self, hblk, bucketTable_intact h hI]
    exact hq.write hslot hfits (he hq)

/-! ## `bucket_write_at` -/

theorem spared_readBlockIf (p : Bool) (b : Nat) : Preserves (W.Spared c) (readBlockIf p b) :=
  Preserves.ite (spared_readBlock b) Preserves.pure

theorem spared_bucketWriteOne {W : Protected} (bucket : DiskBucketEntry) (hown : W.Owned inode)
    (offset : Nat) (data : List UInt8) :
    Spec (W.Spared c) (bucketWriteOne bucket inode offset data)
      (fun o s => W.Spared c s ∧ ∀ r, o = some r → bucket.Charged r.1 ∧ W.Owned r.2)
      (W.Spared c) := by
  have hbreak : ∀ s, W.Spared c s → W.Spared c s ∧
      ∀ r : DiskBucketEntry × DiskInode, none = some r → bucket.Charged r.1 ∧ W.Owned r.2 :=
    fun _ hs => ⟨hs, fun _ hr => nomatch hr⟩
  unfold bucketWriteOne
  refine .ite (fun _ => Spec.pure hbreak) fun _ => ?_
  refine .ite (fun _ => Spec.pure hbreak) fun hroom => ?_
  refine .bind (spared_readBlockIf _ _) fun buf => ?_
  refine .bind (spared_cowWriteBlock hown _ _) fun r => Spared.pre fun hr => ?_
  refine .bind Preserves.require fun _ => Spec.pure fun s hs => ⟨hs, fun result hresult => ?_⟩
  rw [← Option.some.inj hresult]
  dsimp only
  constructor
  · -- a block is only charged while the quota is not reached
    split
    · rename_i hneeds
      rw [hneeds, Bool.true_and, decide_eq_true_eq, Nat.not_le] at hroom
      exact ⟨_, rfl, .inr hroom⟩
    · exact .refl bucket
  · split
    · exact hr.putLE 8 _ (by omega)
    · exact hr

theorem spared_bucketWriteLoop {W : Protected} (bucket : DiskBucketEntry) (hown : W.Owned inode)
    (offset : Nat) (data : List UInt8) (written : Nat) :
    Spec (W.Spared c) (bucketWriteLoop bucket inode offset data written)
      (fun r s => W.Spared c s ∧ bucket.Charged r.1 ∧ W.Owned r.2.1) (W.Spared c) := by
  induction hn : data.length using Nat.strong_induction_on
    generalizing bucket inode offset data written with
  | _ n ih =>
    subst hn
    rw [bucketWriteLoop]
    split
    · exact .pure fun _ hs => ⟨hs, .refl bucket, hown⟩
    · rename_i hdata
      refine .bind (spared_bucketWriteOne bucket hown _ _) fun o => Spared.pre fun ho => ?_
      cases o with
      | none => exact .pure fun _ hs => ⟨hs, .refl bucket, hown⟩
      | some r =>
        obtain ⟨hcharged, hr⟩ := ho r rfl
        refine (ih _ ?_ r.1 hr _ _ _ rfl).post
          (fun _ _ hs => ⟨hs.1, hcharged.trans hs.2.1, hs.2.2⟩) fun _ hs => hs
        have hpos : 0 < data.length := List.length_pos_iff.mpr hdata
        have hmod : offset % blockSize < blockSize := Nat.mod_lt _ (by decide)
        rw [List.length_drop]
        omega

theorem spared_untraced (W : Shield) : W.Spared True W.start.untraced :=
  ⟨rfl, fun _ => ⟨fun _ _ _ _ => rfl, trivial⟩⟩

/-- The end of `bucket_write_at`: the loop, the record and the entry. -/
theorem settled_writeAndCharge (h : MetaApart v files) (hi : WriteApart v files i)
    {bucket : DiskBucketEntry} (hbucket : v.bucketOf appId = some (slot, bucket))
    (hown : (h.protects hi).Owned inode) (offset : Nat) (data : List UInt8) :
    Spec (h.shield.Spared c)
      (bucketWriteLoop bucket inode offset data 0 >>= fun r =>
        if 0 < r.2.2 then do
          writeInode r.2.1
          writeBucketEntry slot r.1
          return r.2.2
        else return r.2.2)
      (fun _ => h.Settled appId) (h.Settled appId) := by
  obtain ⟨hslot, hread, happ⟩ := bucketOf_eq_some hbucket
  have hfits : bucket.Fits := by
    rw [hread]
    exact DiskBucketEntry.fits_read _ _
  refine .bind ((spared_bucketWriteLoop (W := h.protects hi) bucket hown offset data 0).post
    (fun _ _ hs => hs) fun _ hs => settled_of_spared h hs) fun r => Spared.pre fun hr => ?_
  refine .ite (fun _ => ?_) fun _ => Spec.pure fun _ hs => settled_of_spared h hs
  refine .bind (Q := fun _ => h.shield.Spared c)
    ((spared_writeInode (W := h.protects hi) hr.2).post (fun _ _ hs => hs)
      fun _ hs => settled_of_spared h hs) fun _ => ?_
  obtain ⟨used, hcharged, hused⟩ := hr.1
  refine .bind (settled_writeBucketEntry h hslot ?_ fun hq _ => ?_) fun _ =>
    Spec.pure fun _ hs => hs
  · rw [hcharged]
    refine { hfits with usedBlocks := ?_ }
    rcases hused with rfl | hle
    · exact hfits.usedBlocks
    · exact Nat.lt_of_le_of_lt hle hfits.quotaBlocks
  · rw [hcharged]
    rcases hused with rfl | hle
    · have hkept := hq slot hslot
      rw [← hread] at hkept
      exact hkept happ
    · exact hle

/-- **A write to an inode apart from the files** leaves them, and the quota. -/
theorem settled_bucketWriteAt (h : MetaApart v files)
    (hapart : ∀ slot bucket, v.bucketOf appId = some (slot, bucket) →
      bucket.allows bcapWriteOwn = true → WriteApart v files i)
    (offset : Nat) (data : List UInt8) :
    h.Settled appId (bucketWriteAt appId i offset data v.untraced).2 := by
  have hstart : h.shield.Spared True v.untraced := spared_untraced h.shield
  suffices hspec : Spec (fun s => s = v.untraced) (bucketWriteAt appId i offset data)
      (fun _ => h.Settled appId) (h.Settled appId) from hspec.snd rfl
  unfold bucketWriteAt
  refine .bind (Q := fun found s => s = v.untraced ∧ v.bucketOf appId = some found)
    ⟨?lookup⟩ fun found => ?_
  case lookup =>
    rintro s rfl
    rw [lookupBucket_run]
    cases hbucket : v.untraced.bucketOf appId with
    | none => exact settled_of_spared h hstart
    | some found => exact ⟨rfl, hbucket⟩
  obtain ⟨slot, bucket⟩ := found
  dsimp only
  refine .bind (Q := fun _ s => (s = v.untraced ∧ v.bucketOf appId = some (slot, bucket)) ∧
    bucket.allows bcapWriteOwn = true) ?_ fun _ => ?_
  · refine .ite (fun hallows => Spec.pure fun s hs => ⟨hs, hallows⟩) fun _ => Spec.fail ?_
    rintro s ⟨rfl, -⟩
    exact settled_of_spared h hstart
  refine ⟨?_⟩
  rintro s ⟨⟨rfl, hbucket⟩, hallows⟩
  have hi := hapart slot bucket hbucket hallows
  have hinode : getInode i v.untraced = (some (v.inode i), v.untraced) := rfl
  rw [bind_some hinode]
  refine (Spec.bind (P := h.shield.Spared True) (Q := fun _ => h.shield.Spared True)
    (Preserves.require.post (fun _ _ hs => hs) fun _ hs => settled_of_spared h hs) fun _ => ?_).run
    v.untraced hstart
  exact settled_writeAndCharge h hi hbucket (fun _ _ => rfl) offset data

/-! ## `open_in_bucket` -/

theorem allocateInode_run (v : Volume) :
    allocateInode v = match v.nextInode with
      | none => (none, v.note .allocateInode)
      | some i => (some i, (v.note .allocateInode).write v.superblock.inodeBitmapBlock
          ((v.disk v.superblock.inodeBitmapBlock).setBit i)) := by
  unfold allocateInode
  rw [bind_some (mark_run v _), bind_some (superblock_run _), bind_some (readBlock_run _ _)]
  have hfind : (List.range' 1 (Superblock.bitsPerBlock - 1)).find? (fun i =>
      !((v.note .allocateInode).disk (v.note .allocateInode).superblock.inodeBitmapBlock).bit i) = v.nextInode := rfl
  rw [hfind]
  cases v.nextInode <;> rfl

theorem nextInode_lt {j : Nat} (h : v.nextInode = some j) : j < Superblock.bitsPerBlock := by
  have hmem := List.mem_of_find?_eq_some h
  rw [List.mem_range'_1] at hmem
  omega

/-- Neither the files nor the bucket table are in the inode bitmap. -/
theorem not_block_inodeBitmap (h : MetaApart v files) :
    ¬ h.shield.block v.superblock.inodeBitmapBlock := by
  rintro ⟨k, hb | hb⟩
  · exact (h.files _ k hb).2.1 rfl
  · exact h.bucketTable.2 hb.symm

theorem spared_createIn (h : MetaApart v files) (hi : WriteApart v files i)
    (hnext : ∀ j, v.nextInode = some j → SlotApart v files j) (name : List UInt8) :
    h.shield.Spared True (createIn (v.inode i) name v.untraced).2 := by
  have hnoted : h.shield.Spared True (v.untraced.note .allocateInode) :=
    (spared_mark _).snd (spared_untraced h.shield)
  unfold createIn
  cases hfree : v.nextInode with
  | none =>
    have hfree' : v.untraced.nextInode = none := hfree
    rw [bind_none ((allocateInode_run v.untraced).trans (by rw [hfree']))]
    exact hnoted
  | some j =>
    have hfree' : v.untraced.nextInode = some j := hfree
    rw [bind_some ((allocateInode_run v.untraced).trans (by rw [hfree']))]
    have hnum : (DiskInode.new j 0).id = j := by
      have hlt : j < 256 ^ 8 := (nextInode_lt hfree).trans (by decide)
      rw [DiskInode.id, DiskInode.new, Bytes.getLE_putLE_of_disjoint _ (by omega),
        Bytes.getLE_putLE_self _ (by omega) hlt]
    have hown : (h.protects hi).Owned (v.inode i) := fun _ _ => rfl
    have hmarked : h.shield.Spared True ((v.untraced.note .allocateInode).write
        v.superblock.inodeBitmapBlock ((v.disk v.superblock.inodeBitmapBlock).setBit j)) :=
      (spared_write fun _ => not_block_inodeBitmap h).snd hnoted
    refine Spec.snd (P := h.shield.Spared True) (E := h.shield.Spared True) ?_ hmarked
    refine Preserves.bind (Shield.spared_writeInode (W := h.shield) fun k hb hlo hhi => ?_)
      fun _ => ?_
    · -- the new slot has no protected byte
      rw [hnum] at hb hlo hhi
      exact absurd hb (hnext j hfree k hlo hhi)
    refine Preserves.bind Preserves.require fun _ => ?_
    refine Preserves.bind (spared_readBlockIf _ _) fun _ => ?_
    refine Spec.bind (spared_cowWriteBlock (W := h.protects hi) hown _ _) fun r =>
      Spared.pre fun hr => ?_
    refine Preserves.bind Preserves.require fun _ => ?_
    exact Preserves.bind (spared_writeInode (W := h.protects hi) (hr.putLE 8 _ (by omega)))
      fun _ => Preserves.pure

theorem require_none {p : Bool} (hp : ¬ p = true) (v : Volume) :
    (require p : AthM Unit) v = (none, v) := by
  rw [require, if_neg hp]
  rfl

/-- `open_in_bucket` fails, finds a name in the bucket's directory, or creates it there. -/
theorem openInBucket_cases (appId : Nat) (path : List UInt8) (write : Bool) (v : Volume) :
    openInBucket appId path write v = (none, v) ∨ ∃ slot bucket,
      v.bucketOf appId = some (slot, bucket) ∧
        ((∃ i, dirLookup v.disk (v.inode bucket.rootInode) (trimSlashes path) = some i ∧
          openInBucket appId path write v = (some i, v)) ∨
        (write = true ∧ dirLookup v.disk (v.inode bucket.rootInode) (trimSlashes path) = none ∧
          openInBucket appId path write v =
            createIn (v.inode bucket.rootInode) (trimSlashes path) v)) := by
  unfold openInBucket
  cases hbucket : v.bucketOf appId with
  | none =>
    rw [bind_none ((lookupBucket_run appId v).trans (congrArg (·, _) hbucket))]
    exact .inl rfl
  | some found =>
    obtain ⟨slot, bucket⟩ := found
    rw [bind_some ((lookupBucket_run appId v).trans (congrArg (·, _) hbucket))]
    dsimp only
    by_cases hcaps : (if write then bucket.allows bcapWriteOwn else bucket.allows bcapReadOwn) = true
    swap
    · rw [bind_none (require_none hcaps v)]
      exact .inl rfl
    rw [bind_some (require_run v hcaps)]
    by_cases hname : (!(trimSlashes path).isEmpty && (trimSlashes path).length ≤ 55) = true
    swap
    · rw [bind_none (require_none hname v)]
      exact .inl rfl
    have hroot : getInode bucket.rootInode v = (some (v.inode bucket.rootInode), v) := rfl
    have hget : (get : AthM Volume) v = (some v, v) := rfl
    rw [bind_some (require_run v hname), bind_some hroot, bind_some hget]
    cases hlookup : dirLookup v.disk (v.inode bucket.rootInode) (trimSlashes path) with
    | some inode => exact .inr ⟨slot, bucket, rfl, .inl ⟨inode, hlookup, rfl⟩⟩
    | none =>
      dsimp only
      by_cases hwrite : write = true
      swap
      · rw [bind_none (require_none hwrite v)]
        exact .inl rfl
      rw [bind_some (require_run v hwrite)]
      by_cases hquota : decide (bucket.usedBlocks < bucket.quotaBlocks) = true
      · rw [bind_some (require_run v hquota)]
        exact .inr ⟨slot, bucket, rfl, .inr ⟨hwrite, hlookup, rfl⟩⟩
      · rw [bind_none (require_none hquota v)]
        exact .inl rfl

/-- **Opening a file** leaves the others, if the record a new file gets is apart from
them. -/
theorem settled_openInBucket (h : MetaApart v files) {path : List UInt8} {write : Bool}
    (hapart : ∀ slot bucket, v.bucketOf appId = some (slot, bucket) → write = true →
      dirLookup v.disk (v.inode bucket.rootInode) (trimSlashes path) = none →
      WriteApart v files bucket.rootInode ∧ ∀ j, v.nextInode = some j → SlotApart v files j) :
    h.Settled appId (openInBucket appId path write v.untraced).2 := by
  rcases openInBucket_cases appId path write v.untraced with
    hfail | ⟨slot, bucket, hbucket, hopen⟩
  · rw [hfail]
    exact settled_of_spared h (spared_untraced h.shield)
  · rcases hopen with ⟨j, _, hfound⟩ | ⟨hwrite, hlookup, hcreate⟩
    · rw [hfound]
      exact settled_of_spared h (spared_untraced h.shield)
    · obtain ⟨hi, hnext⟩ := hapart slot bucket hbucket hwrite hlookup
      rw [hcreate]
      exact settled_of_spared h (spared_createIn h hi hnext _)

/-! ## `delete_bucket` -/

theorem spared_freeDirBlocks (dirSize : Nat) (blocks : List (Nat × Nat)) (inodes : List Nat) :
    Preserves (W.Spared c) (freeDirBlocks dirSize blocks inodes) := by
  induction blocks generalizing inodes with
  | nil => exact Preserves.pure
  | cons p blocks ih =>
    unfold freeDirBlocks
    refine Preserves.bind (spared_readBlock _) fun buf => ?_
    exact Preserves.bind (spared_freeBlock _) fun _ => ih _

theorem spared_freeInode (h : MetaApart v files) (inodeId : Nat) :
    Preserves (h.shield.Spared c) (freeInode inodeId) := by
  unfold freeInode
  refine Preserves.bind Preserves.require fun _ => ?_
  refine ⟨fun v' hv => ?_⟩
  have hblk : v'.superblock.inodeBitmapBlock = v.superblock.inodeBitmapBlock := by
    show v'.superblock.layout.inodeBitmapBlock = v.superblock.layout.inodeBitmapBlock
    rw [hv.1]
    rfl
  unfold clearInodeBit
  rw [bind_some (superblock_run v'), bind_some (readBlock_run v' _), hblk]
  exact (spared_write fun _ => not_block_inodeBitmap h).run v' hv

theorem spared_freeFile (h : MetaApart v files) (inodeId : Nat) :
    Preserves (h.shield.Spared c) (freeFile inodeId) := by
  unfold freeFile
  refine Preserves.bind ⟨fun _ hv => hv⟩ fun inode => ?_
  refine Preserves.bind (Preserves.forM fun blk _ => ?_) fun _ => spared_freeInode h inodeId
  exact Preserves.bind (Preserves.attempt (spared_freeBlock blk)) fun _ => Preserves.pure

/-- **Deleting a bucket** leaves the files of the others. -/
theorem settled_deleteBucket (h : MetaApart v files) :
    h.Settled appId (deleteBucket appId v.untraced).2 := by
  have hstart : h.shield.Spared True v.untraced := spared_untraced h.shield
  have hlookup : lookupBucket appId v.untraced = (v.bucketOf appId, v.untraced) :=
    lookupBucket_run appId v.untraced
  unfold deleteBucket
  cases hbucket : v.bucketOf appId with
  | none =>
    rw [hbucket] at hlookup
    rw [bind_none hlookup]
    exact settled_of_spared h hstart
  | some found =>
    obtain ⟨slot, bucket⟩ := found
    obtain ⟨hslot, -, -⟩ := bucketOf_eq_some hbucket
    rw [hbucket] at hlookup
    rw [bind_some hlookup]
    dsimp only
    have hkept : ∀ {α : Type} {m : AthM α}, Preserves (h.shield.Spared True) m →
        Spec (h.shield.Spared True) m (fun _ => h.shield.Spared True) (h.Settled appId) :=
      fun hm => hm.post (fun _ _ hs => hs) fun _ hs => settled_of_spared h hs
    refine Spec.snd (P := h.shield.Spared True) (E := h.Settled appId) ?_ hstart
    refine Spec.bind (hkept ⟨fun _ hs => hs⟩) fun root => ?_
    refine .bind (hkept (spared_freeDirBlocks _ _ _)) fun inodes => ?_
    refine .bind (hkept (Preserves.forM fun inodeId _ => spared_freeFile h inodeId)) fun _ => ?_
    refine .bind (hkept (spared_freeInode h _)) fun _ => ?_
    exact settled_writeBucketEntry h hslot ⟨by decide, by decide, by decide, by decide, by decide,
      by decide⟩ fun _ _ => le_rfl

end Calls

/-! ## Runs -/

/-- The files of a bucket: the inodes its directory names. -/
def Volume.bucketFiles (v : Volume) (appId : Nat) : List Nat :=
  match v.bucketOf appId with
  | none => []
  | some (_, bucket) =>
    let root := v.inode bucket.rootInode
    (dirBlocks root).flatMap fun p => entryInodes (v.disk p.2) (entriesInBlock root.size p.1)

/-- A block in which a name is found has an entry of that inode. -/
theorem entryInodes_of_named {buf : Block} {count : Nat}
    (h : ((List.range' 0 count).findSome? fun j =>
      if (DirEntry.read buf j).named name then some (DirEntry.read buf j).inode else none) =
        some i) : i ∈ entryInodes buf count := by
  obtain ⟨j, hj, hentry⟩ := List.exists_of_findSome?_eq_some h
  by_cases hnamed : (DirEntry.read buf j).named name = true
  · rw [if_pos hnamed, Option.some.injEq] at hentry
    rw [DirEntry.named, Bool.and_eq_true, Bool.and_eq_true, decide_eq_true_eq] at hnamed
    rw [← hentry]
    exact List.mem_filter.mpr ⟨List.mem_map_of_mem hj, decide_eq_true hnamed.1.1⟩
  · rw [if_neg hnamed] at hentry
    cases hentry

/-- A name found in a directory is that of one of its entries. -/
theorem dirLookupFrom_listed {disk : Disk} {dir : DiskInode} (n blkIdx : Nat)
    (h : dirLookupFrom disk dir name n blkIdx = some i) :
    ∃ p ∈ ((List.range' blkIdx n).map fun k => (k, dir.directBlock k)).takeWhile
      fun p => p.2 ≠ 0, i ∈ entryInodes (disk p.2) (entriesInBlock dir.size p.1) := by
  induction n generalizing blkIdx with
  | zero => cases h
  | succ n ih =>
    rw [List.range'_succ, List.map_cons]
    by_cases hblk : dir.directBlock blkIdx = 0
    · rw [dirLookupFrom, if_pos hblk] at h
      cases h
    · rw [List.takeWhile_cons_of_pos (by simpa using hblk)]
      rw [dirLookupFrom, if_neg hblk] at h
      dsimp only at h
      split at h
      · next inode hfound =>
        rw [Option.some.injEq] at h
        subst h
        exact ⟨_, List.mem_cons_self, entryInodes_of_named hfound⟩
      · obtain ⟨p, hp, hi⟩ := ih _ h
        exact ⟨p, List.mem_cons_of_mem _ hp, hi⟩

/-- What is found in the directory of a bucket is a file of the bucket. -/
theorem bucketFiles_of_lookup (hbucket : v.bucketOf appId = some (slot, bucket))
    (h : dirLookup v.disk (v.inode bucket.rootInode) name = some i) : i ∈ v.bucketFiles appId := by
  obtain ⟨p, hp, hi⟩ := dirLookupFrom_listed 12 0 h
  rw [Volume.bucketFiles, hbucket]
  exact List.mem_flatMap.mpr ⟨p, hp, hi⟩

/-- What `open_in_bucket` opens for reading is a file of the bucket. -/
theorem openInBucket_listed {path : List UInt8} (h : (openInBucket appId path false v).1 = some i) :
    i ∈ v.bucketFiles appId := by
  rcases openInBucket_cases appId path false v with hfail | ⟨slot, bucket, hbucket, hopen⟩
  · rw [hfail] at h
    cases h
  · rcases hopen with ⟨j, hlookup, hopen⟩ | ⟨hwrite, _⟩
    · rw [hopen] at h
      obtain rfl : j = i := Option.some.inj h
      exact bucketFiles_of_lookup hbucket hlookup
    · cases hwrite

/-- The calls of an app. -/
inductive BucketCall where
  | openInBucket (path : List UInt8) (write : Bool)
  | bucketWriteAt (inodeId offset : Nat) (data : List UInt8)
  | deleteBucket

/-- The volume after a call, with the calls it made recorded. -/
def BucketCall.exec (appId : Nat) (call : BucketCall) (v : Volume) : Volume :=
  match call with
  | .openInBucket path write => (AthenaOS.openInBucket appId path write v.untraced).2
  | .bucketWriteAt inodeId offset data =>
    (AthenaOS.bucketWriteAt appId inodeId offset data v.untraced).2
  | .deleteBucket => (AthenaOS.deleteBucket appId v.untraced).2

/-- One app on a volume. -/
def bucketMachine (appId : Nat) (v₀ : Volume) : Machine Volume BucketCall where
  init v := v = v₀
  step v call v' := v' = call.exec appId v

/-- What a call writes besides blocks is apart from the files: the inode written to, the
directory a file is created in, and the slot of the new inode. -/
def BucketCall.RecordsApart (appId : Nat) (files : List Nat) (v : Volume) : BucketCall → Prop
  | .openInBucket path write => ∀ slot bucket, v.bucketOf appId = some (slot, bucket) →
    write = true → dirLookup v.disk (v.inode bucket.rootInode) (trimSlashes path) = none →
    WriteApart v files bucket.rootInode ∧ ∀ j, v.nextInode = some j → SlotApart v files j
  | .bucketWriteAt inodeId _ _ => ∀ slot bucket, v.bucketOf appId = some (slot, bucket) →
    bucket.allows bcapWriteOwn = true → WriteApart v files inodeId
  | .deleteBucket => True

/-- The condition on a call under which it leaves the files alone: the tables of the
volume lie apart from them, the records written do, the allocator finds their blocks and
the bucket table in use, and none of these is taken for unshared. -/
structure SparesFiles (appId : Nat) (files : List Nat) (v : Volume) (call : BucketCall) : Prop where
  metaApart : MetaApart v files
  records : call.RecordsApart appId files v
  calls : (call.exec appId v).Allowed (sparesBlocks fun b => ∃ k, v.bucketBytes files b k)

/-- One call. -/
theorem isolated_exec {call : BucketCall} (h : SparesFiles appId files v call) :
    Isolated v files appId (call.exec appId v) := by
  cases call with
  | openInBucket path write => exact settled_openInBucket h.metaApart h.records h.calls
  | bucketWriteAt inodeId offset data =>
    exact settled_bucketWriteAt h.metaApart h.records offset data h.calls
  | deleteBucket => exact settled_deleteBucket h.metaApart h.calls

/-- **Buckets are isolated** in every run of one app whose calls meet the condition: the
files of another app's bucket keep their sizes and contents, and the app keeps its
quota. -/
theorem isolated_of_run {appA appB : Nat} {v₀ v : Volume}
    (h : (bucketMachine appA v₀).Run (SparesFiles appA (v₀.bucketFiles appB)) v) :
    (∀ i ∈ v₀.bucketFiles appB, SameFile v₀ v i) ∧
      (∀ path i, (openInBucket appB path false v₀).1 = some i → SameFile v₀ v i) ∧
      (QuotaKept (v₀.disk v₀.superblock.bucketTableBlock) appA →
        QuotaKept (v.disk v.superblock.bucketTableBlock) appA) := by
  suffices hkept : (∀ i ∈ v₀.bucketFiles appB, SameFile v₀ v i) ∧
      (QuotaKept (v₀.disk v₀.superblock.bucketTableBlock) appA →
        QuotaKept (v.disk v.superblock.bucketTableBlock) appA) from
    ⟨hkept.1, fun path i hopen => hkept.1 i (openInBucket_listed hopen), hkept.2⟩
  refine h.invariant (I := fun v => (∀ i ∈ v₀.bucketFiles appB, SameFile v₀ v i) ∧
    (QuotaKept (v₀.disk v₀.superblock.bucketTableBlock) appA →
      QuotaKept (v.disk v.superblock.bucketTableBlock) appA)) ?_ ?_
  · rintro v rfl
    exact ⟨fun i _ => ⟨rfl, fun _ _ _ _ => rfl⟩, fun hq => hq⟩
  · rintro v call _ ⟨hfiles, hquota⟩ hspares rfl
    have hstep := isolated_exec hspares
    exact ⟨fun i hi => (hfiles i hi).trans (sameFile_of_intact hstep.layout hstep.files hi),
      fun hq => hstep.quota (hquota hq)⟩

/-! ## Two buckets -/

/-- Two buckets with a file each: inodes 4 and 5. The second one holds a byte. -/
@[irreducible] def twoBuckets : Volume :=
  runOps Aes.unused ([.createBucket 1 4 3 0, .createBucket 2 4 3 0, .openInBucket 1 [0x61] true,
    .openInBucket 2 [0x62] true, .bucketWriteAt 2 5 0 [7]].map Op.plain) blankVolume

/-- What the two buckets hold. -/
structure TwoBuckets (v : Volume) : Prop where
  files : v.bucketFiles 2 = [5]
  size : (v.inode 5).size = 1
  reads : readBlocks v.disk (v.inode 5) 0 = [11]
  records : v.superblock.inodeBlockOf 5 = 3 ∧ v.superblock.inodeBlockOf 4 = 3
  own : (v.inode 4).id = 4
  bucketTable : v.superblock.bucketTableBlock = 7 ∧ v.superblock.inodeBitmapBlock = 1
  tables : ∀ b ∈ [3, 7, 11], ¬ v.superblock.isTable b

theorem twoBuckets_spec : TwoBuckets twoBuckets := by
  have h : twoBuckets.bucketFiles 2 = [5] ∧ (twoBuckets.inode 5).size = 1 ∧
      readBlocks twoBuckets.disk (twoBuckets.inode 5) 0 = [11] ∧
      (twoBuckets.superblock.inodeBlockOf 5 = 3 ∧ twoBuckets.superblock.inodeBlockOf 4 = 3) ∧
      (twoBuckets.inode 4).id = 4 ∧
      (twoBuckets.superblock.bucketTableBlock = 7 ∧ twoBuckets.superblock.inodeBitmapBlock = 1) ∧
      ∀ b ∈ [3, 7, 11], ¬ twoBuckets.superblock.isTable b := by decide +kernel
  exact ⟨h.1, h.2.1, h.2.2.1, h.2.2.2.1, h.2.2.2.2.1, h.2.2.2.2.2.1, h.2.2.2.2.2.2⟩

/-- **An app writes the file of another one**: `bucket_write_at` takes its inode number,
and the file's size becomes 2. -/
theorem bucketWrite_reaches_other :
    (athfsMachine Aes.unused).Reachable twoBuckets ∧
      ∃ v, (bucketMachine 1 twoBuckets).Reachable v ∧
        ∃ i ∈ twoBuckets.bucketFiles 2, ¬ SameFile twoBuckets v i := by
  refine ⟨?_, _, .snoc (.start rfl) trivial
    (rfl : _ = BucketCall.exec 1 (.bucketWriteAt 5 0 [9, 9]) twoBuckets), 5, ?_, fun h => ?_⟩
  · unfold twoBuckets
    exact reachable_runOps _ (.start ⟨_, rfl⟩)
  · rw [twoBuckets_spec.files]
    exact List.mem_singleton_self 5
  · have hsize : ((BucketCall.exec 1 (.bucketWriteAt 5 0 [9, 9]) twoBuckets).inode 5).size = 2 := by
      decide +kernel
    rw [SameFile, hsize, twoBuckets_spec.size] at h
    exact absurd h.1 (by decide)

/-- Inode 5 is read from block 11. -/
theorem twoBuckets_reads {l : Nat} (hl : l * blockSize < (twoBuckets.inode 5).size)
    (hb : b ∈ readBlocks twoBuckets.disk (twoBuckets.inode 5) l) : b = 11 := by
  rw [twoBuckets_spec.size, blockSize] at hl
  obtain rfl : l = 0 := by omega
  rw [twoBuckets_spec.reads] at hb
  exact List.mem_singleton.mp hb

theorem twoBuckets_bytes {k : Nat} (h : twoBuckets.fileBytes [5] b k) : b = 3 ∨ b = 11 := by
  obtain ⟨i, hi, h⟩ := h
  rcases h with ⟨l, hl, hb⟩ | hb
  · rw [List.mem_singleton.mp hi] at hl hb
    exact .inr (twoBuckets_reads hl hb)
  · rw [List.mem_singleton.mp hi] at hb
    exact .inl (hb.1.trans twoBuckets_spec.records.1)

instance (l : List Nat) : DecidablePred (sparesBlocks fun b => b ∈ l)
  | ⟨.allocateBlock, sb, disk⟩ => inferInstanceAs (Decidable (∀ b ∈ l, b < sb.bitmapIndexLimit →
    (⟨sb, disk, []⟩ : Volume).blockBit b = true))
  | ⟨.consult b, sb, disk⟩ => inferInstanceAs (Decidable (b ∈ l → b < sb.refcountIndexLimit ∧
    1 < (⟨sb, disk, []⟩ : Volume).refcount b))
  | ⟨.write _ _, _, _⟩ | ⟨.store _, _, _⟩ | ⟨.overwrite _, _, _⟩ | ⟨.allocateInode, _, _⟩
  | ⟨.freeBlock _, _, _⟩ | ⟨.release _, _, _⟩ | ⟨.bump _, _, _⟩ | ⟨.rollback _, _, _⟩
  | ⟨.dropSnapshot _, _, _⟩ => .isTrue trivial

/-- The first app writes its own file. -/
theorem twoBuckets_spared : SparesFiles 1 [5] twoBuckets (.bucketWriteAt 4 0 [9]) where
  metaApart := by
    obtain ⟨htable, hbitmap⟩ := twoBuckets_spec.bucketTable
    have htables := twoBuckets_spec.tables
    constructor
    · intro b k hb
      rw [htable, hbitmap]
      rcases twoBuckets_bytes hb with rfl | rfl
      · exact ⟨htables 3 (by decide), by decide, by decide⟩
      · exact ⟨htables 11 (by decide), by decide, by decide⟩
    · rw [htable, hbitmap]
      exact ⟨htables 7 (by decide), by decide⟩
  records := by
    intro slot bucket _ _
    have hrecord := twoBuckets_spec.records.2
    refine ⟨twoBuckets_spec.own, by decide, fun j hj l hl hb => ?_, ?_⟩
    · rw [List.mem_singleton.mp hj] at hl hb
      rw [hrecord] at hb
      exact absurd (twoBuckets_reads hl hb) (by decide)
    · rw [hrecord, twoBuckets_spec.bucketTable.1]
      decide
  calls := by
    have hcalls : ∀ e ∈ ((BucketCall.bucketWriteAt 4 0 [9]).exec 1 twoBuckets).trace,
        sparesBlocks (fun b => b ∈ [3, 7, 11]) e := by decide +kernel
    intro e he
    refine sparesBlocks_mono ?_ (hcalls e he)
    rintro b ⟨k, hb | hb⟩
    · rcases twoBuckets_bytes hb with rfl | rfl
      · decide
      · decide
    · rw [hb, twoBuckets_spec.bucketTable.1]
      decide

/-- Writing its own file, the first app leaves the other's. -/
theorem isolated_of_run_own : SameFile twoBuckets
    ((BucketCall.bucketWriteAt 4 0 [9]).exec 1 twoBuckets) 5 := by
  have hspared : SparesFiles 1 (twoBuckets.bucketFiles 2) twoBuckets (.bucketWriteAt 4 0 [9]) := by
    rw [twoBuckets_spec.files]
    exact twoBuckets_spared
  refine (isolated_of_run (.snoc (.start rfl) hspared rfl)).1 5 ?_
  rw [twoBuckets_spec.files]
  exact List.mem_singleton_self 5

end AthenaOS
