import AthenaOS.AthFS.Prefetch
import AthenaOS.AthFS.Sparing

/-!
# Reads are coherent with writes

A cached block is right as long as the volume holds the same block. Reads only add
blocks the volume holds. Writes are the other half: `write_inode_bytes_at` drops the
cached blocks of its inode first, `write_at` and `rollback_to_snapshot` do not.
-/

namespace AthenaOS

open Lib Fallible

/-! ## The cache as a map -/

namespace Prefetch

variable {p : Prefetch} {key : PrefetchKey} {block : Block}

/-- A cached block is one of the entries. -/
theorem mem_of_find? (h : p.find? key = some block) : (key, block) ∈ p.cache := by
  obtain ⟨e, he, rfl⟩ := Option.map_eq_some_iff.mp h
  have hkey := List.find?_some he
  rw [decide_eq_true_iff] at hkey
  rw [← hkey]
  exact List.mem_of_find?_eq_some he

/-- Eviction only drops entries. -/
theorem mem_of_evict : ∀ {order : List PrefetchKey} {cache : List (PrefetchKey × Block)}
    {e : PrefetchKey × Block}, e ∈ (evict order cache).2 → e ∈ cache
  | [], _, _, h => h
  | old :: order, cache, e, h => by
    rw [evict] at h
    split at h
    · exact List.mem_of_mem_filter (mem_of_evict h)
    · exact h

end Prefetch

section Read

variable {aes : Aes} {settings : DataBlockSettings} {v : Volume}

/-- Every cached block is the one the volume holds. -/
def Coherent (aes : Aes) (settings : DataBlockSettings) (v : Volume) (p : Prefetch) : Prop :=
  ∀ e ∈ p.cache, extentBlock aes settings v.disk (v.inode e.1.1) e.1.2 = some e.2

variable {p : Prefetch} {id l : Nat} {bytes : List UInt8}

/-- A coherent cache with fewer entries is coherent. -/
theorem Coherent.mono {p' : Prefetch} (h : Coherent aes settings v p)
    (hsub : ∀ e ∈ p'.cache, e ∈ p.cache) : Coherent aes settings v p' :=
  fun e he => h e (hsub e he)

theorem Coherent.record (h : Coherent aes settings v p) (id l : Nat) :
    Coherent aes settings v (Prefetch.record id l p).2 := h

/-- `take` gives the block the volume holds, if any. -/
theorem take_spec (id l : Nat) :
    Spec (Coherent aes settings v) (Prefetch.take id l)
      (fun o p => Coherent aes settings v p ∧
        ∀ block, o = some block → extentBlock aes settings v.disk (v.inode id) l = some block)
      (fun _ => False) := by
  refine ⟨fun p h => ?_⟩
  rw [Prefetch.take]
  cases hfind : p.find? (id, l) with
  | none => exact ⟨h, fun _ hb => absurd hb (by simp)⟩
  | some block =>
    refine ⟨h.mono fun e he => List.mem_of_mem_filter he, fun b hb => ?_⟩
    rw [← Option.some.inj hb]
    exact h ((id, l), block) (Prefetch.mem_of_find? hfind)

/-- `stash` of the block the volume holds. -/
theorem Coherent.stash (h : Coherent aes settings v p) {block : Block}
    (hblock : extentBlock aes settings v.disk (v.inode id) l = some block) :
    Coherent aes settings v (Prefetch.stash id l block p).2 := by
  intro e he
  change e ∈ (if p.contains id l then p else _ : Prefetch).cache at he
  split at he
  · exact h e he
  · rcases List.mem_cons.mp he with rfl | he
    · exact hblock
    · exact h e (Prefetch.mem_of_evict he)

theorem prefetchBlock_spec (id l : Nat) :
    Spec (Coherent aes settings v) (prefetchBlock aes settings v.disk id (v.inode id) l)
      (fun _ => Coherent aes settings v) (fun _ => False) := by
  unfold prefetchBlock
  refine .bind (Spec.get (Q := fun _ => Coherent aes settings v) fun _ h => h) fun p => ?_
  refine .ite (fun _ => Spec.pure fun _ h => h) fun _ => ?_
  split
  · exact .pure fun _ h => h
  · rename_i pb hpb
    exact ⟨fun p hp => hp.stash hpb⟩

/-- **A block served through the cache is the block the volume holds**, and the cache
stays coherent. -/
theorem readFileBlockPrefetched_spec (aes : Aes) (settings : DataBlockSettings) (v : Volume)
    (id l : Nat) :
    Spec (Coherent aes settings v)
      (readFileBlockPrefetched aes settings v.disk id (v.inode id) l)
      (fun block p => extentBlock aes settings v.disk (v.inode id) l = some block ∧
        Coherent aes settings v p)
      (fun p => extentBlock aes settings v.disk (v.inode id) l = none ∧
        Coherent aes settings v p) := by
  unfold readFileBlockPrefetched
  refine .bind (Q := fun _ => Coherent aes settings v) ⟨fun p h => h.record id l⟩ fun depth => ?_
  refine .bind ((take_spec id l).post (fun _ _ h => h) fun _ h => h.elim) fun o => ?_
  refine .bind (Q := fun block p => extentBlock aes settings v.disk (v.inode id) l = some block ∧
    Coherent aes settings v p) ?block fun block => ?ahead
  case block =>
    cases o with
    | some pre => exact .pure fun p hp => ⟨hp.2 pre rfl, hp.1⟩
    | none =>
      rw [Option.none_or]
      exact .ofOption (fun _ _ ho hp => ⟨ho, hp.1⟩) fun _ ho hp => ⟨ho, hp.1⟩
  case ahead =>
    -- reading ahead never fails and only adds blocks the volume holds
    refine ⟨fun p hp => ?_⟩
    refine (Spec.bind (P := Coherent aes settings v) (Q := fun _ => Coherent aes settings v)
      ((Spec.forM fun ahead _ => prefetchBlock_spec id (l + ahead)).post (fun _ _ h => h)
        fun _ h => h.elim) fun _ => ?_).run p hp.2
    exact .pure fun p hp' => ⟨hp.1, hp'⟩

/-! ## The loops -/

section Loops

variable {σ : Type} (disk : Disk) (inode : DiskInode) {I : σ → Prop}
variable {fetch : Nat → Fallible σ Block} {g : Nat → Option Block}

/-- Without a state, the result is the whole outcome. -/
theorem run_unit {α : Type} {m : Fallible Unit α} {o : Option α} (h : (m ()).1 = o) :
    m () = (o, ()) := Prod.ext h rfl

/-- `read_at` through a fetch that always gives `g` gives what `g` itself gives. -/
theorem readAtLoop_spec
    (hfetch : ∀ l, Spec I (fetch l) (fun b s => g l = some b ∧ I s) (fun s => g l = none ∧ I s))
    (offset room : Nat) :
    Spec I (readAtLoop disk inode fetch offset room)
      (fun bytes s => (readAtLoop disk inode (fun l => (ofOption (g l) : Fallible Unit Block))
        offset room ()).1 = some bytes ∧ I s) (fun _ => False) := by
  induction room using Nat.strong_induction_on generalizing offset with
  | _ room ih =>
    rw [readAtLoop, readAtLoop]
    split
    · exact .pure fun s hs => ⟨rfl, hs⟩
    · rename_i hmore
      have hlt : room - roundLength inode.size offset room < room := by
        have := roundLength_pos inode.size offset room (by omega) (by omega)
        omega
      have hrest := ih _ hlt (offset + roundLength inode.size offset room)
      split
      · refine .bind hrest fun rest => Spec.pure fun s hs => ⟨?_, hs.2⟩
        rw [bind_some (run_unit hs.1)]
        rfl
      · refine .bind (Q := fun o s => g (offset / blockSize) = o ∧ I s)
          (Spec.attempt (hfetch _)) fun o => ?_
        cases o with
        | none =>
          refine .pure fun s hs => ⟨?_, hs.2⟩
          rw [hs.1]
          rfl
        | some block =>
          refine ⟨fun s hs => ?_⟩
          refine (Spec.bind hrest fun rest => Spec.pure fun s' hs' => ⟨?_, hs'.2⟩).run s hs.2
          rw [hs.1]
          exact (congrArg Prod.fst (bind_some (run_unit hs'.1)) :)

/-- `read_file_bytes_on` through a fetch that always gives `g`. -/
theorem readFileLoop_spec
    (hfetch : ∀ l, Spec I (fetch l) (fun b s => g l = some b ∧ I s) (fun s => g l = none ∧ I s))
    (offset : Nat) :
    Spec I (readFileLoop inode fetch offset)
      (fun bytes s => (readFileLoop inode (fun l => (ofOption (g l) : Fallible Unit Block))
        offset ()).1 = some bytes ∧ I s)
      (fun s => (readFileLoop inode (fun l => (ofOption (g l) : Fallible Unit Block))
        offset ()).1 = none ∧ I s) := by
  induction hn : inode.size - offset using Nat.strong_induction_on generalizing offset with
  | _ n ih =>
    rw [readFileLoop, readFileLoop]
    split
    · exact .pure fun s hs => ⟨rfl, hs⟩
    · rename_i hmore
      have hpos := roundLength_pos inode.size offset (inode.size - offset) (by omega) (by omega)
      have hrest := ih _ (by omega)
        (offset + roundLength inode.size offset (inode.size - offset)) rfl
      refine .bind ((hfetch _).post (fun _ _ h => h) fun s hs => ⟨?_, hs.2⟩) fun block => ?_
      · rw [hs.1]
        rfl
      · refine ⟨fun s hs => ?_⟩
        rw [hs.1]
        refine (Spec.bind (hrest.post (fun _ _ h => h) fun s' hs' => ⟨?_, hs'.2⟩)
          fun rest => Spec.pure fun s' hs' => ⟨?_, hs'.2⟩).run s hs.2
        · exact (congrArg Prod.fst (bind_none (run_unit hs'.1)) :)
        · exact (congrArg Prod.fst (bind_some (run_unit hs'.1)) :)

/-- The byte under an offset of a file, given what its blocks hold. -/
def byteBy (disk : Disk) (inode : DiskInode) (g : Nat → Option Block) (offset : Nat) :
    Option UInt8 :=
  if (lookupExtent disk inode (offset / blockSize)).isNone then some 0
  else (g (offset / blockSize)).map (·.get (offset % blockSize))

variable {size offset room : Nat}

/-- The bytes of one round lie in one block. -/
theorem round_same_block {k : Nat} (hk : k < roundLength size offset room) :
    (offset + k) / blockSize = offset / blockSize ∧
      (offset + k) % blockSize = offset % blockSize + k := by
  unfold roundLength at hk
  have hlt : offset % blockSize + k < blockSize := by omega
  have hdiv := Nat.div_add_mod offset blockSize
  have hoff : offset + k = offset % blockSize + k + blockSize * (offset / blockSize) := by omega
  constructor
  · rw [hoff, Nat.add_mul_div_left _ _ (by decide), Nat.div_eq_of_lt hlt, Nat.zero_add]
  · rw [hoff, Nat.add_mul_mod_self_left, Nat.mod_eq_of_lt hlt]

/-- Bytes that stand for the file from `offset` on. -/
def BytesOf (disk : Disk) (inode : DiskInode) (g : Nat → Option Block) (offset : Nat)
    (bytes : List UInt8) : Prop :=
  ∀ k b, bytes[k]? = some b → byteBy disk inode g (offset + k) = some b

/-- One round's bytes and the rest. -/
theorem BytesOf.append {n : Nat} {chunk rest : List UInt8} (hn : chunk.length = n)
    (hchunk : BytesOf disk inode g offset chunk) (hrest : BytesOf disk inode g (offset + n) rest) :
    BytesOf disk inode g offset (chunk ++ rest) := by
  intro k b hb
  rcases Nat.lt_or_ge k chunk.length with hk | hk
  · rw [List.getElem?_append_left hk] at hb
    exact hchunk k b hb
  · rw [List.getElem?_append_right hk] at hb
    have := hrest _ b hb
    rwa [show offset + n + (k - chunk.length) = offset + k by omega] at this

/-- A round over a hole. -/
theorem bytesOf_hole (hhole : (lookupExtent disk inode (offset / blockSize)).isNone) :
    BytesOf disk inode g offset (List.replicate (roundLength size offset room) 0) := by
  intro k b hb
  obtain ⟨hk, hzero⟩ := List.getElem?_eq_some_iff.mp hb
  rw [List.length_replicate] at hk
  rw [List.getElem_replicate] at hzero
  rw [byteBy, (round_same_block hk).1, if_pos hhole, hzero]

/-- A round over a block. -/
theorem bytesOf_window {block : Block}
    (hmapped : ¬ (lookupExtent disk inode (offset / blockSize)).isNone)
    (hblock : g (offset / blockSize) = some block) :
    BytesOf disk inode g offset (block.window (offset % blockSize)
      (roundLength size offset room)) := by
  intro k b hb
  rw [Bytes.window, List.getElem?_map, Option.map_eq_some_iff] at hb
  obtain ⟨j, hj, rfl⟩ := hb
  obtain ⟨hk, hj⟩ := List.getElem?_eq_some_iff.mp hj
  rw [List.length_range'] at hk
  rw [List.getElem_range', Nat.one_mul] at hj
  obtain ⟨hdiv, hmod⟩ := round_same_block hk
  rw [byteBy, hdiv, hmod, if_neg hmapped, hblock, hj]
  rfl

theorem length_window {m : Nat} (data : Bytes m) (off n : Nat) : (data.window off n).length = n := by
  rw [Bytes.window, List.length_map, List.length_range']

/-- **Every byte `read_at` returns is the file's byte at that offset.** -/
theorem readAtLoop_bytes (offset room : Nat) :
    Spec (fun _ => True)
      (readAtLoop disk inode (fun l => (ofOption (g l) : Fallible Unit Block)) offset room)
      (fun bytes _ => BytesOf disk inode g offset bytes) (fun _ => True) := by
  induction room using Nat.strong_induction_on generalizing offset with
  | _ room ih =>
    rw [readAtLoop]
    split
    · exact .pure fun _ _ k b hb => absurd hb (by simp)
    · rename_i hmore
      have hlt : room - roundLength inode.size offset room < room := by
        have := roundLength_pos inode.size offset room (by omega) (by omega)
        omega
      have hrest := ih _ hlt (offset + roundLength inode.size offset room)
      split
      · rename_i hhole
        refine .bind hrest fun rest => Spec.pure fun _ hb => ?_
        exact BytesOf.append _ _ (List.length_replicate ..) (bytesOf_hole _ _ hhole) hb
      · rename_i hmapped
        cases hg : g (offset / blockSize) with
        | none => exact .pure fun _ _ k b hb => absurd hb (by simp)
        | some block =>
          refine ⟨fun s hs => ?_⟩
          refine (Spec.bind hrest fun rest => Spec.pure fun _ hb => ?_).run s hs
          exact BytesOf.append _ _ (length_window ..) (bytesOf_window _ _ hmapped hg) hb

/-- **Every byte `read_file_bytes_on` returns is the file's byte at that offset.** -/
theorem readFileLoop_bytes (hmapped : ∀ l b, g l = some b → ¬ (lookupExtent disk inode l).isNone)
    (offset : Nat) :
    Spec (fun _ => True)
      (readFileLoop inode (fun l => (ofOption (g l) : Fallible Unit Block)) offset)
      (fun bytes _ => BytesOf disk inode g offset bytes) (fun _ => True) := by
  induction hn : inode.size - offset using Nat.strong_induction_on generalizing offset with
  | _ n ih =>
    rw [readFileLoop]
    split
    · exact .pure fun _ _ k b hb => absurd hb (by simp)
    · rename_i hmore
      have hpos := roundLength_pos inode.size offset (inode.size - offset) (by omega) (by omega)
      have hrest := ih _ (by omega)
        (offset + roundLength inode.size offset (inode.size - offset)) rfl
      cases hg : g (offset / blockSize) with
      | none => exact .fail fun _ _ => trivial
      | some block =>
        refine ⟨fun s hs => ?_⟩
        refine (Spec.bind hrest fun rest => Spec.pure fun _ hb => ?_).run s hs
        exact BytesOf.append _ _ (length_window ..) (bytesOf_window _ _ (hmapped _ _ hg) hg) hb

end Loops

/-- A block that can be read is mapped. -/
theorem extentBlock_mapped {disk : Disk} {inode : DiskInode} {b : Block}
    (h : extentBlock aes settings disk inode l = some b) :
    ¬ (lookupExtent disk inode l).isNone := by
  intro hnone
  rw [Option.isNone_iff_eq_none] at hnone
  rw [extentBlock, physicalBlock, hnone] at h
  exact absurd h (by simp)

/-! ## Reads on a coherent cache -/

/-- **`read_at` returns what the volume holds.** -/
theorem readAt_eq (h : Coherent aes settings v p) (id offset len : Nat) :
    (readAt aes settings v id offset len p).1 = heldAt aes settings v id offset len ∧
      Coherent aes settings v (readAt aes settings v id offset len p).2 := by
  have hspec := readAtLoop_spec v.disk (v.inode id)
    (fun l => readFileBlockPrefetched_spec aes settings v id l) offset len
  exact (hspec.post (fun _ _ hb => hb) fun _ hf => hf.elim).run_eq h

/-- **`read_file_bytes_on` returns what the volume holds.** -/
theorem readFileBytesOn_eq (h : Coherent aes settings v p) (name : List UInt8) :
    (readFileBytesOn aes settings v name p).1 = heldFile aes settings v name ∧
      Coherent aes settings v (readFileBytesOn aes settings v name p).2 := by
  unfold readFileBytesOn heldFile readFileBytesOnBy
  cases (findFlatInodeOn name v).1.join with
  | none => exact ⟨rfl, h⟩
  | some id =>
    exact (readFileLoop_spec (v.inode id)
      (fun l => readFileBlockPrefetched_spec aes settings v id l) 0).run_eq h

/-- The bytes `read_at` should return are the volume's, one by one. -/
theorem heldAt_bytes {offset len : Nat} (h : heldAt aes settings v id offset len = some bytes)
    {k : Nat} {b : UInt8} (hb : bytes[k]? = some b) :
    heldByte aes settings v id (offset + k) = some b := by
  have hrun := (readAtLoop_bytes v.disk (v.inode id)
    (g := extentBlock aes settings v.disk (v.inode id)) offset len).run () trivial
  have hres := run_unit h
  rw [readAtBy] at hres
  change readAtLoop v.disk (v.inode id)
    (fun l => ofOption (extentBlock aes settings v.disk (v.inode id) l)) offset len () = _ at hres
  rw [hres] at hrun
  exact hrun k b hb

/-- The same of `read_file_bytes_on`. -/
theorem heldFile_bytes {name : List UInt8} (h : heldFile aes settings v name = some bytes) :
    ∃ id, (findFlatInodeOn name v).1.join = some id ∧
      ∀ k b, bytes[k]? = some b → heldByte aes settings v id k = some b := by
  unfold heldFile readFileBytesOnBy at h
  cases hid : (findFlatInodeOn name v).1.join with
  | none =>
    rw [hid] at h
    exact absurd h (by simp [ofOption, Fallible.fail, bind])
  | some id =>
    rw [hid] at h
    refine ⟨id, rfl, fun k b hb => ?_⟩
    have hrun := (readFileLoop_bytes v.disk (v.inode id)
      (g := extentBlock aes settings v.disk (v.inode id)) (fun _ _ => extentBlock_mapped) 0).run ()
      trivial
    have hres : readFileLoop (v.inode id)
      (fun l => ofOption (extentBlock aes settings v.disk (v.inode id) l)) 0 () = _ := run_unit h
    rw [hres] at hrun
    have hbyte := hrun k b hb
    rwa [Nat.zero_add] at hbyte

end Read

/-! ## What a block is read from -/

/-- The index nodes a lookup walks, from the root to the leaf. -/
def leafPath (disk : Disk) (logicalBlock : Nat) : Nat → Nat → List Nat
  | 0, block => [block]
  | depth + 1, block =>
    let next := internalChild (disk block) logicalBlock (nodeCount (disk block)) 0 0
    block :: if nodeMagic (disk block) ≠ btreeMagic ∨ next = 0 then []
      else leafPath disk logicalBlock depth next

/-- The blocks behind a logical block of an inode: index nodes and the data block. -/
def readBlocks (disk : Disk) (inode : DiskInode) (logicalBlock : Nat) : List Nat :=
  (if inode.usesBtree then leafPath disk logicalBlock inode.btreeDepth inode.btreeRoot else []) ++
    (physicalBlock disk inode logicalBlock).toList

section Footprint

variable {disk disk' : Disk} {l : Nat}

variable {depth block : Nat} {inode inode' : DiskInode} {aes : Aes} {settings : DataBlockSettings}

theorem leafOf_congr (h : ∀ b ∈ leafPath disk l depth block, disk' b = disk b) :
    leafOf disk' l depth block = leafOf disk l depth block := by
  induction depth generalizing block with
  | zero => rfl
  | succ depth ih =>
    rw [leafPath] at h
    rw [leafOf, leafOf, h block List.mem_cons_self]
    dsimp only at h ⊢
    by_cases hmagic : nodeMagic (disk block) ≠ btreeMagic
    · rw [if_pos hmagic, if_pos hmagic]
    · rw [if_neg hmagic, if_neg hmagic]
      split
      · rfl
      · rename_i hnext
        refine ih fun b hb => h b (List.mem_cons_of_mem _ ?_)
        rwa [if_neg (not_or.mpr ⟨hmagic, hnext⟩)]

theorem mem_leafPath {leaf : Nat} (h : leafOf disk l depth block = some leaf) :
    leaf ∈ leafPath disk l depth block := by
  induction depth generalizing block with
  | zero => exact List.mem_singleton.mpr (Option.some.inj h).symm
  | succ depth ih =>
    rw [leafOf] at h
    rw [leafPath]
    dsimp only at h ⊢
    by_cases hmagic : nodeMagic (disk block) ≠ btreeMagic
    · rw [if_pos hmagic] at h
      exact absurd h (by simp)
    · rw [if_neg hmagic] at h
      split at h
      · exact absurd h (by simp)
      · rename_i hnext
        rw [if_neg (not_or.mpr ⟨hmagic, hnext⟩)]
        exact List.mem_cons_of_mem _ (ih h)

/-- A lookup depends on the index nodes it walks. -/
theorem lookupExtent_congr (h : ∀ b ∈ readBlocks disk inode l, disk' b = disk b) :
    lookupExtent disk' inode l = lookupExtent disk inode l := by
  unfold lookupExtent
  cases hbtree : inode.usesBtree with
  | false => rfl
  | true =>
    have hpath : ∀ b ∈ leafPath disk l inode.btreeDepth inode.btreeRoot, disk' b = disk b := by
      intro b hb
      refine h b (List.mem_append_left _ ?_)
      rwa [if_pos hbtree]
    rw [leafOf_congr hpath]
    cases hleaf : leafOf disk l inode.btreeDepth inode.btreeRoot with
    | none => rfl
    | some leaf =>
      dsimp only [Bool.not_true]
      rw [hpath leaf (mem_leafPath hleaf)]

/-- **A read depends on the blocks behind it.** -/
theorem extentBlock_congr (h : ∀ b ∈ readBlocks disk inode l, disk' b = disk b) :
    extentBlock aes settings disk' inode l = extentBlock aes settings disk inode l := by
  have hphys : physicalBlock disk' inode l = physicalBlock disk inode l := by
    rw [physicalBlock, physicalBlock, lookupExtent_congr h]
  rw [extentBlock, extentBlock, hphys]
  cases hp : physicalBlock disk inode l with
  | none => rw [Option.bind_none, Option.bind_none]
  | some b =>
    have hb : disk' b = disk b := h b (List.mem_append_right _ (Option.mem_toList.mpr hp))
    rw [Option.bind_some, Option.bind_some, readDataBlock, readDataBlock, hb]

/-- Where the fields of a record end that reading the file looks at: the depth is only
read along with an index. -/
def DiskInode.readEnd (inode : DiskInode) : Nat := if inode.usesBtree then 132 else 128

/-- The number in an inode's record plays no part in reading the file. -/
theorem lookupExtent_record (h : ∀ k, 8 ≤ k → k < inode.readEnd → inode'.get k = inode.get k) :
    lookupExtent disk inode' l = lookupExtent disk inode l := by
  have hend : 128 ≤ inode.readEnd := by
    rw [DiskInode.readEnd]
    split <;> omega
  have hfield : ∀ off len, 8 ≤ off → off + len ≤ inode.readEnd →
      inode'.getLE off len = inode.getLE off len :=
    fun off len hoff hlen => Bytes.getLE_congr fun i hi => h _ (by omega) (by omega)
  have hbtree : inode'.usesBtree = inode.usesBtree := by
    rw [DiskInode.usesBtree, DiskInode.usesBtree, DiskInode.flags, DiskInode.flags,
      h 17 (by omega) (by omega)]
  have hroot : inode'.btreeRoot = inode.btreeRoot := hfield 120 8 (by omega) (by omega)
  unfold lookupExtent
  rw [hbtree, hroot]
  cases hb : inode.usesBtree with
  | true =>
    have hdepth : inode'.btreeDepth = inode.btreeDepth :=
      hfield 128 4 (by omega) (by rw [DiskInode.readEnd, if_pos hb])
    rw [hdepth, if_neg (by decide), if_neg (by decide)]
  | false =>
    have hdirect : (!false) = true := rfl
    rw [if_pos hdirect, if_pos hdirect]
    by_cases hl : l < 12
    · have hslot : inode'.directBlock l = inode.directBlock l :=
        hfield (24 + 8 * l) 8 (by omega) (by omega)
      rw [hslot]
    · have hno : ∀ b : Nat, ¬ (l < 12 ∧ b ≠ 0) := fun _ h => hl h.1
      rw [if_neg (hno _), if_neg (hno _)]

theorem extentBlock_record (h : ∀ k, 8 ≤ k → k < inode.readEnd → inode'.get k = inode.get k) :
    extentBlock aes settings disk inode' l = extentBlock aes settings disk inode l := by
  rw [extentBlock, extentBlock, physicalBlock, physicalBlock, lookupExtent_record h]

end Footprint

/-! ## Files kept apart -/

/-- The keys of the cached blocks. -/
def Prefetch.keys (p : Prefetch) : List PrefetchKey := p.cache.map (·.1)

/-- The blocks a cached block was read from: its inode's, index nodes and data. -/
def sourceBlocks (v : Volume) (key : PrefetchKey) : List Nat :=
  v.superblock.inodeBlockOf key.1 :: readBlocks v.disk (v.inode key.1) key.2

/-- The cached blocks `keys` lie apart from inode `i`: its record carries its number and
is not one of their index or data blocks, none of which is a table of the allocator. -/
structure Apart (v : Volume) (keys : List PrefetchKey) (i : Nat) : Prop where
  own : (v.inode i).id = i
  tables : ∀ key ∈ keys, ∀ b ∈ sourceBlocks v key, ¬ v.superblock.isTable b
  record : ∀ key ∈ keys, v.superblock.inodeBlockOf i ∉ readBlocks v.disk (v.inode key.1) key.2

/-- A write to inode `i` that ends in `v'` stays away from the cached blocks `keys`. -/
def KeepsApart (v : Volume) (keys : List PrefetchKey) (i : Nat) (v' : Volume) : Prop :=
  keys = [] ∨
    Apart v keys i ∧ v'.Allowed (sparesBlocks fun b => ∃ key ∈ keys, b ∈ sourceBlocks v key)

/-- Two records of one block overlap only in the number of the second. -/
theorem record_overlap {i j k : Nat} (hne : j ≠ i) (hdiv : i / 32 = j / 32) (hlo : j % 32 * 128 + 8 ≤ k)
    (hhi : k < j % 32 * 128 + 136) (hge : i % 32 * 128 ≤ k) (hlt : k < i % 32 * 128 + 136) : k < i % 32 * 128 + 8 := by
  omega

/-- The bytes behind cached blocks of other inodes. -/
def Apart.protects {v : Volume} {keys : List PrefetchKey} {i : Nat} (h : Apart v keys i)
    (hothers : ∀ key ∈ keys, key.1 ≠ i) : Protected where
  start := v
  inodeId := i
  bytes b k := ∃ key ∈ keys, b ∈ readBlocks v.disk (v.inode key.1) key.2 ∨
    (b = v.superblock.inodeBlockOf key.1 ∧ key.1 % 32 * 128 + 8 ≤ k ∧ k < key.1 % 32 * 128 + 136)
  tables := by
    rintro b k ⟨key, hkey, hb | ⟨rfl, -, -⟩⟩
    · exact h.tables key hkey b (List.mem_cons_of_mem _ hb)
    · exact h.tables key hkey _ List.mem_cons_self
  own := h.own
  record := by
    rintro k ⟨key, hkey, hb | ⟨hblk, hlo, hhi⟩⟩ hge hlt
    · exact absurd hb (h.record key hkey)
    · rw [Superblock.inodeBlockOf, Superblock.inodeBlockOf] at hblk
      exact record_overlap (hothers key hkey) (Nat.add_left_cancel hblk) hlo hhi hge hlt

/-- **A write that keeps apart from the cached blocks leaves what they are read from.** -/
theorem extentBlock_write {aes : Aes} {settings : DataBlockSettings} {v : Volume}
    {keys : List PrefetchKey} {i : Nat} (hothers : ∀ key ∈ keys, key.1 ≠ i) {stamp : Bool}
    {offset : Nat} {data : List UInt8}
    (h : KeepsApart v keys i (writeInodeBytes aes settings stamp i offset data v.untraced).2)
    {key : PrefetchKey} (hkey : key ∈ keys) :
    let v' := (writeInodeBytes aes settings stamp i offset data v.untraced).2
    extentBlock aes settings v'.disk (v'.inode key.1) key.2 =
      extentBlock aes settings v.disk (v.inode key.1) key.2 := by
  obtain hnil | ⟨hapart, hcalls⟩ := h
  · rw [hnil] at hkey
    exact absurd hkey List.not_mem_nil
  intro v'
  obtain ⟨hlayout, hintact⟩ := (hapart.protects hothers).intact_writeInodeBytes aes settings stamp
    offset data fun e he => sparesBlocks_mono (by
      rintro b ⟨k, key, hkey, hb | ⟨rfl, -, -⟩⟩
      · exact ⟨key, hkey, List.mem_cons_of_mem _ hb⟩
      · exact ⟨key, hkey, List.mem_cons_self⟩) (hcalls e he)
  have hblocks : ∀ b ∈ readBlocks v.disk (v.inode key.1) key.2, v'.disk b = v.disk b := by
    intro b hb
    funext k
    have := hintact b k k.isLt ⟨key, hkey, .inl hb⟩
    rwa [Bytes.get_val, Bytes.get_val] at this
  have hblk : v'.superblock.inodeBlockOf key.1 = v.superblock.inodeBlockOf key.1 := by
    have hsame : v'.superblock.layout = v.superblock.layout := hlayout
    show v'.superblock.layout.inodeBlockOf key.1 = v.superblock.layout.inodeBlockOf key.1
    rw [hsame]
  have hrecord : ∀ k, 8 ≤ k → k < 136 → (v'.inode key.1).get k = (v.inode key.1).get k := by
    intro k hlo hhi
    rw [Bytes.get_of_lt _ hhi, Bytes.get_of_lt _ hhi]
    show (v'.disk (v'.superblock.inodeBlockOf key.1)).get (key.1 % 32 * 128 + k) =
      (v.disk (v.superblock.inodeBlockOf key.1)).get (key.1 % 32 * 128 + k)
    rw [hblk]
    by_cases hin : key.1 % 32 * 128 + k < blockSize
    · exact hintact _ _ hin ⟨key, hkey, .inr ⟨rfl, by omega, by omega⟩⟩
    · rw [Bytes.get, Bytes.get, dif_neg hin, dif_neg hin]
  have hend : (v.inode key.1).readEnd ≤ 136 := by
    rw [DiskInode.readEnd]
    split <;> omega
  rw [extentBlock_record fun k hlo hhi => hrecord k hlo (by omega), extentBlock_congr hblocks]

/-! ## Runs -/

section Runs

variable {aes : Aes} {settings : DataBlockSettings}

/-- The condition on a call: `write_at` on an inode that has no cached block, any write
apart from the cached blocks it does not invalidate, and a rollback that finds its
snapshot only with an empty cache. -/
def coherenceGuard (aes : Aes) (settings : DataBlockSettings) (s : CachedVolume) :
    CoherenceOp → Prop
  | .readAt .. | .readFileBytesOn _ => True
  | .writeAt id off data => (∀ key ∈ s.prefetch.keys, key.1 ≠ id) ∧
    KeepsApart s.volume s.prefetch.keys id
      (vfsWriteAt aes settings id off data s.volume.untraced).2
  | .writeInodeBytesAt id off data =>
    KeepsApart s.volume (s.prefetch.invalidateInode id).keys id
      (writeInodeBytesAt aes settings id off data s.volume.untraced).2
  | .rollbackToSnapshot snapId => s.prefetch.cache = [] ∨
    findSnapshot (s.volume.disk s.volume.superblock.snapshotBlock) snapId = none

variable {v : Volume}

/-- A write keeps the cache coherent, if it keeps apart from what stays cached. -/
theorem Coherent.write {p : Prefetch} {id off : Nat} {data : List UInt8} {stamp : Bool}
    (h : Coherent aes settings v p) (hothers : ∀ key ∈ p.keys, key.1 ≠ id)
    (hapart : KeepsApart v p.keys id
      (writeInodeBytes aes settings stamp id off data v.untraced).2) :
    Coherent aes settings (writeInodeBytes aes settings stamp id off data v.untraced).2 p := by
  intro e he
  rw [extentBlock_write hothers hapart (List.mem_map_of_mem he)]
  exact h e he

/-- A rollback that does not find its snapshot changes nothing. -/
theorem rollbackToSnapshot_none {snapId : UInt32}
    (h : findSnapshot (v.disk v.superblock.snapshotBlock) snapId = none) :
    rollbackToSnapshot snapId v = (none, v) := by
  unfold rollbackToSnapshot
  rw [bind_some (superblock_run v), bind_some (readBlock_run v _), h]
  exact bind_none rfl

/-- One call keeps the cache coherent. -/
theorem coherent_step {s : CachedVolume} {op : CoherenceOp}
    (h : Coherent aes settings s.volume s.prefetch) (hg : coherenceGuard aes settings s op) :
    Coherent aes settings (op.exec aes settings s).volume (op.exec aes settings s).prefetch := by
  cases op with
  | readAt id off len => exact (readAt_eq h id off len).2
  | readFileBytesOn name => exact (readFileBytesOn_eq h name).2
  | writeAt id off data => exact h.write hg.1 hg.2
  | writeInodeBytesAt id off data =>
    -- the invalidation drops the blocks of the inode before its content changes
    have hdrop : ∀ e ∈ (s.prefetch.invalidateInode id).cache, e ∈ s.prefetch.cache :=
      fun e he => List.mem_of_mem_filter he
    refine (h.mono hdrop).write (fun key hkey => ?_) hg
    obtain ⟨e, he, rfl⟩ := List.mem_map.mp hkey
    exact of_decide_eq_true (List.mem_filter.mp he).2
  | rollbackToSnapshot snapId =>
    intro e he
    have he : e ∈ s.prefetch.cache := he
    rcases hg with hempty | hnone
    · rw [hempty] at he
      exact absurd he List.not_mem_nil
    · have hsame : (rollbackToSnapshot snapId s.volume.untraced).2 = s.volume.untraced :=
        congrArg Prod.snd (rollbackToSnapshot_none (v := s.volume.untraced) hnone)
      have hexec : (CoherenceOp.exec aes settings (.rollbackToSnapshot snapId) s).volume =
        s.volume.untraced := hsame
      rw [hexec]
      exact h e he

/-- **Reads are coherent with writes**: in every run whose calls meet the condition,
`read_at` and `read_file_bytes_on` return what the volume holds, byte for byte, whatever
is in the cache. -/
theorem reads_coherent {s : CachedVolume}
    (h : (coherenceMachine aes settings).Run (coherenceGuard aes settings) s) :
    (∀ id offset len,
      (readAt aes settings s.volume id offset len s.prefetch).1 =
          heldAt aes settings s.volume id offset len ∧
        ∀ bytes, (readAt aes settings s.volume id offset len s.prefetch).1 = some bytes →
          ∀ (k : Nat) (b : UInt8), bytes[k]? = some b →
            heldByte aes settings s.volume id (offset + k) = some b) ∧
    (∀ name,
      (readFileBytesOn aes settings s.volume name s.prefetch).1 =
          heldFile aes settings s.volume name ∧
        ∀ bytes, (readFileBytesOn aes settings s.volume name s.prefetch).1 = some bytes →
          ∃ id, (findFlatInodeOn name s.volume).1.join = some id ∧
            ∀ (k : Nat) (b : UInt8), bytes[k]? = some b →
              heldByte aes settings s.volume id k = some b) := by
  have hcoherent : Coherent aes settings s.volume s.prefetch := by
    refine h.invariant (I := fun s => Coherent aes settings s.volume s.prefetch) ?_ ?_
    · intro s hinit e he
      have hinit : s.prefetch = Prefetch.empty := hinit
      rw [hinit] at he
      exact absurd he List.not_mem_nil
    · rintro s op _ hs hg rfl
      exact coherent_step hs hg
  refine ⟨fun id offset len => ?_, fun name => ?_⟩
  · have heq := (readAt_eq hcoherent id offset len).1
    exact ⟨heq, fun bytes hbytes k b => heldAt_bytes (heq ▸ hbytes)⟩
  · have heq := (readFileBytesOn_eq hcoherent name).1
    exact ⟨heq, fun bytes hbytes => heldFile_bytes (heq ▸ hbytes)⟩

end Runs

/-- A volume whose shared root, inode 1, has three blocks that start with a 7. -/
def threeBlocks : Volume where
  superblock := formatSuperblock
  disk b :=
    let inode := (DiskInode.new 1 1).setSize 8193 |>.setDirectBlock 0 9 |>.setDirectBlock 1 10
      |>.setDirectBlock 2 11
    if b = 2 then Bytes.ofList [0xFF, 0b0000_1111]
    else if b = 3 then (formatDisk (fun _ => Bytes.zero) 3).splice 128 inode
    else if b = 4 then Bytes.ofList (List.replicate 12 1)
    else if b = 9 ∨ b = 10 ∨ b = 11 then Bytes.ofList [7]
    else formatDisk (fun _ => Bytes.zero) b
  trace := []

/-- Its first two blocks are read, which reads the third one ahead. -/
def readAhead : CachedVolume :=
  [CoherenceOp.readAt 1 0 1, .readAt 1 4096 1].foldl
    (fun s op => op.exec Aes.unused ⟨false, none⟩ s) ⟨threeBlocks, Prefetch.empty⟩

theorem run_readAhead : (coherenceMachine Aes.unused ⟨false, none⟩).Run
    (coherenceGuard Aes.unused ⟨false, none⟩) readAhead := by
  have hstart : (coherenceMachine Aes.unused ⟨false, none⟩).Run
      (coherenceGuard Aes.unused ⟨false, none⟩) ⟨threeBlocks, Prefetch.empty⟩ :=
    .start (show Prefetch.empty = Prefetch.empty from rfl)
  have hfirst := Machine.Run.snoc (l := CoherenceOp.readAt 1 0 1) hstart trivial rfl
  exact Machine.Run.snoc (l := CoherenceOp.readAt 1 4096 1) hfirst trivial rfl

/-- `write_inode_bytes_at` drops the block read ahead, and the next read is right. -/
theorem reads_coherent_rewritten :
    let s := (CoherenceOp.writeInodeBytesAt 1 8192 [9]).exec Aes.unused ⟨false, none⟩ readAhead
    (readAt Aes.unused ⟨false, none⟩ s.volume 1 8192 1 s.prefetch).1 =
      heldAt Aes.unused ⟨false, none⟩ s.volume 1 8192 1 := by
  intro s
  have hguard : coherenceGuard Aes.unused ⟨false, none⟩ readAhead (.writeInodeBytesAt 1 8192 [9]) :=
    .inl (by decide +kernel)
  exact ((reads_coherent (.snoc run_readAhead hguard rfl)).1 1 8192 1).1

/-- The third block is then overwritten through `write_at`. -/
def overwrittenAhead : CachedVolume :=
  (CoherenceOp.writeAt 1 8192 [9]).exec Aes.unused ⟨false, none⟩ readAhead

/-- **`write_at` leaves the read-ahead block stale**: the next read returns 7 where the
volume holds 9. -/
theorem writeAt_leaves_stale :
    (coherenceMachine Aes.unused ⟨false, none⟩).Reachable overwrittenAhead ∧
      (readAt Aes.unused ⟨false, none⟩ overwrittenAhead.volume 1 8192 1
        overwrittenAhead.prefetch).1 = some [7] ∧
      heldByte Aes.unused ⟨false, none⟩ overwrittenAhead.volume 1 8192 = some 9 := by
  refine ⟨?_, by decide +kernel, by decide +kernel⟩
  exact Machine.Run.snoc (l := CoherenceOp.writeAt 1 8192 [9])
    (run_readAhead.mono fun _ _ _ => trivial) trivial rfl

end AthenaOS
