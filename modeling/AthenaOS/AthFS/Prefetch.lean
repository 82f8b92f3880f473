import AthenaOS.AthFS.Operation

/-!
# Reads and the read-ahead cache

`kernel/src/prefetch.rs` keeps one cache for all files, keyed by inode number and
logical block. Two consecutive reads of a file arm it, and every further read pulls
the next four blocks in. `AthFSInode::read_at` and `read_file_bytes_on` take a block
from the cache before they look at the device.
-/

namespace AthenaOS

open Lib Fallible

/-! ## The cache -/

/-- An inode number and a logical block. -/
abbrev PrefetchKey : Type := Nat × Nat

/-- The global state of `prefetch.rs`. -/
structure Prefetch where
  /-- Per inode, the next expected block and the length of the current run. -/
  streams : Nat → Option (Nat × Nat)
  cache : List (PrefetchKey × Block)
  /-- The keys of `cache`, oldest first. -/
  order : List PrefetchKey

namespace Prefetch

/-- `RUN_THRESHOLD`. -/
def runThreshold : Nat := 2

/-- `PREFETCH_DEPTH`. -/
def depth : Nat := 4

/-- `CACHE_CAP`. -/
def cacheCap : Nat := 32

/-- `invalidate_all`, and the state at boot. -/
def empty : Prefetch := ⟨fun _ => none, [], []⟩

/-- The cached block of a key. -/
def find? (p : Prefetch) (key : PrefetchKey) : Option Block :=
  (p.cache.find? fun e => e.1 = key).map (·.2)

/-- `contains`. -/
def contains (p : Prefetch) (inode logical : Nat) : Bool := (p.find? (inode, logical)).isSome

/-- `record`: the number of blocks to read ahead. The run counter is a `u32` that
saturates. -/
def record (inode logical : Nat) : Fallible Prefetch Nat := fun p =>
  let (next, run) := (p.streams inode).getD (logical, 0)
  let run := if logical = next then min (run + 1) (2 ^ 32 - 1) else 1
  (some (if runThreshold ≤ run then depth else 0),
    { p with streams := Function.update p.streams inode (some (logical + 1, run)) })

/-- `take`: serve a block and drop it from the cache. -/
def take (inode logical : Nat) : Fallible Prefetch (Option Block) := fun p =>
  match p.find? (inode, logical) with
  | none => (some none, p)
  | some block =>
    (some (some block),
      { p with
        cache := p.cache.filter (·.1 ≠ (inode, logical))
        order := p.order.filter (· ≠ (inode, logical)) })

/-- The eviction loop of `stash`: oldest keys go while the cache is full. -/
def evict : List PrefetchKey → List (PrefetchKey × Block) →
    List PrefetchKey × List (PrefetchKey × Block)
  | [], cache => ([], cache)
  | old :: order, cache =>
    if cacheCap ≤ cache.length then evict order (cache.filter (·.1 ≠ old))
    else (old :: order, cache)

/-- `stash`. -/
def stash (inode logical : Nat) (data : Block) : Fallible Prefetch Unit := modify fun p =>
  if p.contains inode logical then p
  else
    let (order, cache) := evict p.order p.cache
    { p with cache := ((inode, logical), data) :: cache, order := order ++ [(inode, logical)] }

/-- `invalidate_inode`. -/
def invalidateInode (p : Prefetch) (inode : Nat) : Prefetch where
  streams := Function.update p.streams inode none
  cache := p.cache.filter (·.1.1 ≠ inode)
  order := p.order.filter (·.1 ≠ inode)

end Prefetch

/-! ## Reading -/

section Read

variable (aes : Aes) (settings : DataBlockSettings)

/-- The block an inode's extents map a logical block to, decoded: what
`lookup_extent` and `read_data_block` give together. -/
def extentBlock (disk : Disk) (inode : DiskInode) (logicalBlock : Nat) : Option Block :=
  (physicalBlock disk inode logicalBlock).bind (readDataBlock aes settings disk)

/-- The read-ahead of one block. -/
def prefetchBlock (disk : Disk) (inodeId : Nat) (inode : DiskInode) (l : Nat) :
    Fallible Prefetch Unit := do
  let maxLogical := (inode.size + blockSize - 1) / blockSize
  if maxLogical ≤ l || (← get).contains inodeId l then pure ()
  else
    match extentBlock aes settings disk inode l with
    | none => pure ()
    | some pb => Prefetch.stash inodeId l pb

/-- `read_file_block_prefetched`. -/
def readFileBlockPrefetched (disk : Disk) (inodeId : Nat) (inode : DiskInode) (logicalBlock : Nat) :
    Fallible Prefetch Block := do
  let depth ← Prefetch.record inodeId logicalBlock
  let pre ← Prefetch.take inodeId logicalBlock
  let block ← ofOption (pre.or (extentBlock aes settings disk inode logicalBlock))
  (List.range' 1 depth).forM fun ahead =>
    prefetchBlock aes settings disk inodeId inode (logicalBlock + ahead)
  return block

end Read

/-- `n` bytes of a block from `off` on. -/
def Bytes.window {m : Nat} (data : Bytes m) (off n : Nat) : List UInt8 :=
  (List.range' off n).map data.get

/-- The bytes one round of a read loop copies: to the end of the block, of the file or
of the buffer. -/
def roundLength (size offset room : Nat) : Nat :=
  min (min (blockSize - offset % blockSize) (size - offset)) room

theorem roundLength_pos (size offset room : Nat) (hroom : room ≠ 0) (hsize : offset < size) :
    0 < roundLength size offset room := by
  have hmod : offset % blockSize < blockSize := Nat.mod_lt _ (by decide)
  unfold roundLength
  omega

section Loops

variable {σ : Type} (disk : Disk) (inode : DiskInode) (fetch : Nat → Fallible σ Block)

/-- The loop of `read_at`, with `room` bytes of the buffer left. A block without an
extent reads as zeros; a failed read ends the loop. -/
def readAtLoop (offset room : Nat) : Fallible σ (List UInt8) := do
  if _h : room = 0 ∨ inode.size ≤ offset then return []
  else
    let n := roundLength inode.size offset room
    if (lookupExtent disk inode (offset / blockSize)).isNone then
      let rest ← readAtLoop (offset + n) (room - n)
      return List.replicate n 0 ++ rest
    else
      match ← attempt (fetch (offset / blockSize)) with
      | none => return []
      | some block =>
        let rest ← readAtLoop (offset + n) (room - n)
        return block.window (offset % blockSize) n ++ rest
termination_by room
decreasing_by
  all_goals
    have := roundLength_pos inode.size offset room (by omega) (by omega)
    omega

/-- The loop of `read_file_bytes_on` from `offset` on. A block that cannot be fetched
fails the whole read. -/
def readFileLoop (offset : Nat) : Fallible σ (List UInt8) := do
  if _h : inode.size ≤ offset then return []
  else
    let n := roundLength inode.size offset (inode.size - offset)
    let block ← fetch (offset / blockSize)
    let rest ← readFileLoop (offset + n)
    return block.window (offset % blockSize) n ++ rest
termination_by inode.size - offset
decreasing_by
  have := roundLength_pos inode.size offset (inode.size - offset) (by omega) (by omega)
  omega

end Loops

section ReadPath

variable {σ : Type} (aes : Aes) (settings : DataBlockSettings)

/-- How a read gets at a block, given the device, the inode number and the inode. -/
abbrev Fetch (σ : Type) : Type := Disk → Nat → DiskInode → Nat → Fallible σ Block

/-- `AthFSInode::read_at`, with a buffer of `len` bytes. -/
def readAtBy (fetch : Fetch σ) (v : Volume) (inodeId offset len : Nat) :
    Fallible σ (List UInt8) :=
  readAtLoop v.disk (v.inode inodeId) (fetch v.disk inodeId (v.inode inodeId)) offset len

/-- `read_file_bytes_on`: the name is looked up on the device. -/
def readFileBytesOnBy (fetch : Fetch σ) (v : Volume) (name : List UInt8) :
    Fallible σ (List UInt8) := do
  let id ← ofOption ((findFlatInodeOn name v).1.join)
  readFileLoop (v.inode id) (fetch v.disk id (v.inode id)) 0

/-- `read_at` as the code does it. -/
def readAt : Volume → Nat → Nat → Nat → Fallible Prefetch (List UInt8) :=
  readAtBy (readFileBlockPrefetched aes settings)

/-- `read_file_bytes_on` as the code does it. -/
def readFileBytesOn : Volume → List UInt8 → Fallible Prefetch (List UInt8) :=
  readFileBytesOnBy (readFileBlockPrefetched aes settings)

/-- A block straight from the device. -/
def fetchHeld : Fetch Unit := fun disk _ inode l => ofOption (extentBlock aes settings disk inode l)

/-- What the volume holds where `read_at` reads: the same loop without the cache. -/
def heldAt (v : Volume) (inodeId offset len : Nat) : Option (List UInt8) :=
  (readAtBy (fetchHeld aes settings) v inodeId offset len ()).1

/-- What the volume holds under a name. -/
def heldFile (v : Volume) (name : List UInt8) : Option (List UInt8) :=
  (readFileBytesOnBy (fetchHeld aes settings) v name ()).1

/-- The byte the volume holds at an offset of a file: zero in a hole. -/
def heldByte (v : Volume) (inodeId offset : Nat) : Option UInt8 :=
  if (lookupExtent v.disk (v.inode inodeId) (offset / blockSize)).isNone then some 0
  else
    (extentBlock aes settings v.disk (v.inode inodeId) (offset / blockSize)).map
      (·.get (offset % blockSize))

end ReadPath

/-! ## The machine -/

/-- A mounted volume and the read-ahead cache. -/
structure CachedVolume where
  volume : Volume
  prefetch : Prefetch

/-- The calls that read and write file content. -/
inductive CoherenceOp where
  | readAt (inodeId offset len : Nat)
  | readFileBytesOn (name : List UInt8)
  | writeAt (inodeId offset : Nat) (data : List UInt8)
  | writeInodeBytesAt (inodeId offset : Nat) (data : List UInt8)
  | rollbackToSnapshot (snapId : UInt32)

/-- One call. Reads change the cache only. `write_inode_bytes_at` invalidates its inode
first; `write_at` and `rollback_to_snapshot` leave the cache alone. -/
def CoherenceOp.exec (aes : Aes) (settings : DataBlockSettings) (op : CoherenceOp)
    (s : CachedVolume) : CachedVolume :=
  match op with
  | .readAt id off len =>
    { s with prefetch := (AthenaOS.readAt aes settings s.volume id off len s.prefetch).2 }
  | .readFileBytesOn name =>
    { s with prefetch := (AthenaOS.readFileBytesOn aes settings s.volume name s.prefetch).2 }
  | .writeAt id off data =>
    { s with volume := (vfsWriteAt aes settings id off data s.volume.untraced).2 }
  | .writeInodeBytesAt id off data =>
    ⟨(AthenaOS.writeInodeBytesAt aes settings id off data s.volume.untraced).2,
      s.prefetch.invalidateInode id⟩
  | .rollbackToSnapshot snapId =>
    { s with volume := (AthenaOS.rollbackToSnapshot snapId s.volume.untraced).2 }

/-- Any mounted volume with an empty cache, then any calls in any order. -/
def coherenceMachine (aes : Aes) (settings : DataBlockSettings) :
    Machine CachedVolume CoherenceOp where
  init s := s.prefetch = Prefetch.empty
  step s op s' := s' = op.exec aes settings s

end AthenaOS
