import AthenaOS.AthFS.Volume

/-!
# Extents, the journal and copy-on-write

Functions that take `&mut DiskInode` give the inode back, with `false` for an error:
callers go on with it either way.
-/

namespace AthenaOS

open Lib Fallible

/-! ## Lookup -/

/-- The child an internal node leads to: the last entry not past `logicalBlock`. -/
def internalChild (node : Block) (logicalBlock : Nat) : Nat → Nat → Nat → Nat
  | 0, _, next => next
  | n + 1, i, next =>
    if node.getLE (32 + 16 * i) 8 ≤ logicalBlock then
      internalChild node logicalBlock n (i + 1) (node.getLE (32 + 16 * i + 8) 8)
    else next

/-- The walk `while depth > 0` down to a leaf. -/
def leafOf (disk : Disk) (logicalBlock : Nat) : Nat → Nat → Option Nat
  | 0, block => some block
  | depth + 1, block =>
    let node := disk block
    if nodeMagic node ≠ btreeMagic then none
    else
      let next := internalChild node logicalBlock (nodeCount node) 0 0
      if next = 0 then none else leafOf disk logicalBlock depth next

/-- The scan of a leaf from its last entry: the first one not past `logicalBlock`
decides. -/
def leafLookup (node : Block) (logicalBlock : Nat) : Nat → Option BTreeLeafEntry
  | 0 => none
  | i + 1 =>
    let entry := leafEntry node i
    if entry.logicalStart ≤ logicalBlock then
      if logicalBlock < entry.logicalStart + entry.lengthBlocks then some entry else none
    else leafLookup node logicalBlock i

/-- `lookup_extent`. -/
def lookupExtent (disk : Disk) (inode : DiskInode) (logicalBlock : Nat) : Option BTreeLeafEntry :=
  if !inode.usesBtree then
    if logicalBlock < 12 ∧ inode.directBlock logicalBlock ≠ 0 then
      some ⟨logicalBlock, inode.directBlock logicalBlock, 1, 0⟩
    else none
  else
    match leafOf disk logicalBlock inode.btreeDepth inode.btreeRoot with
    | none => none
    | some leaf => leafLookup (disk leaf) logicalBlock (nodeCount (disk leaf))

/-- The physical block behind `logicalBlock`. -/
def physicalBlock (disk : Disk) (inode : DiskInode) (logicalBlock : Nat) : Option Nat :=
  (lookupExtent disk inode logicalBlock).map fun e =>
    e.physicalBlock + (logicalBlock - e.logicalStart)

/-! ## Insertion -/

/-- An empty leaf. -/
def emptyLeaf : Block := (Bytes.zero : Block).putLE 0 8 btreeMagic

/-- The leaf that takes over the direct blocks, in order. -/
def migratedLeaf (inode : DiskInode) : Block :=
  let used := (List.range' 0 12).filter fun i => inode.directBlock i ≠ 0
  let entries : Block := (used.zipIdx).foldl
    (fun node p => setLeafEntry node p.2 ⟨p.1, inode.directBlock p.1, 1, 0⟩) emptyLeaf
  entries.putLE 10 2 used.length

/-- `for i in (idx..count).rev() { entries[i + 1] = entries[i] }`, `n` entries to go. -/
def shiftEntries (idx : Nat) : Nat → Block → Block
  | 0, node => node
  | n + 1, node =>
    shiftEntries idx n (setLeafEntry node (idx + n + 1) (leafEntry node (idx + n)))

/-- Where a new extent goes: before the first entry that starts after it. -/
def insertPos (node : Block) (extent : BTreeLeafEntry) : Nat :=
  ((List.range' 0 (nodeCount node)).find? fun i =>
    extent.logicalStart < (leafEntry node i).logicalStart).getD (nodeCount node)

/-- `write_btree_node_cow`. -/
def writeBtreeNodeCow (block : Nat) (buf : Block) (inode : DiskInode) :
    AthM (Bool × DiskInode) := do
  let rc ← consultRefcount block
  if rc ≤ 1 then
    storeBlock block buf
    return (true, inode)
  else if block = inode.btreeRoot then
    match ← attempt allocateBlock with
    | none => return (false, inode)
    | some newBlock =>
      storeBlock newBlock buf
      let _ ← attempt (decRefcount block)
      return (true, inode.setBtreeRoot newBlock)
  else
    overwriteBlock block buf
    return (true, inode)

/-- `insert_into_node`: replace, insert into a leaf with room, or refuse. -/
def insertIntoNode (block depth : Nat) (extent : BTreeLeafEntry) (inode : DiskInode) :
    AthM (Bool × DiskInode) := do
  let buf ← readBlock block
  if depth ≠ 0 then return (false, inode)
  else
    match (List.range' 0 (nodeCount buf)).find? fun i =>
        (leafEntry buf i).logicalStart = extent.logicalStart with
    | some i => writeBtreeNodeCow block (setLeafEntry buf i extent) inode
    | none =>
      if nodeCount buf < 127 then
        let idx := insertPos buf extent
        let node := setLeafEntry (shiftEntries idx (nodeCount buf - idx) buf) idx extent
        writeBtreeNodeCow block (node.putLE 10 2 (nodeCount buf + 1)) inode
      else return (false, inode)

/-- `insert_extent`; `inode.btree_depth as u8` keeps the low byte of the depth. -/
def insertExtent (inode : DiskInode) (extent : BTreeLeafEntry) : AthM (Bool × DiskInode) := do
  if inode.usesBtree then
    insertIntoNode inode.btreeRoot (inode.btreeDepth % 256) extent inode
  else
    match ← attempt allocateBlock with
    | none => return (false, inode)
    | some rootBlock =>
      storeBlock rootBlock (migratedLeaf inode)
      let inode := inode.toBtree rootBlock
      insertIntoNode inode.btreeRoot (inode.btreeDepth % 256) extent inode

/-! ## Journal -/

/-- `journal_begin`: the slot taken. -/
def journalBegin (inodeId blockIdx oldBlock newBlock : Nat) : AthM Nat := do
  let blk := (← superblock).journalBlock
  let buf ← readBlock blk
  match (List.range' 0 maxJournalEntries).find? fun i => (JournalEntry.read buf i).seq = 0 with
  | none => fail
  | some slot =>
    updateSuperblock fun sb => { sb with journalSeq := sb.journalSeq + 1 }
    let seq := (← superblock).journalSeq
    let entry : JournalEntry := ⟨seq.toNat, 0, inodeId, blockIdx, oldBlock, newBlock⟩
    writeVolBlock blk (buf.splice (slot * 64) entry.toBytes)
    return slot

/-- Clear a journal slot. -/
def clearSlot (buf : Block) (slot : Nat) : Block := buf.splice (slot * 64) (Bytes.zero : Bytes 64)

/-- `journal_commit`. -/
def journalCommit (slot : Nat) : AthM Unit := do
  let blk := (← superblock).journalBlock
  let buf ← readBlock blk
  writeVolBlock blk (clearSlot buf slot)

/-! ## Copy-on-write -/

/-- `cow_write_block`, on a direct slot. -/
def cowWriteBlock (inode : DiskInode) (blockIdx : Nat) (data : Block) :
    AthM (Bool × DiskInode) := do
  if 12 ≤ blockIdx then return (false, inode)
  else
    let oldBlock := inode.directBlock blockIdx
    if oldBlock = 0 then
      match ← attempt allocateBlock with
      | none => return (false, inode)
      | some newBlock =>
        storeBlock newBlock data
        let inode := inode.setDirectBlock blockIdx newBlock
        writeInode inode
        return (true, inode)
    else
      let rc ← consultRefcount oldBlock
      if rc ≤ 1 then
        storeBlock oldBlock data
        return (true, inode)
      else
        match ← attempt allocateBlock with
        | none => return (false, inode)
        | some newBlock =>
          match ← attempt (journalBegin inode.id blockIdx oldBlock newBlock) with
          | none =>
            let _ ← attempt (freeBlock newBlock)
            return (false, inode)
          | some slot =>
            storeBlock newBlock data
            let inode := inode.setDirectBlock blockIdx newBlock
            writeInode inode
            journalCommit slot
            let released ← attempt (releaseBlock oldBlock)
            return (released.isSome, inode)

section DataPath

variable (aes : Aes) (settings : DataBlockSettings)

/-- `write_data_block` on the volume's device. -/
def storeDataBlock (blockIdx : Nat) (data : Block) : AthM Unit :=
  storeBlock blockIdx (encodeDataBlock aes settings blockIdx data)

/-- `cow_diverge_extent_journaled`. -/
def cowDivergeExtentJournaled (inode : DiskInode) (logicalBlock oldPhys : Nat) (blockBuf : Block)
    (extFlags : Nat) : AthM (Bool × DiskInode) := do
  match ← attempt allocateBlock with
  | none => return (false, inode)
  | some newPhys =>
    match ← attempt (journalBegin inode.id logicalBlock oldPhys newPhys) with
    | none =>
      let _ ← attempt (freeBlock newPhys)
      return (false, inode)
    | some slot =>
      storeDataBlock aes settings newPhys blockBuf
      let (inserted, inode) ← insertExtent inode ⟨logicalBlock, newPhys, 1, extFlags⟩
      if !inserted then
        let _ ← attempt (journalCommit slot)
        let _ ← attempt (freeBlock newPhys)
        return (false, inode)
      else
        writeInode inode
        journalCommit slot
        let released ← attempt (releaseBlock oldPhys)
        return (released.isSome, inode)

end DataPath

/-! ## Replay -/

end AthenaOS
