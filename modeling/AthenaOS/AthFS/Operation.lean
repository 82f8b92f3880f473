import AthenaOS.Lib.Machine
import AthenaOS.AthFS.Version

/-!
# The volume as a machine

The operations of a mounted volume as the labels of a `Machine`, started by
`format`.
-/

namespace AthenaOS

open Lib Fallible

/-! ## Operations -/

/-- The operations of a mounted volume. -/
inductive Op where
  | allocateBlock
  | writeInodeBytesAt (inodeId offset : Nat) (data : List UInt8)
  | vfsWriteAt (inodeId offset : Nat) (data : List UInt8)
  | writeFileBytesOn (name data : List UInt8)
  | findOrCreateFileOn (name : List UInt8)
  | cowWriteBlock (inode : DiskInode) (blockIdx : Nat) (data : Block)
  | createSnapshot (timestamp : Nat)
  | rollbackToSnapshot (snapId : UInt32)
  | deleteSnapshot (snapId : UInt32)
  | createBucket (appId quotaBlocks capsFlags maxFileSize : Nat)
  | openInBucket (appId : Nat) (path : List UInt8) (write : Bool)
  | bucketWriteAt (appId inodeId offset : Nat) (data : List UInt8)
  | deleteBucket (appId : Nat)
  | openShared (path : List UInt8) (write : Bool)
  | publishToShared (appId : Nat) (localPath sharedPath : List UInt8)
  | importFromShared (appId : Nat) (sharedPath localPath : List UInt8)
  | markVersioned (inode maxVersions : Nat)
  | saveVersion (inode timestamp : Nat)
  | rollbackVersion (inode : Nat) (versionId : UInt16) (saveCurrent : Bool) (timestamp : Nat)

/-- A call whose result the history does not keep. -/
def ignore {α : Type} (m : AthM α) : AthM Unit := do
  let _ ← m

/-- Run an operation under the codec settings of the moment. -/
def Op.exec (aes : Aes) (settings : DataBlockSettings) : Op → AthM Unit
  | .allocateBlock => ignore AthenaOS.allocateBlock
  | .writeInodeBytesAt id off data => ignore (AthenaOS.writeInodeBytesAt aes settings id off data)
  | .vfsWriteAt id off data => ignore (AthenaOS.vfsWriteAt aes settings id off data)
  | .writeFileBytesOn name data => ignore (AthenaOS.writeFileBytesOn aes settings name data)
  | .findOrCreateFileOn name => ignore (AthenaOS.findOrCreateFileOn name)
  | .cowWriteBlock inode idx data => ignore (AthenaOS.cowWriteBlock inode idx data)
  | .createSnapshot ts => ignore (AthenaOS.createSnapshot ts)
  | .rollbackToSnapshot id => AthenaOS.rollbackToSnapshot id
  | .deleteSnapshot id => AthenaOS.deleteSnapshot id
  | .createBucket app quota caps maxSize => ignore (AthenaOS.createBucket app quota caps maxSize)
  | .openInBucket app path write => ignore (AthenaOS.openInBucket app path write)
  | .bucketWriteAt app id off data => ignore (AthenaOS.bucketWriteAt app id off data)
  | .deleteBucket app => AthenaOS.deleteBucket app
  | .openShared path write => ignore (AthenaOS.openShared path write)
  | .publishToShared app src dst => ignore (AthenaOS.publishToShared app src dst)
  | .importFromShared app src dst => ignore (AthenaOS.importFromShared app src dst)
  | .markVersioned inode n => AthenaOS.markVersioned inode n
  | .saveVersion inode ts => ignore (AthenaOS.saveVersion inode ts)
  | .rollbackVersion inode ver save ts => AthenaOS.rollbackVersion inode ver save ts

/-- A label: an operation and the codec settings it runs under. -/
structure Label where
  settings : DataBlockSettings
  op : Op

/-- The state after a labelled operation, successful or not. -/
def Label.next (aes : Aes) (l : Label) (v : Volume) : Volume := (l.op.exec aes l.settings v).2

/-- The volume: formatted on any device, then operated on. -/
def athfsMachine (aes : Aes) : Machine Volume Label where
  init v := ∃ device, v = format device
  step v l v' := v' = l.next aes v

/-- The volume after a list of labels. -/
def runOps (aes : Aes) (ls : List Label) (v : Volume) : Volume :=
  ls.foldl (fun v l => l.next aes v) v

theorem reachable_runOps {aes : Aes} (ls : List Label) {v : Volume}
    (h : (athfsMachine aes).Reachable v) : (athfsMachine aes).Reachable (runOps aes ls v) := by
  induction ls generalizing v with
  | nil => exact h
  | cons l ls ih => exact ih (.snoc h trivial rfl)

/-- A volume formatted on a device of zeros. -/
def blankVolume : Volume := format fun _ => Bytes.zero

/-- An operation without compression and without a key. -/
def Op.plain (op : Op) : Label := ⟨⟨false, none⟩, op⟩

/-- Every call recorded so far met `ok` in the state it was made in. -/
def Volume.Allowed (ok : Event → Prop) (v : Volume) : Prop := ∀ e ∈ v.trace, ok e

/-- The volume with its trace emptied, so that the next calls are the only ones in it. -/
def Volume.untraced (v : Volume) : Volume := { v with trace := [] }

/-- The guard of a run whose calls all meet `ok`. -/
def callsMeet (aes : Aes) (ok : Event → Prop) (v : Volume) (l : Label) : Prop :=
  (l.next aes v).Allowed ok

/-! ## The layout never changes -/

/-- The superblock of a formatted volume, up to its counters. -/
def Superblock.Formatted (sb : Superblock) : Prop :=
  { sb with freeBlocks := 247, snapshotCount := 0, journalSeq := 0 } = formatSuperblock

namespace Superblock.Formatted

variable {sb : Superblock}

theorem totalBlocks (h : sb.Formatted) : sb.totalBlocks = 256 := congrArg Superblock.totalBlocks h

theorem rootInode (h : sb.Formatted) : sb.rootInode = 0 := congrArg Superblock.rootInode h

theorem inodeBitmapBlock (h : sb.Formatted) : sb.inodeBitmapBlock = 1 :=
  congrArg Superblock.inodeBitmapBlock h

theorem blockBitmapBlock (h : sb.Formatted) : sb.blockBitmapBlock = 2 :=
  congrArg Superblock.blockBitmapBlock h

theorem inodeTableBlock (h : sb.Formatted) : sb.inodeTableBlock = 3 :=
  congrArg Superblock.inodeTableBlock h

theorem refcountBlock (h : sb.Formatted) : sb.refcountBlock = 4 := congrArg Superblock.refcountBlock h

theorem snapshotBlock (h : sb.Formatted) : sb.snapshotBlock = 5 := congrArg Superblock.snapshotBlock h

theorem journalBlock (h : sb.Formatted) : sb.journalBlock = 6 := congrArg Superblock.journalBlock h

theorem bucketTableBlock (h : sb.Formatted) : sb.bucketTableBlock = 7 :=
  congrArg Superblock.bucketTableBlock h

theorem versionedMetaBlock (h : sb.Formatted) : sb.versionedMetaBlock = 8 :=
  congrArg Superblock.versionedMetaBlock h

theorem bitmapSpanBlocks (h : sb.Formatted) : sb.bitmapSpanBlocks = 1 := by
  have hblocks : sb.blockBitmapBlocks = 1 := congrArg Superblock.blockBitmapBlocks h
  rw [Superblock.bitmapSpanBlocks, hblocks]
  rfl

theorem bitmapIndexLimit (h : sb.Formatted) : sb.bitmapIndexLimit = 256 := by
  rw [Superblock.bitmapIndexLimit, h.totalBlocks, h.bitmapSpanBlocks]
  decide

theorem refcountIndexLimit (h : sb.Formatted) : sb.refcountIndexLimit = 256 := by
  have hblocks : sb.refcountBlocks = 1 := congrArg Superblock.refcountBlocks h
  rw [Superblock.refcountIndexLimit, h.totalBlocks, Superblock.refcountSpanBlocks, hblocks]
  decide

theorem setFree (h : sb.Formatted) (n : Nat) : { sb with freeBlocks := n }.Formatted := h

theorem setSeq (h : sb.Formatted) (n : UInt32) : { sb with journalSeq := n }.Formatted := h

theorem setCount (h : sb.Formatted) (n : UInt32) : { sb with snapshotCount := n }.Formatted := h

end Superblock.Formatted

end AthenaOS
