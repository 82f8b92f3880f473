import AthenaOS.AthFS.Effect
import AthenaOS.Lib.Intervals

/-!
# The extent map of an inode

What `insert_extent` does to the lookups of a file, when the map is the one it builds:
direct blocks, or one leaf of extents in order that do not overlap.
-/

namespace AthenaOS

open Lib Lib.Intervals Fallible

/-! ## Entries of a node -/

namespace BTreeLeafEntry

/-- The fields fit the bytes they are stored in. -/
structure Fits (e : BTreeLeafEntry) : Prop where
  logicalStart : e.logicalStart < 256 ^ 8
  physicalBlock : e.physicalBlock < 256 ^ 8
  lengthBlocks : e.lengthBlocks < 256 ^ 4
  flags : e.flags < 256 ^ 4

variable {node : Block} {e : BTreeLeafEntry} {off off' : Nat}

theorem fits_read : (read node off).Fits :=
  ⟨Bytes.getLE_lt _ _ _, Bytes.getLE_lt _ _ _, Bytes.getLE_lt _ _ _, Bytes.getLE_lt _ _ _⟩

end BTreeLeafEntry

section Node

variable {node : Block} {e : BTreeLeafEntry} {i j : Nat}

end Node

/-! ## The map as a list -/

/-- The extent holds the block. -/
abbrev BTreeLeafEntry.Holds (e : BTreeLeafEntry) (logicalBlock : Nat) : Prop :=
  Covers BTreeLeafEntry.logicalStart BTreeLeafEntry.lengthBlocks e logicalBlock

section Lookup

variable {disk : Disk} {inode : DiskInode} {node : Block} {x : Nat}

end Lookup

/-! ## Insertion into a leaf -/

section Leaf

variable {node : Block} {e : BTreeLeafEntry}

end Leaf

/-! ## Migration of the direct blocks -/

section Migrate

variable {node : Block} {inode : DiskInode}

end Migrate

/-! ## Insertion into the map of a file -/

section Inode

variable {inode : DiskInode} {b : Nat}

end Inode

section Volume

variable {v v' : Volume} {inode inode' : DiskInode} {e : BTreeLeafEntry} {buf : Block}

/-- The volume has its refcount run past block 0, and its bitmap has every block of the run in
use. Every layout of `format` is such a one, whatever the size of the device. -/
structure Volume.HoldsRefcounts (v : Volume) : Prop where
  /-- `total_blocks` is a `u64`. -/
  total : v.superblock.totalBlocks < 2 ^ 64
  past : v.superblock.refcountBlock ≠ 0
  held : ∀ b < v.superblock.refcountIndexLimit, v.blockBit (v.superblock.refcountBlockOf b) = true

/-- A block taken is a block of the volume. -/
theorem Volume.Took.lt {b : Nat} (h : v.Took v' b) (hvol : v.HoldsRefcounts) : b < 256 ^ 8 :=
  Nat.lt_trans (Nat.lt_of_lt_of_le h.inRange (Nat.min_le_left _ _)) hvol.total

theorem Volume.Took.refcountBlockOf {b : Nat} (h : v.Took v' b) (i : Nat) :
    v'.superblock.refcountBlockOf i = v.superblock.refcountBlockOf i := by
  rw [h.superblock]
  rfl

end Volume

/-! ## What an insertion leaves of the other lookups -/

section Frame

variable {v v' : Volume} {inode inode' : DiskInode} {e : BTreeLeafEntry}

end Frame

end AthenaOS
