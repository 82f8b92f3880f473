import Mathlib

/-!
# Capabilities, handles and cap tables (`kernel/src/capability.rs`)

A `Cap` is one unforgeable token for one resource: seventeen flavors, each with
its resource fields and a `Rights` bitset. Every task owns a `CapTable` that
maps handles to caps; a handle that came from another task also has a
`GrantRecord` naming the slot it was derived from.
-/

namespace AthenaOS

/-- `TaskId(usize)`. -/
abbrev TaskId := Nat

/-! ## Rights -/

/-- Capability rights bitset (`Rights(u32)`). -/
structure Rights where
  bits : BitVec 32
  deriving DecidableEq, Repr

namespace Rights

def read : Rights := ⟨1#32 <<< 0⟩
def write : Rights := ⟨1#32 <<< 1⟩
def exec : Rights := ⟨1#32 <<< 2⟩
def map : Rights := ⟨1#32 <<< 3⟩
def wait : Rights := ⟨1#32 <<< 4⟩
def grant : Rights := ⟨1#32 <<< 5⟩
def revoke : Rights := ⟨1#32 <<< 6⟩

/-- All seven defined bits. -/
def all : Rights := ⟨0b01111111#32⟩

/-- Drops the bits the kernel does not recognise. -/
def fromBitsTruncate (b : BitVec 32) : Rights := ⟨b &&& all.bits⟩

def contains (self other : Rights) : Bool := self.bits &&& other.bits == other.bits

/-- `self ⊆ other`. -/
def isSubsetOf (self other : Rights) : Bool := self.bits &&& ~~~other.bits == 0#32

theorem isSubsetOf_iff (a b : Rights) :
    a.isSubsetOf b = true ↔ ∀ i < 32, a.bits.getLsbD i = true → b.bits.getLsbD i = true := by
  rw [isSubsetOf, beq_iff_eq]
  constructor
  · intro h i hi ha
    have hbit : (a.bits &&& ~~~b.bits).getLsbD i = (0#32).getLsbD i := by rw [h]
    simpa [hi, ha] using hbit
  · intro h
    refine BitVec.eq_of_getLsbD_eq fun i hi => ?_
    have hb := h i hi
    cases ha : a.bits.getLsbD i <;> simp_all

@[simp] theorem isSubsetOf_refl (a : Rights) : a.isSubsetOf a = true :=
  (isSubsetOf_iff a a).mpr fun _ _ h => h

theorem isSubsetOf_trans {a b c : Rights} (hab : a.isSubsetOf b = true)
    (hbc : b.isSubsetOf c = true) : a.isSubsetOf c = true := by
  rw [isSubsetOf_iff] at *
  exact fun i hi ha => hbc i hi (hab i hi ha)

end Rights

/-! ## Saturating addition -/

/-- `u64::saturating_add`. -/
def satAdd64 (a b : UInt64) : UInt64 :=
  if a.toNat + b.toNat < 2 ^ 64 then a + b else 0xFFFFFFFFFFFFFFFF

/-- `u16::saturating_add`. -/
def satAdd16 (a b : UInt16) : UInt16 :=
  if a.toNat + b.toNat < 2 ^ 16 then a + b else 0xFFFF

theorem toNat_satAdd64 (a b : UInt64) :
    (satAdd64 a b).toNat = min (a.toNat + b.toNat) (2 ^ 64 - 1) := by
  unfold satAdd64
  split
  · rename_i h
    rw [UInt64.toNat_add, Nat.mod_eq_of_lt h]
    omega
  · rename_i h
    rw [Nat.min_eq_right (by omega)]
    rfl

/-! ## Caps -/

/-- One unforgeable token referring to one resource. -/
inductive Cap where
  | channel (chanId : UInt32) (rights : Rights)
  | mmio (startPhys len : UInt64) (rights : Rights)
  | irq (vector : UInt8) (rights : Rights)
  | port (base count : UInt16) (rights : Rights)
  | filesystem (rootInode : UInt64) (rights : Rights)
  | network (portRangeStart portRangeEnd : UInt16) (rights : Rights)
  | gpu (deviceId : UInt32) (rights : Rights)
  | audio (deviceId : UInt32) (rights : Rights)
  | camera (deviceId : UInt32) (rights : Rights)
  | process (targetPid : UInt64) (rights : Rights)
  | cryptoKey (keyId : UInt64) (rights : Rights)
  | hypervisor (vmId : UInt64) (rights : Rights)
  | attestation (sessionId : UInt64) (rights : Rights)
  | debug (scope : UInt32) (rights : Rights)
  | system (rights : Rights)
  | screenCapture (rights : Rights)
  | accessibility (rights : Rights)
  deriving DecidableEq

namespace Cap

def rights : Cap → Rights
  | channel _ r | mmio _ _ r | irq _ r | port _ _ r | filesystem _ r | network _ _ r
  | gpu _ r | audio _ r | camera _ r | process _ r | cryptoKey _ r | hypervisor _ r
  | attestation _ r | debug _ r | system r | screenCapture r | accessibility r => r

/-- Tag of the cap flavor, for `SYS_CAP_QUERY`. -/
def flavorId : Cap → Nat
  | channel .. => 1
  | mmio .. => 2
  | irq .. => 3
  | port .. => 4
  | filesystem .. => 5
  | network .. => 6
  | gpu .. => 7
  | audio .. => 8
  | camera .. => 9
  | process .. => 10
  | cryptoKey .. => 11
  | hypervisor .. => 12
  | attestation .. => 13
  | debug .. => 14
  | system .. => 15
  | screenCapture .. => 16
  | accessibility .. => 17

end Cap

/-- Is `child` a legal derivation of `parent`? Same flavor, same resource or a
sub-range of it, and `child.rights ⊆ parent.rights`. Mmio ends are computed
with `saturating_add`; port ends are widened to `u32` first. -/
def isValidDerivation (parent child : Cap) : Bool :=
  match parent, child with
  | .channel a ra, .channel b rb => a == b && rb.isSubsetOf ra
  | .mmio pa la ra, .mmio pb lb rb =>
    let paEnd := satAdd64 pa la
    let pbEnd := satAdd64 pb lb
    decide (pb ≥ pa) && decide (pbEnd ≤ paEnd) && rb.isSubsetOf ra
  | .irq va ra, .irq vb rb => va == vb && rb.isSubsetOf ra
  | .port ba ca ra, .port bb cb rb =>
    let ea := ba.toNat + ca.toNat
    let eb := bb.toNat + cb.toNat
    decide (bb ≥ ba) && decide (eb ≤ ea) && rb.isSubsetOf ra
  | .filesystem a ra, .filesystem b rb => a == b && rb.isSubsetOf ra
  | .network sa ea ra, .network sb eb rb =>
    decide (sb ≥ sa) && decide (eb ≤ ea) && rb.isSubsetOf ra
  | .gpu a ra, .gpu b rb => a == b && rb.isSubsetOf ra
  | .audio a ra, .audio b rb => a == b && rb.isSubsetOf ra
  | .camera a ra, .camera b rb => a == b && rb.isSubsetOf ra
  | .process a ra, .process b rb => a == b && rb.isSubsetOf ra
  | .cryptoKey a ra, .cryptoKey b rb => a == b && rb.isSubsetOf ra
  | .hypervisor a ra, .hypervisor b rb => a == b && rb.isSubsetOf ra
  | .attestation a ra, .attestation b rb => a == b && rb.isSubsetOf ra
  | .debug a ra, .debug b rb => a == b && rb.isSubsetOf ra
  | .system ra, .system rb => rb.isSubsetOf ra
  | .screenCapture ra, .screenCapture rb => rb.isSubsetOf ra
  | .accessibility ra, .accessibility rb => rb.isSubsetOf ra
  | _, _ => false

/-! ## Handles and cap tables -/

/-- Opaque per-task identifier of a cap slot (`CapHandle(u64)`). -/
abbrev CapHandle := Nat

/-- Who granted us a capability, so that revoke can chase children. -/
structure GrantRecord where
  granterTask : TaskId
  granterHandle : CapHandle
  deriving DecidableEq, Repr

/-- A task's cap table. The two proof fields are what `insert_root`,
`insert_derived` and `remove` maintain: no handle at or above `next` is in use,
and a grant record belongs to a held slot. -/
structure CapTable where
  slots : Std.TreeMap CapHandle Cap
  /-- For every handle granted by another task, the slot it came from. -/
  parents : Std.TreeMap CapHandle GrantRecord
  next : Nat
  slots_lt : ∀ h : CapHandle, slots[h]? ≠ none → h < next
  parents_held : ∀ h : CapHandle, parents[h]? ≠ none → slots[h]? ≠ none

namespace CapTable

/-- `CapTable::new`: handles start at 1. -/
def new : CapTable where
  slots := ∅
  parents := ∅
  next := 1
  slots_lt _ hh := absurd Std.TreeMap.getElem?_emptyc hh
  parents_held _ hh := absurd Std.TreeMap.getElem?_emptyc hh

/-- Insert a top-level cap (no parent, kernel-minted). -/
def insertRoot (t : CapTable) (cap : Cap) : CapHandle × CapTable :=
  (t.next,
    { slots := t.slots.insert t.next cap
      parents := t.parents
      next := t.next + 1
      slots_lt := by
        intro h hh
        rw [Std.TreeMap.getElem?_insert] at hh
        split at hh
        · rename_i heq
          rw [Nat.compare_eq_eq] at heq
          exact heq ▸ Nat.lt_succ_self _
        · exact Nat.lt_succ_of_lt (t.slots_lt h hh)
      parents_held := by
        intro h hh
        rw [Std.TreeMap.getElem?_insert]
        split
        · exact Option.some_ne_none _
        · exact t.parents_held h hh })

/-- Insert a derived cap with its grant record. -/
def insertDerived (t : CapTable) (cap : Cap) (parent : GrantRecord) :
    CapHandle × CapTable :=
  ((t.insertRoot cap).1,
    { (t.insertRoot cap).2 with
      parents := (t.insertRoot cap).2.parents.insert (t.insertRoot cap).1 parent
      parents_held := by
        intro h hh
        rw [Std.TreeMap.getElem?_insert] at hh
        split at hh
        · rename_i heq
          rw [Nat.compare_eq_eq] at heq
          subst heq
          simp [insertRoot]
        · exact (t.insertRoot cap).2.parents_held h hh })

def get (t : CapTable) (h : CapHandle) : Option Cap := t.slots[h]?

def parentOf (t : CapTable) (h : CapHandle) : Option GrantRecord := t.parents[h]?

/-- Drop a slot and its grant record. -/
def remove (t : CapTable) (h : CapHandle) : CapTable where
  slots := t.slots.erase h
  parents := t.parents.erase h
  next := t.next
  slots_lt := by
    intro k hk
    rw [Std.TreeMap.getElem?_erase] at hk
    split at hk
    · exact absurd rfl hk
    · exact t.slots_lt k hk
  parents_held := by
    intro k hk
    rw [Std.TreeMap.getElem?_erase] at hk ⊢
    split at hk
    · exact absurd rfl hk
    · rename_i hne
      rw [if_neg hne]
      exact t.parents_held k hk

/-- `iter_parents`, in handle order. -/
def iterParents (t : CapTable) : List (CapHandle × GrantRecord) := t.parents.toList

/-! ### What the operations do to a lookup -/

variable {t : CapTable} {h : CapHandle} {g : GrantRecord}

theorem lt_next_of_get {c : Cap} (hg : t.get h = some c) : h < t.next := by
  refine t.slots_lt h ?_
  rw [show t.slots[h]? = some c from hg]
  exact Option.some_ne_none c

theorem get_of_parentOf (hp : t.parentOf h = some g) : ∃ c, t.get h = some c := by
  refine Option.ne_none_iff_exists'.mp (t.parents_held h ?_)
  rw [show t.parents[h]? = some g from hp]
  exact Option.some_ne_none g

@[simp] theorem get_new (h : CapHandle) : new.get h = none := Std.TreeMap.getElem?_emptyc

@[simp] theorem parentOf_new (h : CapHandle) : new.parentOf h = none :=
  Std.TreeMap.getElem?_emptyc

@[simp] theorem get_insertRoot (t : CapTable) (c : Cap) (h : CapHandle) :
    (t.insertRoot c).2.get h = if h = t.next then some c else t.get h := by
  simp [insertRoot, get, Std.TreeMap.getElem?_insert, @eq_comm _ h]

@[simp] theorem parentOf_insertRoot (t : CapTable) (c : Cap) (h : CapHandle) :
    (t.insertRoot c).2.parentOf h = t.parentOf h := rfl

@[simp] theorem get_insertDerived (t : CapTable) (c : Cap) (g : GrantRecord)
    (h : CapHandle) :
    (t.insertDerived c g).2.get h = if h = t.next then some c else t.get h :=
  get_insertRoot t c h

@[simp] theorem parentOf_insertDerived (t : CapTable) (c : Cap) (g : GrantRecord)
    (h : CapHandle) :
    (t.insertDerived c g).2.parentOf h = if h = t.next then some g else t.parentOf h := by
  simp [insertDerived, insertRoot, parentOf, Std.TreeMap.getElem?_insert, @eq_comm _ h]

@[simp] theorem next_insertDerived (t : CapTable) (c : Cap) (g : GrantRecord) :
    (t.insertDerived c g).2.next = t.next + 1 := rfl

@[simp] theorem get_remove (t : CapTable) (k h : CapHandle) :
    (t.remove k).get h = if h = k then none else t.get h := by
  simp [remove, get, Std.TreeMap.getElem?_erase, @eq_comm _ h]

@[simp] theorem parentOf_remove (t : CapTable) (k h : CapHandle) :
    (t.remove k).parentOf h = if h = k then none else t.parentOf h := by
  simp [remove, parentOf, Std.TreeMap.getElem?_erase, @eq_comm _ h]

theorem mem_iterParents : (h, g) ∈ t.iterParents ↔ t.parentOf h = some g :=
  Std.TreeMap.mem_toList_iff_getElem?_eq_some

end CapTable

end AthenaOS
