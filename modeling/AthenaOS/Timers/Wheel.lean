import AthenaOS.Lib.Buckets

/-!
# The hierarchical timer wheel

`TimerWheel` of `kernel/src/timers.rs`: five wheels of buckets. The first one has a
bucket for every tick of the next 256; a bucket of a higher wheel holds the timers of
64 times as many ticks as one of the wheel below. When the lower wheel has turned once,
the next bucket of the higher one is emptied into the wheels below it.
-/

namespace AthenaOS

open Lib

/-- `TimerFlags`. -/
structure TimerFlags where
  periodic : Bool
  deferrable : Bool
  pinned : Bool
  irqsafe : Bool
  deriving DecidableEq, Repr

/-- `TimerEntry`. -/
structure TimerEntry where
  id : Nat
  expires : Nat
  callbackId : Nat
  data : Nat
  flags : TimerFlags
  interval : Option Nat
  deriving DecidableEq, Repr

/-- `TimerWheel`: `tv (k, i)` is bucket `i` of `tv1` to `tv5` for `k` from 0 to 4. -/
structure TimerWheel where
  tv : Nat × Nat → List TimerEntry
  currentTick : Nat
  pending : Nat
  nextId : Nat
  cascadePending : Nat → Nat

namespace TimerWheel

/-- `NUM_WHEELS`. -/
def numWheels : Nat := 5

/-- The ticks a bucket of a wheel stands for, as a power of 2: `TVR_BITS + k * TVN_BITS`
from the second wheel on. -/
def shift : Nat → Nat
  | 0 => 0
  | k + 1 => 8 + k * 6

/-- `TVR_SIZE`, and `TVN_SIZE` from the second wheel on. -/
def size : Nat → Nat
  | 0 => 256
  | _ + 1 => 64

/-- `index_for_level`. -/
def indexForLevel (tick level : Nat) : Nat := (tick >>> shift level) &&& (size level - 1)

/-- `TimerWheel::new`. -/
def new : TimerWheel := ⟨fun _ => [], 0, 0, 1, fun _ => 0⟩

/-- The buckets in the order they are searched. -/
def slots : List (Nat × Nat) :=
  (List.range numWheels).flatMap fun level => (List.range (size level)).map (level, ·)

/-- A bucket replaced. -/
def setBucket (w : TimerWheel) (slot : Nat × Nat) (bucket : List TimerEntry) : TimerWheel :=
  { w with tv := Function.update w.tv slot bucket }

/-- `wrapping_sub` on 64 bits. -/
def wrappingSub (a b : Nat) : Nat := (a + 2 ^ 64 - b) % 2 ^ 64

/-- The wheel for an expiry `delta` ticks ahead. -/
def levelFor (delta : Nat) : Nat :=
  if delta < 2 ^ 8 then 0
  else if delta < 2 ^ (8 + 6) then 1
  else if delta < 2 ^ (8 + 2 * 6) then 2
  else if delta < 2 ^ (8 + 3 * 6) then 3
  else 4

/-- The bucket `insert_entry` chooses for an expiry. -/
def slotFor (w : TimerWheel) (expires : Nat) : Nat × Nat :=
  let level := levelFor (wrappingSub expires w.currentTick)
  (level, indexForLevel expires level)

/-- `insert_entry`. -/
def insertEntry (w : TimerWheel) (entry : TimerEntry) : TimerWheel :=
  w.setBucket (w.slotFor entry.expires) (w.tv (w.slotFor entry.expires) ++ [entry])

/-- `add_timer`. -/
def addTimer (w : TimerWheel) (expires callbackId data : Nat) (flags : TimerFlags) :
    Nat × TimerWheel :=
  let id := w.nextId
  let interval := if flags.periodic then some (expires - w.currentTick) else none
  let w := { w with nextId := w.nextId + 1 }
  let w := w.insertEntry ⟨id, expires, callbackId, data, flags, interval⟩
  (id, { w with pending := w.pending + 1 })

/-- The search of `remove_timer` and `modify_timer`: the entry with the id is taken out
of its bucket by `swap_remove`. -/
def takeEntry (w : TimerWheel) (id : Nat) : Option (TimerEntry × TimerWheel) := do
  let slot ← slots.find? fun slot => (w.tv slot).any (·.id = id)
  let pos := (w.tv slot).findIdx (·.id = id)
  let entry ← (w.tv slot)[pos]?
  return (entry, w.setBucket slot (swapRemove (w.tv slot) pos))

/-- `remove_timer`. -/
def removeTimer (w : TimerWheel) (id : Nat) : Bool × TimerWheel :=
  match w.takeEntry id with
  | some (_, w) => (true, { w with pending := w.pending - 1 })
  | none => (false, w)

/-- `modify_timer`: the interval of a periodic timer stays. -/
def modifyTimer (w : TimerWheel) (id newExpires : Nat) : Bool × TimerWheel :=
  match w.takeEntry id with
  | some (entry, w) => (true, w.insertEntry { entry with expires := newExpires })
  | none => (false, w)

/-- The bucket of the current tick on a wheel. -/
def currentSlot (w : TimerWheel) (level : Nat) : Nat × Nat :=
  (level, indexForLevel w.currentTick level)

/-- `mem::take` of that bucket, counted in `cascade_pending`. -/
def emptied (w : TimerWheel) (level : Nat) : TimerWheel :=
  { w.setBucket (w.currentSlot level) [] with
    cascadePending := Function.update w.cascadePending (level - 1)
      (w.cascadePending (level - 1) + (w.tv (w.currentSlot level)).length) }

/-- One level of `cascade`: the bucket of the current tick is emptied and its entries
are inserted again. -/
def drain (w : TimerWheel) (level : Nat) : TimerWheel :=
  (w.tv (w.currentSlot level)).foldl insertEntry (w.emptied level)

/-- `cascade` through the next `n` levels: on to the next one at index 0. -/
def cascadeFrom : Nat → Nat → TimerWheel → TimerWheel
  | 0, _, w => w
  | n + 1, level, w =>
    let w := w.drain level
    if indexForLevel w.currentTick level = 0 then cascadeFrom n (level + 1) w else w

/-- `cascade(0)`: from the second wheel up to the last. -/
def cascade (w : TimerWheel) : TimerWheel := cascadeFrom 4 1 w

/-- What `tick` does with an expired entry: a periodic one is inserted again. -/
def expire (w : TimerWheel) (entry : TimerEntry) : TimerWheel :=
  let w := { w with pending := w.pending - 1 }
  if entry.flags.periodic then
    match entry.interval with
    | some interval =>
      let w := w.insertEntry { entry with expires := w.currentTick + interval }
      { w with pending := w.pending + 1 }
    | none => w
  else w

/-- `tick`: the entries that expired, in the order of their bucket. -/
def tick (w : TimerWheel) : List TimerEntry × TimerWheel :=
  let w := { w with currentTick := w.currentTick + 1 }
  let idx := indexForLevel w.currentTick 0
  let w := if idx = 0 then w.cascade else w
  let expired := w.tv (0, idx)
  (expired, expired.foldl expire (w.setBucket (0, idx) []))

/-- `pending_count`. -/
def pendingCount (w : TimerWheel) : Nat := w.pending

/-! ## What is stored -/

/-- All stored entries. -/
def contents (w : TimerWheel) : Multiset TimerEntry := Buckets.contents slots w.tv

/-- How many entries the buckets hold. -/
def stored (w : TimerWheel) : Nat := (slots.map fun slot => (w.tv slot).length).sum

theorem card_contents (w : TimerWheel) : w.contents.card = w.stored := Buckets.card_contents

theorem mem_contents {w : TimerWheel} {e : TimerEntry} :
    e ∈ w.contents ↔ ∃ slot ∈ slots, e ∈ w.tv slot := Buckets.mem_contents

theorem size_pos (level : Nat) : 0 < size level := by
  cases level with
  | zero => decide
  | succ k => exact Nat.lt_of_lt_of_le (by decide : 0 < 64) (Nat.le_refl 64)

/-- The index is the number of the tick's span, modulo the number of buckets. -/
theorem indexForLevel_eq (tick level : Nat) :
    indexForLevel tick level = tick / 2 ^ shift level % size level := by
  have hsize : size level = 2 ^ (if level = 0 then 8 else 6) := by
    cases level <;> rfl
  rw [indexForLevel, Nat.shiftRight_eq_div_pow, hsize, Nat.and_two_pow_sub_one_eq_mod]

theorem indexForLevel_lt (tick level : Nat) : indexForLevel tick level < size level := by
  rw [indexForLevel_eq]
  exact Nat.mod_lt _ (size_pos level)

theorem mem_slots {level idx : Nat} : (level, idx) ∈ slots ↔ level < numWheels ∧ idx < size level := by
  simp only [slots, List.mem_flatMap, List.mem_range, List.mem_map, Prod.mk.injEq]
  constructor
  · rintro ⟨l, hl, i, hi, rfl, rfl⟩
    exact ⟨hl, hi⟩
  · rintro ⟨hl, hi⟩
    exact ⟨level, hl, idx, hi, rfl, rfl⟩

theorem nodup_slots : slots.Nodup := by
  refine List.nodup_flatMap.mpr ⟨fun level _ => ?_, ?_⟩
  · exact List.nodup_range.map fun i j h => (Prod.mk.inj h).2
  · refine List.nodup_range.imp fun hne s hs ht => ?_
    obtain ⟨_, _, rfl⟩ := List.mem_map.mp hs
    obtain ⟨_, _, heq⟩ := List.mem_map.mp ht
    exact hne (Prod.mk.inj heq).1.symm

attribute [irreducible] slots

end TimerWheel

end AthenaOS
