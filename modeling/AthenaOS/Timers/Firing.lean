import AthenaOS.Lib.Machine
import AthenaOS.Timers.Placement

/-!
# Timers fire on time

The wheel under calls in any order, with a record of what was asked of each timer and
when it was returned.
-/

namespace AthenaOS

open Lib
open Function (update update_of_ne update_self)

/-! ## The machine -/

/-- What a run has done with one timer. -/
structure TimerLog where
  /-- The expiry set last, and the tick at which it was set. -/
  expires : Nat
  setAt : Nat
  /-- Of a periodic timer: how far ahead its first expiry was. -/
  interval : Option Nat
  /-- The ticks that returned it, once for each time, oldest first. -/
  returned : List Nat
  removedAt : Option Nat

/-- The calls on a timer wheel. -/
inductive TimerOp where
  | add (expires callbackId data : Nat) (flags : TimerFlags)
  | modify (id newExpires : Nat)
  | remove (id : Nat)
  | tick

/-- A wheel, and the log of each id `add_timer` has given. -/
structure TimerRun where
  wheel : TimerWheel
  log : Nat → Option TimerLog

namespace TimerRun

/-- A change to the log of one timer. -/
def record (r : TimerRun) (id : Nat) (f : TimerLog → TimerLog) : Nat → Option TimerLog :=
  update r.log id ((r.log id).map f)

/-- One call. -/
def next (r : TimerRun) : TimerOp → TimerRun
  | .add expires callbackId data flags =>
    let (id, w) := r.wheel.addTimer expires callbackId data flags
    let interval := if flags.periodic then some (expires - r.wheel.currentTick) else none
    ⟨w, update r.log id (some ⟨expires, r.wheel.currentTick, interval, [], none⟩)⟩
  | .modify id newExpires =>
    match r.wheel.modifyTimer id newExpires with
    | (true, w) =>
      ⟨w, r.record id fun t => { t with expires := newExpires, setAt := r.wheel.currentTick }⟩
    | (false, w) => ⟨w, r.log⟩
  | .remove id =>
    match r.wheel.removeTimer id with
    | (true, w) => ⟨w, r.record id fun t => { t with removedAt := some r.wheel.currentTick }⟩
    | (false, w) => ⟨w, r.log⟩
  | .tick =>
    let (expired, w) := r.wheel.tick
    ⟨w, fun id => (r.log id).map fun t =>
      { t with returned := t.returned ++ List.replicate (expired.countP (·.id = id)) w.currentTick }⟩

/-- An expiry is set ahead of the current tick; no tick and no expiry that a periodic
timer gets reaches `2 ^ 64`. -/
def InBounds (r : TimerRun) : TimerOp → Prop
  | .add expires .. => r.wheel.currentTick < expires ∧ expires < 2 ^ 64
  | .modify _ newExpires => r.wheel.currentTick < newExpires ∧ newExpires < 2 ^ 64
  | .remove _ => True
  | .tick => r.wheel.currentTick + 1 < 2 ^ 64 ∧
    ∀ e ∈ r.wheel.contents, e.expires = r.wheel.currentTick + 1 → e.flags.periodic = true →
      r.wheel.currentTick + 1 + e.interval.getD 0 < 2 ^ 64

instance (r : TimerRun) : (op : TimerOp) → Decidable (r.InBounds op)
  | .add .. => inferInstanceAs (Decidable (_ ∧ _))
  | .modify .. => inferInstanceAs (Decidable (_ ∧ _))
  | .remove _ => inferInstanceAs (Decidable True)
  | .tick => inferInstanceAs (Decidable (_ ∧ _))

/-- Before the first call. -/
def new : TimerRun := ⟨TimerWheel.new, fun _ => none⟩

end TimerRun

/-- Calls in any order on a fresh wheel. -/
def timerMachine : Machine TimerRun TimerOp where
  init r := r = .new
  step r op r' := r' = r.next op

/-! ## On time -/

/-- The ticks up to `upto` at which a periodic timer is due. -/
def firings (expires interval upto : Nat) : List Nat :=
  if expires ≤ upto then
    (List.range ((upto - expires) / interval + 1)).map fun k => expires + k * interval
  else []

/-- The first tick after `now` at which a periodic timer is due. -/
def nextFiring (expires interval now : Nat) : Nat :=
  if now < expires then expires else expires + ((now - expires) / interval + 1) * interval

namespace TimerLog

/-- The timer has been returned when it was due, and only then. -/
def OnTime (now : Nat) (t : TimerLog) : Prop :=
  let upto := t.removedAt.getD now
  match t.interval with
  | none => t.returned = if t.expires ≤ upto then [t.expires] else []
  | some interval =>
    0 < interval ∧ t.returned.filter (t.setAt < ·) = firings t.expires interval upto

/-- The timer is still to be returned. -/
def Waiting (now : Nat) (t : TimerLog) : Prop :=
  t.removedAt = none ∧ (t.interval = none → now < t.expires)

/-- When the timer is due next. -/
def nextDue (now : Nat) (t : TimerLog) : Nat :=
  match t.interval with
  | none => t.expires
  | some interval => nextFiring t.expires interval now

end TimerLog

section Firings

variable {expires interval now : Nat}

theorem firings_of_lt (h : now < expires) : firings expires interval now = [] :=
  if_neg (by omega)

theorem nextFiring_of_lt (h : now < expires) : nextFiring expires interval now = expires := if_pos h

/-- The number of intervals passed goes up when a firing is due. -/
theorem div_succ_of_due (hpos : 0 < interval) (hle : expires ≤ now)
    (hdue : expires + ((now - expires) / interval + 1) * interval = now + 1) :
    (now + 1 - expires) / interval = (now - expires) / interval + 1 := by
  have heq : now + 1 - expires = ((now - expires) / interval + 1) * interval := by omega
  rw [heq, Nat.mul_div_cancel _ hpos]

theorem div_succ_of_not_due (hpos : 0 < interval) (hle : expires ≤ now)
    (hnot : expires + ((now - expires) / interval + 1) * interval ≠ now + 1) :
    (now + 1 - expires) / interval = (now - expires) / interval := by
  rw [Nat.succ_sub hle, Nat.succ_div, if_neg, Nat.add_zero]
  rintro ⟨k, hk⟩
  refine hnot ?_
  -- the multiple that is reached is the next one
  have hdiv : (now - expires) / interval + 1 = k := by
    have hk0 : k ≠ 0 := by
      rintro rfl
      omega
    obtain ⟨j, rfl⟩ := Nat.exists_eq_succ_of_ne_zero hk0
    have hlow : now - expires = interval * j + (interval - 1) := by
      rw [Nat.mul_succ] at hk
      omega
    rw [hlow, Nat.mul_add_div hpos, Nat.div_eq_of_lt (by omega), Nat.add_zero]
  rw [hdiv, Nat.mul_comm, ← hk]
  omega

theorem firings_succ_of_due (hpos : 0 < interval) (hdue : nextFiring expires interval now = now + 1) :
    firings expires interval (now + 1) = firings expires interval now ++ [now + 1] := by
  unfold nextFiring at hdue
  by_cases hlt : now < expires
  · rw [if_pos hlt] at hdue
    subst hdue
    rw [firings_of_lt hlt, firings, if_pos (Nat.le_refl _), Nat.sub_self, Nat.zero_div]
    simp
  · rw [if_neg hlt] at hdue
    have hle : expires ≤ now := Nat.not_lt.mp hlt
    rw [firings, if_pos (Nat.le_succ_of_le hle), div_succ_of_due hpos hle hdue, firings, if_pos hle,
      List.range_succ, List.map_append, List.map_singleton, hdue]

theorem firings_succ_of_not_due (hpos : 0 < interval)
    (hnot : nextFiring expires interval now ≠ now + 1) :
    firings expires interval (now + 1) = firings expires interval now := by
  unfold nextFiring at hnot
  by_cases hlt : now < expires
  · rw [if_pos hlt] at hnot
    rw [firings_of_lt hlt, firings_of_lt (by omega)]
  · rw [if_neg hlt] at hnot
    have hle : expires ≤ now := Nat.not_lt.mp hlt
    rw [firings, if_pos (Nat.le_succ_of_le hle), div_succ_of_not_due hpos hle hnot, firings,
      if_pos hle]

theorem nextFiring_succ_of_due (hpos : 0 < interval)
    (hdue : nextFiring expires interval now = now + 1) :
    nextFiring expires interval (now + 1) = now + 1 + interval := by
  unfold nextFiring at hdue ⊢
  by_cases hlt : now < expires
  · rw [if_pos hlt] at hdue
    subst hdue
    rw [if_neg (Nat.lt_irrefl _), Nat.sub_self, Nat.zero_div, Nat.zero_add, Nat.one_mul]
  · rw [if_neg hlt] at hdue
    have hle : expires ≤ now := Nat.not_lt.mp hlt
    rw [if_neg (by omega), div_succ_of_due hpos hle hdue, Nat.add_mul _ 1, Nat.one_mul,
      ← Nat.add_assoc, hdue]

theorem nextFiring_succ_of_not_due (hpos : 0 < interval)
    (hnot : nextFiring expires interval now ≠ now + 1) :
    nextFiring expires interval (now + 1) = nextFiring expires interval now := by
  unfold nextFiring at hnot ⊢
  by_cases hlt : now < expires
  · rw [if_pos hlt] at hnot ⊢
    rw [if_pos (by omega)]
  · rw [if_neg hlt] at hnot ⊢
    have hle : expires ≤ now := Nat.not_lt.mp hlt
    rw [if_neg (by omega), div_succ_of_not_due hpos hle hnot]

end Firings

/-! ## The stored entries -/

/-- A stored entry is the waiting timer of its log. -/
structure Matches (now : Nat) (e : TimerEntry) (t : TimerLog) : Prop where
  removed : t.removedAt = none
  interval : e.interval = t.interval
  periodic : e.flags.periodic = t.interval.isSome
  due : e.expires = t.nextDue now

/-- A log says what happened up to now. -/
structure Sound (now : Nat) (t : TimerLog) : Prop where
  onTime : t.OnTime now
  setAt : t.setAt ≤ now
  returned : ∀ x ∈ t.returned, x ≤ now

/-- The wheel stores the waiting timers of the log, each one once. -/
structure Tracked (r : TimerRun) : Prop where
  settled : r.wheel.Settled
  pending : r.wheel.pending = r.wheel.contents.card
  nodup : (r.wheel.contents.map (·.id)).Nodup
  fresh : ∀ id, r.wheel.nextId ≤ id → r.log id = none
  sound : ∀ id t, r.log id = some t → Sound r.wheel.currentTick t
  stored : ∀ e ∈ r.wheel.contents, ∃ t, r.log e.id = some t ∧ Matches r.wheel.currentTick e t
  waiting : ∀ id t, r.log id = some t → t.Waiting r.wheel.currentTick →
    ∃ e ∈ r.wheel.contents, e.id = id

section Contents

open TimerWheel

variable {w : TimerWheel} {e : TimerEntry}

/-- A stored entry is due later. -/
theorem lt_expires (h : w.Settled) (he : e ∈ w.contents) : w.currentTick < e.expires := by
  obtain ⟨⟨level, idx⟩, -, hmem⟩ := mem_contents.mp he
  exact Nat.lt_of_div_lt_div ((h level idx e hmem).ahead not_false)

theorem expires_lt (h : w.Settled) (he : e ∈ w.contents) : e.expires < 2 ^ 64 := by
  obtain ⟨⟨level, idx⟩, -, hmem⟩ := mem_contents.mp he
  exact (h level idx e hmem).expires

variable {m : Multiset TimerEntry}

/-- How often an id is among the entries that are due. -/
theorem countP_due (hnodup : (m.map (·.id)).Nodup) (he : e ∈ m) (tick : Nat) :
    (m.filter fun x => x.expires = tick).countP (fun x => x.id = e.id)
      = if e.expires = tick then 1 else 0 := by
  obtain ⟨rest, rfl⟩ := Multiset.exists_cons_of_mem he
  rw [Multiset.map_cons, Multiset.nodup_cons] at hnodup
  have hrest : (rest.filter fun x => x.expires = tick).countP (fun x => x.id = e.id) = 0 := by
    rw [Multiset.countP_eq_zero]
    intro x hx hid
    exact hnodup.1 (Multiset.mem_map.mpr ⟨x, Multiset.mem_of_mem_filter hx, hid⟩)
  by_cases hdue : e.expires = tick
  · rw [Multiset.filter_cons_of_pos (p := fun x : TimerEntry => x.expires = tick) _ hdue,
      Multiset.countP_cons_of_pos (p := fun x : TimerEntry => x.id = e.id) _ rfl, hrest, if_pos hdue]
  · rw [Multiset.filter_cons_of_neg (p := fun x : TimerEntry => x.expires = tick) _ hdue, hrest,
      if_neg hdue]

theorem countP_due_eq_zero {id : Nat} (h : ∀ x ∈ m, x.id ≠ id) (tick : Nat) :
    (m.filter fun x => x.expires = tick).countP (fun x => x.id = id) = 0 := by
  rw [Multiset.countP_eq_zero]
  exact fun x hx => h x (Multiset.mem_of_mem_filter hx)

end Contents

/-! ## Steps -/

section Steps

open TimerWheel

variable {r : TimerRun}

variable {t : TimerLog} {now expires id : Nat} {e : TimerEntry}

/-- A timer whose expiry was just set has not been returned since. -/
theorem sound_set (h : Sound now t) (hremoved : t.removedAt = none) (hwaiting : t.Waiting now)
    (hnow : now < expires) : Sound now { t with expires := expires, setAt := now } := by
  refine ⟨?_, Nat.le_refl _, h.returned⟩
  have hon := h.onTime
  unfold TimerLog.OnTime at hon ⊢
  rw [hremoved, Option.getD_none] at hon ⊢
  dsimp only at hon ⊢
  cases hint : t.interval with
  | none =>
    rw [hint] at hon
    dsimp only at hon ⊢
    have := hwaiting.2 hint
    rw [hon, if_neg (by omega), if_neg (by omega)]
  | some interval =>
    rw [hint] at hon
    refine ⟨hon.1, ?_⟩
    rw [firings_of_lt hnow, List.filter_eq_nil_iff]
    intro x hx hlt
    have hle := h.returned x hx
    have hlt := of_decide_eq_true hlt
    omega

theorem nextDue_of_lt (h : now < t.expires) : t.nextDue now = t.expires := by
  unfold TimerLog.nextDue
  cases t.interval with
  | none => rfl
  | some interval => exact nextFiring_of_lt h

/-- A timer set for the first time has not been returned yet. -/
theorem sound_new {periodic : Bool} (hnow : now < expires) :
    Sound now ⟨expires, now, if periodic then some (expires - now) else none, [], none⟩ := by
  refine ⟨?_, Nat.le_refl _, fun x hx => nomatch hx⟩
  unfold TimerLog.OnTime
  cases periodic with
  | false =>
    show [] = if expires ≤ now then [expires] else []
    rw [if_neg (by omega)]
  | true =>
    show 0 < expires - now ∧ [] = firings expires (expires - now) now
    exact ⟨by omega, (firings_of_lt hnow).symm⟩

/-- `add_timer` starts the log of a new id. -/
theorem tracked_add (h : Tracked r) {callbackId data : Nat} {flags : TimerFlags}
    (hnow : r.wheel.currentTick < expires) (hlt : expires < 2 ^ 64) :
    Tracked (r.next (.add expires callbackId data flags)) := by
  let entry : TimerEntry := ⟨r.wheel.nextId, expires, callbackId, data, flags,
    if flags.periodic then some (expires - r.wheel.currentTick) else none⟩
  let t : TimerLog := ⟨expires, r.wheel.currentTick,
    if flags.periodic then some (expires - r.wheel.currentTick) else none, [], none⟩
  let w : TimerWheel := insertEntry { r.wheel with nextId := r.wheel.nextId + 1 } entry
  have hnext : r.next (.add expires callbackId data flags) =
      ⟨{ w with pending := r.wheel.pending + 1 }, update r.log r.wheel.nextId (some t)⟩ := rfl
  have hcontents : w.contents = entry ::ₘ r.wheel.contents := contents_insertEntry
  have hother : ∀ e ∈ r.wheel.contents, e.id ≠ r.wheel.nextId := by
    intro e he hid
    obtain ⟨t', ht', -⟩ := h.stored e he
    rw [hid, h.fresh _ (Nat.le_refl _)] at ht'
    exact nomatch ht'
  have hsettled : w.Settled :=
    placed_insert (fun _ hw => hw.elim) h.settled (Nat.le_of_lt hnow) (.inr hnow) hlt
  rw [hnext]
  refine ⟨hsettled, ?_, ?_, ?_, ?_, ?_, ?_⟩
  · show r.wheel.pending + 1 = w.contents.card
    rw [hcontents, Multiset.card_cons, h.pending]
  · show (w.contents.map (·.id)).Nodup
    rw [hcontents, Multiset.map_cons, Multiset.nodup_cons]
    refine ⟨fun hmem => ?_, h.nodup⟩
    obtain ⟨e, he, hid⟩ := Multiset.mem_map.mp hmem
    exact hother e he hid
  · intro id hid
    have hid : r.wheel.nextId + 1 ≤ id := hid
    show update r.log r.wheel.nextId (some t) id = none
    rw [update_of_ne (by omega), h.fresh id (by omega)]
  · intro id t' ht'
    show Sound r.wheel.currentTick t'
    by_cases hid : id = r.wheel.nextId
    · subst hid
      obtain rfl : t = t' :=
        Option.some.inj ((update_self r.wheel.nextId (some t) r.log).symm.trans ht')
      exact sound_new hnow
    · exact h.sound id t' ((update_of_ne hid ..).symm.trans ht')
  · intro e he
    show ∃ t', update r.log r.wheel.nextId (some t) e.id = some t' ∧
      Matches r.wheel.currentTick e t'
    rcases Multiset.mem_cons.mp (hcontents ▸ (show e ∈ w.contents from he)) with rfl | he
    · refine ⟨t, update_self .., rfl, rfl, ?_, (nextDue_of_lt (t := t) hnow).symm⟩
      show flags.periodic = (if flags.periodic then some (expires - r.wheel.currentTick)
        else none).isSome
      cases flags.periodic <;> rfl
    · rw [update_of_ne (hother e he)]
      exact h.stored e he
  · intro id t' ht' hwaiting
    show ∃ e ∈ w.contents, e.id = id
    rw [hcontents]
    by_cases hid : id = r.wheel.nextId
    · exact ⟨entry, Multiset.mem_cons_self .., hid.symm⟩
    · obtain ⟨e, he, heq⟩ := h.waiting id t' ((update_of_ne hid ..).symm.trans ht') hwaiting
      exact ⟨e, Multiset.mem_cons_of_mem he, heq⟩

theorem Matches.waiting (h : Matches now e t) (hlt : now < e.expires) : t.Waiting now := by
  refine ⟨h.removed, fun hint => ?_⟩
  rwa [h.due, TimerLog.nextDue, hint] at hlt

section Record

variable {id : Nat} {f : TimerLog → TimerLog}

theorem record_self {t : TimerLog} (h : r.log id = some t) : r.record id f id = some (f t) := by
  rw [TimerRun.record, update_self, h, Option.map_some]

variable {id' : Nat}

theorem record_of_ne (h : id' ≠ id) : r.record id f id' = r.log id' :=
  update_of_ne h _ _

theorem record_none (h : r.log id' = none) : r.record id f id' = none := by
  by_cases hid : id' = id
  · subst hid
    rw [TimerRun.record, update_self, h, Option.map_none]
  · rw [record_of_ne hid, h]

end Record

/-- The entry that was taken out had the only copy of its id. -/
theorem took_id_ne {w' : TimerWheel} (htook : Took r.wheel w' e) (h : Tracked r) :
    ∀ x ∈ w'.contents, x.id ≠ e.id := by
  intro x hx hid
  have hnodup := h.nodup
  rw [htook.contents, Multiset.map_cons, Multiset.nodup_cons] at hnodup
  exact hnodup.1 (Multiset.mem_map.mpr ⟨x, hx, hid⟩)

/-- `modify_timer` sets another expiry. -/
theorem tracked_modify (h : Tracked r) {newExpires : Nat} (hnow : r.wheel.currentTick < newExpires)
    (hlt : newExpires < 2 ^ 64) : Tracked (r.next (.modify id newExpires)) := by
  cases htake : r.wheel.takeEntry id with
  | none =>
    have hnext : r.next (.modify id newExpires) = r := by
      simp only [TimerRun.next, modifyTimer, htake]
    rwa [hnext]
  | some taken =>
    obtain ⟨e, w'⟩ := taken
    obtain ⟨rfl, htook⟩ := takeEntry_some htake
    have hnext : r.next (.modify e.id newExpires) =
        ⟨w'.insertEntry { e with expires := newExpires }, r.record e.id fun t =>
          { t with expires := newExpires, setAt := r.wheel.currentTick }⟩ := by
      simp only [TimerRun.next, modifyTimer, htake]
    rw [hnext]
    let entry : TimerEntry := { e with expires := newExpires }
    let w : TimerWheel := w'.insertEntry entry
    have hcontents : w.contents = entry ::ₘ w'.contents := contents_insertEntry
    have htick : w.currentTick = r.wheel.currentTick := htook.currentTick
    have hmem : e ∈ r.wheel.contents := htook.contents ▸ Multiset.mem_cons_self ..
    obtain ⟨t, ht, hmatch⟩ := h.stored e hmem
    have hwaiting := hmatch.waiting (lt_expires h.settled hmem)
    have hne := took_id_ne htook h
    have hsettled : w.Settled := by
      refine placed_insert (fun _ hw => hw.elim) (htook.settled h.settled) ?_ (.inr ?_) hlt
      · rw [htook.currentTick]
        exact Nat.le_of_lt hnow
      · rw [htook.currentTick]
        exact hnow
    refine ⟨hsettled, ?_, ?_, ?_, ?_, ?_, ?_⟩
    · show w'.pending = w.contents.card
      rw [hcontents, htook.pending, h.pending, htook.contents, Multiset.card_cons,
        Multiset.card_cons]
    · show (w.contents.map (·.id)).Nodup
      have hnodup := h.nodup
      rw [htook.contents, Multiset.map_cons] at hnodup
      rw [hcontents, Multiset.map_cons]
      exact hnodup
    · intro id hid
      exact record_none (h.fresh id (htook.nextId ▸ hid))
    · intro id t' ht'
      show Sound w.currentTick t'
      rw [htick]
      by_cases hid : id = e.id
      · subst hid
        obtain rfl := Option.some.inj ((record_self ht).symm.trans ht')
        exact sound_set (h.sound _ t ht) hmatch.removed hwaiting hnow
      · exact h.sound id t' ((record_of_ne hid).symm.trans ht')
    · intro x hx
      show ∃ t', r.record e.id _ x.id = some t' ∧ Matches w.currentTick x t'
      rw [htick]
      rcases Multiset.mem_cons.mp (hcontents ▸ (show x ∈ w.contents from hx)) with rfl | hx
      · exact ⟨_, record_self ht, hmatch.removed, hmatch.interval, hmatch.periodic,
          (nextDue_of_lt (t := { t with expires := newExpires, setAt := r.wheel.currentTick })
            hnow).symm⟩
      · rw [record_of_ne (hne x hx)]
        exact h.stored x (htook.contents ▸ Multiset.mem_cons_of_mem hx)
    · intro id t' ht' hwaiting'
      show ∃ x ∈ w.contents, x.id = id
      rw [hcontents]
      by_cases hid : id = e.id
      · exact ⟨entry, Multiset.mem_cons_self .., hid.symm⟩
      · obtain ⟨x, hx, hxid⟩ := h.waiting id t' ((record_of_ne hid).symm.trans ht')
          (htick ▸ hwaiting')
        refine ⟨x, Multiset.mem_cons_of_mem ?_, hxid⟩
        rcases Multiset.mem_cons.mp (htook.contents ▸ hx) with rfl | hx
        · exact absurd hxid.symm hid
        · exact hx

/-- `remove_timer` ends the timer. -/
theorem tracked_remove (h : Tracked r) : Tracked (r.next (.remove id)) := by
  cases htake : r.wheel.takeEntry id with
  | none =>
    have hnext : r.next (.remove id) = r := by simp only [TimerRun.next, removeTimer, htake]
    rwa [hnext]
  | some taken =>
    obtain ⟨e, w⟩ := taken
    obtain ⟨rfl, htook⟩ := takeEntry_some htake
    have hnext : r.next (.remove e.id) = ⟨{ w with pending := w.pending - 1 },
        r.record e.id fun t => { t with removedAt := some r.wheel.currentTick }⟩ := by
      simp only [TimerRun.next, removeTimer, htake]
    rw [hnext]
    have hmem : e ∈ r.wheel.contents := htook.contents ▸ Multiset.mem_cons_self ..
    obtain ⟨t, ht, hmatch⟩ := h.stored e hmem
    refine ⟨htook.settled h.settled, ?_, ?_, ?_, ?_, ?_, ?_⟩
    · show w.pending - 1 = w.contents.card
      rw [htook.pending, h.pending, htook.contents, Multiset.card_cons, Nat.add_sub_cancel]
    · show (w.contents.map (·.id)).Nodup
      have hnodup := h.nodup
      rw [htook.contents, Multiset.map_cons, Multiset.nodup_cons] at hnodup
      exact hnodup.2
    · intro id hid
      exact record_none (h.fresh id (htook.nextId ▸ hid))
    · intro id t' ht'
      show Sound w.currentTick t'
      rw [htook.currentTick]
      by_cases hid : id = e.id
      · subst hid
        obtain rfl := Option.some.inj ((record_self ht).symm.trans ht')
        obtain ⟨hon, hset, hreturned⟩ := h.sound _ t ht
        refine ⟨?_, hset, hreturned⟩
        unfold TimerLog.OnTime at hon ⊢
        rwa [hmatch.removed] at hon
      · exact h.sound id t' ((record_of_ne hid).symm.trans ht')
    · intro x hx
      show ∃ t', r.record e.id _ x.id = some t' ∧ Matches w.currentTick x t'
      rw [htook.currentTick, record_of_ne (took_id_ne htook h x hx)]
      exact h.stored x (htook.contents ▸ Multiset.mem_cons_of_mem hx)
    · intro id t' ht' hwaiting
      show ∃ x ∈ w.contents, x.id = id
      by_cases hid : id = e.id
      · subst hid
        obtain rfl := Option.some.inj ((record_self ht).symm.trans ht')
        exact nomatch hwaiting.1
      · obtain ⟨x, hx, hxid⟩ := h.waiting id t' ((record_of_ne hid).symm.trans ht')
          (htook.currentTick ▸ hwaiting)
        refine ⟨x, ?_, hxid⟩
        rcases Multiset.mem_cons.mp (htook.contents ▸ hx) with rfl | hx
        · exact absurd hxid.symm hid
        · exact hx

end Steps

/-! ## A tick -/

section Tick

open TimerWheel

variable {now : Nat} {t : TimerLog}

/-- A waiting timer is returned at the tick it is due. -/
theorem sound_due (h : Sound now t) (hwaiting : t.Waiting now) (hdue : t.nextDue now = now + 1) :
    Sound (now + 1) { t with returned := t.returned ++ [now + 1] } := by
  obtain ⟨hon, hset, hreturned⟩ := h
  refine ⟨?_, Nat.le_succ_of_le hset, ?_⟩
  · unfold TimerLog.OnTime at hon ⊢
    rw [hwaiting.1, Option.getD_none] at hon ⊢
    dsimp only at hon ⊢
    cases hint : t.interval with
    | none =>
      rw [hint] at hon
      rw [TimerLog.nextDue, hint] at hdue
      dsimp only at hon hdue ⊢
      rw [hon, if_neg (by omega), if_pos (by omega), hdue, List.nil_append]
    | some interval =>
      rw [hint] at hon
      rw [TimerLog.nextDue, hint] at hdue
      dsimp only at hon hdue ⊢
      refine ⟨hon.1, ?_⟩
      rw [List.filter_append, hon.2, List.filter_singleton, firings_succ_of_due hon.1 hdue,
        decide_eq_true (show t.setAt < now + 1 by omega), cond_true]
  · intro x hx
    rcases List.mem_append.mp hx with hx | hx
    · exact Nat.le_succ_of_le (hreturned x hx)
    · exact Nat.le_of_eq (List.mem_singleton.mp hx)

/-- Nothing is due at a tick that does not return the timer. -/
theorem sound_not_due (h : Sound now t) (hnot : t.Waiting now → t.nextDue now ≠ now + 1) :
    Sound (now + 1) t := by
  obtain ⟨hon, hset, hreturned⟩ := h
  refine ⟨?_, Nat.le_succ_of_le hset, fun x hx => Nat.le_succ_of_le (hreturned x hx)⟩
  unfold TimerLog.OnTime at hon ⊢
  cases hremoved : t.removedAt with
  | some removed =>
    rw [hremoved] at hon
    exact hon
  | none =>
    rw [hremoved, Option.getD_none] at hon
    rw [Option.getD_none]
    cases hint : t.interval with
    | none =>
      rw [hint] at hon
      dsimp only at hon ⊢
      by_cases hlt : now < t.expires
      · have hdue := hnot ⟨hremoved, fun _ => hlt⟩
        rw [TimerLog.nextDue, hint] at hdue
        dsimp only at hdue
        rw [hon, if_neg (by omega), if_neg (by omega)]
      · rw [hon, if_pos (by omega), if_pos (by omega)]
    | some interval =>
      rw [hint] at hon
      dsimp only at hon ⊢
      refine ⟨hon.1, ?_⟩
      have hdue := hnot ⟨hremoved, fun hnone => nomatch hint.symm.trans hnone⟩
      rw [TimerLog.nextDue, hint] at hdue
      rw [hon.2, firings_succ_of_not_due hon.1 hdue]

theorem Sound.interval_pos (h : Sound now t) {interval : Nat} (hint : t.interval = some interval) :
    0 < interval := by
  have hon := h.onTime
  rw [TimerLog.OnTime, hint] at hon
  exact hon.1

variable {e : TimerEntry} {w' : TimerWheel} {expired : List TimerEntry} {id : Nat}

/-- An entry that is not due stays what it was. -/
theorem matches_not_due (h : Matches now e t) (hs : Sound now t) (hnot : e.expires ≠ now + 1)
    (returned : List Nat) : Matches (now + 1) e { t with returned := returned } := by
  refine ⟨h.removed, h.interval, h.periodic, ?_⟩
  rw [h.due] at hnot ⊢
  unfold TimerLog.nextDue at hnot ⊢
  cases hint : t.interval with
  | none => rfl
  | some interval =>
    rw [hint] at hnot
    exact (nextFiring_succ_of_not_due (hs.interval_pos hint) hnot).symm

/-- A periodic entry that was due waits for the firing after this one. -/
theorem matches_rearm (h : Matches now e t) (hs : Sound now t) (hdue : e.expires = now + 1)
    (hperiodic : e.flags.periodic = true) (returned : List Nat) :
    Matches (now + 1) (rearm (now + 1) e) { t with returned := returned } := by
  obtain ⟨interval, hint⟩ := Option.isSome_iff_exists.mp (h.periodic.symm.trans hperiodic)
  refine ⟨h.removed, h.interval, h.periodic, ?_⟩
  have hnext := h.due.symm.trans hdue
  rw [TimerLog.nextDue, hint] at hnext
  show now + 1 + e.interval.getD 0 = TimerLog.nextDue (now + 1) { t with returned := returned }
  rw [h.interval, hint, Option.getD_some]
  unfold TimerLog.nextDue
  dsimp only
  exact (nextFiring_succ_of_due (hs.interval_pos hint) hnext).symm

theorem mem_rearmed {l : List TimerEntry} {x : TimerEntry} :
    x ∈ rearmed now l ↔ ∃ e ∈ l, e.flags.periodic = true ∧ rearm now e = x := by
  simp only [rearmed, List.mem_map, List.mem_filter, and_assoc]

/-- The timers that go on have ids of timers that expired. -/
theorem ids_rearmed_le (l : List TimerEntry) :
    (rearmed now l : Multiset TimerEntry).map TimerEntry.id ≤ (l : Multiset TimerEntry).map TimerEntry.id := by
  have hids : (rearmed now l : Multiset TimerEntry).map TimerEntry.id =
      (l.filter (·.flags.periodic) : Multiset TimerEntry).map TimerEntry.id := by
    rw [rearmed, Multiset.map_coe, Multiset.map_coe, List.map_map]
    rfl
  rw [hids]
  exact Multiset.map_le_map (Multiset.coe_le.mpr List.filter_sublist.subperm)

variable {r : TimerRun}

/-- A periodic entry has an interval to go on with. -/
theorem Tracked.rearms (h : Tracked r) (hbounds : r.InBounds .tick) :
    ∀ e ∈ r.wheel.contents, e.expires = r.wheel.currentTick + 1 →
      Rearms (r.wheel.currentTick + 1) e := by
  intro e he hdue hperiodic
  obtain ⟨t, ht, hmatch⟩ := h.stored e he
  obtain ⟨interval, hint⟩ := Option.isSome_iff_exists.mp (hmatch.periodic.symm.trans hperiodic)
  have hlt := hbounds.2 e he hdue hperiodic
  rw [hmatch.interval, hint, Option.getD_some] at hlt
  exact ⟨interval, hmatch.interval.trans hint, (h.sound _ t ht).interval_pos hint, hlt⟩

/-- How often a tick returns a stored timer. -/
theorem countP_tick (hnodup : (r.wheel.contents.map (·.id)).Nodup)
    (hticked : Ticked r.wheel w' expired) (he : e ∈ r.wheel.contents) :
    expired.countP (·.id = e.id) = if e.expires = r.wheel.currentTick + 1 then 1 else 0 := by
  rw [← countP_due hnodup he, ← hticked.due, Multiset.coe_countP]

theorem countP_tick_eq_zero (hticked : Ticked r.wheel w' expired)
    (h : ∀ x ∈ r.wheel.contents, x.id ≠ id) : expired.countP (·.id = id) = 0 := by
  rw [← countP_due_eq_zero h (r.wheel.currentTick + 1), ← hticked.due, Multiset.coe_countP]

/-- A log after a tick that returned the timer `n` times. -/
def TimerLog.after (t : TimerLog) (n now : Nat) : TimerLog :=
  { t with returned := t.returned ++ List.replicate n now }

@[simp] theorem TimerLog.after_zero (t : TimerLog) : t.after 0 now = t := by
  rw [TimerLog.after, List.replicate_zero, List.append_nil]

/-- Every log goes on being right through a tick. -/
theorem sound_tick (h : Tracked r) (hticked : Ticked r.wheel w' expired) (ht : r.log id = some t) :
    Sound (r.wheel.currentTick + 1)
      (t.after (expired.countP (·.id = id)) (r.wheel.currentTick + 1)) := by
  by_cases hstored : ∃ e ∈ r.wheel.contents, e.id = id
  · obtain ⟨e, he, rfl⟩ := hstored
    obtain ⟨t', ht', hmatch⟩ := h.stored e he
    obtain rfl : t = t' := Option.some.inj (ht.symm.trans ht')
    rw [countP_tick h.nodup hticked he]
    by_cases hdue : e.expires = r.wheel.currentTick + 1
    · rw [if_pos hdue]
      exact sound_due (h.sound _ t ht) (hmatch.waiting (lt_expires h.settled he))
        (hmatch.due.symm.trans hdue)
    · rw [if_neg hdue, TimerLog.after_zero]
      exact sound_not_due (h.sound _ t ht) fun _ heq => hdue (hmatch.due.trans heq)
  · -- a timer that is not stored is not waiting
    have hnone : ∀ x ∈ r.wheel.contents, x.id ≠ id := fun x hx heq => hstored ⟨x, hx, heq⟩
    rw [countP_tick_eq_zero hticked hnone, TimerLog.after_zero]
    exact sound_not_due (h.sound _ t ht) fun hwaiting => absurd (h.waiting id t ht hwaiting) hstored

/-- `tick` returns what is due and keeps the rest. -/
theorem tracked_tick (h : Tracked r) (hbounds : r.InBounds .tick) : Tracked (r.next .tick) := by
  have hticked := tick_spec h.settled h.pending (h.rearms hbounds)
  have hnext : r.next .tick = ⟨r.wheel.tick.2, fun id => (r.log id).map fun t =>
      t.after (r.wheel.tick.1.countP (·.id = id)) r.wheel.tick.2.currentTick⟩ := rfl
  rw [hnext]
  generalize r.wheel.tick.1 = expired at hticked ⊢
  generalize r.wheel.tick.2 = w' at hticked ⊢
  have hsplit : (r.wheel.contents.filter fun e => e.expires = r.wheel.currentTick + 1)
      + (r.wheel.contents.filter fun e => e.expires ≠ r.wheel.currentTick + 1) = r.wheel.contents :=
    Multiset.filter_add_not _ _
  have hmem : ∀ {x}, x ∈ w'.contents → (x ∈ r.wheel.contents ∧ x.expires ≠ r.wheel.currentTick + 1) ∨
      ∃ e ∈ r.wheel.contents, e.expires = r.wheel.currentTick + 1 ∧ e.flags.periodic = true ∧
        rearm (r.wheel.currentTick + 1) e = x := by
    intro x hx
    rw [hticked.contents, Multiset.mem_add] at hx
    rcases hx with hx | hx
    · exact .inl (Multiset.mem_filter.mp hx)
    · obtain ⟨e, he, hperiodic, rfl⟩ := mem_rearmed.mp (Multiset.mem_coe.mp hx)
      have he := hticked.due ▸ Multiset.mem_coe.mpr he
      obtain ⟨he, hdue⟩ := Multiset.mem_filter.mp he
      exact .inr ⟨e, he, hdue, hperiodic, rfl⟩
  refine ⟨hticked.settled, ?_, ?_, ?_, ?_, ?_, ?_⟩
  · show w'.pending = w'.contents.card
    have hcard := congrArg Multiset.card hsplit
    rw [← hticked.due, Multiset.card_add, Multiset.coe_card] at hcard
    rw [hticked.contents, Multiset.card_add, Multiset.coe_card]
    have hpending := hticked.pending
    rw [h.pending] at hpending
    omega
  · show (w'.contents.map (·.id)).Nodup
    refine Multiset.nodup_of_le ?_ h.nodup
    rw [hticked.contents, Multiset.map_add]
    refine le_trans (add_le_add_right (ids_rearmed_le expired) _) ?_
    rw [← Multiset.map_add, add_comm, hticked.due, hsplit]
  · intro id hid
    show (r.log id).map _ = none
    rw [h.fresh id (hticked.nextId ▸ hid), Option.map_none]
  · intro id t' ht'
    obtain ⟨t, ht, rfl⟩ := Option.map_eq_some_iff.mp ht'
    show Sound w'.currentTick _
    rw [hticked.currentTick]
    exact sound_tick h hticked ht
  · intro x hx
    show ∃ t', (r.log x.id).map _ = some t' ∧ Matches w'.currentTick x t'
    rw [hticked.currentTick]
    rcases hmem hx with ⟨hx, hnot⟩ | ⟨e, he, hdue, hperiodic, rfl⟩
    · obtain ⟨t, ht, hmatch⟩ := h.stored x hx
      rw [ht]
      exact ⟨_, rfl, matches_not_due hmatch (h.sound _ t ht) hnot _⟩
    · obtain ⟨t, ht, hmatch⟩ := h.stored e he
      rw [show (rearm (r.wheel.currentTick + 1) e).id = e.id from rfl, ht]
      exact ⟨_, rfl, matches_rearm hmatch (h.sound _ t ht) hdue hperiodic _⟩
  · intro id t' ht' hwaiting
    obtain ⟨t, ht, rfl⟩ := Option.map_eq_some_iff.mp ht'
    show ∃ x ∈ w'.contents, x.id = id
    have hlater : t.removedAt = none ∧ (t.interval = none → w'.currentTick < t.expires) := hwaiting
    rw [hticked.currentTick] at hlater
    obtain ⟨e, he, rfl⟩ := h.waiting id t ht
      ⟨hlater.1, fun hint => Nat.lt_of_succ_lt (hlater.2 hint)⟩
    rw [hticked.contents]
    by_cases hdue : e.expires = r.wheel.currentTick + 1
    · -- what was due and still waits is periodic
      obtain ⟨t', heq, hmatch⟩ := h.stored e he
      obtain rfl : t = t' := Option.some.inj (ht.symm.trans heq)
      have hperiodic : e.flags.periodic = true := by
        rw [hmatch.periodic, Option.isSome_iff_ne_none]
        intro hint
        have hlt := hlater.2 hint
        have hexpires := hmatch.due
        rw [TimerLog.nextDue, hint] at hexpires
        dsimp only at hexpires
        omega
      have hexpired : e ∈ expired :=
        Multiset.mem_coe.mp (hticked.due ▸ Multiset.mem_filter.mpr ⟨he, hdue⟩)
      exact ⟨rearm (r.wheel.currentTick + 1) e, Multiset.mem_add.mpr
        (.inr (Multiset.mem_coe.mpr (mem_rearmed.mpr ⟨e, hexpired, hperiodic, rfl⟩))), rfl⟩
    · exact ⟨e, Multiset.mem_add.mpr (.inl (Multiset.mem_filter.mpr ⟨he, hdue⟩)), rfl⟩

end Tick

/-! ## Runs -/

/-- What a run says of its timers. -/
structure Punctual (r : TimerRun) : Prop where
  /-- Every timer was returned when it was due, and only then. -/
  onTime : ∀ id t, r.log id = some t → t.OnTime r.wheel.currentTick
  pendingCount : r.wheel.pendingCount = r.wheel.stored
  /-- A timer can be modified and removed as long as it is to be returned. -/
  modify : ∀ id newExpires, (r.wheel.modifyTimer id newExpires).1 = true ↔
    ∃ t, r.log id = some t ∧ t.Waiting r.wheel.currentTick
  remove : ∀ id, (r.wheel.removeTimer id).1 = true ↔
    ∃ t, r.log id = some t ∧ t.Waiting r.wheel.currentTick
  /-- The wheel stores no timer but those added, each one once. -/
  stored : (r.wheel.contents.map (·.id)).Nodup ∧ ∀ e ∈ r.wheel.contents, r.log e.id ≠ none
  fresh : r.log r.wheel.nextId = none

variable {r : TimerRun}

open TimerWheel in
/-- A timer is found exactly while it waits. -/
theorem takeEntry_isSome_iff (h : Tracked r) (id : Nat) :
    (r.wheel.takeEntry id).isSome = true ↔
      ∃ t, r.log id = some t ∧ t.Waiting r.wheel.currentTick := by
  constructor
  · intro hsome
    obtain ⟨⟨e, w'⟩, htake⟩ := Option.isSome_iff_exists.mp hsome
    obtain ⟨rfl, htook⟩ := takeEntry_some htake
    have he : e ∈ r.wheel.contents := htook.contents ▸ Multiset.mem_cons_self ..
    obtain ⟨t, ht, hmatch⟩ := h.stored e he
    exact ⟨t, ht, hmatch.waiting (lt_expires h.settled he)⟩
  · rintro ⟨t, ht, hwaiting⟩
    obtain ⟨e, he, hid⟩ := h.waiting id t ht hwaiting
    rw [Option.isSome_iff_ne_none]
    exact fun hnone => takeEntry_none hnone e he hid

theorem tracked_init (h : timerMachine.init r) : Tracked r := by
  subst h
  have hempty : TimerWheel.new.contents = 0 := by
    rw [Multiset.eq_zero_iff_forall_notMem]
    intro e he
    obtain ⟨slot, -, hmem⟩ := TimerWheel.mem_contents.mp he
    exact nomatch hmem
  refine ⟨fun level idx e he => (nomatch he), ?_, ?_, fun _ _ => rfl, fun _ _ ht => (nomatch ht), ?_,
    fun _ _ ht => (nomatch ht)⟩
  · show 0 = TimerWheel.new.contents.card
    rw [hempty, Multiset.card_zero]
  · show (TimerWheel.new.contents.map (·.id)).Nodup
    rw [hempty]
    exact Multiset.nodup_zero
  · intro e he
    exact absurd (hempty ▸ (show e ∈ TimerWheel.new.contents from he)) (Multiset.notMem_zero e)

theorem tracked_step {r' : TimerRun} {op : TimerOp} (h : Tracked r) (hbounds : r.InBounds op)
    (hstep : timerMachine.step r op r') : Tracked r' := by
  obtain rfl : r' = r.next op := hstep
  cases op with
  | add expires callbackId data flags => exact tracked_add h hbounds.1 hbounds.2
  | modify id newExpires => exact tracked_modify h hbounds.1 hbounds.2
  | remove id => exact tracked_remove h
  | tick => exact tracked_tick h hbounds

/-- **Timers fire on time**: in every run every timer has been returned at exactly the
ticks it was due. -/
theorem timers_of_run {r : TimerRun} (h : timerMachine.Run TimerRun.InBounds r) : Punctual r := by
  have htracked : Tracked r := h.invariant (fun _ => tracked_init) fun _ _ _ => tracked_step
  refine ⟨fun id t ht => (htracked.sound id t ht).onTime, ?_, ?_, ?_, ⟨htracked.nodup, ?_⟩,
    htracked.fresh _ (Nat.le_refl _)⟩
  · rw [TimerWheel.pendingCount, htracked.pending, TimerWheel.card_contents]
  · intro id newExpires
    rw [← takeEntry_isSome_iff htracked, TimerWheel.modifyTimer]
    cases r.wheel.takeEntry id with
    | none => exact Iff.rfl
    | some taken => exact Iff.rfl
  · intro id
    rw [← takeEntry_isSome_iff htracked, TimerWheel.removeTimer]
    cases r.wheel.takeEntry id with
    | none => exact Iff.rfl
    | some taken => exact Iff.rfl
  · intro e he hnone
    obtain ⟨t, ht, -⟩ := htracked.stored e he
    exact nomatch ht.symm.trans hnone

/-- A periodic timer two ticks ahead, through its first firing. -/
theorem timers_of_run_periodic :
    Punctual (((TimerRun.new.next (.add 2 7 0 ⟨true, false, false, false⟩)).next .tick).next .tick) :=
  timers_of_run (.snoc (.snoc (.snoc (.start rfl) (by decide +kernel) rfl) (by decide +kernel) rfl)
    (by decide +kernel) rfl)

end AthenaOS
