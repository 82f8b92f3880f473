import AthenaOS.Timers.Firing

/-!
# Timers set to a time that has come

`add_timer` and `modify_timer` of `kernel/src/timers.rs` with an expiry that is not ahead
of the current tick. The expiry of the current tick goes to the bucket that was emptied
last, and an earlier one wraps to the wheel of the farthest ticks.
-/

namespace AthenaOS

open Lib

namespace TimerWheel

/-- `tick`, unless the counter overflows. -/
def tick? (w : TimerWheel) : Option (List TimerEntry × TimerWheel) :=
  if w.currentTick + 1 < 2 ^ 64 then some w.tick else none

/-- The next tick returns the timer. -/
def ReturnedNext (w : TimerWheel) (id : Nat) : Prop :=
  ∃ expired w', w.tick? = some (expired, w') ∧ ∃ e ∈ expired, e.id = id

variable {w w' : TimerWheel} {e : TimerEntry} {id now level : Nat}

/-! ## Ids -/

/-- Each stored timer has an id of its own, and `next_id` is a new one. -/
structure Distinct (w : TimerWheel) : Prop where
  nodup : (w.contents.map (·.id)).Nodup
  lt : ∀ e ∈ w.contents, e.id < w.nextId

theorem Distinct.of_ids (h : Distinct w) (hle : w'.contents.map (·.id) ≤ w.contents.map (·.id))
    (hnext : w'.nextId = w.nextId) : Distinct w' := by
  refine ⟨Multiset.nodup_of_le hle h.nodup, fun e he => ?_⟩
  obtain ⟨x, hx, hid⟩ := Multiset.mem_map.mp
    (Multiset.mem_of_le hle (Multiset.mem_map_of_mem (fun x => x.id) he))
  rw [hnext, ← hid]
  exact h.lt x hx

theorem contents_addTimer (expires callbackId data : Nat) (flags : TimerFlags) :
    ∃ interval, (w.addTimer expires callbackId data flags).2.contents =
      ⟨w.nextId, expires, callbackId, data, flags, interval⟩ ::ₘ w.contents :=
  ⟨_, contents_insertEntry (w := { w with nextId := w.nextId + 1 })⟩

theorem Distinct.add (h : Distinct w) (expires callbackId data : Nat) (flags : TimerFlags) :
    Distinct (w.addTimer expires callbackId data flags).2 := by
  obtain ⟨interval, hcontents⟩ := contents_addTimer (w := w) expires callbackId data flags
  constructor
  · rw [hcontents, Multiset.map_cons, Multiset.nodup_cons]
    refine ⟨fun hmem => ?_, h.nodup⟩
    obtain ⟨x, hx, hid⟩ := Multiset.mem_map.mp hmem
    exact absurd (h.lt x hx) (by rw [hid]; exact Nat.lt_irrefl _)
  · intro x hx
    rw [hcontents] at hx
    show x.id < w.nextId + 1
    rcases Multiset.mem_cons.mp hx with rfl | hx
    · exact Nat.lt_succ_self _
    · exact Nat.lt_succ_of_lt (h.lt x hx)

/-- A timer taken out is the only one with its id. -/
theorem Distinct.ne_of_took (h : Distinct w) (htook : Took w w' e) : ∀ x ∈ w'.contents, x.id ≠ e.id := by
  intro x hx hid
  have hnodup := h.nodup
  rw [htook.contents, Multiset.map_cons, Multiset.nodup_cons] at hnodup
  exact hnodup.1 (hid ▸ Multiset.mem_map_of_mem _ hx)

theorem Distinct.remove (h : Distinct w) (htook : Took w w' e) : Distinct w' :=
  h.of_ids (by rw [htook.contents, Multiset.map_cons]; exact Multiset.le_cons_self _ _) htook.nextId

theorem Distinct.modify (h : Distinct w) (htook : Took w w' e) (newExpires : Nat) :
    Distinct (w'.insertEntry { e with expires := newExpires }) := by
  refine h.of_ids (le_of_eq ?_) htook.nextId
  rw [contents_insertEntry, htook.contents, Multiset.map_cons, Multiset.map_cons]

/-- An expired timer comes back under its id or not at all. -/
theorem ids_foldl_expire (l : List TimerEntry) :
    (l.foldl expire w).contents.map (·.id) ≤ w.contents.map (·.id) + (l : Multiset TimerEntry).map (·.id) ∧
      (l.foldl expire w).nextId = w.nextId := by
  induction l generalizing w with
  | nil => exact ⟨Multiset.le_add_right _ _, rfl⟩
  | cons e l ih =>
    have hstep : (w.expire e).contents.map (·.id) ≤ e.id ::ₘ w.contents.map (·.id) ∧
        (w.expire e).nextId = w.nextId := by
      unfold expire
      dsimp only
      split
      · split
        · refine ⟨le_of_eq ?_, rfl⟩
          exact (congrArg (Multiset.map (·.id)) contents_insertEntry).trans (Multiset.map_cons _ _ _)
        · exact ⟨Multiset.le_cons_self _ _, rfl⟩
      · exact ⟨Multiset.le_cons_self _ _, rfl⟩
    obtain ⟨hle, hnext⟩ := ih (w := w.expire e)
    refine ⟨hle.trans ?_, hnext.trans hstep.2⟩
    rw [← Multiset.cons_coe, Multiset.map_cons, Multiset.add_cons, ← Multiset.cons_add]
    exact add_le_add hstep.1 le_rfl

theorem Distinct.tick (h : Distinct w) : Distinct w.tick.2 := by
  obtain ⟨hle, hnext⟩ := ids_foldl_expire (w := w.advanced.setBucket (w.advanced.currentSlot 0) [])
    (w.advanced.tv (w.advanced.currentSlot 0))
  rw [tick_eq]
  refine h.of_ids (hle.trans ?_) (hnext.trans advanced_rearranged.nextId)
  rw [← Multiset.map_add, contents_taken]

theorem distinct_of_reachable {r : TimerRun} (h : timerMachine.Reachable r) : Distinct r.wheel := by
  refine h.invariant (I := fun r => Distinct r.wheel) ?_ ?_
  · intro r hr
    have htracked := tracked_init hr
    refine ⟨htracked.nodup, fun e he => ?_⟩
    obtain ⟨t, ht, -⟩ := htracked.stored e he
    rw [hr] at ht
    exact nomatch ht
  · rintro r op r' hdistinct - rfl
    cases op with
    | add expires callbackId data flags => exact hdistinct.add ..
    | modify id newExpires =>
      rw [TimerRun.next, modifyTimer]
      cases htake : r.wheel.takeEntry id with
      | none => exact hdistinct
      | some taken => exact hdistinct.modify (takeEntry_some htake).2 newExpires
    | remove id =>
      rw [TimerRun.next, removeTimer]
      cases htake : r.wheel.takeEntry id with
      | none => exact hdistinct
      | some taken =>
        have hremoved := hdistinct.remove (takeEntry_some htake).2
        exact ⟨hremoved.nodup, hremoved.lt⟩
    | tick => exact hdistinct.tick

/-! ## The bucket of the next tick -/

/-- The timer is not in the bucket of tick `now`. -/
def Away (id now : Nat) (w : TimerWheel) : Prop :=
  ∀ e ∈ w.tv (0, indexForLevel now 0), e.id ≠ id

/-- `insert_entry` at `now` or just before it puts no earlier expiry there. -/
theorem slotFor_ne {expires : Nat} (hnow : now < 2 ^ 64)
    (hcur : w.currentTick = now ∨ w.currentTick + 1 = now) (hlate : expires < now) :
    w.slotFor expires ≠ (0, indexForLevel now 0) := by
  intro h
  obtain ⟨hlevel, hidx⟩ := Prod.mk.inj h
  have hnear := (levelFor_spec (wrappingSub expires w.currentTick)).2.2
  rw [hlevel] at hnear hidx
  rw [indexForLevel_eq, indexForLevel_eq] at hidx
  have hdelta : wrappingSub expires w.currentTick < 2 ^ shift (0 + 1) := hnear (by decide)
  simp only [shift, size, wrappingSub, Nat.pow_zero, Nat.div_one] at hdelta hidx
  omega

theorem Away.insert (h : Away id now w) (hnow : now < 2 ^ 64)
    (hcur : w.currentTick = now ∨ w.currentTick + 1 = now) (hlate : e.id = id → e.expires < now) :
    Away id now (w.insertEntry e) := by
  intro x hx
  rcases mem_setBucket hx with ⟨hslot, hmem⟩ | ⟨-, hmem⟩
  · rcases List.mem_append.mp hmem with hmem | hmem
    · exact h x (by rwa [hslot])
    · rw [List.mem_singleton.mp hmem]
      exact fun hid => slotFor_ne hnow hcur (hlate hid) hslot.symm
  · exact h x hmem

theorem Away.foldl_insert {l : List TimerEntry} (h : Away id now w) (hnow : now < 2 ^ 64)
    (hcur : w.currentTick = now) (hl : ∀ e ∈ l, e.id = id → e.expires < now) :
    Away id now (l.foldl insertEntry w) := by
  induction l generalizing w with
  | nil => exact h
  | cons e l ih =>
    exact ih (h.insert hnow (.inl hcur) (hl e List.mem_cons_self)) hcur
      fun x hx => hl x (List.mem_cons_of_mem _ hx)

theorem Away.drain (h : Away id now w) (hnow : now < 2 ^ 64) (hcur : w.currentTick = now)
    (hlate : ∀ e ∈ w.contents, e.id = id → e.expires < now) (hlevel : level < numWheels) :
    Away id now (w.drain level) := by
  refine Away.foldl_insert (w := w.emptied level) (fun x hx => ?_) hnow hcur fun e he =>
    hlate e (mem_contents.mpr ⟨_, slot_mem hlevel _, he⟩)
  rcases mem_setBucket hx with ⟨-, hmem⟩ | ⟨-, hmem⟩
  · exact nomatch hmem
  · exact h x hmem

theorem Away.cascadeFrom {n : Nat} (h : Away id now w) (hnow : now < 2 ^ 64) (hcur : w.currentTick = now)
    (hlate : ∀ e ∈ w.contents, e.id = id → e.expires < now) (hn : level + n ≤ numWheels) :
    Away id now (cascadeFrom n level w) := by
  induction n generalizing level w with
  | zero => exact h
  | succ n ih =>
    have hsame : Rearranged w (w.drain level) := drain_rearranged (by omega)
    have hdrain : Away id now (w.drain level) := h.drain hnow hcur hlate (by omega)
    rw [TimerWheel.cascadeFrom]
    split
    · exact ih hdrain (hsame.currentTick.trans hcur) (by rwa [hsame.contents]) (by omega)
    · exact hdrain

/-- What is late and away from the bucket of the next tick is not returned by it. -/
theorem Away.not_returned (h : w.currentTick + 1 < 2 ^ 64 → Away id (w.currentTick + 1) w)
    (hlate : ∀ e ∈ w.contents, e.id = id → e.expires < w.currentTick + 1) : ¬ w.ReturnedNext id := by
  rintro ⟨expired, w', htick, e, he, hid⟩
  rw [tick?, Option.ite_none_right_eq_some] at htick
  obtain ⟨hnow, htick⟩ := htick
  rw [Option.some.injEq, tick_eq, currentSlot, advanced_rearranged.currentTick] at htick
  have hadvanced : Away id (w.currentTick + 1) w.advanced := by
    rw [advanced]
    dsimp only
    split
    · exact Away.cascadeFrom (w := { w with currentTick := w.currentTick + 1 }) (h hnow) hnow rfl hlate
        (by decide)
    · exact h hnow
  rw [← (Prod.mk.inj htick).1] at he
  exact hadvanced e he hid

/-! ## The next tick -/

/-- **A timer set to a time that has come is never returned by the next tick**, in any
state of any run, whether it was added or modified. -/
theorem late_not_returned {r : TimerRun} (h : timerMachine.Reachable r) {expires : Nat}
    (hlate : expires ≤ r.wheel.currentTick) :
    (∀ callbackId data flags, ¬ (r.wheel.addTimer expires callbackId data flags).2.ReturnedNext
      (r.wheel.addTimer expires callbackId data flags).1) ∧
    (∀ id w, r.wheel.modifyTimer id expires = (true, w) → ¬ w.ReturnedNext id) := by
  have hdistinct := distinct_of_reachable h
  constructor
  · intro callbackId data flags
    obtain ⟨interval, hcontents⟩ := contents_addTimer (w := r.wheel) expires callbackId data flags
    refine Away.not_returned (w := (r.wheel.addTimer expires callbackId data flags).2) (fun hnow => ?_)
      fun e he hid => ?_
    · refine Away.insert (w := { r.wheel with nextId := r.wheel.nextId + 1 }) (fun e he hid => ?_) hnow
        (.inr rfl) fun _ => Nat.lt_succ_of_le hlate
      exact Nat.ne_of_lt (hdistinct.lt e (mem_contents.mpr ⟨_, slot_mem (by decide) _, he⟩)) hid
    · rw [hcontents] at he
      rcases Multiset.mem_cons.mp he with rfl | he
      · exact Nat.lt_succ_of_le hlate
      · exact absurd hid (Nat.ne_of_lt (hdistinct.lt e he))
  · intro id w hmodify
    rw [modifyTimer] at hmodify
    cases htake : r.wheel.takeEntry id with
    | none =>
      rw [htake] at hmodify
      cases hmodify
    | some taken =>
      obtain ⟨e, w₁⟩ := taken
      obtain ⟨rfl, htook⟩ := takeEntry_some htake
      have hother := hdistinct.ne_of_took htook
      rw [htake] at hmodify
      obtain rfl := (Prod.mk.inj hmodify).2
      have hcur : w₁.currentTick = r.wheel.currentTick := htook.currentTick
      refine Away.not_returned (fun hnow => ?_) fun x hx hid => ?_
      · refine Away.insert (fun x hx => ?_) hnow (.inr rfl) fun _ => ?_
        · exact hother x (mem_contents.mpr ⟨_, slot_mem (by decide) _, hx⟩)
        · exact Nat.lt_succ_of_le (hcur ▸ hlate)
      · rw [contents_insertEntry] at hx
        rcases Multiset.mem_cons.mp hx with rfl | hx
        · exact Nat.lt_succ_of_le (hcur ▸ hlate)
        · exact absurd hid (hother x hx)

/-- Two ticks, with a timer pending. -/
def ticked : TimerRun :=
  ((TimerRun.new.next (.add 9 7 0 ⟨false, false, false, false⟩)).next .tick).next .tick

/-- A timer added for the tick that is over, and the pending one modified to it. -/
theorem late_not_returned_ticked :
    ¬ (ticked.wheel.addTimer 2 7 1 ⟨false, false, false, false⟩).2.ReturnedNext 2 ∧
      ¬ (ticked.wheel.modifyTimer 1 2).2.ReturnedNext 1 := by
  have hreach : timerMachine.Reachable ticked :=
    .snoc (.snoc (.snoc (.start rfl) trivial rfl) trivial rfl) trivial rfl
  have hlate : 2 ≤ ticked.wheel.currentTick := by decide +kernel
  have hid : (ticked.wheel.addTimer 2 7 1 ⟨false, false, false, false⟩).1 = 2 := by decide +kernel
  have hfound : (ticked.wheel.modifyTimer 1 2).1 = true := by decide +kernel
  obtain ⟨hadd, hmodify⟩ := late_not_returned hreach hlate
  exact ⟨hid ▸ hadd 7 1 ⟨false, false, false, false⟩, hmodify 1 _ (Prod.ext hfound rfl)⟩

/-- **A timer due at once is missed**: the bucket of tick 0 is not the one tick 1 looks at. -/
theorem due_at_once_missed :
    timerMachine.Reachable .new ∧ TimerRun.new.wheel.currentTick = 0 ∧
      ¬ (TimerRun.new.wheel.addTimer 0 7 0 ⟨false, false, false, false⟩).2.ReturnedNext
        (TimerRun.new.wheel.addTimer 0 7 0 ⟨false, false, false, false⟩).1 := by
  refine ⟨.start rfl, rfl, ?_⟩
  rintro ⟨expired, w', htick, e, he, -⟩
  have hnone : ((TimerRun.new.wheel.addTimer 0 7 0 ⟨false, false, false, false⟩).2.tick?).map Prod.fst =
      some [] := by decide
  rw [htick] at hnone
  obtain rfl : expired = [] := Option.some.inj hnone
  exact nomatch he

end TimerWheel

end AthenaOS
