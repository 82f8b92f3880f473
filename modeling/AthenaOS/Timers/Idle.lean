import AthenaOS.Timers.Turns

/-!
# Tickless idle

`next_expiry` of the timer wheel and `enter_idle` of `TicklessManager` in
`kernel/src/timers.rs`. The first wheel is searched from the next tick on, the others bucket
by bucket in the order of their indices, and only the front of a bucket is looked at.
-/

namespace AthenaOS

open Lib

namespace TimerWheel

/-- The buckets of `tv2` to `tv5` in the order they are searched. -/
def higherSlots : List (Nat × Nat) := (List.range' 1 4).flatMap fun level => (List.range 64).map (level, ·)

/-- `next_expiry`. -/
def nextExpiry? (w : TimerWheel) : Option (Option Nat) :=
  if w.currentTick + 1 < 2 ^ 64 then
    let start := indexForLevel (w.currentTick + 1) 0
    match (List.range 256).find? fun i => !(w.tv (0, (start + i) % 256)).isEmpty with
    | some i => if w.currentTick + 1 + i < 2 ^ 64 then some (some (w.currentTick + 1 + i)) else none
    | none => some ((higherSlots.findSome? fun slot => (w.tv slot).head?).map (·.expires))
  else none

end TimerWheel

/-- `TickMode`. -/
inductive TickMode where
  | periodic
  | noHzIdle
  | noHzFull
  deriving DecidableEq, Repr

/-- `TicklessManager`; the counts are natural numbers. -/
structure TicklessManager where
  mode : TickMode
  idle : Bool
  lastTick : Nat
  nextEvent : Nat
  skippedTicks : Nat
  tickStopped : Bool
  idleCalls : Nat
  idleSleeps : Nat
  maxSkip : Nat

/-- `enter_idle`. -/
def TicklessManager.enterIdle? (m : TicklessManager) (now : Nat) (nextTimer : Option Nat) :
    Option TicklessManager :=
  let m := { m with idle := true, idleCalls := m.idleCalls + 1, lastTick := now }
  match m.mode with
  | .periodic => if now + 1 < 2 ^ 64 then some { m with nextEvent := now + 1 } else none
  | .noHzIdle | .noHzFull =>
    match nextTimer with
    | some next =>
      let skip := min (next - now) m.maxSkip
      if now + skip < 2 ^ 64 then some { m with nextEvent := now + skip, tickStopped := decide (1 < skip) }
      else none
    | none =>
      if now + m.maxSkip < 2 ^ 64 then some { m with nextEvent := now + m.maxSkip, tickStopped := true }
      else none

/-! ## Sleeping until the next timer -/

namespace TimerWheel

/-- A timer is found exactly when one is pending, none expires before it, and no tickless
manager sleeps past one. -/
def NeverOversleeps (w : TimerWheel) : Prop :=
  ∃ next, w.nextExpiry? = some next ∧ (next.isSome ↔ w.contents ≠ 0) ∧
    (∀ n, next = some n → ∀ e ∈ w.contents, n ≤ e.expires) ∧
    ∀ m : TicklessManager, m.mode ≠ .periodic → ∀ e ∈ w.contents,
      ∃ m', m.enterIdle? w.currentTick next = some m' ∧ m'.nextEvent ≤ e.expires

/-- Nothing expires before the first wheel's earliest timer; where that wheel is empty,
nothing expires before the front of the first bucket in use. -/
structure InOrder (w : TimerWheel) : Prop where
  near : ∀ idx, ∀ y ∈ w.tv (0, idx), ∀ e ∈ w.contents, ∃ idx', ∃ x ∈ w.tv (0, idx'), x.expires ≤ e.expires
  far : (∀ idx, w.tv (0, idx) = []) → ∀ before slot after, higherSlots = before ++ slot :: after →
    (∀ s ∈ before, w.tv s = []) → ∀ front, (w.tv slot).head? = some front →
      ∀ e ∈ w.contents, front.expires ≤ e.expires

variable {w : TimerWheel} {e : TimerEntry}

/-- The first wheel holds the next 256 ticks, each in its own bucket. -/
theorem near_iff (h : Settled w) {i : Nat} (hi : i < 256)
    (he : ∃ idx, e ∈ w.tv (0, idx)) :
    e ∈ w.tv (0, (indexForLevel (w.currentTick + 1) 0 + i) % 256) ↔ e.expires = w.currentTick + 1 + i := by
  obtain ⟨idx, he⟩ := he
  have hfits := h 0 idx e he
  have hbucket := hfits.bucket
  have hahead := hfits.ahead not_false
  have hturn := hfits.turn (by decide)
  rw [indexForLevel_eq] at hbucket ⊢
  simp only [shift, size, Nat.pow_zero, Nat.div_one] at hbucket hahead hturn ⊢
  constructor
  · intro hmem
    have hbucket' := (h 0 _ e hmem).bucket
    rw [indexForLevel_eq] at hbucket'
    simp only [shift, size, Nat.pow_zero, Nat.div_one] at hbucket'
    omega
  · intro hexp
    have hidx : idx = ((w.currentTick + 1) % 256 + i) % 256 := by omega
    rwa [← hidx]

/-- An entry of the first wheel is met within its turn. -/
theorem near_within (h : Settled w) {idx : Nat} (he : e ∈ w.tv (0, idx)) :
    ∃ i < 256, e.expires = w.currentTick + 1 + i := by
  have hahead := (h 0 idx e he).ahead not_false
  have hturn := (h 0 idx e he).turn (by decide)
  simp only [shift, size, Nat.pow_zero, Nat.div_one] at hahead hturn
  exact ⟨e.expires - (w.currentTick + 1), by omega, by omega⟩

/-- Where the search of the first wheel stops is the earliest of its timers. -/
theorem nextExpiry?_near (h : Settled w) (hnow : w.currentTick + 1 < 2 ^ 64) {i : Nat}
    (hfind : ((List.range 256).find? fun i =>
      !(w.tv (0, (indexForLevel (w.currentTick + 1) 0 + i) % 256)).isEmpty) = some i) :
    w.nextExpiry? = some (some (w.currentTick + 1 + i)) ∧
      (∃ idx, ∃ x ∈ w.tv (0, idx), x.expires = w.currentTick + 1 + i) ∧
      ∀ idx, ∀ x ∈ w.tv (0, idx), w.currentTick + 1 + i ≤ x.expires := by
  obtain ⟨hne, hi, hbefore⟩ := List.find?_range_eq_some.mp hfind
  obtain ⟨x, hx⟩ := List.exists_mem_of_ne_nil _ (by simpa using hne)
  have hexp := (near_iff h (List.mem_range.mp hi) ⟨_, hx⟩).mp hx
  refine ⟨?_, ⟨_, x, hx, hexp⟩, fun idx y hy => ?_⟩
  · rw [nextExpiry?, if_pos hnow]
    dsimp only
    rw [hfind]
    exact if_pos (hexp ▸ (h 0 _ x hx).expires)
  · obtain ⟨j, hj, hyj⟩ := near_within h hy
    have hmem := (near_iff h hj ⟨_, hy⟩).mpr hyj
    have hle : i ≤ j := by
      by_contra hlt
      have hempty := hbefore j (Nat.lt_of_not_le hlt)
      exact List.ne_nil_of_mem hmem (by simpa using hempty)
    omega

/-- Where it does not stop, the wheel is empty and the higher ones are searched. -/
theorem nextExpiry?_far (h : Settled w) (hnow : w.currentTick + 1 < 2 ^ 64)
    (hfind : ((List.range 256).find? fun i =>
      !(w.tv (0, (indexForLevel (w.currentTick + 1) 0 + i) % 256)).isEmpty) = none) :
    w.nextExpiry? = some ((higherSlots.findSome? fun slot => (w.tv slot).head?).map (·.expires)) ∧
      ∀ idx, w.tv (0, idx) = [] := by
  constructor
  · rw [nextExpiry?, if_pos hnow]
    dsimp only
    rw [hfind]
  · intro idx
    by_contra hne
    obtain ⟨y, hy⟩ := List.exists_mem_of_ne_nil _ hne
    obtain ⟨j, hj, hyj⟩ := near_within h hy
    have hmem := (near_iff h hj ⟨_, hy⟩).mpr hyj
    have hempty := List.find?_range_eq_none.mp hfind j hj
    exact List.ne_nil_of_mem hmem (by simpa using hempty)

theorem mem_higherSlots {level idx : Nat} : (level, idx) ∈ higherSlots ↔ 1 ≤ level ∧ level < 5 ∧ idx < 64 := by
  simp only [higherSlots, List.mem_flatMap, List.mem_range'_1, List.mem_map, List.mem_range, Prod.mk.injEq]
  constructor
  · rintro ⟨l, hl, i, hi, rfl, rfl⟩
    exact ⟨hl.1, by omega, hi⟩
  · rintro ⟨hl, hl', hi⟩
    exact ⟨level, ⟨hl, by omega⟩, idx, hi, rfl, rfl⟩

/-- A bucket in use is one of the wheel's. -/
theorem mem_contents_of_mem (h : Settled w) {slot : Nat × Nat} (he : e ∈ w.tv slot) : e ∈ w.contents := by
  obtain ⟨level, idx⟩ := slot
  have hfits := h level idx e he
  exact mem_contents.mpr ⟨_, hfits.bucket ▸ slot_mem hfits.wheel _, he⟩

/-- What a search of the higher wheels without a result says. -/
theorem contents_eq_zero (hnear : ∀ idx, w.tv (0, idx) = [])
    (hfar : (higherSlots.findSome? fun slot => (w.tv slot).head?) = none) : w.contents = 0 := by
  refine Multiset.eq_zero_of_forall_notMem fun e he => ?_
  obtain ⟨⟨level, idx⟩, hslot, hmem⟩ := mem_contents.mp he
  obtain ⟨hlevel, hidx⟩ := mem_slots.mp hslot
  cases level with
  | zero => exact List.ne_nil_of_mem hmem (hnear idx)
  | succ level =>
    have hslot : (level + 1, idx) ∈ higherSlots := mem_higherSlots.mpr ⟨by omega, hlevel, hidx⟩
    exact List.ne_nil_of_mem hmem (List.head?_eq_none_iff.mp (List.findSome?_eq_none_iff.mp hfar _ hslot))

/-- A tickless manager sleeps no longer than it is told. -/
theorem enterIdle?_some {m : TicklessManager} {now n : Nat} (hmode : m.mode ≠ .periodic) (hn : max now n < 2 ^ 64) :
    ∃ m', m.enterIdle? now (some n) = some m' ∧ m'.nextEvent ≤ max now n := by
  obtain ⟨mode, idle, lastTick, nextEvent, skippedTicks, tickStopped, idleCalls, idleSleeps, maxSkip⟩ := m
  have hskip : now + min (n - now) maxSkip ≤ max now n := by omega
  have hlt := Nat.lt_of_le_of_lt hskip hn
  cases mode with
  | periodic => exact absurd rfl hmode
  | noHzIdle => exact ⟨_, if_pos hlt, hskip⟩
  | noHzFull => exact ⟨_, if_pos hlt, hskip⟩

/-- An expiry that is found and comes first is slept for. -/
theorem NeverOversleeps.of_min (h : Settled w) {next : Option Nat} (hnext : w.nextExpiry? = some next)
    (hsome : next.isSome ↔ w.contents ≠ 0) (hmin : ∀ n, next = some n → ∀ e ∈ w.contents, n ≤ e.expires) :
    NeverOversleeps w := by
  refine ⟨next, hnext, hsome, hmin, fun m hmode e he => ?_⟩
  obtain ⟨n, rfl⟩ := Option.isSome_iff_exists.mp (hsome.mpr fun hzero => Multiset.notMem_zero e (hzero ▸ he))
  have hle := hmin n rfl e he
  have hlt := lt_expires h he
  have hbound := expires_lt h he
  have hmax : max w.currentTick n < 2 ^ 64 := by omega
  obtain ⟨m', hm', hevent⟩ := enterIdle?_some hmode hmax
  exact ⟨m', hm', by omega⟩

/-- **One wheel**. -/
theorem neverOversleeps_iff (h : Settled w) :
    NeverOversleeps w ↔ w.currentTick + 1 < 2 ^ 64 ∧ InOrder w := by
  constructor
  · rintro ⟨next, hnext, -, hmin, -⟩
    have hnow : w.currentTick + 1 < 2 ^ 64 := by
      by_contra hnot
      rw [nextExpiry?, if_neg hnot] at hnext
      exact nomatch hnext
    refine ⟨hnow, ?_, ?_⟩
    · intro idx y hy e he
      cases hfind : (List.range 256).find? fun i =>
          !(w.tv (0, (indexForLevel (w.currentTick + 1) 0 + i) % 256)).isEmpty with
      | none => exact absurd ((nextExpiry?_far h hnow hfind).2 idx) (List.ne_nil_of_mem hy)
      | some i =>
        obtain ⟨hval, ⟨idx', x, hx, hexp⟩, -⟩ := nextExpiry?_near h hnow hfind
        obtain rfl := Option.some.inj (hval.symm.trans hnext)
        exact ⟨idx', x, hx, hexp ▸ hmin _ rfl e he⟩
    · intro hempty before slot after hsplit hbefore front hfront e he
      have hfind : ((List.range 256).find? fun i =>
          !(w.tv (0, (indexForLevel (w.currentTick + 1) 0 + i) % 256)).isEmpty) = none :=
        List.find?_range_eq_none.mpr fun i _ => by rw [hempty]; rfl
      have hfar : (higherSlots.findSome? fun slot => (w.tv slot).head?) = some front :=
        List.findSome?_eq_some_iff.mpr ⟨before, slot, after, hsplit, hfront,
          fun s hs => by rw [hbefore s hs]; rfl⟩
      have hval := (nextExpiry?_far h hnow hfind).1
      rw [hfar] at hval
      exact hmin _ (Option.some.inj (hnext.symm.trans hval)) e he
  · rintro ⟨hnow, horder⟩
    cases hfind : (List.range 256).find? fun i =>
        !(w.tv (0, (indexForLevel (w.currentTick + 1) 0 + i) % 256)).isEmpty with
    | some i =>
      obtain ⟨hval, ⟨idx, x, hx, hexp⟩, hfirst⟩ := nextExpiry?_near h hnow hfind
      refine .of_min h hval ⟨fun _ hzero => ?_, fun _ => rfl⟩ ?_
      · exact Multiset.notMem_zero x (hzero ▸ mem_contents_of_mem h hx)
      · rintro n ⟨⟩ e he
        obtain ⟨idx', x', hx', hle⟩ := horder.near idx x hx e he
        exact (hfirst idx' x' hx').trans hle
    | none =>
      obtain ⟨hval, hempty⟩ := nextExpiry?_far h hnow hfind
      cases hfar : higherSlots.findSome? fun slot => (w.tv slot).head? with
      | none =>
        rw [hfar] at hval
        have hzero := contents_eq_zero hempty hfar
        exact .of_min h hval ⟨fun hs => (nomatch hs), fun hne => absurd hzero hne⟩ fun n hn => nomatch hn
      | some front =>
        rw [hfar] at hval
        obtain ⟨before, slot, after, hsplit, hfront, hbefore⟩ := List.findSome?_eq_some_iff.mp hfar
        have hmem := mem_contents_of_mem h (List.mem_of_mem_head? hfront)
        refine .of_min h hval ⟨fun _ hzero => Multiset.notMem_zero front (hzero ▸ hmem), fun _ => rfl⟩ ?_
        rintro n ⟨⟩ e he
        exact horder.far hempty before slot after hsplit
          (fun s hs => List.head?_eq_none_iff.mp (hbefore s hs)) front hfront e he

end TimerWheel

/-! ## Runs -/

namespace TimerWheel

variable {w : TimerWheel}

theorem higherSlots_pairwise :
    higherSlots.Pairwise fun s t => s.1 < t.1 ∨ s.1 = t.1 ∧ s.2 < t.2 := by
  refine List.pairwise_flatMap.mpr ⟨fun level _ => ?_, ?_⟩
  · exact List.pairwise_map.mpr (List.pairwise_lt_range.imp fun h => .inr ⟨rfl, h⟩)
  · refine (List.pairwise_lt_range' (s := 1) (n := 4)).imp fun hlt s hs t ht => .inl ?_
    obtain ⟨_, _, rfl⟩ := List.mem_map.mp hs
    obtain ⟨_, _, rfl⟩ := List.mem_map.mp ht
    exact hlt

/-- In one turn the earlier bucket is due earlier. -/
theorem InTurn.lt_of_bucket (hw : Settled w) (h : InTurn w) {level i i' : Nat} (hne : level ≠ 0)
    (hlt : i < i') {x y : TimerEntry} (hx : x ∈ w.tv (level, i)) (hy : y ∈ w.tv (level, i')) :
    x.expires < y.expires := by
  refine Nat.lt_of_div_lt_div (c := 2 ^ shift level) ?_
  rw [div_shift, div_shift y.expires, h.turn hne x hx y hy, ← (hw level i x hx).bucket,
    ← (hw level i' y hy).bucket]
  omega

/-- **In turn, the search meets the earliest timer first.** -/
theorem inOrder_of_inTurn (hw : Settled w) (h : InTurn w) : InOrder w := by
  constructor
  · intro idx y hy e he
    obtain ⟨⟨level, idx'⟩, -, hmem⟩ := mem_contents.mp he
    rcases Nat.eq_zero_or_pos level with rfl | hpos
    · exact ⟨idx', e, hmem, Nat.le_refl _⟩
    · exact ⟨idx, y, hy, h.finer hpos y hy e hmem⟩
  · rintro hempty before ⟨level, idx⟩ after hsplit hbefore front hfront e he
    obtain ⟨⟨level', idx'⟩, hslot, hmem⟩ := mem_contents.mp he
    have hin : front ∈ w.tv (level, idx) := List.mem_of_mem_head? hfront
    have hlevel' : level' ≠ 0 := by
      rintro rfl
      exact List.ne_nil_of_mem hmem (hempty idx')
    obtain ⟨hwheel, hsize⟩ := mem_slots.mp hslot
    have hsearched : (level', idx') ∈ before ++ (level, idx) :: after := by
      rw [← hsplit]
      obtain ⟨k, rfl⟩ := Nat.exists_eq_succ_of_ne_zero hlevel'
      exact mem_higherSlots.mpr ⟨by omega, hwheel, hsize⟩
    have hsorted := hsplit ▸ higherSlots_pairwise
    rcases List.mem_append.mp hsearched with hin' | hin'
    · exact absurd (hbefore _ hin') (List.ne_nil_of_mem hmem)
    rcases List.mem_cons.mp hin' with heq | hin'
    · -- in the bucket the front comes first
      obtain ⟨rfl, rfl⟩ := Prod.mk.inj heq
      obtain ⟨rest, hcons⟩ := List.head?_eq_some_iff.mp hfront
      have hpair := h.bucket (i := idx') hlevel'
      rw [hcons] at hpair hmem
      rcases List.mem_cons.mp hmem with rfl | hmem
      · exact Nat.le_refl _
      · exact (List.pairwise_cons.mp hpair).1 e hmem
    · have hlater := (List.pairwise_cons.mp (List.pairwise_append.mp hsorted).2.1).1 _ hin'
      dsimp only at hlater
      rcases hlater with hlt | ⟨rfl, hlt⟩
      · exact h.finer hlt front hin e hmem
      · exact Nat.le_of_lt (h.lt_of_bucket hw hlevel' hlt hin hmem)

end TimerWheel

/-- **Tickless idle never oversleeps** where every timer is set in turn, in every state of
every run. -/
theorem idle_of_run {r : TimerRun}
    (h : timerMachine.Run (fun r op => r.InBounds op ∧ r.KeepsTurn op) r)
    (hnow : r.wheel.currentTick + 1 < 2 ^ 64) : r.wheel.NeverOversleeps := by
  obtain ⟨htracked, hturn⟩ := TimerRun.inTurn_of_run h
  exact (TimerWheel.neverOversleeps_iff htracked.settled).mpr
    ⟨hnow, TimerWheel.inOrder_of_inTurn htracked.settled hturn⟩

/-- Two timers of one bucket of the second wheel, and a periodic one. -/
def inTurnTimers : TimerRun :=
  ((TimerRun.new.next (.add 300 7 0 ⟨false, false, false, false⟩)).next
    (.add 310 7 1 ⟨false, false, false, false⟩)).next (.add 2 8 2 ⟨true, false, false, false⟩)

/-- Later a near one is set, the periodic one fires, and the first of the two is removed. -/
theorem idle_of_run_inTurnTimers :
    (((((inTurnTimers.next .tick).next (.add 9 7 3 ⟨false, false, false, false⟩)).next .tick).next
      .tick).next (.remove 1)).wheel.NeverOversleeps := by
  refine idle_of_run (.snoc (.snoc (.snoc (.snoc (.snoc (.snoc (.snoc (.snoc (.start rfl) ?_ rfl)
    ?_ rfl) ?_ rfl) ?_ rfl) ?_ rfl) ?_ rfl) ?_ rfl) ?_ rfl) ?_
  all_goals decide +kernel

/-- A timer for tick 256, set at tick 0. -/
def farTimer : TimerRun := TimerRun.new.next (.add 256 7 0 ⟨false, false, false, false⟩)

/-- Two ticks later, a second one for tick 257. -/
def nearTimer : TimerRun :=
  ((farTimer.next .tick).next .tick).next (.add 257 7 0 ⟨false, false, false, false⟩)

open TimerWheel in
/-- **The timer of the second wheel is slept over**: the search stops at the later one. -/
theorem oversleeps :
    timerMachine.Run TimerRun.InBounds nearTimer ∧ ¬ nearTimer.wheel.NeverOversleeps := by
  constructor
  · exact .snoc (.snoc (.snoc (.snoc (.start rfl) (by decide +kernel) rfl) (by decide +kernel) rfl)
      (by decide +kernel) rfl) (by decide +kernel) rfl
  · rintro ⟨next, hnext, -, hmin, -⟩
    have hvalue : nearTimer.wheel.nextExpiry? = some (some 257) := by decide
    have hmem : (⟨1, 256, 7, 0, ⟨false, false, false, false⟩, none⟩ : TimerEntry) ∈ nearTimer.wheel.contents :=
      mem_contents.mpr ⟨(1, 1), mem_slots.mpr (by decide), by decide⟩
    exact absurd (hmin 257 (Option.some.inj (hnext.symm.trans hvalue)) _ hmem) (by decide)

end AthenaOS
