import AthenaOS.Timers.Wheel

/-!
# Where a timer waits

A timer is in the bucket its expiry selects, at most one turn of that wheel ahead. On
the last wheel it may be any number of turns ahead: its bucket is emptied once a turn,
and a timer that is not due yet goes back.
-/

namespace AthenaOS

open Lib

namespace TimerWheel

/-! ## Spans -/

/-- A bucket of a wheel stands for as many ticks as all of the wheel below. -/
theorem pow_shift_succ (level : Nat) : 2 ^ shift (level + 1) = 2 ^ shift level * size level := by
  cases level with
  | zero => decide
  | succ k =>
    show 2 ^ (8 + (k + 1) * 6) = 2 ^ (8 + k * 6) * 2 ^ 6
    rw [← Nat.pow_add]
    congr 1
    omega

theorem shift_le {i j : Nat} (h : i ≤ j) : shift i ≤ shift j := by
  cases i with
  | zero => exact Nat.zero_le _
  | succ i =>
    cases j with
    | zero => omega
    | succ j =>
      show 8 + i * 6 ≤ 8 + j * 6
      omega

theorem pow_pos (level : Nat) : 0 < 2 ^ shift level := Nat.two_pow_pos _

/-- The distance decides the wheel. -/
theorem levelFor_spec (delta : Nat) :
    levelFor delta < numWheels ∧ (levelFor delta ≠ 0 → 2 ^ shift (levelFor delta) ≤ delta) ∧
      (levelFor delta < 4 → delta < 2 ^ shift (levelFor delta + 1)) := by
  unfold levelFor numWheels
  split
  · exact ⟨by decide, by simp, fun _ => by assumption⟩
  split
  · exact ⟨by decide, fun _ => Nat.not_lt.mp (by assumption), fun _ => by assumption⟩
  split
  · exact ⟨by decide, fun _ => Nat.not_lt.mp (by assumption), fun _ => by assumption⟩
  split
  · exact ⟨by decide, fun _ => Nat.not_lt.mp (by assumption), fun _ => by assumption⟩
  · exact ⟨by decide, fun _ => Nat.not_lt.mp (by assumption), fun h => absurd h (by decide)⟩

/-! ## Entries in their buckets -/

/-- Entry `e` may wait in bucket `idx` of wheel `level` at tick `now`. -/
structure Fits (weak : Nat → Prop) (now level idx : Nat) (e : TimerEntry) : Prop where
  wheel : level < numWheels
  bucket : idx = indexForLevel e.expires level
  expires : e.expires < 2 ^ 64
  begun : now / 2 ^ shift level ≤ e.expires / 2 ^ shift level
  ahead : ¬ weak level → now / 2 ^ shift level < e.expires / 2 ^ shift level
  turn : level < 4 → e.expires / 2 ^ shift level ≤ now / 2 ^ shift level + size level
  weakTurn : weak level → level < 4 →
    e.expires / 2 ^ shift level < now / 2 ^ shift level + size level

/-- Every stored entry fits. -/
def Placed (weak : Nat → Prop) (w : TimerWheel) : Prop :=
  ∀ level idx, ∀ e ∈ w.tv (level, idx), Fits weak w.currentTick level idx e

section Placement

variable {weak : Nat → Prop} {w : TimerWheel} {e : TimerEntry} {now level idx : Nat}

theorem Placed.of_iff {weak' : Nat → Prop} (h : Placed weak w)
    (hiff : ∀ l < numWheels, weak l ↔ weak' l) : Placed weak' w := by
  intro level idx e he
  have hfits := h level idx e he
  have hl := hiff level hfits.wheel
  exact ⟨hfits.wheel, hfits.bucket, hfits.expires, hfits.begun,
    fun hnot => hfits.ahead (hl.not.mpr hnot), hfits.turn, fun hw => hfits.weakTurn (hl.mpr hw)⟩

theorem wrappingSub_eq {a b : Nat} (hle : b ≤ a) (hlt : a < 2 ^ 64) : wrappingSub a b = a - b := by
  unfold wrappingSub
  omega

/-- **An entry that is not overdue fits where `insert_entry` puts it**: on the first
wheel it may be due at once, which only a weak wheel allows. -/
theorem fits_insert (hweak : ∀ l, weak l → now % 2 ^ shift l = 0) (hnow : now ≤ e.expires)
    (hdue : weak 0 ∨ now < e.expires) (hlt : e.expires < 2 ^ 64) :
    Fits weak now (levelFor (wrappingSub e.expires now))
      (indexForLevel e.expires (levelFor (wrappingSub e.expires now))) e := by
  rw [wrappingSub_eq hnow hlt]
  obtain ⟨hwheel, hfar, hnear⟩ := levelFor_spec (e.expires - now)
  generalize levelFor (e.expires - now) = level at hwheel hfar hnear
  have hpos := pow_pos level
  rw [pow_shift_succ] at hnear
  -- on a higher wheel the distance is at least one span
  have hahead : ¬ weak level → now / 2 ^ shift level < e.expires / 2 ^ shift level := by
    intro hnot
    rcases Nat.eq_zero_or_pos level with rfl | hlevel
    · rw [show shift 0 = 0 from rfl, Nat.pow_zero, Nat.div_one, Nat.div_one]
      exact hdue.resolve_left hnot
    · have hdist := hfar (by omega)
      calc now / 2 ^ shift level < now / 2 ^ shift level + 1 := Nat.lt_succ_self _
        _ = (now + 2 ^ shift level) / 2 ^ shift level := (Nat.add_div_right _ hpos).symm
        _ ≤ e.expires / 2 ^ shift level := Nat.div_le_div_right (by omega)
  refine ⟨hwheel, rfl, hlt, Nat.div_le_div_right hnow, hahead, fun h4 => ?_, fun hw h4 => ?_⟩
  · calc e.expires / 2 ^ shift level
        ≤ (now + 2 ^ shift level * size level) / 2 ^ shift level :=
          Nat.div_le_div_right (by have := hnear h4; omega)
      _ = now / 2 ^ shift level + size level := Nat.add_mul_div_left _ _ hpos
  · -- the tick is at the start of a span
    rw [Nat.div_lt_iff_lt_mul hpos, Nat.add_mul]
    have hstart : now / 2 ^ shift level * 2 ^ shift level = now :=
      Nat.div_mul_cancel (Nat.dvd_of_mod_eq_zero (hweak level hw))
    have hdist := hnear h4
    rw [hstart, Nat.mul_comm (size level)]
    omega

theorem setBucket_tv (slot : Nat × Nat) (bucket : List TimerEntry) :
    (w.setBucket slot bucket).tv = Function.update w.tv slot bucket := rfl

theorem mem_setBucket {slot : Nat × Nat} {bucket : List TimerEntry} {x : TimerEntry}
    {s : Nat × Nat} (h : x ∈ (w.setBucket slot bucket).tv s) :
    (s = slot ∧ x ∈ bucket) ∨ (s ≠ slot ∧ x ∈ w.tv s) := by
  by_cases hs : s = slot
  · subst hs
    rw [setBucket_tv, Function.update_self] at h
    exact .inl ⟨rfl, h⟩
  · rw [setBucket_tv, Function.update_of_ne hs] at h
    exact .inr ⟨hs, h⟩

/-- **`insert_entry` keeps the placement**. -/
theorem placed_insert (hweak : ∀ l, weak l → w.currentTick % 2 ^ shift l = 0)
    (h : Placed weak w) (hnow : w.currentTick ≤ e.expires)
    (hdue : weak 0 ∨ w.currentTick < e.expires) (hlt : e.expires < 2 ^ 64) :
    Placed weak (w.insertEntry e) := by
  intro level idx x hx
  rcases mem_setBucket hx with ⟨hslot, hmem⟩ | ⟨-, hmem⟩
  · rcases List.mem_append.mp hmem with hmem | hmem
    · rw [← hslot] at hmem
      exact h level idx x hmem
    · obtain ⟨rfl, rfl⟩ := Prod.mk.inj hslot
      rw [List.mem_singleton.mp hmem]
      exact fits_insert hweak hnow hdue hlt
  · exact h level idx x hmem

theorem slot_mem (hlevel : level < numWheels) (tick : Nat) :
    (level, indexForLevel tick level) ∈ slots :=
  mem_slots.mpr ⟨hlevel, indexForLevel_lt tick level⟩

theorem insertEntry_tv : (w.insertEntry e).tv =
    Function.update w.tv (w.slotFor e.expires) (w.tv (w.slotFor e.expires) ++ [e]) := rfl

/-- `insert_entry` adds the entry. -/
theorem contents_insertEntry : (w.insertEntry e).contents = e ::ₘ w.contents := by
  have hslot : w.slotFor e.expires ∈ slots := slot_mem (levelFor_spec _).1 e.expires
  have hsum := Buckets.contents_update w.tv nodup_slots hslot
    (w.tv (w.slotFor e.expires) ++ [e])
  rw [← Multiset.coe_add, add_comm (_ : Multiset TimerEntry) ([e] : Multiset TimerEntry),
    ← add_assoc] at hsum
  rw [contents, insertEntry_tv, add_right_cancel hsum, add_comm, Multiset.coe_singleton,
    Multiset.singleton_add, contents]

/-! ## Cascading -/

/-- The same timers and counters, in other buckets. -/
structure Rearranged (w w' : TimerWheel) : Prop where
  contents : w'.contents = w.contents
  currentTick : w'.currentTick = w.currentTick
  pending : w'.pending = w.pending
  nextId : w'.nextId = w.nextId

theorem Rearranged.refl (w : TimerWheel) : Rearranged w w := ⟨rfl, rfl, rfl, rfl⟩

variable {n tick id : Nat} {l : List TimerEntry} {P : TimerWheel → Prop}

theorem Rearranged.trans {w' w'' : TimerWheel} (h : Rearranged w w') (h' : Rearranged w' w'') :
    Rearranged w w'' :=
  ⟨h'.contents.trans h.contents, h'.currentTick.trans h.currentTick, h'.pending.trans h.pending,
    h'.nextId.trans h.nextId⟩

theorem foldl_insert_same (l : List TimerEntry) :
    (l.foldl insertEntry w).contents = w.contents + l ∧
      (l.foldl insertEntry w).currentTick = w.currentTick ∧
      (l.foldl insertEntry w).pending = w.pending ∧
      (l.foldl insertEntry w).nextId = w.nextId := by
  induction l generalizing w with
  | nil => exact ⟨(add_zero _).symm, rfl, rfl, rfl⟩
  | cons e l ih =>
    obtain ⟨hc, hrest⟩ := ih (w := w.insertEntry e)
    refine ⟨?_, hrest⟩
    rw [List.foldl_cons, hc, contents_insertEntry, ← Multiset.cons_coe, Multiset.cons_add,
      Multiset.add_cons]

theorem foldl_insert (l : List TimerEntry) (hweak : ∀ i, weak i → w.currentTick % 2 ^ shift i = 0)
    (h : Placed weak w) (hl : ∀ e ∈ l, w.currentTick ≤ e.expires ∧ e.expires < 2 ^ 64)
    (h0 : weak 0) : Placed weak (l.foldl insertEntry w) := by
  induction l generalizing w with
  | nil => exact h
  | cons e l ih =>
    obtain ⟨hnow, hlt⟩ := hl e List.mem_cons_self
    exact ih (w := w.insertEntry e) hweak (placed_insert hweak h hnow (.inl h0) hlt)
      (fun x hx => hl x (List.mem_cons_of_mem _ hx))

/-- Draining loses no timer. -/
theorem drain_rearranged (hlevel : level < numWheels) : Rearranged w (w.drain level) := by
  obtain ⟨hc, ht, hpend, hid⟩ := foldl_insert_same (w := w.emptied level) (w.tv (w.currentSlot level))
  refine ⟨hc.trans ?_, ht, hpend, hid⟩
  have hemptied := Buckets.contents_update w.tv nodup_slots (slot_mem hlevel w.currentTick) []
  rw [Multiset.coe_nil, add_zero] at hemptied
  exact hemptied

theorem cascadeFrom_rearranged (hn : level + n ≤ numWheels) :
    Rearranged w (cascadeFrom n level w) := by
  induction n generalizing level w with
  | zero => exact .refl w
  | succ n ih =>
    have hdrain : Rearranged w (w.drain level) := drain_rearranged (by omega)
    rw [cascadeFrom]
    split
    · exact hdrain.trans (ih (by omega))
    · exact hdrain

/-- **Draining a wheel** whose bucket of the current tick begins makes it strict. -/
theorem drain_spec (hne : level ≠ 0)
    (hweak : ∀ l, weak l → w.currentTick % 2 ^ shift l = 0) (h0 : weak 0) (hl : weak level)
    (h : Placed weak w) : Placed (fun l => weak l ∧ l ≠ level) (w.drain level) := by
  have hentries : ∀ e ∈ w.tv (w.currentSlot level),
      w.currentTick ≤ e.expires ∧ e.expires < 2 ^ 64 := by
    intro e he
    have hfits := h _ _ e he
    refine ⟨?_, hfits.expires⟩
    calc w.currentTick = w.currentTick / 2 ^ shift level * 2 ^ shift level :=
          (Nat.div_mul_cancel (Nat.dvd_of_mod_eq_zero (hweak level hl))).symm
      _ ≤ e.expires / 2 ^ shift level * 2 ^ shift level := Nat.mul_le_mul_right _ hfits.begun
      _ ≤ e.expires := Nat.div_mul_le_self _ _
  -- what is not in the bucket belongs to a later span
  have hothers : Placed (fun l => weak l ∧ l ≠ level) (w.emptied level) := by
    intro l idx e he
    rcases mem_setBucket (s := (l, idx)) he with ⟨-, hmem⟩ | ⟨hs, hmem⟩
    · exact nomatch hmem
    have hfits := h l idx e hmem
    refine ⟨hfits.wheel, hfits.bucket, hfits.expires, hfits.begun, fun hnot => ?_, hfits.turn,
      fun hw => hfits.weakTurn hw.1⟩
    show w.currentTick / 2 ^ shift l < e.expires / 2 ^ shift l
    by_cases hlw : weak l
    · have hll : l = level := by
        by_contra hne
        exact hnot ⟨hlw, hne⟩
      subst hll
      refine Nat.lt_of_le_of_ne hfits.begun fun heq => hs ?_
      rw [hfits.bucket, currentSlot, indexForLevel_eq, indexForLevel_eq, heq]
    · exact hfits.ahead hlw
  have hweak' : ∀ i, weak i ∧ i ≠ level → (w.emptied level).currentTick % 2 ^ shift i = 0 :=
    fun i hi => hweak i hi.1
  exact foldl_insert (w.tv (w.currentSlot level)) hweak' hothers hentries ⟨h0, hne.symm⟩

/-- An index other than 0 means that no higher wheel begins a span. -/
theorem not_begins {l : Nat} (hidx : indexForLevel tick level ≠ 0) (hl : level < l) :
    tick % 2 ^ shift l ≠ 0 := by
  intro hmod
  refine hidx ?_
  have hdvd : 2 ^ shift (level + 1) ∣ tick :=
    (Nat.pow_dvd_pow 2 (shift_le hl)).trans (Nat.dvd_of_mod_eq_zero hmod)
  rw [pow_shift_succ] at hdvd
  obtain ⟨k, rfl⟩ := hdvd
  rw [indexForLevel_eq, Nat.mul_assoc, Nat.mul_div_cancel_left _ (pow_pos level),
    Nat.mul_mod_right]

/-- Index 0 means that the next wheel begins a span too. -/
theorem begins_succ (hbegins : tick % 2 ^ shift level = 0) (hidx : indexForLevel tick level = 0) :
    tick % 2 ^ shift (level + 1) = 0 := by
  rw [indexForLevel_eq] at hidx
  rw [pow_shift_succ, Nat.mod_mul, hbegins, hidx, Nat.mul_zero]

/-- The wheels that are still to be drained at a tick, from `level` on. -/
def pendingFrom (tick level l : Nat) : Prop := l = 0 ∨ (level ≤ l ∧ tick % 2 ^ shift l = 0)

/-- **Cascading** leaves only the first wheel weak, and keeps what the draining of each wheel
keeps. -/
theorem cascadeFrom_spec (hn : level + n = numWheels) (hlevel : level ≠ 0)
    (hbegins : w.currentTick % 2 ^ shift level = 0) (hkeeps : ∀ {w level}, level ≠ 0 →
      level < numWheels → w.currentTick % 2 ^ shift level = 0 →
      Placed (pendingFrom w.currentTick level) w → P w → P (w.drain level))
    (h : Placed (pendingFrom w.currentTick level) w) (hP : P w) :
    Placed (fun l => l = 0) (cascadeFrom n level w) ∧ P (cascadeFrom n level w) := by
  induction n generalizing level w with
  | zero =>
    refine ⟨h.of_iff fun l hl => ⟨fun hp => ?_, .inl⟩, hP⟩
    rcases hp with hzero | ⟨hle, -⟩
    · exact hzero
    · omega
  | succ n ih =>
    have hweak : ∀ l, pendingFrom w.currentTick level l → w.currentTick % 2 ^ shift l = 0 := by
      rintro l (rfl | ⟨-, hmod⟩)
      · exact Nat.mod_one _
      · exact hmod
    have hp := drain_spec hlevel hweak (.inl rfl) (.inr ⟨Nat.le_refl _, hbegins⟩) h
    have hdrained := hkeeps hlevel (by omega) hbegins h hP
    have hsame : Rearranged w (w.drain level) := drain_rearranged (by omega)
    have hstep : cascadeFrom (n + 1) level w = if indexForLevel w.currentTick level = 0 then
        cascadeFrom n (level + 1) (w.drain level) else w.drain level := by
      rw [cascadeFrom, hsame.currentTick]
    rw [hstep]
    by_cases hidx : indexForLevel w.currentTick level = 0
    · rw [if_pos hidx]
      have hnext : Placed (pendingFrom (w.drain level).currentTick (level + 1)) (w.drain level) := by
        refine hp.of_iff fun l _ => ?_
        rw [hsame.currentTick]
        unfold pendingFrom
        omega
      exact ih (by omega) (by omega)
        (by rw [hsame.currentTick]; exact begins_succ hbegins hidx) hnext hdrained
    · rw [if_neg hidx]
      refine ⟨hp.of_iff fun l _ => ?_, hdrained⟩
      constructor
      · rintro ⟨rfl | ⟨hle, hmod⟩, hne⟩
        · rfl
        · exact absurd hmod (not_begins hidx (Nat.lt_of_le_of_ne hle hne.symm))
      · rintro rfl
        exact ⟨.inl rfl, hlevel.symm⟩

/-! ## One tick -/

/-- Between two calls no wheel is weak. -/
abbrev Settled (w : TimerWheel) : Prop := Placed (fun _ => False) w

/-- A tick that begins a span of a wheel makes the wheel weak. -/
theorem Fits.advance (h : Fits (fun _ => False) now level idx e) :
    Fits (pendingFrom (now + 1) 1) (now + 1) level idx e := by
  have hdiv : (now + 1) / 2 ^ shift level =
      now / 2 ^ shift level + if 2 ^ shift level ∣ now + 1 then 1 else 0 := Nat.succ_div ..
  have hahead := h.ahead not_false
  have hturn := h.turn
  have hweak : pendingFrom (now + 1) 1 level ↔ 2 ^ shift level ∣ now + 1 := by
    rw [Nat.dvd_iff_mod_eq_zero]
    constructor
    · rintro (rfl | ⟨-, hmod⟩)
      · exact Nat.mod_one _
      · exact hmod
    · intro hmod
      rcases Nat.eq_zero_or_pos level with rfl | hpos
      · exact .inl rfl
      · exact .inr ⟨hpos, hmod⟩
  refine ⟨h.wheel, h.bucket, h.expires, ?_, fun hnot => ?_, fun h4 => ?_, fun hw h4 => ?_⟩
  · rw [hdiv]
    split <;> omega
  · rw [hdiv, if_neg (hweak.not.mp hnot)]
    exact hahead
  · have := hturn h4
    omega
  · have := hturn h4
    rw [hdiv, if_pos (hweak.mp hw)]
    omega

/-- The wheel at the next tick, before its bucket is taken. -/
def advanced (w : TimerWheel) : TimerWheel :=
  let w := { w with currentTick := w.currentTick + 1 }
  if indexForLevel w.currentTick 0 = 0 then w.cascade else w

theorem advanced_rearranged : Rearranged { w with currentTick := w.currentTick + 1 } w.advanced := by
  unfold advanced
  dsimp only
  split
  · exact cascadeFrom_rearranged (by decide)
  · exact .refl _

/-- What the draining of each wheel keeps is kept up to the next tick. -/
theorem advanced_keeps (hkeeps : ∀ {w level}, level ≠ 0 → level < numWheels →
      w.currentTick % 2 ^ shift level = 0 → Placed (pendingFrom w.currentTick level) w → P w →
      P (w.drain level)) (h : Settled w) (hP : P { w with currentTick := w.currentTick + 1 }) :
    Placed (fun l => l = 0) w.advanced ∧ P w.advanced := by
  have hnext : Placed (pendingFrom (w.currentTick + 1) 1)
      { w with currentTick := w.currentTick + 1 } := fun l idx e he => (h l idx e he).advance
  unfold advanced
  dsimp only
  split
  · rename_i hidx
    have hbegins := begins_succ (show (w.currentTick + 1) % 2 ^ shift 0 = 0 from Nat.mod_one _) hidx
    exact cascadeFrom_spec (w := { w with currentTick := w.currentTick + 1 }) rfl one_ne_zero
      hbegins hkeeps hnext hP
  · rename_i hidx
    refine ⟨hnext.of_iff fun l _ => ?_, hP⟩
    constructor
    · rintro (rfl | ⟨hle, hmod⟩)
      · rfl
      · exact absurd hmod (not_begins hidx hle)
    · rintro rfl
      exact .inl rfl

theorem advanced_spec (h : Settled w) : Placed (fun l => l = 0) w.advanced :=
  (advanced_keeps (P := fun _ => True) (fun _ _ _ _ _ => trivial) h trivial).1

/-- The entries of the current bucket of the first wheel are the ones that are due. -/
theorem due_iff (h : Placed (fun l => l = 0) w) (he : e ∈ w.tv (level, idx)) :
    (level, idx) = w.currentSlot 0 ↔ e.expires = w.currentTick := by
  have hfits := h level idx e he
  constructor
  · intro hslot
    obtain ⟨rfl, hidx⟩ := Prod.mk.inj hslot
    have hbegun := hfits.begun
    have hturn := hfits.weakTurn rfl (by decide)
    have hbucket := hfits.bucket.symm.trans hidx
    rw [indexForLevel_eq, indexForLevel_eq] at hbucket
    rw [show shift 0 = 0 from rfl, Nat.pow_zero, Nat.div_one, Nat.div_one] at hbegun hturn hbucket
    rw [show size 0 = 256 from rfl] at hturn hbucket
    omega
  · intro hdue
    have hlevel : level = 0 := by
      by_contra hne
      have hahead := hfits.ahead hne
      rw [hdue] at hahead
      exact absurd hahead (Nat.lt_irrefl _)
    subst hlevel
    rw [hfits.bucket, hdue]
    rfl

/-- A periodic timer that has expired, at its next expiry. -/
def rearm (now : Nat) (e : TimerEntry) : TimerEntry :=
  { e with expires := now + e.interval.getD 0 }

/-- The timers that go on after they expired. -/
def rearmed (now : Nat) (l : List TimerEntry) : List TimerEntry :=
  (l.filter (·.flags.periodic)).map (rearm now)

theorem rearmed_cons_periodic (h : e.flags.periodic = true) :
    rearmed now (e :: l) = rearm now e :: rearmed now l := by
  rw [rearmed, List.filter_cons, if_pos h, List.map_cons, rearmed]

theorem rearmed_cons_once (h : ¬ e.flags.periodic = true) :
    rearmed now (e :: l) = rearmed now l := by
  rw [rearmed, List.filter_cons, if_neg h, rearmed]

/-- What an entry needs to be inserted again: its next expiry is a tick to come. -/
def Rearms (now : Nat) (e : TimerEntry) : Prop :=
  e.flags.periodic = true → ∃ interval, e.interval = some interval ∧ 0 < interval ∧
    now + interval < 2 ^ 64

/-- An expired periodic timer is stored again, due an interval later. -/
theorem expire_periodic (h : Settled w) (hperiodic : e.flags.periodic = true)
    (hrearms : Rearms w.currentTick e) :
    Settled (w.expire e) ∧ (w.expire e).contents = rearm w.currentTick e ::ₘ w.contents ∧
      (w.expire e).currentTick = w.currentTick ∧ (w.expire e).pending = w.pending - 1 + 1 ∧
      (w.expire e).nextId = w.nextId := by
  obtain ⟨interval, hinterval, hpos, hlt⟩ := hrearms hperiodic
  have hstep : w.expire e =
      { w.insertEntry (rearm w.currentTick e) with pending := w.pending - 1 + 1 } := by
    rw [expire, if_pos hperiodic, hinterval, rearm, hinterval]
    rfl
  have hsettled : Settled (w.insertEntry (rearm w.currentTick e)) := by
    refine placed_insert (fun _ hw => hw.elim) h ?_ (.inr ?_) ?_ <;>
      rw [rearm, hinterval, Option.getD_some] <;> dsimp only <;> omega
  rw [hstep]
  exact ⟨hsettled, contents_insertEntry, rfl, rfl, rfl⟩

theorem expire_once (hperiodic : ¬ e.flags.periodic = true) :
    w.expire e = { w with pending := w.pending - 1 } := by
  rw [expire, if_neg hperiodic]

/-- What `tick` does with the entries it took. -/
theorem foldl_expire (l : List TimerEntry) (h : Settled w) (hpending : l.length ≤ w.pending)
    (hl : ∀ e ∈ l, Rearms w.currentTick e) :
    Settled (l.foldl expire w) ∧
      (l.foldl expire w).contents = w.contents + rearmed w.currentTick l ∧
      (l.foldl expire w).currentTick = w.currentTick ∧
      (l.foldl expire w).pending + l.length = w.pending + (rearmed w.currentTick l).length ∧
      (l.foldl expire w).nextId = w.nextId := by
  induction l generalizing w with
  | nil => exact ⟨h, (add_zero _).symm, rfl, rfl, rfl⟩
  | cons e l ih =>
    rw [List.length_cons] at hpending
    have hrest : ∀ x ∈ l, Rearms w.currentTick x := fun x hx => hl x (List.mem_cons_of_mem _ hx)
    rw [List.foldl_cons]
    by_cases hperiodic : e.flags.periodic = true
    · have hstep := expire_periodic h hperiodic (hl e List.mem_cons_self)
      generalize w.expire e = w₁ at hstep ⊢
      obtain ⟨hsettled, hcontents, htick, hpend₁, hid₁⟩ := hstep
      obtain ⟨hp, hc, ht, hpend, hid⟩ := ih hsettled (by omega) (by rwa [htick])
      rw [htick] at hc ht hpend
      refine ⟨hp, ?_, ht, ?_, hid.trans hid₁⟩
      · rw [hc, hcontents, rearmed_cons_periodic hperiodic, ← Multiset.cons_coe, Multiset.add_cons,
          Multiset.cons_add]
      · rw [rearmed_cons_periodic hperiodic, List.length_cons, List.length_cons]
        omega
    · have hstep := expire_once (w := w) hperiodic
      have hcontents : (w.expire e).contents = w.contents := by
        rw [hstep]
        rfl
      have hsettled : Settled (w.expire e) := by
        rw [hstep]
        exact h
      have htick : (w.expire e).currentTick = w.currentTick := by rw [hstep]
      have hpend₁ : (w.expire e).pending = w.pending - 1 := by rw [hstep]
      have hid₁ : (w.expire e).nextId = w.nextId := by rw [hstep]
      obtain ⟨hp, hc, ht, hpend, hid⟩ := ih hsettled (by omega) (by rwa [htick])
      rw [htick] at hc ht hpend
      refine ⟨hp, ?_, ht, ?_, hid.trans hid₁⟩
      · rw [hc, hcontents, rearmed_cons_once hperiodic]
      · rw [rearmed_cons_once hperiodic, List.length_cons]
        omega

/-- `tick` empties the bucket of its tick. -/
theorem tick_eq : w.tick = (w.advanced.tv (w.advanced.currentSlot 0),
    (w.advanced.tv (w.advanced.currentSlot 0)).foldl expire
      (w.advanced.setBucket (w.advanced.currentSlot 0) [])) := by
  rw [currentSlot, advanced_rearranged.currentTick]
  rfl

/-- Together the bucket and the rest are all the timers there were. -/
theorem contents_taken : (w.advanced.setBucket (w.advanced.currentSlot 0) []).contents
    + w.advanced.tv (w.advanced.currentSlot 0) = w.contents := by
  have hslot : w.advanced.currentSlot 0 ∈ slots := slot_mem (by decide) _
  have hsum := Buckets.contents_update w.advanced.tv nodup_slots hslot []
  rw [Multiset.coe_nil, add_zero] at hsum
  exact hsum.trans advanced_rearranged.contents

/-- What `tick` gives and leaves, as a set of timers. -/
structure Ticked (w w' : TimerWheel) (expired : List TimerEntry) : Prop where
  settled : Settled w'
  currentTick : w'.currentTick = w.currentTick + 1
  due : (expired : Multiset TimerEntry)
    = w.contents.filter fun e => e.expires = w.currentTick + 1
  contents : w'.contents = (w.contents.filter fun e => e.expires ≠ w.currentTick + 1)
    + rearmed (w.currentTick + 1) expired
  pending : w'.pending + expired.length = w.pending + (rearmed (w.currentTick + 1) expired).length
  nextId : w'.nextId = w.nextId

/-- **`tick` takes exactly the timers that are due**. -/
theorem tick_spec (h : Settled w) (hpending : w.pending = w.contents.card)
    (hrearms : ∀ e ∈ w.contents, e.expires = w.currentTick + 1 → Rearms (w.currentTick + 1) e) :
    Ticked w w.tick.2 w.tick.1 := by
  have hplaced := advanced_spec h
  have hsame := advanced_rearranged (w := w)
  have htick := tick_eq (w := w)
  have hnow : w.advanced.currentTick = w.currentTick + 1 := hsame.currentTick
  generalize hexpired : w.advanced.tv (w.advanced.currentSlot 0) = expired at htick
  have hdue : ∀ e ∈ expired, e.expires = w.currentTick + 1 := by
    intro e he
    rw [← hexpired] at he
    rw [← hnow]
    exact (due_iff hplaced he).mp rfl
  -- the other buckets hold what comes later
  have hlater : ∀ slot, ∀ e ∈ (w.advanced.setBucket (w.advanced.currentSlot 0) []).tv slot,
      e ∈ w.advanced.tv slot ∧ e.expires ≠ w.currentTick + 1 := by
    intro slot e he
    rcases mem_setBucket he with ⟨-, hmem⟩ | ⟨hs, hmem⟩
    · exact nomatch hmem
    · refine ⟨hmem, fun heq => hs ?_⟩
      rw [← hnow] at heq
      exact (due_iff hplaced (show e ∈ w.advanced.tv (slot.1, slot.2) from hmem)).mpr heq
  have hrest : Settled (w.advanced.setBucket (w.advanced.currentSlot 0) []) := by
    intro level idx e he
    obtain ⟨hmem, hne⟩ := hlater _ e he
    have hfits := hplaced level idx e hmem
    refine ⟨hfits.wheel, hfits.bucket, hfits.expires, hfits.begun, fun _ => ?_, hfits.turn,
      fun hw => hw.elim⟩
    by_cases hlevel : level = 0
    · subst hlevel
      have hbegun := hfits.begun
      rw [show shift 0 = 0 from rfl, Nat.pow_zero, Nat.div_one, Nat.div_one] at hbegun ⊢
      rw [← hnow] at hne
      exact Nat.lt_of_le_of_ne hbegun hne.symm
    · exact hfits.ahead hlevel
  have hsplit : (w.advanced.setBucket (w.advanced.currentSlot 0) []).contents + expired
      = w.contents := hexpired ▸ contents_taken
  have hrestLater : ∀ e ∈ (w.advanced.setBucket (w.advanced.currentSlot 0) []).contents,
      e.expires ≠ w.currentTick + 1 := by
    intro e he
    obtain ⟨slot, -, hmem⟩ := mem_contents.mp he
    exact (hlater slot e hmem).2
  have hmem : ∀ e ∈ expired, e ∈ w.contents := fun e he => by
    rw [← hsplit]
    exact Multiset.mem_add.mpr (.inr he)
  have hlen : expired.length ≤ w.pending := by
    rw [hpending, ← hsplit, Multiset.card_add, Multiset.coe_card]
    exact Nat.le_add_left _ _
  generalize hrestWheel : w.advanced.setBucket (w.advanced.currentSlot 0) [] = rest
    at htick hrest hsplit hrestLater
  have hnowRest : rest.currentTick = w.currentTick + 1 := by
    rw [← hrestWheel]
    exact hnow
  have hpendRest : rest.pending = w.pending := by
    rw [← hrestWheel]
    exact hsame.pending
  have hidRest : rest.nextId = w.nextId := by
    rw [← hrestWheel]
    exact hsame.nextId
  have hexpire := foldl_expire expired hrest (by rw [hpendRest]; exact hlen) (by
    rw [hnowRest]
    exact fun e he => hrearms e (hmem e he) (hdue e he))
  obtain ⟨hsettled, hcontents, hcur, hpend, hid⟩ := hexpire
  rw [hnowRest] at hcontents hcur hpend
  rw [htick]
  refine ⟨hsettled, hcur, ?_, ?_, ?_, hid.trans hidRest⟩
  · rw [← hsplit, Multiset.filter_add, Multiset.filter_eq_nil.mpr hrestLater, zero_add,
      Multiset.filter_eq_self.mpr hdue]
  · rw [hcontents, ← hsplit, Multiset.filter_add, Multiset.filter_eq_self.mpr hrestLater,
      Multiset.filter_eq_nil.mpr fun e he hne => hne (hdue e he), add_zero]
  · rw [hpend, hpendRest]

/-! ## Taking a timer out -/

/-- What `swap_remove` of a found entry leaves. -/
structure Took (w w' : TimerWheel) (e : TimerEntry) : Prop where
  settled : Settled w → Settled w'
  contents : w.contents = e ::ₘ w'.contents
  currentTick : w'.currentTick = w.currentTick
  pending : w'.pending = w.pending
  nextId : w'.nextId = w.nextId

theorem takeEntry_some {w' : TimerWheel} (h : w.takeEntry id = some (e, w')) :
    e.id = id ∧ Took w w' e := by
  unfold takeEntry at h
  simp only [Option.bind_eq_bind, Option.bind_eq_some_iff, Option.pure_def, Option.some.injEq,
    Prod.mk.injEq] at h
  obtain ⟨slot, hslot, entry, hentry, rfl, rfl⟩ := h
  obtain ⟨hpos, hget⟩ := List.getElem?_eq_some_iff.mp hentry
  have hid : entry.id = id := by
    have hmatch := List.findIdx_getElem (w := hpos)
    rw [hget] at hmatch
    exact of_decide_eq_true hmatch
  have hperm := cons_swapRemove_perm hpos
  rw [hget] at hperm
  refine ⟨hid, fun hsettled => ?_, ?_, rfl, rfl, rfl⟩
  · intro level idx x hx
    rcases mem_setBucket hx with ⟨hs, hmem⟩ | ⟨-, hmem⟩
    · rw [← hs] at hmem hperm
      exact hsettled level idx x (hperm.mem_iff.mp (List.mem_cons_of_mem _ hmem))
    · exact hsettled level idx x hmem
  · have hsum := Buckets.contents_update w.tv nodup_slots (List.mem_of_find?_eq_some hslot)
      (swapRemove (w.tv slot) ((w.tv slot).findIdx (·.id = id)))
    rw [← Multiset.coe_eq_coe.mpr hperm, ← Multiset.cons_coe, Multiset.add_cons,
      ← Multiset.cons_add] at hsum
    exact (add_right_cancel hsum).symm

theorem takeEntry_none (h : w.takeEntry id = none) : ∀ e ∈ w.contents, e.id ≠ id := by
  intro e he hid
  obtain ⟨slot, hslot, hmem⟩ := mem_contents.mp he
  unfold takeEntry at h
  cases hfind : slots.find? fun slot => (w.tv slot).any (·.id = id) with
  | none =>
    rw [List.find?_eq_none] at hfind
    exact hfind slot hslot (List.any_eq_true.mpr ⟨e, hmem, decide_eq_true hid⟩)
  | some found =>
    have hany := List.find?_some hfind
    have hpos : (w.tv found).findIdx (·.id = id) < (w.tv found).length :=
      List.findIdx_lt_length.mpr (List.any_eq_true.mp hany)
    rw [hfind] at h
    simp [List.getElem?_eq_getElem hpos] at h

end Placement

end TimerWheel

end AthenaOS
