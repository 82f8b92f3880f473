import AthenaOS.Timers.Firing

/-!
# Timers set in turn

`next_expiry` searches the finer wheels before the coarser ones, and the buckets of a wheel by
their index. That is the order of time as long as every timer is set where its turn is.
-/

namespace AthenaOS

open Lib
open Function (update update_eq_self update_idem update_of_ne update_self)

namespace TimerWheel

/-- The order of the search is the order of time. The buckets of the first wheel are searched
from the next tick on, so they are in order by themselves. -/
structure InTurn (w : TimerWheel) : Prop where
  used : ∀ {l i}, ∀ x ∈ w.tv (l, i), (l, i) ∈ slots
  /-- A finer wheel holds the earlier timers. -/
  finer : ∀ {l l' i i'}, l < l' → ∀ x ∈ w.tv (l, i), ∀ y ∈ w.tv (l', i'), x.expires ≤ y.expires
  /-- The timers of a wheel are due in one turn of it. -/
  turn : ∀ {l i i'}, l ≠ 0 → ∀ x ∈ w.tv (l, i), ∀ y ∈ w.tv (l, i'),
    x.expires / 2 ^ shift (l + 1) = y.expires / 2 ^ shift (l + 1)
  bucket : ∀ {l i}, l ≠ 0 → (w.tv (l, i)).Pairwise fun x y => x.expires ≤ y.expires
  /-- A timer is no further ahead than one turn. -/
  reach : ∀ {l i}, l < 4 → ∀ x ∈ w.tv (l, i), x.expires < w.currentTick + 2 ^ shift (l + 1)

/-- What a timer must find when it is set; its distance decides the wheel. -/
structure Joins (w : TimerWheel) (expires : Nat) : Prop where
  /-- The timers of coarser wheels are due no earlier. -/
  coarser : ∀ slot ∈ slots, (w.slotFor expires).1 < slot.1 → ∀ y ∈ w.tv slot, expires ≤ y.expires
  /-- On `tv2` to `tv5`: the timers of its wheel are due in the same turn of it. -/
  turn : (w.slotFor expires).1 ≠ 0 → ∀ slot ∈ slots, slot.1 = (w.slotFor expires).1 →
    ∀ y ∈ w.tv slot, y.expires / 2 ^ shift (slot.1 + 1) = expires / 2 ^ shift (slot.1 + 1)
  /-- And the timers of its bucket are due no later. -/
  bucket : (w.slotFor expires).1 ≠ 0 → ∀ y ∈ w.tv (w.slotFor expires), y.expires ≤ expires

theorem joins_iff {w : TimerWheel} {expires : Nat} : w.Joins expires ↔
    (∀ slot ∈ slots, (w.slotFor expires).1 < slot.1 → ∀ y ∈ w.tv slot, expires ≤ y.expires) ∧
      ((w.slotFor expires).1 ≠ 0 → ∀ slot ∈ slots, slot.1 = (w.slotFor expires).1 →
        ∀ y ∈ w.tv slot, y.expires / 2 ^ shift (slot.1 + 1) = expires / 2 ^ shift (slot.1 + 1)) ∧
      ((w.slotFor expires).1 ≠ 0 → ∀ y ∈ w.tv (w.slotFor expires), y.expires ≤ expires) :=
  ⟨fun h => ⟨h.coarser, h.turn, h.bucket⟩, fun h => ⟨h.1, h.2.1, h.2.2⟩⟩

instance decidableJoins (w : TimerWheel) (expires : Nat) : Decidable (w.Joins expires) :=
  decidable_of_iff _ joins_iff.symm

/-- What a timer must find behind it in its bucket when it is taken out: `swap_remove` moves
the last of them to its place. -/
def TakesInTurn (w : TimerWheel) (id : Nat) : Prop :=
  ∀ slot ∈ slots, slot.1 ≠ 0 → ∀ x ∈ (w.tv slot).drop ((w.tv slot).findIdx (·.id = id) + 1),
    ∀ y ∈ (w.tv slot).drop ((w.tv slot).findIdx (·.id = id) + 1), x.expires ≤ y.expires

instance decidableTakesInTurn (w : TimerWheel) (id : Nat) : Decidable (w.TakesInTurn id) :=
  inferInstanceAs (Decidable (∀ slot ∈ slots, _))

/-- What the periodic timers among the expired ones must find as `tick` sets them again. -/
def RearmsInTurn : TimerWheel → List TimerEntry → Prop
  | _, [] => True
  | w, e :: l =>
    (e.flags.periodic = true → w.Joins (w.currentTick + e.interval.getD 0)) ∧
      RearmsInTurn (w.expire e) l

instance decidableRearmsInTurn : (w : TimerWheel) → (l : List TimerEntry) →
    Decidable (w.RearmsInTurn l)
  | _, [] => inferInstanceAs (Decidable True)
  | w, e :: l => @instDecidableAnd _ _ _ (decidableRearmsInTurn (w.expire e) l)

/-! ## Setting and taking out -/

section Setting

variable {w w' : TimerWheel} {e : TimerEntry}

theorem inTurn_new : InTurn new := by
  have hnone : ∀ {s x}, x ∉ new.tv s := List.not_mem_nil
  exact ⟨fun x hx => (hnone hx).elim, fun _ x hx => (hnone hx).elim,
    fun _ x hx => (hnone hx).elim, fun _ => List.Pairwise.nil, fun _ x hx => (hnone hx).elim⟩

theorem InTurn.of_tv (h : InTurn w) (htv : w'.tv = w.tv) (hnow : w.currentTick ≤ w'.currentTick) :
    InTurn w' := by
  refine ⟨htv ▸ h.used, htv ▸ h.finer, htv ▸ h.turn, htv ▸ h.bucket, fun hl x hx => ?_⟩
  have hreach := h.reach hl x (htv ▸ hx)
  omega

/-- Less in a bucket, in the order of time. -/
theorem InTurn.setBucket {slot : Nat × Nat} {bucket : List TimerEntry} (h : InTurn w)
    (hsub : bucket ⊆ w.tv slot)
    (hbucket : slot.1 ≠ 0 → bucket.Pairwise fun x y => x.expires ≤ y.expires) :
    InTurn (w.setBucket slot bucket) := by
  have hold : ∀ {s x}, x ∈ (w.setBucket slot bucket).tv s → x ∈ w.tv s := by
    intro s x hx
    rcases mem_setBucket hx with ⟨rfl, hmem⟩ | ⟨-, hmem⟩
    · exact hsub hmem
    · exact hmem
  refine ⟨fun x hx => h.used x (hold hx), fun hl x hx y hy => h.finer hl x (hold hx) y (hold hy),
    fun hl x hx y hy => h.turn hl x (hold hx) y (hold hy), fun {l i} hl => ?_,
    fun hl x hx => h.reach hl x (hold hx)⟩
  rw [setBucket_tv]
  by_cases hslot : (l, i) = slot
  · subst hslot
    rw [update_self]
    exact hbucket hl
  · rw [update_of_ne hslot]
    exact h.bucket hl

theorem mem_insertEntry {slot : Nat × Nat} {x : TimerEntry} (h : x ∈ (w.insertEntry e).tv slot) :
    x ∈ w.tv slot ∨ x = e ∧ slot = w.slotFor e.expires := by
  rcases mem_setBucket h with ⟨rfl, hmem⟩ | ⟨-, hmem⟩
  · rcases List.mem_append.mp hmem with hmem | hmem
    · exact .inl hmem
    · exact .inr ⟨List.mem_singleton.mp hmem, rfl⟩
  · exact .inl hmem

/-- The wheel for a distance. -/
theorem slotFor_spec {expires : Nat} (hnow : w.currentTick ≤ expires) (hlt : expires < 2 ^ 64) :
    (w.slotFor expires).1 < numWheels ∧
      ((w.slotFor expires).1 ≠ 0 → w.currentTick + 2 ^ shift (w.slotFor expires).1 ≤ expires) ∧
      ((w.slotFor expires).1 < 4 →
        expires < w.currentTick + 2 ^ shift ((w.slotFor expires).1 + 1)) := by
  have hlevel : (w.slotFor expires).1 = levelFor (expires - w.currentTick) :=
    congrArg levelFor (wrappingSub_eq hnow hlt)
  rw [hlevel]
  obtain ⟨hwheel, hfar, hnear⟩ := levelFor_spec (expires - w.currentTick)
  refine ⟨hwheel, fun h0 => ?_, fun h4 => ?_⟩
  · have := hfar h0
    omega
  · have := hnear h4
    omega

/-- **A timer that joins keeps the turn.** -/
theorem inTurn_insert (h : InTurn w) (hnow : w.currentTick ≤ e.expires)
    (hlt : e.expires < 2 ^ 64) (hjoins : w.Joins e.expires) : InTurn (w.insertEntry e) := by
  obtain ⟨hwheel, hfar, hnear⟩ := slotFor_spec hnow hlt
  refine ⟨?_, ?_, ?_, ?_, ?_⟩
  · intro l i x hx
    rcases mem_insertEntry hx with hx | ⟨-, hslot⟩
    · exact h.used x hx
    · rw [hslot]
      exact slot_mem hwheel e.expires
  · intro l l' i i' hl x hx y hy
    rcases mem_insertEntry hx with hx | ⟨hxe, hslot⟩
    · rcases mem_insertEntry hy with hy | ⟨hye, hslot'⟩
      · exact h.finer hl x hx y hy
      · -- what a finer wheel holds is due within its turn
        rw [← hslot'] at hwheel hfar
        have hl' : l' < 5 := hwheel
        have hreach := h.reach (show l < 4 by omega) x hx
        have hle : 2 ^ shift (l + 1) ≤ 2 ^ shift l' := Nat.pow_le_pow_right (by decide) (shift_le hl)
        have hdist := hfar (Nat.ne_of_gt (Nat.zero_lt_of_lt hl))
        rw [hye]
        dsimp only at hdist
        omega
    · rcases mem_insertEntry hy with hy | ⟨hye, hslot'⟩
      · rw [hxe]
        exact hjoins.coarser _ (h.used y hy) (by rw [← hslot]; exact hl) y hy
      · rw [← hslot] at hslot'
        exact absurd (Prod.mk.inj hslot').1 (Nat.ne_of_gt hl)
  · intro l i i' hl x hx y hy
    rcases mem_insertEntry hx with hx | ⟨hxe, hslot⟩
    · rcases mem_insertEntry hy with hy | ⟨hye, hslot'⟩
      · exact h.turn hl x hx y hy
      · rw [hye]
        exact hjoins.turn (by rw [← hslot']; exact hl) _ (h.used x hx) (by rw [← hslot']) x hx
    · rcases mem_insertEntry hy with hy | ⟨hye, hslot'⟩
      · rw [hxe]
        exact (hjoins.turn (by rw [← hslot]; exact hl) _ (h.used y hy) (by rw [← hslot]) y hy).symm
      · rw [hxe, hye]
  · intro l i hl
    rw [insertEntry_tv]
    by_cases hslot : (l, i) = w.slotFor e.expires
    · rw [hslot, update_self, List.pairwise_append, ← hslot]
      refine ⟨h.bucket hl, List.pairwise_singleton _ _, fun x hx y hy => ?_⟩
      rw [List.mem_singleton.mp hy]
      exact hjoins.bucket (by rw [← hslot]; exact hl) x (hslot ▸ hx)
    · rw [update_of_ne hslot]
      exact h.bucket hl
  · intro l i hl x hx
    rcases mem_insertEntry hx with hx | ⟨hxe, hslot⟩
    · exact h.reach hl x hx
    · rw [← hslot] at hnear
      rw [hxe]
      exact hnear hl

/-- **A timer taken out in turn keeps it.** -/
theorem inTurn_take {id : Nat} (h : InTurn w) (htake : w.takeEntry id = some (e, w'))
    (hbehind : w.TakesInTurn id) : InTurn w' := by
  unfold takeEntry at htake
  simp only [Option.bind_eq_bind, Option.bind_eq_some_iff, Option.pure_def, Option.some.injEq,
    Prod.mk.injEq] at htake
  obtain ⟨slot, hslot, entry, hentry, rfl, rfl⟩ := htake
  obtain ⟨hpos, hget⟩ := List.getElem?_eq_some_iff.mp hentry
  refine h.setBucket (fun x hx => ?_) fun hl => ?_
  · exact (cons_swapRemove_perm hpos).mem_iff.mp (List.mem_cons_of_mem _ hx)
  · exact pairwise_swapRemove hpos (h.bucket hl)
      (hbehind slot (List.mem_of_find?_eq_some hslot) hl)

/-- **Timers that `tick` sets again in turn keep it.** -/
theorem inTurn_foldl_expire (l : List TimerEntry) (h : InTurn w)
    (hl : ∀ e ∈ l, Rearms w.currentTick e) (hturn : w.RearmsInTurn l) :
    InTurn (l.foldl expire w) := by
  induction l generalizing w with
  | nil => exact h
  | cons e l ih =>
    obtain ⟨hjoins, hrest⟩ := hturn
    have hlater : ∀ x ∈ l, Rearms w.currentTick x := fun x hx => hl x (List.mem_cons_of_mem _ hx)
    rw [List.foldl_cons]
    by_cases hperiodic : e.flags.periodic = true
    · obtain ⟨interval, hinterval, hpos, hlt⟩ := hl e List.mem_cons_self hperiodic
      have hstep : w.expire e =
          { w.insertEntry (rearm w.currentTick e) with pending := w.pending - 1 + 1 } := by
        rw [expire, if_pos hperiodic, hinterval, rearm, hinterval]
        rfl
      have hexpires : (rearm w.currentTick e).expires = w.currentTick + interval := by
        rw [rearm, hinterval, Option.getD_some]
      have hinsert : InTurn (w.insertEntry (rearm w.currentTick e)) := by
        refine inTurn_insert h ?_ ?_ (hjoins hperiodic) <;> rw [hexpires] <;> omega
      rw [hstep] at hrest ⊢
      exact ih (hinsert.of_tv rfl (Nat.le_refl _)) hlater hrest
    · rw [expire_once hperiodic] at hrest ⊢
      exact ih (h.of_tv rfl (Nat.le_refl _)) hlater hrest

end Setting

/-! ## Cascading -/

section Cascading

variable {w : TimerWheel} {e : TimerEntry} {level : Nat} {l : List TimerEntry}

/-- Ticks of the turn that begins. -/
theorem div_eq_of_begins {n now t : Nat} (hbegins : now % n = 0) (hle : now ≤ t)
    (hlt : t < now + n) : t / n = now / n := by
  obtain ⟨k, rfl⟩ := Nat.dvd_of_mod_eq_zero hbegins
  rcases Nat.eq_zero_or_pos n with rfl | hpos
  · rw [Nat.div_zero, Nat.div_zero]
  · rw [Nat.mul_div_cancel_left _ hpos]
    exact Nat.div_eq_of_lt_le (by rwa [Nat.mul_comm]) (by rwa [Nat.succ_mul, Nat.mul_comm])

theorem begins_of_le {now i j : Nat} (h : now % 2 ^ shift j = 0) (hle : i ≤ j) :
    now % 2 ^ shift i = 0 :=
  Nat.mod_eq_zero_of_dvd
    ((Nat.pow_dvd_pow 2 (shift_le hle)).trans (Nat.dvd_of_mod_eq_zero h))

/-- The timers of `l` go from a wheel into the finer ones, the earliest first. -/
structure Draining (level : Nat) (w : TimerWheel) (l : List TimerEntry) : Prop where
  inTurn : InTurn w
  begins : w.currentTick % 2 ^ shift level = 0
  finer : ∀ {m i}, m < level → ∀ x ∈ w.tv (m, i), ∀ e ∈ l, x.expires ≤ e.expires
  ahead : ∀ {m i}, m ≠ 0 → m < level → ∀ x ∈ w.tv (m, i), w.currentTick + 2 ^ shift m ≤ x.expires
  coarser : ∀ {m i}, level ≤ m → ∀ y ∈ w.tv (m, i), ∀ e ∈ l, e.expires ≤ y.expires
  sorted : l.Pairwise fun x y => x.expires ≤ y.expires
  span : ∀ e ∈ l, w.currentTick ≤ e.expires ∧ e.expires < w.currentTick + 2 ^ shift level ∧
    e.expires < 2 ^ 64

/-- A timer of the span that begins goes into a finer wheel. -/
theorem Draining.slotFor_lt (h : Draining level w (e :: l)) (hne : level ≠ 0) :
    (w.slotFor e.expires).1 < level := by
  obtain ⟨hnow, hspan, hlt⟩ := h.span e List.mem_cons_self
  obtain ⟨-, hfar, -⟩ := slotFor_spec (w := w) hnow hlt
  by_contra hle
  have hpow : 2 ^ shift level ≤ 2 ^ shift (w.slotFor e.expires).1 :=
    Nat.pow_le_pow_right (by decide) (shift_le (Nat.not_lt.mp hle))
  have hdist := hfar (by omega)
  omega

theorem Draining.joins (h : Draining level w (e :: l)) (hne : level ≠ 0) (hlevel : level ≤ 4) :
    w.Joins e.expires := by
  obtain ⟨hnow, hspan, hlt⟩ := h.span e List.mem_cons_self
  obtain ⟨-, hfar, hnear⟩ := slotFor_spec (w := w) hnow hlt
  have hslot := h.slotFor_lt hne
  have hbound := hnear (by omega)
  refine ⟨fun ⟨m, i⟩ _ hm y hy => ?_, fun h0 ⟨m, i⟩ _ hm y hy => ?_, fun h0 y hy => ?_⟩
  · by_cases hml : m < level
    · -- the wheels between are empty: what they hold is further ahead
      have hahead := h.ahead (by omega) hml y hy
      have hpow : 2 ^ shift ((w.slotFor e.expires).1 + 1) ≤ 2 ^ shift m :=
        Nat.pow_le_pow_right (by decide) (shift_le hm)
      omega
    · exact h.coarser (Nat.not_lt.mp hml) y hy e List.mem_cons_self
  · dsimp only at hm ⊢
    subst hm
    have hbegins : w.currentTick % 2 ^ shift ((w.slotFor e.expires).1 + 1) = 0 :=
      begins_of_le h.begins hslot
    have hahead := (Nat.le_add_right _ _).trans (h.ahead h0 hslot y hy)
    have hle := h.finer hslot y hy e List.mem_cons_self
    rw [div_eq_of_begins hbegins hahead (Nat.lt_of_le_of_lt hle hbound),
      div_eq_of_begins hbegins hnow hbound]
  · exact h.finer hslot y hy e List.mem_cons_self

theorem Draining.insert (h : Draining level w (e :: l)) (hne : level ≠ 0) (hlevel : level ≤ 4) :
    Draining level (w.insertEntry e) l := by
  obtain ⟨hnow, -, hlt⟩ := h.span e List.mem_cons_self
  obtain ⟨-, hfar, -⟩ := slotFor_spec (w := w) hnow hlt
  have hslot := h.slotFor_lt hne
  obtain ⟨hfirst, hsorted⟩ := List.pairwise_cons.mp h.sorted
  refine ⟨inTurn_insert h.inTurn hnow hlt (h.joins hne hlevel), h.begins, ?_, ?_, ?_, hsorted,
    fun x hx => h.span x (List.mem_cons_of_mem _ hx)⟩
  · intro m i hm x hx y hy
    rcases mem_insertEntry hx with hx | ⟨rfl, -⟩
    · exact h.finer hm x hx y (List.mem_cons_of_mem _ hy)
    · exact hfirst y hy
  · intro m i h0 hm x hx
    rcases mem_insertEntry hx with hx | ⟨hxe, hs⟩
    · exact h.ahead h0 hm x hx
    · rw [← hs] at hfar
      rw [hxe]
      exact hfar h0
  · intro m i hm y hy x hx
    rcases mem_insertEntry hy with hy | ⟨-, hs⟩
    · exact h.coarser hm y hy x (List.mem_cons_of_mem _ hx)
    · rw [← hs] at hslot
      exact absurd hslot (Nat.not_lt.mpr hm)

theorem Draining.foldl (hne : level ≠ 0) (hlevel : level ≤ 4) (h : Draining level w l) :
    InTurn (l.foldl insertEntry w) := by
  induction l generalizing w with
  | nil => exact h.inTurn
  | cons e l ih => exact ih (h.insert hne hlevel)

/-- Timers that are all set to one bucket are there in their order. -/
theorem foldl_insert_slot {slot : Nat × Nat} (h : ∀ e ∈ l, w.slotFor e.expires = slot) :
    (l.foldl insertEntry w).tv = update w.tv slot (w.tv slot ++ l) := by
  induction l generalizing w with
  | nil => rw [List.foldl_nil, List.append_nil, update_eq_self]
  | cons e l ih =>
    have hslot := h e List.mem_cons_self
    have hrest := ih (w := w.insertEntry e) fun x hx => h x (List.mem_cons_of_mem _ hx)
    rw [List.foldl_cons, hrest, insertEntry_tv, hslot, update_idem,
      update_self, List.append_assoc, List.singleton_append]

/-- A tick is determined by its turn, its bucket and its place in the bucket's span. -/
theorem div_shift (t level : Nat) : t / 2 ^ shift level =
    t / 2 ^ shift (level + 1) * size level + indexForLevel t level := by
  rw [indexForLevel_eq, pow_shift_succ, ← Nat.div_div_eq_div_mul, Nat.div_add_mod']

/-- Within one turn the index decides the span. -/
theorem span_eq_of_index_eq {s t : Nat} (hidx : indexForLevel s level = indexForLevel t level)
    (hle : t / 2 ^ shift level ≤ s / 2 ^ shift level)
    (hlt : s / 2 ^ shift level < t / 2 ^ shift level + size level) :
    s / 2 ^ shift level = t / 2 ^ shift level := by
  rw [indexForLevel_eq, indexForLevel_eq] at hidx
  have hdvd : size level ∣ s / 2 ^ shift level - t / 2 ^ shift level :=
    (Nat.modEq_iff_dvd' hle).mp hidx.symm
  have hzero := Nat.eq_zero_of_dvd_of_lt hdvd (by omega)
  omega

/-- **Draining keeps the turn.** -/
theorem inTurn_drain (hne : level ≠ 0) (hlevel : level < numWheels)
    (hbegins : w.currentTick % 2 ^ shift level = 0)
    (hplaced : Placed (pendingFrom w.currentTick level) w) (h : InTurn w) :
    InTurn (w.drain level) := by
  have hlevel4 : level ≤ 4 := Nat.le_of_lt_succ hlevel
  have hemptied : InTurn (w.setBucket (w.currentSlot level) []) :=
    h.setBucket (List.nil_subset _) fun _ => List.Pairwise.nil
  replace hemptied : InTurn (w.emptied level) := hemptied.of_tv rfl (Nat.le_refl _)
  have hold : ∀ {s x}, x ∈ (w.emptied level).tv s → s ≠ w.currentSlot level ∧ x ∈ w.tv s := by
    intro s x hx
    have hset : x ∈ (w.setBucket (w.currentSlot level) []).tv s := hx
    rcases mem_setBucket hset with ⟨-, hmem⟩ | hmem
    · exact nomatch hmem
    · exact hmem
  have hstart : w.currentTick / 2 ^ shift level * 2 ^ shift level = w.currentTick :=
    Nat.div_mul_cancel (Nat.dvd_of_mod_eq_zero hbegins)
  have hfits : ∀ {m i x}, x ∈ w.tv (m, i) → Fits _ w.currentTick m i x :=
    fun hx => hplaced _ _ _ hx
  by_cases hnear : ∀ e ∈ w.tv (w.currentSlot level), e.expires / 2 ^ shift level =
      w.currentTick / 2 ^ shift level
  · -- the span of the bucket begins: its timers go into the finer wheels
    refine Draining.foldl hne hlevel4 ⟨hemptied, hbegins, ?_, ?_, ?_, h.bucket hne, ?_⟩
    · intro m i hm x hx e he
      exact h.finer hm x (hold hx).2 e he
    · intro m i h0 hm x hx
      have hahead := (hfits (hold hx).2).ahead (by unfold pendingFrom; omega)
      have hm0 := begins_of_le hbegins (Nat.le_of_lt hm)
      have hpow : w.currentTick / 2 ^ shift m * 2 ^ shift m = w.currentTick :=
        Nat.div_mul_cancel (Nat.dvd_of_mod_eq_zero hm0)
      calc w.currentTick + 2 ^ shift m = (w.currentTick / 2 ^ shift m + 1) * 2 ^ shift m := by
            rw [Nat.succ_mul, hpow]
        _ ≤ x.expires / 2 ^ shift m * 2 ^ shift m := Nat.mul_le_mul_right _ hahead
        _ ≤ x.expires := Nat.div_mul_le_self _ _
    · intro m i hm y hy e he
      rcases Nat.eq_or_lt_of_le hm with rfl | hm
      · -- another bucket of this wheel belongs to a later span
        have hy' := hfits (hold hy).2
        refine Nat.le_of_lt (Nat.lt_of_div_lt_div (c := 2 ^ shift level) ?_)
        rw [hnear e he]
        refine Nat.lt_of_le_of_ne hy'.begun fun heq => (hold hy).1 ?_
        rw [currentSlot, hy'.bucket, indexForLevel_eq, indexForLevel_eq, heq]
      · exact h.finer hm e he y (hold hy).2
    · intro e he
      have hspan := hnear e he
      refine ⟨?_, ?_, (hfits he).expires⟩
      · calc w.currentTick = e.expires / 2 ^ shift level * 2 ^ shift level := by rw [hspan, hstart]
          _ ≤ e.expires := Nat.div_mul_le_self _ _
      · have hlt := Nat.lt_div_mul_add (a := e.expires) (pow_pos level)
        rw [hspan, hstart] at hlt
        exact hlt
  · -- on the last wheel: one timer is a turn ahead, so they all are and go back
    obtain ⟨far, hfar, hfarSpan⟩ : ∃ e ∈ w.tv (w.currentSlot level), e.expires / 2 ^ shift level ≠
        w.currentTick / 2 ^ shift level := by
      by_contra hall
      exact hnear fun e he => by_contra fun hne => hall ⟨e, he, hne⟩
    have hfarFits := hfits hfar
    have hfarIdx : indexForLevel far.expires level = indexForLevel w.currentTick level :=
      hfarFits.bucket.symm
    have hlast : level = 4 := by
      by_contra hne4
      have hweak := hfarFits.weakTurn (.inr ⟨Nat.le_refl _, hbegins⟩) (by omega)
      exact hfarSpan (span_eq_of_index_eq hfarIdx hfarFits.begun hweak)
    have hslots : ∀ e ∈ w.tv (w.currentSlot level), w.slotFor e.expires = w.currentSlot level := by
      intro e he
      have heFits := hfits he
      have heIdx : indexForLevel e.expires level = indexForLevel w.currentTick level :=
        heFits.bucket.symm
      have hsame : e.expires / 2 ^ shift level = far.expires / 2 ^ shift level := by
        rw [div_shift, div_shift far.expires, heIdx, hfarIdx, h.turn hne e he far hfar]
      have hdist : w.currentTick + 2 ^ shift level ≤ e.expires := by
        have hlt := Nat.lt_of_le_of_ne hfarFits.begun (Ne.symm hfarSpan)
        calc w.currentTick + 2 ^ shift level
            = (w.currentTick / 2 ^ shift level + 1) * 2 ^ shift level := by rw [Nat.succ_mul, hstart]
          _ ≤ e.expires / 2 ^ shift level * 2 ^ shift level :=
            Nat.mul_le_mul_right _ (hsame ▸ hlt)
          _ ≤ e.expires := Nat.div_mul_le_self _ _
      obtain ⟨hwheel, -, hbound⟩ := slotFor_spec (w := w) (by omega) heFits.expires
      have hwheel4 : (w.slotFor e.expires).1 = 4 := by
        by_contra hne4
        have hlt := hbound (by unfold numWheels at hwheel; omega)
        have hpow : 2 ^ shift ((w.slotFor e.expires).1 + 1) ≤ 2 ^ shift level :=
          Nat.pow_le_pow_right (by decide)
            (shift_le (by unfold numWheels at hwheel; omega))
        omega
      refine Prod.ext (hwheel4.trans hlast.symm) ?_
      show indexForLevel e.expires (w.slotFor e.expires).1 = indexForLevel w.currentTick level
      rw [hwheel4, ← hlast, heIdx]
    have htv : (w.drain level).tv = w.tv := by
      rw [drain, foldl_insert_slot (w := w.emptied level) hslots]
      show update (update w.tv _ []) _ (update w.tv _ [] _ ++ _) = w.tv
      rw [update_idem, update_self, List.nil_append, update_eq_self]
    exact h.of_tv htv (Nat.le_of_eq (drain_rearranged hlevel).currentTick.symm)

/-- **The next tick keeps the turn**, up to the timers that expire. -/
theorem inTurn_advanced (hsettled : Settled w) (h : InTurn w) : InTurn w.advanced :=
  (advanced_keeps inTurn_drain hsettled (h.of_tv rfl (Nat.le_succ _))).2

end Cascading

end TimerWheel

/-! ## Runs -/

namespace TimerRun

open TimerWheel

/-- A timer is set, set again or taken out where its turn is. -/
def KeepsTurn (r : TimerRun) : TimerOp → Prop
  | .add expires .. => r.wheel.Joins expires
  | .modify id newExpires =>
    ∀ taken ∈ r.wheel.takeEntry id, r.wheel.TakesInTurn id ∧ taken.2.Joins newExpires
  | .remove id => r.wheel.TakesInTurn id
  | .tick => (r.wheel.advanced.setBucket (r.wheel.advanced.currentSlot 0) []).RearmsInTurn
      (r.wheel.advanced.tv (r.wheel.advanced.currentSlot 0))

instance decidableKeepsTurn (r : TimerRun) : (op : TimerOp) → Decidable (r.KeepsTurn op)
  | .add .. => inferInstanceAs (Decidable (Joins _ _))
  | .modify .. => inferInstanceAs (Decidable (∀ taken ∈ _, _))
  | .remove _ => inferInstanceAs (Decidable (TakesInTurn _ _))
  | .tick => inferInstanceAs (Decidable (RearmsInTurn _ _))

variable {r : TimerRun}

theorem inTurn_modify (hturn : r.wheel.InTurn) {id newExpires : Nat}
    (hnow : r.wheel.currentTick < newExpires) (hlt : newExpires < 2 ^ 64)
    (hkeeps : r.KeepsTurn (.modify id newExpires)) : (r.next (.modify id newExpires)).wheel.InTurn := by
  have hkeeps : ∀ taken ∈ r.wheel.takeEntry id, r.wheel.TakesInTurn id ∧ taken.2.Joins newExpires :=
    hkeeps
  cases htake : r.wheel.takeEntry id with
  | none =>
    have hnext : r.next (.modify id newExpires) = r := by
      simp only [next, modifyTimer, htake]
    rwa [hnext]
  | some taken =>
    obtain ⟨e, w'⟩ := taken
    have hnext : (r.next (.modify id newExpires)).wheel =
        w'.insertEntry { e with expires := newExpires } := by
      simp only [next, modifyTimer, htake]
    rw [hnext]
    obtain ⟨htakes, hjoins⟩ := hkeeps _ htake
    have hsame := (takeEntry_some htake).2.currentTick
    exact inTurn_insert (e := { e with expires := newExpires }) (inTurn_take hturn htake htakes)
      (by rw [hsame]; exact Nat.le_of_lt hnow) hlt hjoins

theorem inTurn_remove (hturn : r.wheel.InTurn) {id : Nat} (hkeeps : r.KeepsTurn (.remove id)) :
    (r.next (.remove id)).wheel.InTurn := by
  cases htake : r.wheel.takeEntry id with
  | none =>
    have hnext : r.next (.remove id) = r := by simp only [next, removeTimer, htake]
    rwa [hnext]
  | some taken =>
    have hnext : (r.next (.remove id)).wheel = { taken.2 with pending := taken.2.pending - 1 } := by
      simp only [next, removeTimer, htake]
    rw [hnext]
    exact (inTurn_take hturn htake hkeeps).of_tv rfl (Nat.le_refl _)

theorem inTurn_tick (h : Tracked r) (hturn : r.wheel.InTurn) (hbounds : r.InBounds .tick)
    (hkeeps : r.KeepsTurn .tick) : (r.next .tick).wheel.InTurn := by
  show r.wheel.tick.2.InTurn
  rw [tick_eq]
  refine inTurn_foldl_expire _ ?_ (fun e he => ?_) hkeeps
  · exact (inTurn_advanced h.settled hturn).setBucket (List.nil_subset _) fun _ => List.Pairwise.nil
  · -- what is taken is due at the tick
    have hnow := advanced_rearranged (w := r.wheel)
    have hdue := (due_iff (advanced_spec h.settled) he).mp rfl
    have hmem : e ∈ r.wheel.contents :=
      contents_taken (w := r.wheel) ▸ Multiset.mem_add.mpr (.inr (Multiset.mem_coe.mpr he))
    show Rearms r.wheel.advanced.currentTick e
    rw [hnow.currentTick] at hdue ⊢
    exact h.rearms hbounds e hmem hdue

theorem inTurn_step {r' : TimerRun} {op : TimerOp} (h : Tracked r) (hturn : r.wheel.InTurn)
    (hbounds : r.InBounds op) (hkeeps : r.KeepsTurn op) (hstep : timerMachine.step r op r') :
    r'.wheel.InTurn := by
  obtain rfl : r' = r.next op := hstep
  cases op with
  | add expires callbackId data flags =>
    have hinsert := inTurn_insert (e := ⟨r.wheel.nextId, expires, callbackId, data, flags,
      if flags.periodic then some (expires - r.wheel.currentTick) else none⟩) hturn
      (Nat.le_of_lt hbounds.1) hbounds.2 hkeeps
    exact hinsert.of_tv rfl (Nat.le_refl _)
  | modify id newExpires => exact inTurn_modify hturn hbounds.1 hbounds.2 hkeeps
  | remove id => exact inTurn_remove hturn hkeeps
  | tick => exact inTurn_tick h hturn hbounds hkeeps

/-- **Runs whose timers are set in turn** keep the order of the search. -/
theorem inTurn_of_run (h : timerMachine.Run (fun r op => r.InBounds op ∧ r.KeepsTurn op) r) :
    Tracked r ∧ r.wheel.InTurn := by
  refine h.invariant (I := fun r => Tracked r ∧ r.wheel.InTurn) ?_ fun _ _ _ hr hg hstep =>
    ⟨tracked_step hr.1 hg.1 hstep, inTurn_step hr.1 hr.2 hg.1 hg.2 hstep⟩
  rintro _ rfl
  exact ⟨tracked_init rfl, inTurn_new⟩

end TimerRun

end AthenaOS
