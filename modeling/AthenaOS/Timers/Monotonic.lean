import AthenaOS.Lib.Overflow

/-!
# The monotonic clock

`TscCalibration`, `MonotonicClock` and the uptime of `TimerSubsystem` in
`kernel/src/timers.rs`: nanoseconds from the readings of a cycle counter.
-/

namespace AthenaOS

open Lib

/-- `TscCalibration`. -/
structure TscCalibration where
  frequencyHz : UInt64

/-- `tsc_to_ns`. -/
def TscCalibration.tscToNs? (cal : TscCalibration) (tsc : UInt64) : Option UInt64 :=
  if cal.frequencyHz = 0 then some 0
  else do
    let product ← checkedMul64 tsc 1000000000
    return product / cal.frequencyHz

/-- `MonotonicClock`. -/
structure MonotonicClock where
  tscCal : TscCalibration
  baseTsc : UInt64
  baseNs : UInt64

/-- `MonotonicClock::new` at a reading. -/
def MonotonicClock.new (tscCal : TscCalibration) (reading : UInt64) : MonotonicClock := ⟨tscCal, reading, 0⟩

/-- `now_ns` at a reading. -/
def MonotonicClock.nowNs? (clock : MonotonicClock) (currentTsc : UInt64) : Option UInt64 := do
  let delta := currentTsc - clock.baseTsc
  checkedAdd64 clock.baseNs (← clock.tscCal.tscToNs? delta)

/-- The clock of `TimerSubsystem`. -/
structure TimerSubsystem where
  tsc : TscCalibration
  bootTimeNs : UInt64

/-- `TimerSubsystem::new` at a reading. -/
def TimerSubsystem.new? (tsc : TscCalibration) (bootNs : UInt64) : Option TimerSubsystem := do
  return ⟨tsc, ← tsc.tscToNs? bootNs⟩

/-- `saturating_sub`. -/
def saturatingSub (a b : UInt64) : UInt64 := if b ≤ a then a - b else 0

/-- `uptime_ns` at a reading. -/
def TimerSubsystem.uptimeNs? (s : TimerSubsystem) (currentTsc : UInt64) : Option UInt64 := do
  return saturatingSub (← s.tsc.tscToNs? currentTsc) s.bootTimeNs

/-! ## Accuracy -/

/-- The nanoseconds from the base to a reading. -/
def elapsedNs (cal : TscCalibration) (base t : UInt64) : ℚ :=
  ((t.toNat - base.toNat : Nat) : ℚ) * 10 ^ 9 / cal.frequencyHz.toNat

/-- The clock has a value at every reading, never goes back, and is off by at most a
nanosecond. -/
def Accurate (cal : TscCalibration) (base : UInt64) (clock : UInt64 → Option UInt64)
    (readings : List UInt64) : Prop :=
  ∃ values, readings.map clock = values.map some ∧ values.Pairwise (· ≤ ·) ∧
    List.Forall₂ (fun t v => |(v.toNat : ℚ) - elapsedNs cal base t| ≤ 1) readings values

variable {cal : TscCalibration} {base t t' : UInt64} {clock : UInt64 → Option UInt64}

theorem tscToNs?_eq (hf : 0 < cal.frequencyHz) (h : t.toNat * 10 ^ 9 < 2 ^ 64) :
    ∃ v, cal.tscToNs? t = some v ∧ v.toNat = t.toNat * 10 ^ 9 / cal.frequencyHz.toNat := by
  refine ⟨t * 1000000000 / cal.frequencyHz, ?_, ?_⟩
  · rw [TscCalibration.tscToNs?, if_neg (UInt64.ne_of_lt hf).symm,
      bind_of_some (checkedMul64_eq_some.mpr ⟨h, rfl⟩)]
    rfl
  · rw [UInt64.toNat_div, UInt64.toNat_mul]
    exact congrArg (· / cal.frequencyHz.toNat) (Nat.mod_eq_of_lt h)

theorem lt_of_tscToNs?_isSome (hf : 0 < cal.frequencyHz) (h : (cal.tscToNs? t).isSome) :
    t.toNat * 10 ^ 9 < 2 ^ 64 := by
  obtain ⟨v, hv⟩ := Option.isSome_iff_exists.mp h
  rw [TscCalibration.tscToNs?, if_neg (UInt64.ne_of_lt hf).symm] at hv
  obtain ⟨p, hp, -⟩ := Option.bind_eq_some_iff.mp hv
  exact (checkedMul64_eq_some.mp hp).1

/-- A clock whose values grow with the reading and are near the elapsed time. -/
theorem Accurate.of_values {value : UInt64 → Nat} {readings : List UInt64}
    (hclock : ∀ t ∈ readings, ∃ v, clock t = some v ∧ v.toNat = value t)
    (hsorted : readings.Pairwise (· ≤ ·)) (hmono : ∀ t t' : UInt64, t ≤ t' → value t ≤ value t')
    (hnear : ∀ t ∈ readings, |(value t : ℚ) - elapsedNs cal base t| ≤ 1) :
    Accurate cal base clock readings := by
  have hget : ∀ t ∈ readings, clock t = some ((clock t).getD 0) ∧ ((clock t).getD 0).toNat = value t := by
    intro t ht
    obtain ⟨v, hv, hval⟩ := hclock t ht
    rw [hv]
    exact ⟨rfl, hval⟩
  refine ⟨readings.map fun t => (clock t).getD 0, ?_, ?_, ?_⟩
  · rw [List.map_map]
    exact List.map_congr_left fun t ht => (hget t ht).1
  · refine List.pairwise_map.mpr (hsorted.imp_of_mem fun {t t'} ht ht' hle => ?_)
    rw [UInt64.le_iff_toNat_le, (hget t ht).2, (hget t' ht').2]
    exact hmono t t' hle
  · refine List.forall₂_map_right_iff.mpr (List.forall₂_same.mpr fun t ht => ?_)
    rw [(hget t ht).2]
    exact hnear t ht

/-- Rounding down twice: the difference of two quotients is within one of the quotient. -/
theorem near_of_floors {x y f v : Nat} (hf : 0 < f) (hle : y ≤ x) (hv : v = x / f - y / f) :
    |(v : ℚ) - ((x - y : Nat) : ℚ) / f| ≤ 1 := by
  have hfq : (0 : ℚ) < f := Nat.cast_pos.mpr hf
  have hx := Nat.div_add_mod x f
  have hy := Nat.div_add_mod y f
  have hxlt := Nat.mod_lt x hf
  have hylt := Nat.mod_lt y hf
  have hquot : y / f ≤ x / f := Nat.div_le_div_right hle
  have hmul : f * (x / f) = f * v + f * (y / f) := by
    rw [hv, ← Nat.mul_add, Nat.sub_add_cancel hquot]
  have hlow : (((x - y : Nat) : ℚ)) / f ≤ v + 1 := by
    rw [div_le_iff₀ hfq, add_mul, one_mul, mul_comm]
    exact_mod_cast (by omega : x - y ≤ f * v + f)
  have hhigh : (v : ℚ) - 1 ≤ ((x - y : Nat) : ℚ) / f := by
    rw [le_div_iff₀ hfq, sub_mul, one_mul, mul_comm, sub_le_iff_le_add]
    exact_mod_cast (by omega : f * v ≤ x - y + f)
  exact abs_sub_le_iff.mpr ⟨by linarith, by linarith⟩

/-! ## The clocks -/

variable {readings : List UInt64}

theorem toNat_sub_of_le (h : base ≤ t) : (t - base).toNat = t.toNat - base.toNat := UInt64.toNat_sub_of_le _ _ h

theorem nowNs?_eq (hf : 0 < cal.frequencyHz) (hle : base ≤ t) (h : t.toNat * 10 ^ 9 < 2 ^ 64) :
    ∃ v, (MonotonicClock.new cal base).nowNs? t = some v ∧
      v.toNat = (t.toNat - base.toNat) * 10 ^ 9 / cal.frequencyHz.toNat := by
  have hsub := toNat_sub_of_le hle
  have hlt : (t - base).toNat * 10 ^ 9 < 2 ^ 64 :=
    Nat.lt_of_le_of_lt (Nat.mul_le_mul_right _ (by rw [hsub]; exact Nat.sub_le _ _)) h
  obtain ⟨v, hv, hval⟩ := tscToNs?_eq hf hlt
  refine ⟨v, ?_, by rw [hval, hsub]⟩
  rw [MonotonicClock.nowNs?, MonotonicClock.new, bind_of_some hv]
  exact checkedAdd64_eq_some.mpr ⟨by simpa using v.toNat_lt, UInt64.zero_add v⟩

theorem uptimeNs?_eq (hf : 0 < cal.frequencyHz) (hle : base ≤ t) (h : t.toNat * 10 ^ 9 < 2 ^ 64) :
    ∃ v, (TimerSubsystem.new? cal base >>= fun s => s.uptimeNs? t) = some v ∧
      v.toNat = t.toNat * 10 ^ 9 / cal.frequencyHz.toNat - base.toNat * 10 ^ 9 / cal.frequencyHz.toNat := by
  have hle' : base.toNat * 10 ^ 9 ≤ t.toNat * 10 ^ 9 := Nat.mul_le_mul_right _ hle
  obtain ⟨b, hb, hbval⟩ := tscToNs?_eq hf (Nat.lt_of_le_of_lt hle' h)
  obtain ⟨v, hv, hval⟩ := tscToNs?_eq hf h
  have hbv : b ≤ v := UInt64.le_iff_toNat_le.mpr (by rw [hbval, hval]; exact Nat.div_le_div_right hle')
  refine ⟨v - b, ?_, by rw [toNat_sub_of_le hbv, hval, hbval]⟩
  rw [TimerSubsystem.new?, bind_of_some hb]
  show (TimerSubsystem.uptimeNs? ⟨cal, b⟩ t) = _
  rw [TimerSubsystem.uptimeNs?, bind_of_some hv]
  exact congrArg some (if_pos hbv)

/-- **When the clocks are accurate**: over non-decreasing readings from the base on, exactly
when no reading times `10 ^ 9` leaves 64 bits. -/
theorem accurate_iff (hf : 0 < cal.frequencyHz) (hsorted : (base :: readings).Pairwise (· ≤ ·)) :
    (Accurate cal base (MonotonicClock.new cal base).nowNs? (base :: readings) ∧
      Accurate cal base (fun t => TimerSubsystem.new? cal base >>= fun s => s.uptimeNs? t)
        (base :: readings)) ↔
    ∀ t ∈ base :: readings, t.toNat * 10 ^ 9 < 2 ^ 64 := by
  have hbase : ∀ t ∈ base :: readings, base ≤ t := fun t ht => by
    rcases List.mem_cons.mp ht with rfl | ht
    · exact UInt64.le_refl _
    · exact (List.pairwise_cons.mp hsorted).1 t ht
  have hfpos : 0 < cal.frequencyHz.toNat := UInt64.lt_iff_toNat_lt.mp hf
  constructor
  · rintro ⟨-, values, hmap, -, -⟩ t ht
    obtain ⟨v, -, hv⟩ := List.mem_map.mp (hmap ▸ List.mem_map_of_mem ht)
    obtain ⟨s, hs, hup⟩ := Option.bind_eq_some_iff.mp hv.symm
    obtain ⟨b, -, hb⟩ := Option.bind_eq_some_iff.mp hs
    obtain ⟨w, hw, -⟩ := Option.bind_eq_some_iff.mp hup
    obtain rfl : (⟨cal, b⟩ : TimerSubsystem) = s := Option.some.inj hb
    exact lt_of_tscToNs?_isSome hf (Option.isSome_of_eq_some hw)
  · intro h
    constructor
    · refine .of_values (fun t ht => nowNs?_eq hf (hbase t ht) (h t ht)) hsorted
        (fun t t' hle => Nat.div_le_div_right (Nat.mul_le_mul_right _ (Nat.sub_le_sub_right hle _)))
        fun t ht => ?_
      have hnear := near_of_floors hfpos (Nat.zero_le ((t.toNat - base.toNat) * 10 ^ 9)) rfl
      rwa [Nat.zero_div, Nat.sub_zero, Nat.sub_zero, Nat.cast_mul, Nat.cast_pow, Nat.cast_ofNat] at hnear
    · refine .of_values (fun t ht => uptimeNs?_eq hf (hbase t ht) (h t ht)) hsorted
        (fun t t' hle => Nat.sub_le_sub_right (Nat.div_le_div_right (Nat.mul_le_mul_right _ hle)) _)
        fun t ht => ?_
      have hnear := near_of_floors hfpos (Nat.mul_le_mul_right (10 ^ 9) (hbase t ht)) rfl
      rwa [← Nat.sub_mul, Nat.cast_mul, Nat.cast_pow, Nat.cast_ofNat] at hnear

/-- Two readings a second apart at 1 GHz. -/
theorem accurate_second :
    Accurate ⟨1000000000⟩ 5 (MonotonicClock.new ⟨1000000000⟩ 5).nowNs? [5, 1000000005] ∧
      Accurate ⟨1000000000⟩ 5 (fun t => TimerSubsystem.new? ⟨1000000000⟩ 5 >>= fun s => s.uptimeNs? t)
        [5, 1000000005] :=
  (accurate_iff (by decide) (by decide)).mpr
    (List.forall_mem_cons.mpr ⟨by decide, List.forall_mem_singleton.mpr (by decide)⟩)

/-- **After six seconds at 3 GHz the product overflows.** -/
theorem clock_overflows :
    ¬ (Accurate ⟨3000000000⟩ 0 (MonotonicClock.new ⟨3000000000⟩ 0).nowNs? [0, 18446744074] ∧
      Accurate ⟨3000000000⟩ 0 (fun t => TimerSubsystem.new? ⟨3000000000⟩ 0 >>= fun s => s.uptimeNs? t)
        [0, 18446744074]) := by
  rintro ⟨⟨values, hmap, -⟩, -⟩
  have hmem : (MonotonicClock.new ⟨3000000000⟩ 0).nowNs? 18446744074 ∈ values.map some :=
    hmap ▸ List.mem_map_of_mem (by decide)
  have hnone : (MonotonicClock.new ⟨3000000000⟩ 0).nowNs? 18446744074 = none := by decide
  obtain ⟨v, -, hv⟩ := List.mem_map.mp (hnone ▸ hmem)
  exact nomatch hv

end AthenaOS
