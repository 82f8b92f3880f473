import Mathlib

/-!
# Civil dates and day numbers

Day 0 is 1970-01-01. A date is a year, a month and a day of the month, taken as they are.
-/

namespace AthenaOS.Pim

/-- `(year, month, day)` -/
abbrev Civil : Type := Int × Nat × Nat

/-- The year starts in March, so that the leap day ends it. -/
def daysFromCivil (y m d : Int) : Int :=
  let y := if m ≤ 2 then y - 1 else y
  let era := Int.tdiv (if y ≥ 0 then y else y - 399) 400
  let yoe := y - era * 400
  let mp := Int.tmod (m + 9) 12
  let doy := Int.tdiv (153 * mp + 2) 5 + d - 1
  let doe := yoe * 365 + Int.tdiv yoe 4 - Int.tdiv yoe 100 + doy
  era * 146097 + doe - 719468

def civilFromDays (z : Int) : Civil :=
  let z := z + 719468
  let era := Int.tdiv (if z ≥ 0 then z else z - 146096) 146097
  let doe := z - era * 146097
  let yoe := Int.tdiv (doe - Int.tdiv doe 1460 + Int.tdiv doe 36524 - Int.tdiv doe 146096) 365
  let y := yoe + era * 400
  let doy := doe - (365 * yoe + Int.tdiv yoe 4 - Int.tdiv yoe 100)
  let mp := Int.tdiv (5 * doy + 2) 153
  let d := doy - Int.tdiv (153 * mp + 2) 5 + 1
  let m := if mp < 10 then mp + 3 else mp - 9
  let y := if m ≤ 2 then y + 1 else y
  (y, m.toNat, d.toNat)

/-- 0 is Sunday. -/
def weekdayFromDays (z : Int) : Nat := (Int.tmod (Int.tmod z 7 + 4 + 7) 7).toNat

def isLeap (year : Int) : Bool :=
  (Int.tmod year 4 == 0 && Int.tmod year 100 != 0) || Int.tmod year 400 == 0

def daysInMonth (year : Int) : Nat → Nat
  | 1 | 3 | 5 | 7 | 8 | 10 | 12 => 31
  | 4 | 6 | 9 | 11 => 30
  | 2 => if isLeap year then 29 else 28
  | _ => 0

def addDays (y : Int) (m d : Nat) (n : Int) : Civil := civilFromDays (daysFromCivil y m d + n)

/-- The day is moved back to the last one of the month it ends up in. -/
def addMonths (y : Int) (m d : Nat) (n : Int) : Civil :=
  let total := y * 12 + (m - 1) + n
  -- `div_euclid` and `rem_euclid`
  let ny := total / 12
  let nm := (total % 12 + 1).toNat
  let last := daysInMonth ny nm
  (ny, nm, if d > last then last else d)

/-! ## Day numbers -/

/-- The division that rounds towards zero, corrected for negative numbers, rounds down. -/
theorem tdiv_floor (x n : Int) (hn : 0 < n) :
    Int.tdiv (if x ≥ 0 then x else x - (n - 1)) n = x / n := by
  split
  · rename_i h
    exact Int.tdiv_eq_ediv_of_nonneg h
  · rename_i h
    have hsplit : n - 1 - x = (n - 1 - x % n) + (-(x / n)) * n := by
      have hdiv := Int.emod_add_mul_ediv x n
      rw [Int.neg_mul, Int.mul_comm]
      omega
    have hsmall : (n - 1 - x % n) / n = 0 := by
      have hlt := Int.emod_lt_of_pos x hn
      have hge := Int.emod_nonneg x hn.ne'
      exact Int.ediv_eq_zero_of_lt (by omega) (by omega)
    have hneg : x - (n - 1) = -(n - 1 - x) := by omega
    rw [hneg, Int.neg_tdiv, Int.tdiv_eq_ediv_of_nonneg (by omega), hsplit,
      Int.add_mul_ediv_right _ _ hn.ne', hsmall]
    omega

/-- Day numbers with divisions that round down. -/
theorem daysFromCivil_eq (y m d : Int) (hm : 0 ≤ m) :
    daysFromCivil y m d =
      let y := if m ≤ 2 then y - 1 else y
      365 * y + y / 4 - y / 100 + y / 400 + (153 * ((m + 9) % 12) + 2) / 5 + d - 719469 := by
  have hera : ∀ y : Int, Int.tdiv (if y ≥ 0 then y else y - 399) 400 = y / 400 :=
    fun y => tdiv_floor y 400 (by decide)
  simp only [daysFromCivil, hera]
  generalize (if m ≤ 2 then y - 1 else y) = y'
  have hmp : Int.tmod (m + 9) 12 = (m + 9) % 12 := Int.tmod_eq_emod_of_nonneg (by omega)
  have hnonneg : 0 ≤ (m + 9) % 12 := Int.emod_nonneg _ (by decide)
  rw [hmp, Int.tdiv_eq_ediv_of_nonneg (show 0 ≤ 153 * ((m + 9) % 12) + 2 by omega),
    Int.tdiv_eq_ediv_of_nonneg (show 0 ≤ y' - y' / 400 * 400 by omega),
    Int.tdiv_eq_ediv_of_nonneg (show 0 ≤ y' - y' / 400 * 400 by omega)]
  omega

variable {y d n : Int} {m : Nat} {date : Civil}

/-- From March on. -/
theorem daysFromCivil_late {m : Int} (h₃ : 3 ≤ m) (h₁₂ : m ≤ 12) :
    daysFromCivil y m d =
      365 * y + y / 4 - y / 100 + y / 400 + (153 * (m - 3) + 2) / 5 + d - 719469 := by
  rw [daysFromCivil_eq y m d (by omega), if_neg (show ¬ m ≤ 2 by omega),
    show (m + 9) % 12 = m - 3 by omega]

/-- January and February count with the year before. -/
theorem daysFromCivil_early {m : Int} (h₁ : 1 ≤ m) (h₂ : m ≤ 2) :
    daysFromCivil y m d = 365 * (y - 1) + (y - 1) / 4 - (y - 1) / 100 + (y - 1) / 400 +
      (153 * (m + 9) + 2) / 5 + d - 719469 := by
  rw [daysFromCivil_eq y m d (by omega), if_pos h₂, show (m + 9) % 12 = m + 9 by omega]

/-- The days of 400 years fall into 400 years of 365 or 366 days. -/
theorem yearOfEra_bounds (doe : Int) (h₀ : 0 ≤ doe) (h₁ : doe ≤ 146096) :
    let yoe := (doe - doe / 1460 + doe / 36524 - doe / 146096) / 365
    let doy := doe - (365 * yoe + yoe / 4 - yoe / 100)
    0 ≤ yoe ∧ yoe ≤ 399 ∧ 0 ≤ doy ∧ doy ≤ 365 := by
  intro yoe doy
  by_cases hlast : doe = 146096
  · simp only [yoe, doy, hlast]
    decide
  · have hera : doe / 146096 = 0 := by omega
    have hthree : doe / 36524 ≤ 3 := by omega
    have hyoe : yoe = (doe - doe / 1460 + doe / 36524) / 365 := by
      simp only [yoe, hera, Int.sub_zero]
    -- the estimate is right about the century, and not ahead by a leap cycle
    have hcentury : yoe / 100 = doe / 36524 := by omega
    have hcycle : yoe / 4 ≤ doe / 1460 := by omega
    simp only [doy]
    rw [hcentury]
    omega

/-- The last day of February ends a year of 366 days, and there is one every leap year. -/
theorem yearOfEra_leap (doe : Int) (h₀ : 0 ≤ doe) (h₁ : doe ≤ 146096) :
    let yoe := (doe - doe / 1460 + doe / 36524 - doe / 146096) / 365
    doe - (365 * yoe + yoe / 4 - yoe / 100) = 365 → (yoe + 1) % 4 = 0 ∧ ((yoe + 1) % 100 ≠ 0 ∨ (yoe + 1) % 400 = 0) := by
  intro yoe hdoy
  by_cases hlast : doe = 146096
  · simp only [yoe, hlast]
    decide
  · have hera : doe / 146096 = 0 := by omega
    have hthree : doe / 36524 ≤ 3 := by omega
    have hyoe : yoe = (doe - doe / 1460 + doe / 36524) / 365 := by
      simp only [yoe, hera, Int.sub_zero]
    have hcentury : yoe / 100 = doe / 36524 := by omega
    have hcycle : yoe / 4 < doe / 1460 := by omega
    have hsmall : yoe / 4 ≤ 99 := by omega
    -- a whole leap cycle is over
    have hcycleEnd : 1460 * (yoe / 4) + 1460 ≤ doe := by omega
    have hthird : 3 ≤ yoe - 4 * (yoe / 4) := by omega
    have hcenturyEnd : ∀ c : Int, yoe = 100 * c + 99 → doe / 36524 = c + 1 := by
      intro c hc
      omega
    refine ⟨by omega, .inl fun hmod => ?_⟩
    have hnext := hcenturyEnd (yoe / 100) (by omega)
    omega

/-- The date of a day of an era, by year of the era and day of the year. -/
def civilOfParts (era yoe doy : Int) : Civil :=
  let mp := (5 * doy + 2) / 153
  let m := if mp < 10 then mp + 3 else mp - 9
  (if m ≤ 2 then yoe + era * 400 + 1 else yoe + era * 400, m.toNat,
    (doy - (153 * mp + 2) / 5 + 1).toNat)

/-- A day number is split with divisions that round down. -/
theorem civilFromDays_eq (z : Int) : ∃ era yoe doy, 0 ≤ yoe ∧ yoe ≤ 399 ∧ 0 ≤ doy ∧ doy ≤ 365 ∧
    (doy = 365 → (yoe + 1) % 4 = 0 ∧ ((yoe + 1) % 100 ≠ 0 ∨ (yoe + 1) % 400 = 0)) ∧
    z = era * 146097 + 365 * yoe + yoe / 4 - yoe / 100 + doy - 719468 ∧
    civilFromDays z = civilOfParts era yoe doy := by
  have hera : Int.tdiv (if z + 719468 ≥ 0 then z + 719468 else z + 719468 - 146096) 146097
      = (z + 719468) / 146097 := tdiv_floor (z + 719468) 146097 (by decide)
  have hdoe : z + 719468 - (z + 719468) / 146097 * 146097 = (z + 719468) % 146097 := by omega
  simp only [civilFromDays, hera, hdoe]
  have h₀ : 0 ≤ (z + 719468) % 146097 := Int.emod_nonneg _ (by decide)
  have h₁ : (z + 719468) % 146097 ≤ 146096 := by omega
  have hz : z = (z + 719468) / 146097 * 146097 + (z + 719468) % 146097 - 719468 := by omega
  generalize (z + 719468) % 146097 = doe at h₀ h₁ hz ⊢
  generalize (z + 719468) / 146097 = era at hz ⊢
  obtain ⟨hyoe₀, hyoe₁, hdoy₀, hdoy₁⟩ := yearOfEra_bounds doe h₀ h₁
  have hleap := yearOfEra_leap doe h₀ h₁
  rw [Int.tdiv_eq_ediv_of_nonneg h₀, Int.tdiv_eq_ediv_of_nonneg h₀, Int.tdiv_eq_ediv_of_nonneg h₀,
    Int.tdiv_eq_ediv_of_nonneg (show 0 ≤ doe - doe / 1460 + doe / 36524 - doe / 146096 by omega)]
  generalize (doe - doe / 1460 + doe / 36524 - doe / 146096) / 365 = yoe
    at hyoe₀ hyoe₁ hdoy₀ hdoy₁ hleap ⊢
  rw [Int.tdiv_eq_ediv_of_nonneg hyoe₀, Int.tdiv_eq_ediv_of_nonneg hyoe₀]
  refine ⟨era, yoe, doe - (365 * yoe + yoe / 4 - yoe / 100), hyoe₀, hyoe₁, hdoy₀, hdoy₁, hleap, ?_, ?_⟩
  · rw [hz]
    omega
  · generalize doe - (365 * yoe + yoe / 4 - yoe / 100) = doy at hdoy₀ hdoy₁ ⊢
    rw [Int.tdiv_eq_ediv_of_nonneg (show 0 ≤ 5 * doy + 2 by omega),
      Int.tdiv_eq_ediv_of_nonneg (show 0 ≤ 153 * ((5 * doy + 2) / 153) + 2 by omega)]
    rfl

/-- A day number has a month and a day of the month. -/
theorem civilFromDays_bounds (z : Int) :
    1 ≤ (civilFromDays z).2.1 ∧ (civilFromDays z).2.1 ≤ 12 ∧
      1 ≤ (civilFromDays z).2.2 ∧ (civilFromDays z).2.2 ≤ 31 := by
  obtain ⟨era, yoe, doy, -, -, hdoy₀, hdoy₁, -, -, heq⟩ := civilFromDays_eq z
  rw [heq]
  simp only [civilOfParts]
  refine ⟨?_, ?_, by omega, by omega⟩
  · split <;> omega
  · split <;> omega

/-- Every day number is that of its date. -/
theorem daysFromCivil_civilFromDays (z : Int) :
    daysFromCivil (civilFromDays z).1 (civilFromDays z).2.1 (civilFromDays z).2.2 = z := by
  obtain ⟨era, yoe, doy, hyoe₀, hyoe₁, hdoy₀, hdoy₁, -, hz, heq⟩ := civilFromDays_eq z
  have h4 : (yoe + era * 400) / 4 = yoe / 4 + era * 100 := by omega
  have h100 : (yoe + era * 400) / 100 = yoe / 100 + era * 4 := by omega
  have h400 : (yoe + era * 400) / 400 = era := by omega
  by_cases hmp : (5 * doy + 2) / 153 < 10
  · have hcivil : civilOfParts era yoe doy = (yoe + era * 400, ((5 * doy + 2) / 153 + 3).toNat,
        (doy - (153 * ((5 * doy + 2) / 153) + 2) / 5 + 1).toNat) := by
      simp only [civilOfParts, if_pos hmp]
      rw [if_neg (by omega)]
    rw [heq, hcivil]
    dsimp only
    rw [daysFromCivil_late (by omega) (by omega), h4, h100, h400]
    omega
  · have hcivil : civilOfParts era yoe doy = (yoe + era * 400 + 1,
        ((5 * doy + 2) / 153 - 9).toNat, (doy - (153 * ((5 * doy + 2) / 153) + 2) / 5 + 1).toNat) := by
      simp only [civilOfParts, if_neg hmp]
      rw [if_pos (by omega)]
    rw [heq, hcivil]
    dsimp only
    rw [daysFromCivil_early (by omega) (by omega), Int.add_sub_cancel, h4, h100, h400]
    omega

/-! ## Months -/

/-- The day number of the first day of a month, by the months since year 0. -/
def monthStart (t : Int) : Int := daysFromCivil (t / 12) (t % 12 + 1) 1

/-- A day of a month, by the months since year 0. -/
theorem daysFromCivil_eq_monthStart (t : Int) (d : Int) :
    daysFromCivil (t / 12) (t % 12 + 1) d = monthStart t + d - 1 := by
  rw [monthStart, daysFromCivil_eq _ _ _ (by omega), daysFromCivil_eq _ _ _ (by omega)]
  dsimp only
  omega

theorem isLeap_iff (y : Int) : isLeap y = true ↔ y % 4 = 0 ∧ y % 100 ≠ 0 ∨ y % 400 = 0 := by
  have hdvd : ∀ n : Int, Int.tmod y n = 0 ↔ y % n = 0 := by
    intro n
    rw [← Int.dvd_iff_tmod_eq_zero, ← Int.dvd_iff_emod_eq_zero]
  simp only [isLeap, Bool.or_eq_true, Bool.and_eq_true, beq_iff_eq, bne_iff_ne, Ne, hdvd]

/-- From March to November a month is as long as the formula says. -/
theorem daysInMonth_late (y : Int) (m : Nat) (h₃ : 3 ≤ m) (h₁₁ : m ≤ 11) :
    (daysInMonth y m : Int) = (153 * ((m : Int) - 2) + 2) / 5 - (153 * ((m : Int) - 3) + 2) / 5 := by
  interval_cases m <;> rfl

/-- The next month starts when this one is over. -/
theorem monthStart_succ (t : Int) :
    monthStart (t + 1) = monthStart t + daysInMonth (t / 12) (t % 12 + 1).toNat := by
  rw [monthStart, monthStart]
  generalize hy : t / 12 = y
  by_cases hdec : t % 12 = 11
  · rw [show (t + 1) / 12 = y + 1 by omega, show (t + 1) % 12 + 1 = 1 by omega, hdec,
      daysFromCivil_early (by decide) (by decide), daysFromCivil_late (by decide) (by decide)]
    show _ = _ + 31
    omega
  · rw [show (t + 1) / 12 = y by omega, show (t + 1) % 12 = t % 12 + 1 by omega]
    generalize hm : t % 12 = m
    have hm₀ : 0 ≤ m := by omega
    have hm₁ : m < 11 := by omega
    -- February is the month whose length depends on the year
    by_cases hfeb : m = 1
    · subst hfeb
      rw [daysFromCivil_late (by decide) (by decide), daysFromCivil_early (by decide) (by decide)]
      show _ = _ + ((if isLeap y = true then 29 else 28 : Nat) : Int)
      by_cases hleap : isLeap y = true
      · rw [if_pos hleap]
        rw [isLeap_iff] at hleap
        omega
      · rw [if_neg hleap]
        rw [isLeap_iff] at hleap
        omega
    · by_cases hjan : m = 0
      · subst hjan
        rw [daysFromCivil_early (by decide) (by decide), daysFromCivil_early (by decide) (by decide)]
        show _ = _ + 31
        omega
      · rw [daysFromCivil_late (by omega) (by omega), daysFromCivil_late (by omega) (by omega),
          daysInMonth_late y (m + 1).toNat (by omega) (by omega), Int.toNat_of_nonneg (by omega)]
        omega

theorem daysInMonth_le (y : Int) (m : Nat) : daysInMonth y m ≤ 31 := by
  rw [daysInMonth.eq_def]
  split
  all_goals first | omega | (split <;> omega)

theorem le_daysInMonth (y : Int) (h₁ : 1 ≤ m) (h₁₂ : m ≤ 12) : 28 ≤ daysInMonth y m := by
  by_cases hfeb : m = 2
  · subst hfeb
    rw [daysInMonth]
    split <;> omega
  · interval_cases m
    all_goals first | contradiction | exact (by decide : 28 ≤ 31) | exact (by decide : 28 ≤ 30)

theorem daysInMonth_eq_zero (y : Int) (h : m = 0 ∨ 12 < m) : daysInMonth y m = 0 := by
  rw [daysInMonth.eq_def]
  split
  all_goals omega

/-- A later month starts four weeks later at least. -/
theorem monthStart_add (t : Int) (n : Nat) : monthStart t + 28 * n ≤ monthStart (t + n) := by
  induction n with
  | zero => simp
  | succ n ih =>
    have hlen := le_daysInMonth ((t + n) / 12) (m := ((t + n) % 12 + 1).toNat) (by omega) (by omega)
    have hsucc := monthStart_succ (t + n)
    rw [show t + ((n + 1 : Nat) : Int) = t + n + 1 by omega, hsucc]
    omega

/-- The first day of a month given by year and month. -/
theorem daysFromCivil_month (y d : Int) (h₁ : 1 ≤ m) (h₁₂ : m ≤ 12) :
    daysFromCivil y m d = monthStart (y * 12 + (m - 1)) + d - 1 := by
  rw [← daysFromCivil_eq_monthStart, show (y * 12 + ((m : Int) - 1)) / 12 = y by omega,
    show (y * 12 + ((m : Int) - 1)) % 12 + 1 = m by omega]

/-- Where `addMonths` ends up. -/
theorem addMonths_spec (y : Int) (m d : Nat) (n : Int) :
    1 ≤ (addMonths y m d n).2.1 ∧ (addMonths y m d n).2.1 ≤ 12 ∧ (addMonths y m d n).2.2 ≤ 31 ∧
      min d 28 ≤ (addMonths y m d n).2.2 ∧
      (addMonths y m d n).1 * 12 + ((addMonths y m d n).2.1 - 1) = y * 12 + (m - 1) + n := by
  simp only [addMonths]
  generalize y * 12 + ((m : Int) - 1) + n = t
  have hmonth : 1 ≤ (t % 12 + 1).toNat ∧ (t % 12 + 1).toNat ≤ 12 := by omega
  have hle := daysInMonth_le (t / 12) (t % 12 + 1).toNat
  have hge := le_daysInMonth (t / 12) hmonth.1 hmonth.2
  refine ⟨hmonth.1, hmonth.2, ?_, ?_, by omega⟩
  · split <;> omega
  · split <;> omega

/-- Months later is later, whatever day the end of the month leaves. -/
theorem daysFromCivil_lt_addMonths (y : Int) {d : Nat} (h₁ : 1 ≤ m) (h₁₂ : m ≤ 12) (hd : d ≤ 31)
    (hn : 0 < n) :
    daysFromCivil y m d <
      daysFromCivil (addMonths y m d n).1 (addMonths y m d n).2.1 (addMonths y m d n).2.2 := by
  obtain ⟨hm₁, hm₁₂, -, hday, hindex⟩ := addMonths_spec y m d n
  rw [daysFromCivil_month y d h₁ h₁₂, daysFromCivil_month _ _ hm₁ hm₁₂, hindex]
  have hlater := monthStart_add (y * 12 + (m - 1)) n.toNat
  rw [Int.toNat_of_nonneg hn.le] at hlater
  omega

/-- The same month of a later year is later, whatever its day. -/
theorem daysFromCivil_lt_year (y : Int) (m : Nat) {d d' : Nat} (hn : 0 < n) (hd : d < 256) :
    daysFromCivil y m d < daysFromCivil (y + n) m d' := by
  rw [daysFromCivil_eq _ _ _ (Int.natCast_nonneg m), daysFromCivil_eq _ _ _ (Int.natCast_nonneg m)]
  dsimp only
  split <;> omega

/-! ## The dates of the calendar -/

/-- A date with a month of the year and a day of the month. -/
structure Valid (date : Civil) : Prop where
  month_pos : 1 ≤ date.2.1
  month_le : date.2.1 ≤ 12
  day_pos : 1 ≤ date.2.2
  day_le : date.2.2 ≤ daysInMonth date.1 date.2.1

theorem civilFromDays_valid (z : Int) : Valid (civilFromDays z) := by
  obtain ⟨hmonth₁, hmonth₁₂, hday₁, -⟩ := civilFromDays_bounds z
  refine ⟨hmonth₁, hmonth₁₂, hday₁, ?_⟩
  obtain ⟨era, yoe, doy, -, -, hdoy₀, hdoy₁, hleap, -, heq⟩ := civilFromDays_eq z
  rw [heq] at hmonth₁ hmonth₁₂ ⊢
  simp only [civilOfParts] at hmonth₁ hmonth₁₂ ⊢
  generalize hmp : (5 * doy + 2) / 153 = mp at hmonth₁ hmonth₁₂ ⊢
  have hmp₀ : 0 ≤ mp := by omega
  have hmp₁₁ : mp ≤ 11 := by omega
  by_cases hlate : mp < 10
  · rw [if_pos hlate, if_neg (show ¬ mp + 3 ≤ 2 by omega)]
    by_cases hdec : mp = 9
    · subst hdec
      show _ ≤ 31
      omega
    · have hlen := daysInMonth_late (yoe + era * 400) (mp + 3).toNat (by omega) (by omega)
      rw [Int.toNat_of_nonneg (by omega), show mp + 3 - 2 = mp + 1 by omega, show mp + 3 - 3 = mp by omega] at hlen
      omega
  · rw [if_neg hlate, if_pos (show mp - 9 ≤ 2 by omega)]
    -- February is the month whose length depends on the year
    by_cases hfeb : mp = 11
    · subst hfeb
      show _ ≤ if isLeap (yoe + era * 400 + 1) = true then 29 else 28
      split
      · omega
      · rename_i hnot
        have hshort : doy ≠ 365 := fun h => hnot (isLeap_iff _ |>.mpr (by
          have hcycle := hleap h
          omega))
        omega
    · obtain rfl : mp = 10 := by omega
      show _ ≤ 31
      omega

/-- The month a day number lies in is the only one. -/
theorem monthStart_injective {t t' d' : Int} (hd₁ : 1 ≤ d)
    (hd : d ≤ monthStart (t + 1) - monthStart t) (hd₁' : 1 ≤ d')
    (hd' : d' ≤ monthStart (t' + 1) - monthStart t') (h : monthStart t + d = monthStart t' + d') :
    t = t' := by
  have hlater : ∀ {t t' : Int}, t < t' → monthStart (t + 1) ≤ monthStart t' := by
    intro t t' hlt
    have hadd := monthStart_add (t + 1) (t' - (t + 1)).toNat
    rw [Int.toNat_of_nonneg (by omega), show t + 1 + (t' - (t + 1)) = t' by omega] at hadd
    omega
  rcases Int.lt_trichotomy t t' with hlt | heq | hgt
  · have := hlater hlt
    omega
  · exact heq
  · have := hlater hgt
    omega

/-- **The date of a day number is the only valid one.** -/
theorem civilFromDays_unique (h : Valid date) {z : Int}
    (hz : daysFromCivil date.1 date.2.1 date.2.2 = z) : civilFromDays z = date := by
  have hvalid := civilFromDays_valid z
  have hsame := (daysFromCivil_civilFromDays z).trans hz.symm
  rw [daysFromCivil_month _ _ hvalid.month_pos hvalid.month_le, daysFromCivil_month _ _ h.month_pos h.month_le] at hsame
  have hlen : ∀ {date : Civil}, Valid date → (date.2.2 : Int) ≤
      monthStart (date.1 * 12 + (date.2.1 - 1) + 1) - monthStart (date.1 * 12 + (date.2.1 - 1)) := by
    intro date hdate
    have hmonth := hdate.month_pos
    have hmonth' := hdate.month_le
    have hday := hdate.day_le
    rw [monthStart_succ, show (date.1 * 12 + ((date.2.1 : Int) - 1)) / 12 = date.1 by omega,
      show ((date.1 * 12 + ((date.2.1 : Int) - 1)) % 12 + 1).toNat = date.2.1 by omega]
    omega
  have hindex := monthStart_injective (by have := hvalid.day_pos; omega) (hlen hvalid)
    (by have := h.day_pos; omega) (hlen h) (show monthStart _ + ((civilFromDays z).2.2 : Int) = monthStart _ + (date.2.2 : Int) by omega)
  rw [hindex] at hsame
  have hmonth := hvalid.month_pos
  have hmonth' := hvalid.month_le
  have hmonth₁ := h.month_pos
  have hmonth₁' := h.month_le
  refine Prod.ext (by omega) (Prod.ext (by omega) (by omega))

/-- The next date of the calendar. -/
def nextDay (date : Civil) : Civil :=
  if date.2.2 < daysInMonth date.1 date.2.1 then (date.1, date.2.1, date.2.2 + 1)
  else if date.2.1 < 12 then (date.1, date.2.1 + 1, 1)
  else (date.1 + 1, 1, 1)

theorem Valid.nextDay (h : Valid date) : Valid (nextDay date) := by
  have hmonth := h.month_pos
  have hmonth' := h.month_le
  have hfirst : ∀ (y : Int) {m : Nat}, 1 ≤ m → m ≤ 12 → Valid (y, m, 1) := by
    intro y m h₁ h₁₂
    refine ⟨h₁, h₁₂, Nat.le_refl 1, ?_⟩
    have hlen := le_daysInMonth y h₁ h₁₂
    show 1 ≤ daysInMonth y m
    omega
  rw [Pim.nextDay]
  split
  · rename_i hday
    exact ⟨hmonth, hmonth', Nat.succ_le_succ (Nat.zero_le _), hday⟩
  · split
    · exact hfirst _ (by omega) (by omega)
    · exact hfirst _ (by omega) (by omega)

/-- The next date is one day later. -/
theorem daysFromCivil_nextDay (h : Valid date) :
    daysFromCivil (nextDay date).1 (nextDay date).2.1 (nextDay date).2.2 =
      daysFromCivil date.1 date.2.1 date.2.2 + 1 := by
  obtain ⟨hmonth₁, hmonth₁₂, hday₁, hday⟩ := h
  have hnext := (Valid.mk hmonth₁ hmonth₁₂ hday₁ hday).nextDay
  rw [daysFromCivil_month _ _ hnext.month_pos hnext.month_le, daysFromCivil_month _ _ hmonth₁ hmonth₁₂]
  have hsucc := monthStart_succ (date.1 * 12 + (date.2.1 - 1))
  rw [show (date.1 * 12 + ((date.2.1 : Int) - 1)) / 12 = date.1 by omega,
    show ((date.1 * 12 + ((date.2.1 : Int) - 1)) % 12 + 1).toNat = date.2.1 by omega] at hsucc
  rw [Pim.nextDay]
  split
  · dsimp only
    omega
  · split
    · dsimp only
      rw [show date.1 * 12 + (((date.2.1 + 1 : Nat) : Int) - 1) = date.1 * 12 + ((date.2.1 : Int) - 1) + 1 by omega]
      omega
    · dsimp only
      rw [show (date.1 + 1) * 12 + (((1 : Nat) : Int) - 1) = date.1 * 12 + ((date.2.1 : Int) - 1) + 1 by omega]
      omega

/-- **Day by day the dates run through the calendar.** -/
theorem civilFromDays_succ (z : Int) : civilFromDays (z + 1) = nextDay (civilFromDays z) := by
  have hvalid := civilFromDays_valid z
  refine civilFromDays_unique hvalid.nextDay ?_
  rw [daysFromCivil_nextDay hvalid, daysFromCivil_civilFromDays]

end AthenaOS.Pim
