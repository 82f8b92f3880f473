import AthenaOS.Lib.Overflow
import AthenaOS.Pim.Civil

/-!
# Civil dates and Unix time

`civil_from_days`, `civil_from_unix` and their inverses of `components/ath_time/src/lib.rs`, with
every operation on `i64` checked: no result means that one of them overflowed.
-/

namespace AthenaOS.Time

open Lib

/-- The result of an operation on `i64`. -/
def i64 (x : Int) : Option Int := fit 64 x

/-- `as u32`. -/
def asU32 (x : Int) : Nat := (x % 2 ^ 32).toNat

/-! ## Dates -/

/-- `is_leap`. -/
def isLeap (year : Int) : Bool :=
  (Int.tmod year 4 == 0 && Int.tmod year 100 != 0) || Int.tmod year 400 == 0

/-- `days_in_month`. -/
def daysInMonth (year : Int) : Nat → Nat
  | 1 | 3 | 5 | 7 | 8 | 10 | 12 => 31
  | 4 | 6 | 9 | 11 => 30
  | 2 => if isLeap year then 29 else 28
  | _ => 0

/-- `days_from_civil`. -/
def daysFromCivil (year : Int) (month day : Nat) : Option Int := do
  let y ← (if month ≤ 2 then i64 (year - 1) else some year)
  let floored ← (if y ≥ 0 then some y else i64 (y - 399))
  let era := Int.tdiv floored 400
  let eraYears ← i64 (era * 400)
  let yoe ← i64 (y - eraYears)
  let mp ← (if month > 2 then i64 (month - 3) else i64 (month + 9))
  let start ← i64 (153 * mp)
  let start ← i64 (start + 2)
  let doy ← i64 (Int.tdiv start 5 + day)
  let doy ← i64 (doy - 1)
  let doe ← i64 (yoe * 365)
  let doe ← i64 (doe + Int.tdiv yoe 4)
  let doe ← i64 (doe - Int.tdiv yoe 100)
  let doe ← i64 (doe + doy)
  let days ← i64 (era * 146097)
  let days ← i64 (days + doe)
  i64 (days - 719468)

/-- `civil_from_days`. -/
def civilFromDays (days : Int) : Option (Int × Nat × Nat) := do
  let z ← i64 (days + 719468)
  let floored ← (if z ≥ 0 then some z else i64 (z - 146096))
  let era := Int.tdiv floored 146097
  let eraDays ← i64 (era * 146097)
  let doe ← i64 (z - eraDays)
  let yoe ← i64 (doe - Int.tdiv doe 1460)
  let yoe ← i64 (yoe + Int.tdiv doe 36524)
  let yoe ← i64 (yoe - Int.tdiv doe 146096)
  let yoe := Int.tdiv yoe 365
  let eraYears ← i64 (era * 400)
  let y ← i64 (yoe + eraYears)
  let before ← i64 (365 * yoe)
  let before ← i64 (before + Int.tdiv yoe 4)
  let before ← i64 (before - Int.tdiv yoe 100)
  let doy ← i64 (doe - before)
  let mp ← i64 (5 * doy)
  let mp ← i64 (mp + 2)
  let mp := Int.tdiv mp 153
  let start ← i64 (153 * mp)
  let start ← i64 (start + 2)
  let day ← i64 (doy - Int.tdiv start 5)
  let day ← i64 (day + 1)
  let month ← (if mp < 10 then i64 (mp + 3) else i64 (mp - 9))
  let year ← (if asU32 month ≤ 2 then i64 (y + 1) else some y)
  return (year, asU32 month, asU32 day)

/-! ## Unix time -/

/-- `CivilDateTime`. -/
structure CivilDateTime where
  year : Int
  month : Nat
  day : Nat
  hour : Nat
  min : Nat
  sec : Nat
  deriving DecidableEq

/-- `civil_from_unix`: `div_euclid` and `rem_euclid` by a positive number do not overflow. -/
def civilFromUnix (secs : Int) : Option CivilDateTime := do
  let days := secs / 86400
  let rem := asU32 (secs % 86400)
  let (year, month, day) ← civilFromDays days
  return ⟨year, month, day, rem / 3600, rem % 3600 / 60, rem % 60⟩

/-- `unix_from_civil`. -/
def unixFromCivil (c : CivilDateTime) : Option Int := do
  let days ← daysFromCivil c.year c.month c.day
  let secs ← i64 (days * 86400)
  let hours ← i64 (c.hour * 3600)
  let secs ← i64 (secs + hours)
  let minutes ← i64 (c.min * 60)
  let secs ← i64 (secs + minutes)
  i64 (secs + c.sec)

/-- `Duration`. -/
structure Duration where
  secs : Int64

/-- `Duration::add_to`. -/
def Duration.addTo (d : Duration) (c : CivilDateTime) : Option CivilDateTime := do
  let base ← unixFromCivil c
  civilFromUnix (saturate 64 (base + d.secs.toInt))

/-- `Duration::sub_from`. -/
def Duration.subFrom (d : Duration) (c : CivilDateTime) : Option CivilDateTime := do
  let base ← unixFromCivil c
  civilFromUnix (saturate 64 (base - d.secs.toInt))

/-! ## The formulas of the calendar -/

theorem daysInMonth_eq (year : Int) (month : Nat) : daysInMonth year month = Pim.daysInMonth year month := by
  rcases Nat.lt_or_ge 12 month with h | h
  · rw [Pim.daysInMonth_eq_zero year (.inr h), daysInMonth]
    all_goals omega
  · interval_cases month <;> rfl

variable {x days secs : Int}

/-- An operation that does not overflow. -/
theorem i64_of (h₁ : -9223372036854775808 ≤ x) (h₂ : x ≤ 9223372036854775807) : i64 x = some x :=
  fit_of (inRange_64.mpr ⟨h₁, h₂⟩)

theorem i64_bind {α : Type} (h₁ : -9223372036854775808 ≤ x) (h₂ : x ≤ 9223372036854775807)
    (f : Int → Option α) : (i64 x >>= f) = f x := bind_of_some (i64_of h₁ h₂) f

/-- The correction for negative numbers does not overflow. -/
theorem floored_eq {n : Int} (h : -9000000000000000000 ≤ x) (h₀ : 0 ≤ n) (hn : n ≤ 146096) :
    (if x ≥ 0 then some x else i64 (x - n)) = some (if x ≥ 0 then x else x - n) := by
  split
  · rfl
  · exact i64_of (by omega) (by omega)

theorem asU32_of (h₀ : 0 ≤ x) (h : x < 2 ^ 32) : asU32 x = x.toNat := by
  rw [asU32, Int.emod_eq_of_lt h₀ h]

/-- **No step of `civil_from_days` overflows** for days half-way to the ends. -/
theorem civilFromDays_eq (h₁ : -2 ^ 62 ≤ days) (h₂ : days ≤ 2 ^ 62) :
    civilFromDays days = some (Pim.civilFromDays days) := by
  have hera : Int.tdiv (if days + 719468 ≥ 0 then days + 719468 else days + 719468 - 146096) 146097 =
      (days + 719468) / 146097 := Pim.tdiv_floor (days + 719468) 146097 (by decide)
  have hdoe : days + 719468 - (days + 719468) / 146097 * 146097 = (days + 719468) % 146097 := by omega
  rw [civilFromDays, i64_bind (by omega) (by omega), bind_of_some (floored_eq (by omega) (by decide) (by decide))]
  simp only [Pim.civilFromDays]
  rw [hera]
  have hera₀ : -2 ^ 62 ≤ (days + 719468) / 146097 * 146097 := by omega
  have hera₁ : (days + 719468) / 146097 * 146097 ≤ 2 ^ 62 + 719468 := by omega
  have h₀ : 0 ≤ (days + 719468) % 146097 := Int.emod_nonneg _ (by decide)
  have h₁ : (days + 719468) % 146097 ≤ 146096 := by omega
  rw [i64_bind (by omega) (by omega), hdoe]
  generalize (days + 719468) % 146097 = doe at h₀ h₁ ⊢
  generalize (days + 719468) / 146097 = era at hera₀ hera₁ ⊢
  rw [i64_bind (by omega) (by omega)]
  simp only [Int.tdiv_eq_ediv_of_nonneg h₀]
  rw [i64_bind (by omega) (by omega), i64_bind (by omega) (by omega), i64_bind (by omega) (by omega)]
  rw [Int.tdiv_eq_ediv_of_nonneg (show 0 ≤ doe - doe / 1460 + doe / 36524 - doe / 146096 by omega)]
  obtain ⟨hyoe₀, hyoe₁, hdoy₀, hdoy₁⟩ := Pim.yearOfEra_bounds doe h₀ h₁
  generalize (doe - doe / 1460 + doe / 36524 - doe / 146096) / 365 = yoe at hyoe₀ hyoe₁ hdoy₀ hdoy₁ ⊢
  rw [i64_bind (by omega) (by omega), i64_bind (by omega) (by omega), i64_bind (by omega) (by omega)]
  simp only [Int.tdiv_eq_ediv_of_nonneg hyoe₀]
  rw [i64_bind (by omega) (by omega), i64_bind (by omega) (by omega), i64_bind (by omega) (by omega)]
  generalize doe - (365 * yoe + yoe / 4 - yoe / 100) = doy at hdoy₀ hdoy₁ ⊢
  rw [i64_bind (by omega) (by omega), i64_bind (by omega) (by omega)]
  rw [Int.tdiv_eq_ediv_of_nonneg (show 0 ≤ 5 * doy + 2 by omega)]
  generalize hmp : (5 * doy + 2) / 153 = mp
  rw [i64_bind (by omega) (by omega), i64_bind (by omega) (by omega)]
  rw [Int.tdiv_eq_ediv_of_nonneg (show 0 ≤ 153 * mp + 2 by omega)]
  rw [i64_bind (by omega) (by omega), i64_bind (by omega) (by omega)]
  have hmonth : (if mp < 10 then i64 (mp + 3) else i64 (mp - 9)) = some (if mp < 10 then mp + 3 else mp - 9) := by
    split
    · exact i64_of (by omega) (by omega)
    · exact i64_of (by omega) (by omega)
  rw [bind_of_some hmonth]
  have hmonth₁ : 1 ≤ if mp < 10 then mp + 3 else mp - 9 := by
    split <;> omega
  have hmonth₁₂ : (if mp < 10 then mp + 3 else mp - 9) ≤ 12 := by
    split <;> omega
  generalize (if mp < 10 then mp + 3 else mp - 9) = month at hmonth₁ hmonth₁₂ ⊢
  rw [asU32_of (by omega) (by omega), asU32_of (by omega) (by omega)]
  have hyear : (if month.toNat ≤ 2 then i64 (yoe + era * 400 + 1) else some (yoe + era * 400)) =
      some (if month ≤ 2 then yoe + era * 400 + 1 else yoe + era * 400) := by
    by_cases hearly : month ≤ 2
    · rw [if_pos (by omega), if_pos hearly, i64_of (by omega) (by omega)]
    · rw [if_neg (by omega), if_neg hearly]
  rw [bind_of_some hyear]
  rfl

/-- **No step of `days_from_civil` overflows** for years a thousandth of the way to the ends. -/
theorem daysFromCivil_eq {year : Int} {month day : Nat} (h₁ : -2 ^ 54 ≤ year) (h₂ : year ≤ 2 ^ 54)
    (hmonth : month ≤ 12) (hmonth₁ : 1 ≤ month) (hday : day ≤ 31) :
    daysFromCivil year month day = some (Pim.daysFromCivil year month day) := by
  have hy : (if month ≤ 2 then i64 (year - 1) else some year) = some (if (month : Int) ≤ 2 then year - 1 else year) := by
    by_cases hearly : month ≤ 2
    · rw [if_pos hearly, if_pos (by omega), i64_of (by omega) (by omega)]
    · rw [if_neg hearly, if_neg (by omega)]
  have hmp : (if month > 2 then i64 (month - 3) else i64 (month + 9)) = some (((month : Int) + 9).tmod 12) := by
    rw [Int.tmod_eq_emod_of_nonneg (by omega)]
    split
    · rw [i64_of (by omega) (by omega)]
      congr 1
      omega
    · rw [i64_of (by omega) (by omega)]
      congr 1
      omega
  have hy₁ : -2 ^ 54 - 1 ≤ if (month : Int) ≤ 2 then year - 1 else year := by
    split <;> omega
  have hy₂ : (if (month : Int) ≤ 2 then year - 1 else year) ≤ 2 ^ 54 := by
    split <;> omega
  rw [daysFromCivil, bind_of_some hy]
  simp only [Pim.daysFromCivil]
  generalize (if (month : Int) ≤ 2 then year - 1 else year) = y at hy₁ hy₂ ⊢
  have hera : Int.tdiv (if y ≥ 0 then y else y - 399) 400 = y / 400 := Pim.tdiv_floor y 400 (by decide)
  rw [bind_of_some (floored_eq (by omega) (by decide) (by decide)), hera]
  rw [i64_bind (by omega) (by omega), i64_bind (by omega) (by omega), bind_of_some hmp]
  have hmp₀ : 0 ≤ ((month : Int) + 9).tmod 12 := Int.tmod_nonneg _ (by omega)
  have hmp₁₁ : ((month : Int) + 9).tmod 12 ≤ 11 := by
    rw [Int.tmod_eq_emod_of_nonneg (by omega)]
    omega
  generalize ((month : Int) + 9).tmod 12 = mp at hmp₀ hmp₁₁ ⊢
  rw [i64_bind (by omega) (by omega), i64_bind (by omega) (by omega)]
  rw [Int.tdiv_eq_ediv_of_nonneg (show 0 ≤ 153 * mp + 2 by omega)]
  rw [i64_bind (by omega) (by omega), i64_bind (by omega) (by omega), i64_bind (by omega) (by omega)]
  rw [Int.tdiv_eq_ediv_of_nonneg (show 0 ≤ y - y / 400 * 400 by omega),
    Int.tdiv_eq_ediv_of_nonneg (show 0 ≤ y - y / 400 * 400 by omega)]
  rw [i64_bind (by omega) (by omega), i64_bind (by omega) (by omega), i64_bind (by omega) (by omega),
    i64_bind (by omega) (by omega), i64_bind (by omega) (by omega)]
  exact i64_of (by omega) (by omega)

/-- The dates of these days are in those years. -/
theorem year_bounds (h₁ : -2 ^ 62 ≤ days) (h₂ : days ≤ 2 ^ 62) :
    -2 ^ 54 ≤ (Pim.civilFromDays days).1 ∧ (Pim.civilFromDays days).1 ≤ 2 ^ 54 := by
  have hdays := Pim.daysFromCivil_civilFromDays days
  obtain ⟨hmonth₁, hmonth₁₂, hday₁, hday₃₁⟩ := Pim.civilFromDays_bounds days
  rw [Pim.daysFromCivil_eq _ _ _ (by omega)] at hdays
  dsimp only at hdays
  split at hdays
  · omega
  · omega

/-- The date of a day, and its day. -/
theorem daysFromCivil_civilFromDays (h₁ : -2 ^ 62 ≤ days) (h₂ : days ≤ 2 ^ 62) :
    daysFromCivil (Pim.civilFromDays days).1 (Pim.civilFromDays days).2.1
      (Pim.civilFromDays days).2.2 = some days := by
  obtain ⟨hyear₁, hyear₂⟩ := year_bounds h₁ h₂
  obtain ⟨hmonth₁, hmonth₁₂, -, hday₃₁⟩ := Pim.civilFromDays_bounds days
  rw [daysFromCivil_eq hyear₁ hyear₂ hmonth₁₂ hmonth₁ hday₃₁, Pim.daysFromCivil_civilFromDays]

/-- The next date: the next day of the month, the first of the next month, or the first of the
next year. -/
def successor (date : Int × Nat × Nat) : Int × Nat × Nat :=
  let (year, month, day) := date
  if day < daysInMonth year month then (year, month, day + 1)
  else if month < 12 then (year, month + 1, 1)
  else (year + 1, 1, 1)

theorem successor_eq (date : Int × Nat × Nat) : successor date = Pim.nextDay date := by
  rw [successor, Pim.nextDay, daysInMonth_eq]

/-- **The dates are those of the Gregorian calendar**, day by day from 1970-01-01 on and back,
and come back as their day numbers. -/
theorem gregorian :
    civilFromDays 0 = some (1970, 1, 1) ∧ ∀ days : Int, |days| < 2 ^ 62 → ∃ year month day,
      civilFromDays days = some (year, month, day) ∧ (1 ≤ month ∧ month ≤ 12) ∧
      (1 ≤ day ∧ day ≤ daysInMonth year month) ∧
      civilFromDays (days + 1) = some (successor (year, month, day)) ∧ daysFromCivil year month day = some days := by
  refine ⟨by decide, fun days hdays => ?_⟩
  obtain ⟨h₁, h₂⟩ := abs_lt.mp hdays
  have hvalid := Pim.civilFromDays_valid days
  refine ⟨_, _, _, civilFromDays_eq h₁.le h₂.le, ⟨hvalid.month_pos, hvalid.month_le⟩, ⟨hvalid.day_pos, ?_⟩, ?_,
    daysFromCivil_civilFromDays h₁.le h₂.le⟩
  · rw [daysInMonth_eq]
    exact hvalid.day_le
  · rw [civilFromDays_eq (by omega) (by omega), Pim.civilFromDays_succ]
    exact congrArg some (successor_eq _).symm

/-- The last day of a century that has no leap day. -/
theorem gregorian_1900 : |(-25509 : Int)| < 2 ^ 62 ∧ ∃ year month day,
    civilFromDays (-25509) = some (year, month, day) ∧ (1 ≤ month ∧ month ≤ 12) ∧
      (1 ≤ day ∧ day ≤ daysInMonth year month) ∧
      civilFromDays (-25509 + 1) = some (successor (year, month, day)) ∧
      daysFromCivil year month day = some (-25509) :=
  ⟨by decide, gregorian.2 (-25509) (by decide)⟩

/-! ## Instants -/

/-- The date and time of an instant. -/
def instant (secs : Int) : CivilDateTime :=
  let date := Pim.civilFromDays (secs / 86400)
  let rem := (secs % 86400).toNat
  ⟨date.1, date.2.1, date.2.2, rem / 3600, rem % 3600 / 60, rem % 60⟩

/-- Every instant has a date: no step overflows. -/
theorem civilFromUnix_eq (h : InRange 64 secs) : civilFromUnix secs = some (instant secs) := by
  obtain ⟨h₁, h₂⟩ := inRange_64.mp h
  rw [civilFromUnix, bind_of_some (civilFromDays_eq (by omega) (by omega)), asU32_of (by omega) (by omega)]
  rfl

/-- The seconds come back unless those of the start of the day overflow. -/
theorem unixFromCivil_instant (h : InRange 64 secs) :
    unixFromCivil (instant secs) = if InRange 64 (secs / 86400 * 86400) then some secs else none :=
      by
  obtain ⟨h₁, h₂⟩ := inRange_64.mp h
  have hrem₀ : 0 ≤ secs % 86400 := Int.emod_nonneg _ (by decide)
  have hsplit : secs = secs / 86400 * 86400 + ((secs % 86400).toNat : Int) := by omega
  have hdays : daysFromCivil (instant secs).year (instant secs).month (instant secs).day = some (secs / 86400) :=
    daysFromCivil_civilFromDays (by omega) (by omega)
  rw [unixFromCivil, bind_of_some hdays]
  dsimp only [instant]
  split
  · rename_i hstart
    have hstart₁ := (inRange_64.mp hstart).1
    rw [bind_of_some (show i64 (secs / 86400 * 86400) = some _ from fit_of hstart)]
    rw [i64_bind (by omega) (by omega), i64_bind (by omega) (by omega), i64_bind (by omega) (by omega),
      i64_bind (by omega) (by omega), i64_of (by omega) (by omega)]
    congr 1
    omega
  · rename_i hstart
    rw [show i64 (secs / 86400 * 86400) = none from fit_eq_none_iff.mpr hstart]
    rfl

/-- The start of the day is in range from the first whole day on. -/
theorem inRange_day_iff (h : InRange 64 secs) :
    InRange 64 (secs / 86400 * 86400) ↔ -106751991167300 * 86400 ≤ secs := by
  obtain ⟨h₁, h₂⟩ := inRange_64.mp h
  rw [inRange_64]
  omega

/-- The round trip of an instant, and durations on its date, without an overflow. -/
def RoundTrips (secs : Int64) : Prop :=
  ∃ c, civilFromUnix secs.toInt = some c ∧ unixFromCivil c = some secs.toInt ∧
    ∀ d : Duration, (d.addTo c).isSome ∧ (d.subFrom c).isSome

theorem inRange_toInt (n : Int64) : InRange 64 n.toInt :=
  inRange_64.mpr ⟨Int64.le_toInt n, Int64.toInt_le n⟩

/-- **Unix time round trip**: without an overflow exactly from the first whole day of the range
on. -/
theorem roundTrip_iff (secs : Int64) : RoundTrips secs ↔ -106751991167300 * 86400 ≤ secs.toInt := by
  have hrange := inRange_toInt secs
  rw [← inRange_day_iff hrange]
  constructor
  · rintro ⟨c, hc, hback, -⟩
    obtain rfl := Option.some.inj ((civilFromUnix_eq hrange).symm.trans hc)
    rw [unixFromCivil_instant hrange] at hback
    split at hback
    · assumption
    · exact nomatch hback
  · intro hstart
    have hback : unixFromCivil (instant secs.toInt) = some secs.toInt := by
      rw [unixFromCivil_instant hrange, if_pos hstart]
    refine ⟨_, civilFromUnix_eq hrange, hback, fun d => ⟨?_, ?_⟩⟩
    · rw [Duration.addTo, bind_of_some hback, civilFromUnix_eq (inRange_saturate _)]
      rfl
    · rw [Duration.subFrom, bind_of_some hback, civilFromUnix_eq (inRange_saturate _)]
      rfl

/-- **The earliest instant has a date, and its seconds overflow.** -/
theorem earliest_not_roundTrips : ¬ ∀ secs : Int64, RoundTrips secs := by
  intro h
  obtain ⟨c, hc, hback, -⟩ := h Int64.minValue
  have hdate : civilFromUnix Int64.minValue.toInt = some ⟨-292277022657, 1, 27, 8, 29, 52⟩ := by decide
  obtain rfl := Option.some.inj (hdate.symm.trans hc)
  have hnone : unixFromCivil ⟨-292277022657, 1, 27, 8, 29, 52⟩ = none := by decide
  rw [hnone] at hback
  exact nomatch hback

end AthenaOS.Time
