import AthenaOS.Pim.Recur

/-!
# Hostile rules

What a rule of unusual tokens makes the expansion compute, with the checks of a debug build.
-/

namespace AthenaOS.Pim

open Lib Lib.Text

/-- Byte by byte: what is not ASCII comes out as two characters or more. -/
def asciiUpper (s : List Char) : String := asciiUpper2 (String.ofList s).toUTF8.toList

/-- The BYDAY tokens, at most 512. -/
def bydayTokens (value : String) : List String :=
  (List.splitOn ';' value.toList).foldl
    (fun out part =>
      match List.splitOn '=' part with
      | key :: v :: vs =>
        if asciiUpper (trim key) = "BYDAY" then
          (List.splitOn ',' (trim (['='].intercalate (v :: vs)))).foldl
            (fun out tok =>
              if (trim tok).isEmpty || out.length ≥ 512 then out else out ++ [asciiUpper (trim tok)])
            out
        else out
      | _ => out)
    []

/-! ## Checked arithmetic -/

/-- A BYMONTHDAY number in a month of `dim` days. -/
def checkedMonthDay (dim : Nat) (md : Int) : Option (Option Nat) := do
  let dnum ← fit 64 (if md > 0 then md else dim + 1 + md)
  some (if md ≠ 0 ∧ 1 ≤ dnum ∧ dnum ≤ dim then some dnum.toNat else none)

theorem checkedDaysFromCivil_eq {y m d : Int} (h₀ : 0 ≤ y) (h₁ : y < 2 ^ 51) (hm : 0 ≤ m ∧ m < 256)
    (hd : 0 ≤ d ∧ d < 256) : checkedDaysFromCivil y m d = some (daysFromCivil y m d) := by
  have hy : -1 ≤ (if m ≤ 2 then y - 1 else y) ∧ (if m ≤ 2 then y - 1 else y) < 2 ^ 51 := by
    split <;> omega
  have hmp : 0 ≤ Int.tmod (m + 9) 12 ∧ Int.tmod (m + 9) 12 < 12 := by
    rw [Int.tmod_eq_emod_of_nonneg (by omega)]
    omega
  rw [checkedDaysFromCivil, daysFromCivil, bind_of_some (fit_of (inRange_64.mpr (by omega)))]
  generalize (if m ≤ 2 then y - 1 else y) = y' at hy ⊢
  generalize Int.tmod (m + 9) 12 = mp at hmp ⊢
  have hera : Int.tdiv (if y' ≥ 0 then y' else y' - 399) 400 = y' / 400 := tdiv_floor y' 400 (by decide)
  rw [bind_of_some (fit_of (inRange_64.mpr (by split <;> omega)))]
  dsimp only
  have hyoe : 0 ≤ y' - y' / 400 * 400 := by omega
  have hdoy : 0 ≤ 153 * mp + 2 := by omega
  simp only [hera, Int.tdiv_eq_ediv_of_nonneg hyoe, Int.tdiv_eq_ediv_of_nonneg hdoy]
  rw [bind_of_some (fit_of (inRange_64.mpr (by omega))), bind_of_some (fit_of (inRange_64.mpr (by omega)))]
  rw [Int.tdiv_eq_ediv_of_nonneg hyoe, Int.tdiv_eq_ediv_of_nonneg hyoe,
    bind_of_some (fit_of (inRange_64.mpr (by omega))), bind_of_some (fit_of (inRange_64.mpr (by omega))),
    bind_of_some (fit_of (inRange_64.mpr (by omega)))]
  exact fit_of (inRange_64.mpr (by omega))

/-! ## The day that is meant -/

/-- The `n`-th of the month's days on the weekday, from its first or its last on. -/
def IsNth (y : Int) (m wd : Nat) (n : Int) (d : Nat) : Prop :=
  1 ≤ d ∧ d ≤ daysInMonth y m ∧ weekdayFromDays (daysFromCivil y m d) = wd ∧
    (0 < n → (((d - 1) / 7 + 1 : Nat) : Int) = n) ∧
    (n ≤ 0 → (((daysInMonth y m - d) / 7 + 1 : Nat) : Int) = -n)

/-- No sum and no negation overflows: the day is counted on past the end of the month. -/
def OrdinalFits (y : Int) (m wd : Nat) (n : Int) : Prop :=
  daysInMonth y m ≠ 0 → -2 ^ 31 < n ∧
    (0 < n → firstDay (weekdayFromDays (daysFromCivil y m 1)) wd + 7 * (n.toNat - 1) < 2 ^ 32)

theorem weekdayFromDays_eq (z : Int) : weekdayFromDays z = ((z + 4) % 7).toNat := by
  rw [weekdayFromDays, Int.tmod_eq_emod_of_nonneg (by have := Int.lt_tmod_of_pos z (show (0 : Int) < 7 by decide); omega),
    Int.tmod_eq_emod]
  split <;> omega

/-- **Where nothing overflows, the day that is meant is computed, and only there.** -/
theorem nthWeekday_iff {y : Int} {m wd : Nat} {n : Int} (h₀ : 0 ≤ y) (h₁ : y < 2 ^ 51)
    (hm : m < 256) (hwd : wd ≤ 6) (hn : n ≠ 0) (hn₁ : -2 ^ 31 ≤ n) :
    (∃ r, nthWeekdayOfMonth y m wd n = some r ∧ ∀ d, r = some d ↔ IsNth y m wd n d) ↔
      OrdinalFits y m wd n := by
  have hdim := daysInMonth_le y m
  simp only [nthWeekdayOfMonth, OrdinalFits, IsNth]
  generalize hlen : daysInMonth y m = dim at hdim ⊢
  by_cases hzero : dim = 0
  · subst hzero
    refine iff_of_true ⟨none, rfl, fun d => ⟨fun h => (by cases h), fun h => ?_⟩⟩ (fun h => absurd rfl h)
    omega
  · have hshift : ∀ d : Int, daysFromCivil y m d = daysFromCivil y m 1 + (d - 1) := by
      intro d
      simp only [daysFromCivil]
      omega
    rw [if_neg (by simp [hzero, hn])]
    by_cases hpos : 0 < n
    · rw [if_pos hpos, bind_of_some (checkedDaysFromCivil_eq h₀ h₁ (by omega) (by decide))]
      simp only [weekdayFromDays_eq, firstDay]
      by_cases hfit : 1 + (7 + wd - ((daysFromCivil y m 1 + 4) % 7).toNat) % 7 + 7 * (n.toNat - 1) < 2 ^ 32
      · rw [if_pos hfit]
        refine iff_of_true ⟨_, rfl, fun d => ?_⟩ (fun _ => ⟨by omega, fun _ => hfit⟩)
        rw [Option.ite_none_right_eq_some, Option.some.injEq, hshift d]
        omega
      · rw [if_neg hfit]
        exact iff_of_false (by rintro ⟨_, ⟨⟩, _⟩) (fun h => hfit ((h hzero).2 hpos))
    · rw [if_neg hpos, bind_of_some (checkedDaysFromCivil_eq h₀ h₁ (by omega) (by omega))]
      by_cases hfit : -2 ^ 31 < n
      · rw [bind_of_some (fit_of (by rw [InRange]; omega)), bind_of_some (fit_of (inRange_64.mpr (by omega)))]
        refine iff_of_true ⟨_, rfl, fun d => ?_⟩ (fun _ => ⟨hfit, fun h => absurd h hpos⟩)
        rw [Option.ite_none_right_eq_some, Option.some.injEq, weekdayFromDays_eq, weekdayFromDays_eq,
          hshift d, hshift dim]
        omega
      · rw [fit_eq_none_iff.mpr (by rw [InRange]; omega)]
        exact iff_of_false (by rintro ⟨_, ⟨⟩, _⟩) (fun h => hfit (h hzero).1)

/-! ## The tokens -/

def tokenBytes (tok : String) : List UInt8 := (String.ofList (trim tok.toList)).toUTF8.toList

/-- The last two bytes of the token do not start inside a character. -/
def CutsClean (tok : String) : Prop :=
  2 ≤ (tokenBytes tok).length → isCharBoundary (tokenBytes tok) ((tokenBytes tok).length - 2) = true

/-- The token is an ordinal and a weekday. -/
def Spells (tok : String) (n : Int) (wd : Nat) : Prop :=
  let bytes := tokenBytes tok
  2 < bytes.length ∧ weekdayToken (asciiUpper2 (bytes.drop (bytes.length - 2))) = some wd ∧
    parseI32 (charsOfBytes (bytes.take (bytes.length - 2))) = some n ∧ n ≠ 0

theorem parseByday_ne_none (tok : String) : parseByday tok ≠ none ↔ CutsClean tok := by
  rw [parseByday, ← tokenBytes, CutsClean]
  generalize tokenBytes tok = bytes
  dsimp only
  split
  · exact iff_of_true nofun (fun _ => by omega)
  · cases hcut : isCharBoundary bytes (bytes.length - 2) with
    | false => exact iff_of_false (· rfl) (fun h => nomatch h (by omega))
    | true =>
      refine iff_of_true ?_ (fun _ => rfl)
      rw [if_neg (show ¬ (!true) = true by decide)]
      repeat' split
      all_goals exact nofun

theorem parseByday_eq {tok : String} (h : CutsClean tok) (n : Int) (wd : Nat) :
    parseByday tok = some (some (some n, wd)) ↔ Spells tok n wd := by
  rw [CutsClean] at h
  rw [parseByday, ← tokenBytes, Spells]
  generalize tokenBytes tok = bytes at h ⊢
  dsimp only
  split
  · exact iff_of_false nofun (fun _ => by omega)
  · rw [h (by omega), if_neg (show ¬ (!true) = true by decide)]
    cases weekdayToken (asciiUpper2 (bytes.drop (bytes.length - 2))) with
    | none => exact iff_of_false nofun (fun h => nomatch h.2.1)
    | some wd' =>
      dsimp only
      by_cases hsplit : bytes.length - 2 = 0
      · rw [if_pos (beq_iff_eq.mpr hsplit)]
        exact iff_of_false nofun (fun _ => by omega)
      · rw [if_neg (mt beq_iff_eq.mp hsplit)]
        cases parseI32 (charsOfBytes (bytes.take (bytes.length - 2))) with
        | none => exact iff_of_false nofun (fun h => nomatch h.2.2.1)
        | some n' =>
          dsimp only
          by_cases hzero : n' = 0
          · rw [if_pos (beq_iff_eq.mpr hzero)]
            exact iff_of_false nofun (fun h => h.2.2.2 (Option.some.inj h.2.2.1 ▸ hzero))
          · rw [if_neg (mt beq_iff_eq.mp hzero)]
            simp only [Option.some.injEq, Prod.mk.injEq]
            constructor
            · rintro ⟨rfl, rfl⟩
              exact ⟨by omega, rfl, rfl, hzero⟩
            · rintro ⟨-, rfl, rfl, -⟩
              exact ⟨rfl, rfl⟩

theorem weekdayToken_le {tok : String} {wd : Nat} (h : weekdayToken tok = some wd) : wd ≤ 6 := by
  simp only [weekdayToken] at h
  split_ifs at h <;> cases h <;> decide

theorem parseI32_ge {s : List Char} {n : Int} (h : parseI32 s = some n) : -2 ^ 31 ≤ n := by
  rw [parseI32, parseSigned.eq_def] at h
  split at h
  all_goals
    obtain ⟨k, -, hk⟩ := Option.bind_eq_some_iff.mp h
    obtain ⟨hle, heq⟩ := Option.ite_none_right_eq_some.mp hk
    have := Option.some.inj heq
    omega

/-! ## The months -/

/-- The months an expansion may come to. -/
def Reached (rule : RRule) (dtstart : DateTime) (ym : Int × Nat) : Prop :=
  ∃ k < maxSteps, (advanceMonth (interval rule))^[k] ((dtstart.year.toNat : Int), dtstart.month.toNat) = ym

theorem reached_bounds {rule : RRule} {dtstart : DateTime} {ym : Int × Nat} (h : Reached rule dtstart ym) :
    0 ≤ ym.1 ∧ ym.1 < 2 ^ 51 ∧ ym.2 < 256 := by
  obtain ⟨k, hk, rfl⟩ := h
  have hinterval : 1 ≤ interval rule ∧ interval rule < 2 ^ 32 := by
    have := rule.interval.toNat_lt
    rw [interval]
    split
    · decide
    · rename_i h
      rw [UInt32.lt_iff_toNat_lt] at h
      simp at h
      omega
  have hyear := dtstart.year.toNat_lt
  have hmonth := dtstart.month.toNat_lt
  suffices hrun : ∀ k : Nat, let ym := (advanceMonth (interval rule))^[k] ((dtstart.year.toNat : Int), dtstart.month.toNat)
      0 ≤ ym.1 ∧ ym.2 < 256 ∧ ym.1 * 12 + ym.2 < 13 * 2 ^ 16 + k * 2 ^ 32 by
    obtain ⟨hpos, hlt, hindex⟩ := hrun k
    rw [maxSteps] at hk
    omega
  intro k
  induction k with
  | zero =>
    dsimp only [Function.iterate_zero, id]
    omega
  | succ k ih =>
    rw [Function.iterate_succ_apply']
    generalize (advanceMonth (interval rule))^[k] ((dtstart.year.toNat : Int), dtstart.month.toNat) = ym at ih ⊢
    obtain ⟨hpos, -, hindex⟩ := ih
    obtain ⟨hm₁, hm₁₂, -, -, hnext⟩ := addMonths_spec ym.1 ym.2 1 (interval rule)
    show 0 ≤ (addMonths ym.1 ym.2 1 (interval rule)).1 ∧ (addMonths ym.1 ym.2 1 (interval rule)).2.1 < 256 ∧
      (addMonths ym.1 ym.2 1 (interval rule)).1 * 12 + (addMonths ym.1 ym.2 1 (interval rule)).2.1 < _
    omega

/-! ## The rules that do no damage -/

/-- No token is cut inside a character, and in every month every day that is meant is computed,
and no other, without an overflow. -/
structure Harmless (rule : RRule) (dtstart : DateTime) : Prop where
  tokens : ∀ tok ∈ rule.byday, parseByday tok ≠ none
  ordinals : ∀ tok ∈ rule.byday, ∀ n wd, parseByday tok = some (some (some n, wd)) →
    ∀ ym, Reached rule dtstart ym → ∃ r, nthWeekdayOfMonth ym.1 ym.2 wd n = some r ∧
      ∀ d, r = some d ↔ IsNth ym.1 ym.2 wd n d
  monthDays : ∀ md, InRange 32 md → ∀ ym, Reached rule dtstart ym →
    ∃ r, checkedMonthDay (daysInMonth ym.1 ym.2) md = some r ∧ ∀ d, r = some d ↔
      1 ≤ d ∧ d ≤ daysInMonth ym.1 ym.2 ∧ ((d : Int) = md ∨ (d : Int) = daysInMonth ym.1 ym.2 + 1 + md)

/-- The tokens are cut between characters, and their ordinals are not too large. -/
def Tame (rule : RRule) (dtstart : DateTime) : Prop :=
  ∀ tok ∈ rule.byday, CutsClean tok ∧ ∀ n wd, Spells tok n wd →
    ∀ ym, Reached rule dtstart ym → OrdinalFits ym.1 ym.2 wd n

theorem checkedMonthDay_spec (dim : Nat) {md : Int} (hdim : dim ≤ 31) (h : InRange 32 md) :
    ∃ r, checkedMonthDay dim md = some r ∧ ∀ d, r = some d ↔
      1 ≤ d ∧ d ≤ dim ∧ ((d : Int) = md ∨ (d : Int) = dim + 1 + md) := by
  rw [InRange] at h
  rw [checkedMonthDay, bind_of_some (fit_of (inRange_64.mpr (by split <;> omega)))]
  refine ⟨_, rfl, fun d => ?_⟩
  rw [Option.ite_none_right_eq_some, Option.some.injEq]
  split <;> omega

/-- **A rule does no damage exactly when it is tame.** -/
theorem harmless_iff (rule : RRule) (dtstart : DateTime) : Harmless rule dtstart ↔ Tame rule dtstart := by
  have hord : ∀ {tok : String} {n : Int} {wd : Nat} {ym : Int × Nat}, Spells tok n wd →
      Reached rule dtstart ym → ((∃ r, nthWeekdayOfMonth ym.1 ym.2 wd n = some r ∧
        ∀ d, r = some d ↔ IsNth ym.1 ym.2 wd n d) ↔ OrdinalFits ym.1 ym.2 wd n) := by
    rintro tok n wd ym ⟨-, hwd, hn, hzero⟩ hym
    obtain ⟨hpos, hlt, hm⟩ := reached_bounds hym
    exact nthWeekday_iff hpos hlt hm (weekdayToken_le hwd) hzero (parseI32_ge hn)
  constructor
  · intro h tok hmem
    have hclean := (parseByday_ne_none tok).mp (h.tokens tok hmem)
    exact ⟨hclean, fun n wd hspells ym hym =>
      (hord hspells hym).mp (h.ordinals tok hmem n wd ((parseByday_eq hclean n wd).mpr hspells) ym hym)⟩
  · intro h
    refine ⟨fun tok hmem => (parseByday_ne_none tok).mpr (h tok hmem).1, fun tok hmem n wd hparse ym hym => ?_,
      fun md hmd ym _ => checkedMonthDay_spec _ (daysInMonth_le _ _) hmd⟩
    have hspells := (parseByday_eq (h tok hmem).1 n wd).mp hparse
    exact (hord hspells hym).mpr ((h tok hmem).2 n wd hspells ym hym)

/-- The tail of this token starts with the second byte of a character. -/
theorem cut_inside_character :
    let value := "FREQ=MONTHLY;BYDAY=éA"
    ¬ Harmless { freq := .monthly, byday := bydayTokens value, raw := value }
      { year := 2024, month := 1, day := 1 } := by
  intro value h
  exact h.tokens "Ã©A" (by decide +kernel) (by decide +kernel)

end AthenaOS.Pim
