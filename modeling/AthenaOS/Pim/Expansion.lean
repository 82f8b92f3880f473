import AthenaOS.Pim.Ordinals

/-!
# Expansions are in order

Each loop offers candidates with growing day numbers, as long as none of them needs a year of
more than four digits and no ordinal overflows.
-/

namespace AthenaOS.Pim

variable {q : Query} {rule : RRule} {dtstart : DateTime}

/-! ## The order of the calendar -/

variable {a b : DateTime} {date : Civil} {acc : Acc} {hi n y : Int} {days : List Nat} {d wd m : Nat}
variable {ordinals : List (Int × Nat)} {bymonthday : List Int} {ym : Int × Nat}

theorem le_iff : le a b = true ↔ a.days < b.days ∨ a.days = b.days ∧ a.secs ≤ b.secs := by
  rw [le, Bool.or_eq_true, Bool.and_eq_true, decide_eq_true_iff, decide_eq_true_iff, beq_iff_eq]
  rfl

/-- Strictly earlier. -/
def Before (a b : DateTime) : Prop := a.days < b.days ∨ a.days = b.days ∧ a.secs < b.secs

theorem le_of_days (hdays : a.days ≤ b.days) (hsecs : a.secs = b.secs) : le a b = true := by
  rw [le_iff]
  omega

/-- The year has four digits. -/
def InYears (date : Civil) : Prop := 0 ≤ date.1 ∧ date.1 ≤ 9999

/-- The day number of a date, with a month and a day that fit their fields. -/
structure Dated (dn : Int) (date : Civil) : Prop where
  days : daysFromCivil date.1 date.2.1 date.2.2 = dn
  month : date.2.1 < 256
  day : date.2.2 < 256

/-- A candidate has the day number of its date, if the year fits. -/
theorem Dated.occ {dn : Int} (h : Dated dn date) (hyear : InYears date) :
    (occ dtstart date).days = dn := by
  obtain ⟨y, m, d⟩ := date
  obtain ⟨hdays, hm, hd⟩ := h
  obtain ⟨h₀, h₁⟩ := hyear
  dsimp only at hdays hm hd h₀ h₁
  rw [DateTime.days, Pim.occ, if_pos ⟨h₀, h₁⟩]
  dsimp only
  rw [UInt16.toNat_ofNat_of_lt' (show y.toNat < 65536 by omega), UInt8.toNat_ofNat_of_lt' hm,
    UInt8.toNat_ofNat_of_lt' hd, Int.toNat_of_nonneg h₀, hdays]

theorem secs_occ (date : Civil) : (occ dtstart date).secs = dtstart.secs := rfl

theorem dated_civilFromDays (z : Int) : Dated z (civilFromDays z) := by
  obtain ⟨-, hm, -, hd⟩ := civilFromDays_bounds z
  exact ⟨daysFromCivil_civilFromDays z, by omega, by omega⟩

/-! ## One candidate -/

/-- At most so many starts, each later than the one before, none before DTSTART, outside the
range or after UNTIL. -/
structure Sound (q : Query) (rule : RRule) (dtstart : DateTime) (out : List DateTime) : Prop where
  bounded : out.length ≤ q.max
  increasing : out.Pairwise Before
  notBefore : ∀ x ∈ out, le dtstart x = true
  inRange : ∀ x ∈ out, le q.rangeStart x = true ∧ le x q.rangeEnd = true
  withinUntil : ∀ x ∈ out, pastUntil rule x = false

/-- The starts so far: room for more, and none from the day `hi` on. -/
structure Good (q : Query) (rule : RRule) (dtstart : DateTime) (acc : Acc) (hi : Int) : Prop where
  sound : Sound q rule dtstart acc.out
  room : acc.out.length < q.max
  below : ∀ x ∈ acc.out, x.days < hi

theorem Good.mono {hi' : Int} (h : Good q rule dtstart acc hi) (hle : hi ≤ hi') :
    Good q rule dtstart acc hi' :=
  ⟨h.sound, h.room, fun x hx => (h.below x hx).trans_le hle⟩

theorem good_start (hmax : q.max ≠ 0) (hi : Int) : Good q rule dtstart {} hi where
  sound := by
    refine ⟨Nat.zero_le _, .nil, ?_, ?_, ?_⟩ <;> exact fun x hx => absurd hx List.not_mem_nil
  room := Nat.pos_of_ne_zero hmax
  below x hx := absurd hx List.not_mem_nil

/-- A candidate on a later day is added at the end or not at all. -/
theorem offer_good {acc' : Acc} {cand : DateTime} {flow : Flow}
    (h : Good q rule dtstart acc cand.days) (hstart : le dtstart cand = true)
    (hoffer : offer q rule cand acc = (flow, acc')) :
    Sound q rule dtstart acc'.out ∧
      (flow = .next → ∀ hi, cand.days < hi → Good q rule dtstart acc' hi) := by
  have hstop : ∀ {flow'}, flow' ≠ Flow.next → (flow', acc) = (flow, acc') →
      Sound q rule dtstart acc'.out ∧
        (flow = .next → ∀ hi, cand.days < hi → Good q rule dtstart acc' hi) := by
    intro flow' hne heq
    obtain ⟨rfl, rfl⟩ := Prod.mk.inj heq
    exact ⟨h.sound, fun hnext => absurd hnext hne⟩
  rw [offer] at hoffer
  by_cases huntil : pastUntil rule cand = true
  · rw [if_pos huntil] at hoffer
    exact hstop (by decide) hoffer
  · rw [if_neg huntil] at hoffer
    by_cases hend : (!le cand q.rangeEnd) = true
    · rw [if_pos hend] at hoffer
      exact hstop (by decide) hoffer
    · rw [if_neg hend] at hoffer
      by_cases hcount : countReached rule acc = true
      · rw [if_pos hcount] at hoffer
        exact hstop (by decide) hoffer
      · rw [if_neg hcount] at hoffer
        by_cases hrange : le q.rangeStart cand = true
        · dsimp only at hoffer
          rw [if_pos hrange] at hoffer
          obtain ⟨rfl, rfl⟩ := Prod.mk.inj hoffer
          have hmem : ∀ {p : DateTime → Prop}, (∀ x ∈ acc.out, p x) → p cand →
              ∀ x ∈ acc.out ++ [cand], p x := by
            intro p hall hcand x hx
            rw [List.mem_append, List.mem_singleton] at hx
            obtain hx | rfl := hx
            · exact hall x hx
            · exact hcand
          have hsound : Sound q rule dtstart (acc.out ++ [cand]) := by
            constructor
            · rw [List.length_append, List.length_singleton]
              exact h.room
            · rw [List.pairwise_append]
              refine ⟨h.sound.increasing, List.pairwise_singleton _ _, fun x hx y hy => ?_⟩
              obtain rfl := List.mem_singleton.mp hy
              exact .inl (h.below x hx)
            · exact hmem h.sound.notBefore hstart
            · exact hmem h.sound.inRange ⟨hrange, by simpa using hend⟩
            · exact hmem h.sound.withinUntil (Bool.eq_false_iff.mpr huntil)
          refine ⟨hsound, fun hnext hi hlt => ⟨hsound, ?_, hmem (fun x hx => ?_) hlt⟩⟩
          · split at hnext
            · exact nomatch hnext
            · rename_i hroom
              exact Nat.lt_of_not_le hroom
          · exact (h.below x hx).trans hlt
        · dsimp only at hoffer
          rw [if_neg hrange] at hoffer
          obtain ⟨rfl, rfl⟩ := Prod.mk.inj hoffer
          exact ⟨h.sound, fun _ hi hlt => ⟨h.sound, h.room, fun x hx => (h.below x hx).trans hlt⟩⟩

/-! ## The dates of a period -/

/-- The dates of a period that are offered: those from DTSTART on, while nothing stops. -/
inductive Offered (q : Query) (rule : RRule) (dtstart : DateTime) :
    List (Int × Civil) → Acc → Civil → Prop
  | here {dn : Int} {date : Civil} {dates : List (Int × Civil)} {acc : Acc} :
      ¬ dn < dtstart.days → Offered q rule dtstart ((dn, date) :: dates) acc date
  | skipped {dn : Int} {date date' : Civil} {dates : List (Int × Civil)} {acc : Acc} :
      dn < dtstart.days → Offered q rule dtstart dates acc date' →
      Offered q rule dtstart ((dn, date) :: dates) acc date'
  | later {dn : Int} {date date' : Civil} {dates : List (Int × Civil)} {acc acc' : Acc} :
      ¬ dn < dtstart.days → offer q rule (occ dtstart date) acc = (.next, acc') →
      Offered q rule dtstart dates acc' date' →
      Offered q rule dtstart ((dn, date) :: dates) acc date'

/-- Growing day numbers from `lo` on, all before `hi`. -/
theorem offerDays_good :
    ∀ (dates : List (Int × Civil)) (lo : Int) (acc acc' : Acc) (flow : Flow),
    (∀ x ∈ dates, Dated x.1 x.2) → dates.Pairwise (fun x y => x.1 < y.1) →
    (∀ x ∈ dates, lo ≤ x.1 ∧ x.1 < hi) → lo ≤ hi →
    (∀ date, Offered q rule dtstart dates acc date → InYears date) →
    Good q rule dtstart acc lo → offerDays q rule dtstart dates acc = (flow, acc') →
    Sound q rule dtstart acc'.out ∧ (flow = .next → Good q rule dtstart acc' hi)
  | [], lo, acc, acc', flow, _, _, _, hle, _, hgood, hoffer => by
    rw [offerDays] at hoffer
    obtain ⟨rfl, rfl⟩ := Prod.mk.inj hoffer
    exact ⟨hgood.sound, fun _ => hgood.mono hle⟩
  | (dn, date) :: dates, lo, acc, acc', flow, hdated, hsorted, hwithin, hle, hyears, hgood, hoffer => by
    obtain ⟨hhead, hdated'⟩ := List.forall_mem_cons.mp hdated
    obtain ⟨hfirst, hsorted'⟩ := List.pairwise_cons.mp hsorted
    obtain ⟨⟨hlo, hhi⟩, hwithin'⟩ := List.forall_mem_cons.mp hwithin
    dsimp only at hfirst hlo hhi
    rw [offerDays] at hoffer
    by_cases hbefore : dn < dtstart.days
    · rw [if_pos hbefore] at hoffer
      exact offerDays_good dates lo acc acc' flow hdated' hsorted' hwithin' hle
        (fun date' h => hyears date' (.skipped hbefore h)) hgood hoffer
    · rw [if_neg hbefore] at hoffer
      have hdays : (occ dtstart date).days = dn := hhead.occ (hyears date (.here hbefore))
      have hstart : le dtstart (occ dtstart date) = true :=
        le_of_days (by omega) (secs_occ date).symm
      cases hone : offer q rule (occ dtstart date) acc with
      | mk flow₁ acc₁ =>
        rw [hone] at hoffer
        obtain ⟨hsound, hnext⟩ :=
          offer_good (hgood.mono (by rw [hdays]; exact hlo)) hstart hone
        cases flow₁ with
        | next =>
          refine offerDays_good dates (dn + 1) acc₁ acc' flow hdated' hsorted' (fun x hx => ?_)
            (by omega) (fun date' h => hyears date' (.later hbefore hone h))
            (hnext rfl (dn + 1) (by omega)) hoffer
          have hlt := hfirst x hx
          exact ⟨by omega, (hwithin' x hx).2⟩
        | stop =>
          obtain ⟨rfl, rfl⟩ := Prod.mk.inj hoffer
          exact ⟨hsound, fun h => nomatch h⟩
        | full =>
          obtain ⟨rfl, rfl⟩ := Prod.mk.inj hoffer
          exact ⟨hsound, fun h => nomatch h⟩

/-! ## Period by period -/

/-- Periods that start at `lo` and go forward. -/
structure Calendar {P : Type} (dates : P → Option (List (Int × Civil))) (advance : P → P)
    (lo : P → Int) : Prop where
  dated : ∀ p days, dates p = some days → ∀ x ∈ days, Dated x.1 x.2
  sorted : ∀ p days, dates p = some days → days.Pairwise fun x y => x.1 < y.1
  within : ∀ p days, dates p = some days → ∀ x ∈ days, lo p ≤ x.1 ∧ x.1 < lo (advance p)
  forward : ∀ p, lo p ≤ lo (advance p)

section Periods

variable {P : Type} {dates : P → Option (List (Int × Civil))} {advance : P → P} {first : P → Civil}
  {lo : P → Int}

/-- The periods the loop comes to, with its steps and the starts it has by then. -/
inductive PeriodReached (q : Query) (rule : RRule) (dtstart : DateTime)
    (dates : P → Option (List (Int × Civil))) (advance : P → P) (first : P → Civil) (p₀ : P) :
    Nat → P → Acc → Prop
  | start : PeriodReached q rule dtstart dates advance first p₀ 0 p₀ {}
  | next {k : Nat} {p : P} {days : List (Int × Civil)} {acc acc' : Acc} :
      PeriodReached q rule dtstart dates advance first p₀ k p acc → dates p = some days →
      offerDays q rule dtstart days acc = (.next, acc') → countReached rule acc' = false →
      le (occ dtstart (first (advance p))) q.rangeEnd = true →
      PeriodReached q rule dtstart dates advance first p₀ (k + 1) (advance p) acc'

theorem PeriodReached.iterate {p₀ p : P} {k : Nat} {acc : Acc}
    (h : PeriodReached q rule dtstart dates advance first p₀ k p acc) : advance^[k] p₀ = p := by
  induction h with
  | start => rfl
  | next _ _ _ _ _ ih => rw [Function.iterate_succ_apply', ih]

/-- The periods the loop comes to meet `C`, and every date it offers has a year of four digits. -/
def PeriodsInYears (C : P → Prop) (q : Query) (rule : RRule) (dtstart : DateTime)
    (dates : P → Option (List (Int × Civil))) (advance : P → P) (first : P → Civil) (p₀ : P) : Prop :=
  ∀ k < maxSteps, ∀ p acc, PeriodReached q rule dtstart dates advance first p₀ k p acc →
    C p ∧ ∀ days, dates p = some days → ∀ date, Offered q rule dtstart days acc date → InYears date

theorem periodLoop_sound {p₀ : P} {C : P → Prop} (hcal : Calendar dates advance lo)
    (hyears : PeriodsInYears C q rule dtstart dates advance first p₀)
    (hdates : ∀ k < maxSteps, C (advance^[k] p₀) → ∃ days, dates (advance^[k] p₀) = some days) :
    ∀ (steps k : Nat) (p : P) (acc : Acc), k + steps = maxSteps →
      PeriodReached q rule dtstart dates advance first p₀ k p acc →
      Good q rule dtstart acc (lo p) →
      ∃ out, periodLoop q rule dtstart dates advance first steps p acc = some out ∧
        Sound q rule dtstart out
  | 0, _, _, acc, _, _, hgood => ⟨acc.out, rfl, hgood.sound⟩
  | steps + 1, k, p, acc, hk, hreached, hgood => by
    obtain ⟨hC, hin⟩ := hyears k (by omega) p acc hreached
    obtain ⟨days, hdays⟩ : ∃ days, dates p = some days := by
      have hp := hreached.iterate
      rw [← hp]
      exact hdates k (by omega) (hp ▸ hC)
    rw [periodLoop, hdays]
    dsimp only
    cases hoffer : offerDays q rule dtstart days acc with
    | mk flow acc' =>
      obtain ⟨hsound, hnext⟩ := offerDays_good days (lo p) acc acc' flow (hcal.dated p days hdays)
        (hcal.sorted p days hdays) (hcal.within p days hdays) (hcal.forward p) (hin days hdays) hgood
        hoffer
      cases flow with
      | stop => exact ⟨_, rfl, hsound⟩
      | full => exact ⟨_, rfl, hsound⟩
      | next =>
        dsimp only
        by_cases hcount : countReached rule acc' = true
        · rw [if_pos hcount]
          exact ⟨_, rfl, hsound⟩
        · rw [if_neg hcount]
          by_cases hend : (!le (occ dtstart (first (advance p))) q.rangeEnd) = true
          · rw [if_pos hend]
            exact ⟨_, rfl, hsound⟩
          · rw [if_neg hend]
            exact periodLoop_sound hcal hyears hdates steps (k + 1) (advance p) acc' (by omega)
              (.next hreached hdays hoffer (Bool.eq_false_iff.mpr hcount) (by simpa using hend))
              (hnext rfl)

end Periods

/-! ## Sorted days -/

/-- What a fold of `pushNew` keeps: no day twice, and only days of a kind. -/
def Distinct (p : Nat → Prop) (days : List Nat) : Prop := days.Nodup ∧ ∀ d ∈ days, p d

theorem Distinct.nil (p : Nat → Prop) : Distinct p [] := ⟨.nil, fun _ hd => absurd hd List.not_mem_nil⟩

theorem Distinct.pushNew {p : Nat → Prop} (h : Distinct p days) (hd : p d) :
    Distinct p (pushNew days d) := by
  rw [Pim.pushNew]
  split
  · exact h
  · rename_i hnew
    rw [List.contains_iff_mem] at hnew
    constructor
    · rw [List.nodup_append]
      refine ⟨h.1, List.nodup_singleton d, fun a ha b hb => ?_⟩
      obtain rfl := List.mem_singleton.mp hb
      rintro rfl
      exact hnew ha
    · intro a ha
      rw [List.mem_append, List.mem_singleton] at ha
      obtain ha | rfl := ha
      · exact h.2 a ha
      · exact hd

/-- Sorting days that are all different leaves them strictly growing. -/
theorem pairwise_lt_insertionSort (h : days.Nodup) :
    (days.insertionSort (· ≤ ·)).Pairwise (· < ·) := by
  have hle : (days.insertionSort (· ≤ ·)).Pairwise (· ≤ ·) := List.pairwise_insertionSort _ days
  have hne : (days.insertionSort (· ≤ ·)).Nodup := (List.perm_insertionSort _ days).nodup_iff.mpr h
  exact (hle.and hne).imp fun hab => Nat.lt_of_le_of_ne hab.1 hab.2

/-! ## Weeks -/

theorem weekdayToken_lt {tok : String} (h : weekdayToken tok = some wd) : wd < 7 := by
  simp only [weekdayToken] at h
  split_ifs at h <;> (obtain rfl := Option.some.inj h; decide)

/-- The weekdays are different and counted from Monday. -/
theorem weekOffsets_spec (byday : List String) :
    (weekOffsets byday).Pairwise (· < ·) ∧ ∀ off ∈ weekOffsets byday, off < 7 := by
  obtain ⟨wanted, heq, hwanted⟩ : ∃ wanted, weekOffsets byday =
      (wanted.map fun wd => (wd + 6) % 7).insertionSort (· ≤ ·) ∧ Distinct (· < 7) wanted := by
    refine ⟨_, rfl, List.foldlRecOn byday _ (.nil _) fun wanted h tok _ => ?_⟩
    split
    · rename_i wd htok
      exact h.pushNew (weekdayToken_lt htok)
    · exact h
  rw [heq]
  constructor
  · refine pairwise_lt_insertionSort (hwanted.1.map_on fun a ha b hb heq => ?_)
    have ha' := hwanted.2 a ha
    have hb' := hwanted.2 b hb
    omega
  · intro off hoff
    obtain ⟨wd, -, rfl⟩ := List.mem_map.mp ((List.perm_insertionSort _ _).mem_iff.mp hoff)
    omega

theorem calendar_weeks (byday : List String) (hn : 0 < n) :
    Calendar (fun anchor => some (weekDates (weekOffsets byday) anchor)) (· + n * 7) id := by
  obtain ⟨hsorted, hlt⟩ := weekOffsets_spec byday
  constructor
  · rintro anchor _ ⟨⟩ x hx
    obtain ⟨off, -, rfl⟩ := List.mem_map.mp hx
    exact dated_civilFromDays _
  · rintro anchor _ ⟨⟩
    refine List.pairwise_map.mpr (hsorted.imp fun hab => ?_)
    dsimp only
    omega
  · rintro anchor _ ⟨⟩ x hx
    obtain ⟨off, hoff, rfl⟩ := List.mem_map.mp hx
    have hoff' := hlt off hoff
    dsimp only [id]
    omega
  · intro anchor
    dsimp only [id]
    omega

/-! ## Months -/

theorem nthWeekdayOfMonth_bounds {ord : Int} (h : nthWeekdayOfMonth y m wd ord = some (some d)) :
    1 ≤ d ∧ d ≤ daysInMonth y m := by
  simp only [nthWeekdayOfMonth] at h
  split_ifs at h with hnone hpos
  · cases h
  · obtain ⟨firstDays, -, h⟩ := Option.bind_eq_some_iff.mp h
    obtain ⟨-, h⟩ := Option.ite_none_right_eq_some.mp h
    obtain ⟨hd, heq⟩ := Option.ite_none_right_eq_some.mp (Option.some.inj h)
    obtain rfl := Option.some.inj heq
    exact hd
  · obtain ⟨lastDays, -, h⟩ := Option.bind_eq_some_iff.mp h
    obtain ⟨fromEnd, -, h⟩ := Option.bind_eq_some_iff.mp h
    obtain ⟨day, -, h⟩ := Option.bind_eq_some_iff.mp h
    obtain ⟨hd, heq⟩ := Option.ite_none_right_eq_some.mp (Option.some.inj h)
    obtain rfl := Option.some.inj heq
    omega

theorem distinct_dayNumbers (bymonthday : List Int) (dim : Nat) :
    Distinct (fun d => 1 ≤ d ∧ d ≤ dim) (dayNumbers bymonthday dim) := by
  refine List.foldlRecOn bymonthday _ (.nil _) fun days h md _ => ?_
  dsimp only
  generalize (if md > 0 then md else (dim : Int) + 1 + md) = dnum
  split
  · rename_i hmd
    exact h.pushNew (by omega)
  · exact h

theorem Distinct.pushOrdinals {out : List Nat}
    (h : Distinct (fun d => 1 ≤ d ∧ d ≤ daysInMonth y m) days)
    (hout : pushOrdinals y m ordinals days = some out) :
    Distinct (fun d => 1 ≤ d ∧ d ≤ daysInMonth y m) out := by
  induction ordinals generalizing days with
  | nil =>
    obtain rfl := Option.some.inj hout
    exact h
  | cons x ordinals ih =>
    obtain ⟨ord, wd⟩ := x
    rw [Pim.pushOrdinals] at hout
    split at hout
    · exact nomatch hout
    · exact ih h hout
    · rename_i dnum hnth
      exact ih (h.pushNew (nthWeekdayOfMonth_bounds hnth)) hout

/-- The days of a month are different and in the month. -/
theorem monthDays_spec (h : monthDays bymonthday ordinals y m = some days) :
    days.Pairwise (· < ·) ∧ ∀ d ∈ days, 1 ≤ d ∧ d ≤ daysInMonth y m := by
  obtain ⟨picked, hpicked, rfl⟩ := Option.map_eq_some_iff.mp h
  have hall := (distinct_dayNumbers bymonthday _).pushOrdinals hpicked
  exact ⟨pairwise_lt_insertionSort hall.1,
    fun d hd => hall.2 d ((List.perm_insertionSort _ _).mem_iff.mp hd)⟩

/-- Ordinals that do not overflow give the days of a month. -/
theorem pushOrdinals_of_fits (h₀ : 0 ≤ y) (h₁ : y < 2 ^ 51) (hm : m < 256)
    (hord : ∀ x ∈ ordinals, x.2 ≤ 6 ∧ x.1 ≠ 0 ∧ -2 ^ 31 ≤ x.1)
    (hfits : ∀ x ∈ ordinals, OrdinalFits y m x.2 x.1) (days : List Nat) :
    ∃ out, pushOrdinals y m ordinals days = some out := by
  induction ordinals generalizing days with
  | nil => exact ⟨days, rfl⟩
  | cons x ordinals ih =>
    obtain ⟨ord, wd⟩ := x
    obtain ⟨⟨hwd, hne, hge⟩, hord'⟩ := List.forall_mem_cons.mp hord
    obtain ⟨hfit, hfits'⟩ := List.forall_mem_cons.mp hfits
    obtain ⟨r, hr, -⟩ := (nthWeekday_iff h₀ h₁ hm hwd hne hge).mpr hfit
    rw [pushOrdinals, hr]
    cases r with
    | none => exact ih hord' hfits' days
    | some dnum => exact ih hord' hfits' _

/-- The ordinals of a rule are those its tokens spell. -/
theorem ordinalBydays_spec : ∀ {toks : List String} {ordinals : List (Int × Nat)},
    ordinalBydays toks = some ordinals → ∀ x ∈ ordinals, x.2 ≤ 6 ∧ x.1 ≠ 0 ∧ -2 ^ 31 ≤ x.1
  | [], ordinals, h => by
    obtain rfl := Option.some.inj h
    exact fun x hx => nomatch hx
  | tok :: toks, ordinals, h => by
    obtain ⟨parsed, hparsed, h⟩ := Option.bind_eq_some_iff.mp h
    obtain ⟨rest, hrest, h⟩ := Option.bind_eq_some_iff.mp h
    have hrest' := ordinalBydays_spec hrest
    split at h
    · rename_i n wd _
      obtain rfl := Option.some.inj h
      have hclean := (parseByday_ne_none tok).mp (by rw [hparsed]; exact nofun)
      obtain ⟨-, hwd, hn, hne⟩ := (parseByday_eq hclean n wd).mp hparsed
      exact List.forall_mem_cons.mpr ⟨⟨weekdayToken_le hwd, hne, parseI32_ge hn⟩, hrest'⟩
    · obtain rfl := Option.some.inj h
      exact hrest'

/-- The dates of a month whose ordinals do not overflow. -/
theorem monthDates_of_fits (hord : ∀ x ∈ ordinals, x.2 ≤ 6 ∧ x.1 ≠ 0 ∧ -2 ^ 31 ≤ x.1)
    (bymonthday : List Int) (hreached : Reached rule dtstart ym)
    (hfits : ∀ x ∈ ordinals, OrdinalFits ym.1 ym.2 x.2 x.1) :
    ∃ days, monthDates bymonthday ordinals ym = some days := by
  obtain ⟨h₀, h₁, hm⟩ := reached_bounds hreached
  obtain ⟨out, hout⟩ := pushOrdinals_of_fits h₀ h₁ hm hord hfits _
  exact ⟨_, by rw [monthDates, monthDays, hout]; rfl⟩

theorem calendar_months (bymonthday : List Int) (ordinals : List (Int × Nat)) (hn : 0 < n) :
    Calendar (monthDates bymonthday ordinals) (advanceMonth n)
      (fun ym => monthStart (ym.1 * 12 + (ym.2 - 1))) := by
  -- a date lies in a month of the calendar, and before the next one
  have hmem : ∀ ym dates, monthDates bymonthday ordinals ym = some dates → ∀ x ∈ dates, ∃ d : Nat,
      1 ≤ ym.2 ∧ ym.2 ≤ 12 ∧ 1 ≤ d ∧ d ≤ daysInMonth ym.1 ym.2 ∧
        x = (daysFromCivil ym.1 ym.2 d, ym.1, ym.2, d) := by
    intro ym dates hdates x hx
    obtain ⟨days, hdays, rfl⟩ := Option.map_eq_some_iff.mp hdates
    obtain ⟨d, hd, rfl⟩ := List.mem_map.mp hx
    obtain ⟨h₁, hle⟩ := (monthDays_spec hdays).2 d hd
    refine ⟨d, ?_, ?_, h₁, hle, rfl⟩
    · by_contra hm
      rw [daysInMonth_eq_zero ym.1 (.inl (by omega))] at hle
      omega
    · by_contra hm
      rw [daysInMonth_eq_zero ym.1 (.inr (by omega))] at hle
      omega
  have hadvance : ∀ ym : Int × Nat, monthStart ((advanceMonth n ym).1 * 12 + ((advanceMonth n ym).2 - 1)) =
      monthStart (ym.1 * 12 + (ym.2 - 1) + n) := by
    intro ym
    obtain ⟨-, -, -, -, hindex⟩ := addMonths_spec ym.1 ym.2 1 n
    rw [← hindex]
    rfl
  have hlater : ∀ t : Int, monthStart (t + 1) ≤ monthStart (t + n) := by
    intro t
    have h := monthStart_add (t + 1) (n - 1).toNat
    rw [Int.toNat_of_nonneg (by omega), show t + 1 + (n - 1) = t + n by omega] at h
    omega
  constructor
  · intro ym dates hdates x hx
    obtain ⟨d, hm₁, hm₁₂, hd₁, hd, rfl⟩ := hmem ym dates hdates x hx
    have hdim := daysInMonth_le ym.1 ym.2
    exact ⟨rfl, by dsimp only; omega, by dsimp only; omega⟩
  · intro ym dates hdates
    obtain ⟨days, hdays, rfl⟩ := Option.map_eq_some_iff.mp hdates
    refine List.pairwise_map.mpr ((monthDays_spec hdays).1.imp_of_mem fun {a b} ha hb hab => ?_)
    obtain ⟨-, hm₁, hm₁₂, -⟩ := hmem ym _ hdates _ (List.mem_map_of_mem ha)
    dsimp only
    rw [daysFromCivil_month _ _ hm₁ hm₁₂, daysFromCivil_month _ _ hm₁ hm₁₂]
    omega
  · intro ym dates hdates x hx
    obtain ⟨d, hm₁, hm₁₂, hd₁, hd, rfl⟩ := hmem ym dates hdates x hx
    have hsucc := monthStart_succ (ym.1 * 12 + (ym.2 - 1))
    have hnext := hlater (ym.1 * 12 + (ym.2 - 1))
    rw [show (ym.1 * 12 + ((ym.2 : Int) - 1)) / 12 = ym.1 by omega,
      show ((ym.1 * 12 + ((ym.2 : Int) - 1)) % 12 + 1).toNat = ym.2 by omega] at hsucc
    dsimp only
    rw [daysFromCivil_month _ _ hm₁ hm₁₂, hadvance]
    omega
  · intro ym
    have h := monthStart_add (ym.1 * 12 + (ym.2 - 1)) n.toNat
    rw [Int.toNat_of_nonneg hn.le] at h
    rw [hadvance]
    omega

/-! ## The plain step -/

/-- A month of the calendar, and a day some month has. -/
def InMonth (m d : Nat) : Prop := 1 ≤ m ∧ m ≤ 12 ∧ d ≤ 31

theorem interval_pos (rule : RRule) : 0 < interval rule := by
  rw [interval]
  split
  · decide
  · rename_i h
    rw [UInt32.lt_iff_toNat_lt] at h
    exact Int.natCast_pos.mpr (Nat.pos_of_ne_zero fun h₀ => h (by rw [h₀]; decide))

/-- A step goes to a later date. From the second date on a monthly rule is in a real month. -/
theorem advance_later {cur : DateTime} (h : advance rule cur = some date)
    (hmonth : rule.freq = .monthly → InMonth cur.month.toNat cur.day.toNat ∨
      cur.days < daysFromCivil date.1 date.2.1 date.2.2) :
    cur.days < daysFromCivil date.1 date.2.1 date.2.2 ∧ date.2.1 < 256 ∧ date.2.2 < 256 ∧
      (rule.freq = .monthly → InMonth date.2.1 date.2.2) := by
  have hpos := interval_pos rule
  have hm := cur.month.toNat_lt
  have hd := cur.day.toNat_lt
  -- days on: the date is that of the later day number
  have hdays : ∀ n : Int, 0 < n →
      let date := addDays cur.year.toNat cur.month.toNat cur.day.toNat n
      cur.days < daysFromCivil date.1 date.2.1 date.2.2 ∧ date.2.1 < 256 ∧ date.2.2 < 256 := by
    intro n hn
    obtain ⟨hdays, hm', hd'⟩ := dated_civilFromDays (cur.days + n)
    refine ⟨?_, hm', hd'⟩
    show cur.days < _
    refine lt_of_lt_of_eq ?_ hdays.symm
    omega
  rw [advance] at h
  cases hfreq : rule.freq with
  | daily =>
    rw [hfreq] at h
    obtain rfl := Option.some.inj h
    obtain ⟨h₁, h₂, h₃⟩ := hdays _ hpos
    exact ⟨h₁, h₂, h₃, fun h => nomatch h⟩
  | weekly =>
    rw [hfreq] at h
    obtain rfl := Option.some.inj h
    obtain ⟨h₁, h₂, h₃⟩ := hdays (interval rule * 7) (by omega)
    exact ⟨h₁, h₂, h₃, fun h => nomatch h⟩
  | monthly =>
    rw [hfreq] at h
    obtain rfl := Option.some.inj h
    obtain ⟨hm₁, hm₁₂, hday, -⟩ :=
      addMonths_spec cur.year.toNat cur.month.toNat cur.day.toNat (interval rule)
    refine ⟨?_, by omega, by omega, fun _ => ⟨hm₁, hm₁₂, hday⟩⟩
    obtain ⟨hm₁', hm₁₂', hday'⟩ | hlater := hmonth hfreq
    · exact daysFromCivil_lt_addMonths _ hm₁' hm₁₂' hday' hpos
    · exact hlater
  | yearly =>
    rw [hfreq] at h
    obtain rfl := Option.some.inj h
    refine ⟨daysFromCivil_lt_year _ _ hpos hd, hm, ?_, fun h => nomatch h⟩
    dsimp only
    split <;> omega
  | secondly | minutely | hourly | other =>
    rw [hfreq] at h
    exact nomatch h

/-- The dates the loop comes to, with the starts it has by then. -/
inductive PlainReached (q : Query) (rule : RRule) (dtstart : DateTime) : DateTime → Acc → Prop
  | start : PlainReached q rule dtstart dtstart {}
  | next {cur : DateTime} {acc acc' : Acc} {date : Civil} :
      PlainReached q rule dtstart cur acc → offer q rule cur acc = (.next, acc') →
      advance rule cur = some date → PlainReached q rule dtstart (occ dtstart date) acc'

/-- Every date the loop goes on to has a year of four digits, and a monthly rule's first step
is not back: the day of DTSTART does not run past the end of the next month. -/
def PlainInYears (q : Query) (rule : RRule) (dtstart : DateTime) : Prop :=
  ∀ cur acc acc' date, PlainReached q rule dtstart cur acc → offer q rule cur acc = (.next, acc') →
    advance rule cur = some date →
    InYears date ∧ (rule.freq = .monthly → cur = dtstart →
      cur.days < daysFromCivil date.1 date.2.1 date.2.2)

theorem plainLoop_sound (hyears : PlainInYears q rule dtstart) (steps : Nat) :
    ∀ (cur : DateTime) (acc : Acc), PlainReached q rule dtstart cur acc →
      Good q rule dtstart acc cur.days → le dtstart cur = true →
      (rule.freq = .monthly → InMonth cur.month.toNat cur.day.toNat ∨ cur = dtstart) →
      Sound q rule dtstart (plainLoop q rule dtstart steps cur acc) := by
  induction steps with
  | zero => exact fun _ _ _ hgood _ _ => hgood.sound
  | succ steps ih =>
    intro cur acc hreached hgood hstart hmonth
    rw [plainLoop]
    cases hoffer : offer q rule cur acc with
    | mk flow acc' =>
      obtain ⟨hsound, hnext⟩ := offer_good hgood hstart hoffer
      cases flow with
      | stop => exact hsound
      | full => exact hsound
      | next =>
        dsimp only
        cases hadv : advance rule cur with
        | none => exact hsound
        | some date =>
          obtain ⟨hyear, hfirst⟩ := hyears cur acc acc' date hreached hoffer hadv
          obtain ⟨hlater, hm, hd, hmonth'⟩ := advance_later hadv fun hfreq =>
            (hmonth hfreq).imp_right (hfirst hfreq)
          have hdays := @Dated.occ dtstart _ _ (Dated.mk rfl hm hd) hyear
          have hcur : dtstart.days ≤ cur.days := by
            rw [le_iff] at hstart
            omega
          have hmonth'' : rule.freq = .monthly →
              InMonth (occ dtstart date).month.toNat (occ dtstart date).day.toNat := by
            intro hfreq
            rw [occ, UInt8.toNat_ofNat_of_lt' hm, UInt8.toNat_ofNat_of_lt' hd]
            exact hmonth' hfreq
          exact ih (occ dtstart date) acc' (.next hreached hoffer hadv)
            (hnext rfl _ (by rw [hdays]; exact hlater))
            (le_of_days (by rw [hdays]; omega) (secs_occ date).symm)
            fun hfreq => .inl (hmonth'' hfreq)

/-! ## Expansion -/

/-- What the expansion of a rule relies on, by the way it is expanded. -/
def Clean (q : Query) (rule : RRule) (dtstart : DateTime) : Shape → Prop
  -- only DTSTART is considered, and UNTIL is not
  | .seed => le q.rangeStart dtstart = true → le dtstart q.rangeEnd = true →
    pastUntil rule dtstart = false
  | .weeks offsets =>
    PeriodsInYears (fun _ => True) q rule dtstart (fun anchor => some (weekDates offsets anchor))
      (· + interval rule * 7) civilFromDays (week0 dtstart)
  | .months bymonthday ordinals =>
    PeriodsInYears (fun ym => ∀ x ∈ ordinals, OrdinalFits ym.1 ym.2 x.2 x.1) q rule dtstart
      (monthDates bymonthday ordinals) (advanceMonth (interval rule)) (fun ym => (ym.1, ym.2, 1))
      (dtstart.year.toNat, dtstart.month.toNat)
  | .plain => PlainInYears q rule dtstart

/-- A weekly shape has the weekdays of a rule. -/
theorem shape_weeks {offsets : List Nat} (h : shape rule = some (.weeks offsets)) :
    offsets = weekOffsets rule.byday := by
  rw [shape] at h
  split at h
  · exact nomatch h
  · exact nomatch h
  · have h := Option.some.inj h
    split at h
    · exact nomatch h
    · exact (Shape.weeks.inj h).symm
  · obtain ⟨ordinals, -, h⟩ := Option.bind_eq_some_iff.mp h
    have h := Option.some.inj h
    split at h
    · exact nomatch h
    · exact nomatch h
  · exact nomatch h

/-- A monthly shape has the ordinals of a rule. -/
theorem shape_months (h : shape rule = some (.months bymonthday ordinals)) :
    ordinalBydays rule.byday = some ordinals := by
  rw [shape] at h
  split at h
  · exact nomatch h
  · exact nomatch h
  · have h := Option.some.inj h
    split at h <;> exact nomatch h
  · obtain ⟨ordinals', hordinals, h⟩ := Option.bind_eq_some_iff.mp h
    have h := Option.some.inj h
    split at h
    · exact nomatch h
    · rw [hordinals, (Shape.months.inj h).2]
  · exact nomatch h

theorem sound_nil : Sound q rule dtstart [] := by
  refine ⟨Nat.zero_le _, .nil, ?_, ?_, ?_⟩ <;> exact fun x hx => absurd hx List.not_mem_nil

theorem expandShape_sound (hmax : q.max ≠ 0) {s : Shape} (hs : shape rule = some s)
    (hclean : Clean q rule dtstart s) :
    ∃ out, expandShape q rule dtstart s = some out ∧ Sound q rule dtstart out := by
  cases s with
  | seed =>
    refine ⟨_, rfl, ?_⟩
    split
    · rename_i hrange
      rw [Bool.and_eq_true] at hrange
      have hone : ∀ {p : DateTime → Prop}, p dtstart → ∀ x ∈ [dtstart], p x := by
        intro p hp x hx
        exact List.mem_singleton.mp hx ▸ hp
      refine ⟨Nat.pos_of_ne_zero hmax, List.pairwise_singleton _ _, ?_, ?_, ?_⟩
      · exact hone (le_of_days (Int.le_refl _) rfl)
      · exact hone hrange
      · exact hone (hclean hrange.1 hrange.2)
    · exact sound_nil
  | weeks offsets =>
    obtain rfl := shape_weeks hs
    exact periodLoop_sound (calendar_weeks rule.byday (interval_pos rule)) hclean
      (fun _ _ _ => ⟨_, rfl⟩) _ _ _ _ (Nat.zero_add _) .start (good_start hmax _)
  | months bymonthday ordinals =>
    have hord := ordinalBydays_spec (shape_months hs)
    exact periodLoop_sound (calendar_months bymonthday ordinals (interval_pos rule)) hclean
      (fun k hk hfits => monthDates_of_fits hord bymonthday ⟨k, hk, rfl⟩ hfits) _ _ _ _
      (Nat.zero_add _) .start (good_start hmax _)
  | plain =>
    exact ⟨_, rfl, plainLoop_sound hclean _ _ _ .start (good_start hmax _)
      (le_of_days (Int.le_refl _) rfl) fun _ => .inr rfl⟩

theorem expand_sound (dtstart : DateTime) (rule : RRule) (q : Query)
    (h : q.max = 0 ∨ ∃ s, shape rule = some s ∧ Clean q rule dtstart s) :
    ∃ out, expand dtstart rule q = some out ∧ Sound q rule dtstart out := by
  by_cases hmax : q.max = 0
  · exact ⟨[], by rw [expand, if_pos hmax], sound_nil⟩
  · obtain ⟨s, hs, hclean⟩ := h.resolve_left hmax
    rw [expand, if_neg hmax, hs, Option.bind_some]
    exact expandShape_sound hmax hs hclean

/-- The first Monday of the month, twice. -/
def firstMondays : RRule := { freq := .monthly, count := some 2, byday := ["1MO"] }

def january : DateTime := { year := 2026, month := 1, day := 2 }

/-- The first half of the year, at most ten starts. -/
def halfYear : Query := ⟨{ year := 2026, month := 1, day := 1 }, { year := 2026, month := 6, day := 30 }, 10⟩

/-- The rule comes to two months. -/
theorem firstMondays_reached {k : Nat} (h :
      PeriodReached halfYear firstMondays january (monthDates [] [(1, 1)])
      (advanceMonth (interval firstMondays)) (fun ym => (ym.1, ym.2, 1)) (2026, 1) k ym acc) :
    ym = (2026, 1) ∧ acc = {} ∨
      ym = (2026, 2) ∧ acc = { out := [{ january with day := 5 }], generated := 1 } := by
  induction h with
  | start => exact .inl ⟨rfl, rfl⟩
  | next _ hdays hoffer hcount _ ih =>
    obtain ⟨rfl, rfl⟩ | ⟨rfl, rfl⟩ := ih
    · obtain rfl : [(20458, 2026, 1, 5)] = _ := Option.some.inj (Eq.trans (by decide) hdays)
      exact .inr ⟨by decide, (congrArg Prod.snd hoffer).symm.trans (by decide)⟩
    · obtain rfl : [(20486, 2026, 2, 2)] = _ := Option.some.inj (Eq.trans (by decide) hdays)
      obtain rfl := (congrArg Prod.snd hoffer).symm
      exact absurd hcount (by decide)

theorem expand_firstMondays_sound :
    ∃ out, expand january firstMondays halfYear = some out ∧ Sound halfYear firstMondays january out := by
  have hordinals : ordinalBydays firstMondays.byday = some [(1, 1)] := by decide +kernel
  have hraw : extractBymonthday firstMondays.raw = [] := by decide +kernel
  have hshape : shape firstMondays = some (.months [] [(1, 1)]) := by
    show (ordinalBydays firstMondays.byday).bind _ = _
    rw [hordinals, hraw]
    rfl
  refine expand_sound january firstMondays halfYear (.inr ⟨_, hshape, ?_⟩)
  intro k _ ym acc hreached
  have hone : ∀ {dn : Int} {date date' : Civil},
      Offered halfYear firstMondays january [(dn, date)] acc date' → date' = date := by
    rintro dn date date' (_ | ⟨_, ⟨⟩⟩ | ⟨_, _, ⟨⟩⟩)
    rfl
  obtain ⟨rfl, rfl⟩ | ⟨rfl, rfl⟩ := firstMondays_reached hreached
  · refine ⟨by unfold OrdinalFits; decide, fun days hdays date hoffered => ?_⟩
    obtain rfl : [(20458, 2026, 1, 5)] = days := Option.some.inj (Eq.trans (by decide) hdays)
    rw [hone hoffered]
    exact ⟨by decide, by decide⟩
  · refine ⟨by unfold OrdinalFits; decide, fun days hdays date hoffered => ?_⟩
    obtain rfl : [(20486, 2026, 2, 2)] = days := Option.some.inj (Eq.trans (by decide) hdays)
    rw [hone hoffered]
    exact ⟨by decide, by decide⟩

/-- The day after the last one of year 9999 is in year 0, and in the range again. -/
theorem expand_wraps :
    ¬ ∀ (dtstart : DateTime) (rule : RRule) (q : Query),
      ∃ out, expand dtstart rule q = some out ∧ Sound q rule dtstart out := by
  intro hclaim
  obtain ⟨out, hout, hsound⟩ := hclaim { year := 9999, month := 12, day := 31 } { freq := .daily }
    ⟨{ year := 0, month := 1, day := 1 }, { year := 9999, month := 12, day := 31 }, 2⟩
  have hrun : expand { year := 9999, month := 12, day := 31 } { freq := .daily }
      ⟨{ year := 0, month := 1, day := 1 }, { year := 9999, month := 12, day := 31 }, 2⟩ =
      some [{ year := 9999, month := 12, day := 31 }, { year := 0, month := 1, day := 1 }] := by
    decide
  obtain rfl := Option.some.inj (hout.symm.trans hrun)
  have hlast := hsound.notBefore { year := 0, month := 1, day := 1 } (by decide)
  exact absurd hlast (by decide)

end AthenaOS.Pim
