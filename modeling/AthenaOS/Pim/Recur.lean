import AthenaOS.Lib.Overflow
import AthenaOS.Lib.Text
import AthenaOS.Pim.Civil

/-!
# Recurrence expansion

A recurring event is its first start and a rule; a calendar view asks for the starts within a
range.

- `periodLoop`: week by week or month by month. `plainLoop`: the first start moved on.
- `expand`: the starts within the range. `none` is a panic: a BYDAY token is cut two bytes
  before its end, which may be inside a character, or its ordinal overflows.
-/

namespace AthenaOS.Pim

open Lib Lib.Text

structure DateTime where
  year : UInt16
  month : UInt8
  day : UInt8
  hour : UInt8 := 0
  minute : UInt8 := 0
  second : UInt8 := 0
  isDate : Bool := false
  utc : Bool := false
  tz : Option String := none
  raw : String := ""
  deriving DecidableEq

/-- The day number of the date as it stands: the parser does not check the fields. -/
def DateTime.days (dt : DateTime) : Int :=
  daysFromCivil dt.year.toNat dt.month.toNat dt.day.toNat

def DateTime.secs (dt : DateTime) : Nat :=
  dt.hour.toNat * 3600 + dt.minute.toNat * 60 + dt.second.toNat

def orderKey (dt : DateTime) : Int × Nat := (dt.days, dt.secs)

/-- Tuples compare by their first components first. -/
def le (a b : DateTime) : Bool :=
  (orderKey a).1 < (orderKey b).1 ||
    ((orderKey a).1 == (orderKey b).1 && (orderKey a).2 ≤ (orderKey b).2)

inductive Freq where
  | secondly
  | minutely
  | hourly
  | daily
  | weekly
  | monthly
  | yearly
  | other (token : String)
  deriving DecidableEq

structure RRule where
  freq : Freq
  interval : UInt32 := 1
  count : Option UInt32 := none
  untilTime : Option DateTime := none
  byday : List String := []
  raw : String := ""

/-! ## Reading the parts of a rule -/

def weekdayToken (tok : String) : Option Nat :=
  if tok = "SU" then some 0
  else if tok = "MO" then some 1
  else if tok = "TU" then some 2
  else if tok = "WE" then some 3
  else if tok = "TH" then some 4
  else if tok = "FR" then some 5
  else if tok = "SA" then some 6
  else none

/-- `str::parse::<i32>` -/
def parseI32 (s : List Char) : Option Int := parseSigned 31 s

/-- Each byte as a character of its own. -/
def charsOfBytes (bytes : List UInt8) : List Char := bytes.map fun b => Char.ofNat b.toNat

def asciiUpper2 (bytes : List UInt8) : String :=
  .ofList ((charsOfBytes bytes).map Char.toUpper)

/-- A slice may start here: not in the middle of a character. -/
def isCharBoundary (bytes : List UInt8) (i : Nat) : Bool :=
  match bytes[i]? with
  | some b => b < 0x80 || 0xC0 ≤ b
  | none => i == bytes.length

/-- The ordinal and the weekday of a token. The outer `none` is a panic of the slice. -/
def parseByday (tok : String) : Option (Option (Option Int × Nat)) :=
  let bytes := (String.ofList (trim tok.toList)).toUTF8.toList
  if bytes.length < 2 then some none
  else
    let split := bytes.length - 2
    if !isCharBoundary bytes split then none
    else
      match weekdayToken (asciiUpper2 (bytes.drop split)) with
      | none => some none
      | some wd =>
        if split == 0 then some (some (none, wd))
        else
          match parseI32 (charsOfBytes (bytes.take split)) with
          | none => some none
          | some n => if n == 0 then some none else some (some (some n, wd))

/-- The tokens with an ordinal. -/
def ordinalBydays : List String → Option (List (Int × Nat))
  | [] => some []
  | tok :: toks => do
    let parsed ← parseByday tok
    let rest ← ordinalBydays toks
    match parsed with
    | some (some n, wd) => some ((n, wd) :: rest)
    | _ => some rest

def eqIgnoreAsciiCase (a b : List Char) : Bool := a.map Char.toUpper == b.map Char.toUpper

/-- The BYMONTHDAY numbers, at most 64, read from the text of the rule. -/
def extractBymonthday (raw : String) : List Int :=
  (List.splitOn ';' raw.toList).foldl
    (fun out part =>
      match List.splitOn '=' part with
      | key :: v :: vs =>
        if eqIgnoreAsciiCase (trim key) "BYMONTHDAY".toList then
          -- only the first `=` splits
          (List.splitOn ',' (['='].intercalate (v :: vs))).foldl
            (fun out tok =>
              if (trim tok).isEmpty || out.length ≥ 64 then out
              else
                match parseI32 (trim tok) with
                | some n => if -31 ≤ n ∧ n ≤ 31 ∧ n ≠ 0 then out ++ [n] else out
                | none => out)
            out
        else out
      | _ => out)
    []

/-- The month and the day are bytes and the year of the era is below 400: the rest is small. -/
def checkedDaysFromCivil (y m d : Int) : Option Int := do
  let y ← fit 64 (if m ≤ 2 then y - 1 else y)
  let era := Int.tdiv (← fit 64 (if y ≥ 0 then y else y - 399)) 400
  let yoe ← fit 64 (y - (← fit 64 (era * 400)))
  let mp := Int.tmod (m + 9) 12
  let doy := Int.tdiv (153 * mp + 2) 5 + d - 1
  let doe ← fit 64 (yoe * 365 + Int.tdiv yoe 4 - Int.tdiv yoe 100 + doy)
  fit 64 ((← fit 64 ((← fit 64 (era * 146097)) + doe)) - 719468)

/-- The first day of the month on the weekday. -/
def firstDay (firstWd weekday : Nat) : Nat := 1 + (7 + weekday - firstWd) % 7

/-- The day of the month, from its first or last day on. The outer `none` is an overflow: of the sum
in 32 bits, or of the negation. -/
def nthWeekdayOfMonth (year : Int) (month weekday : Nat) (ord : Int) : Option (Option Nat) :=
  let dim := daysInMonth year month
  if dim == 0 || ord == 0 then some none
  else if ord > 0 then do
    let firstWd := weekdayFromDays (← checkedDaysFromCivil year month 1)
    let day := firstDay firstWd weekday + 7 * (ord.toNat - 1)
    if day < 2 ^ 32 then some (if 1 ≤ day ∧ day ≤ dim then some day else none) else none
  else do
    let lastWd := weekdayFromDays (← checkedDaysFromCivil year month dim)
    let back := (7 + lastWd - weekday) % 7
    let fromEnd ← fit 32 (-ord)
    let day ← fit 64 (dim - back - 7 * (fromEnd - 1))
    some (if 1 ≤ day ∧ day ≤ dim then some day.toNat else none)

/-! ## Candidates -/

/-- A start on the date. A year that does not have four digits becomes 0. -/
def occ (dtstart : DateTime) (date : Civil) : DateTime :=
  { dtstart with
    year := if 0 ≤ date.1 ∧ date.1 ≤ 9999 then UInt16.ofNat date.1.toNat else 0
    month := UInt8.ofNat date.2.1
    day := UInt8.ofNat date.2.2
    raw := "" }

/-- What an expansion is asked for. -/
structure Query where
  rangeStart : DateTime
  rangeEnd : DateTime
  max : Nat

structure Acc where
  out : List DateTime := []
  generated : Nat := 0
  deriving DecidableEq

inductive Flow where
  | next
  | stop
  | full
  deriving DecidableEq

def countReached (rule : RRule) (acc : Acc) : Bool :=
  match rule.count with
  | some limit => limit.toNat ≤ acc.generated
  | none => false

def pastUntil (rule : RRule) (cand : DateTime) : Bool :=
  match rule.untilTime with
  | some u => !le cand u
  | none => false

/-- The body all the loops share: the bounds, the count, and the range. -/
def offer (q : Query) (rule : RRule) (cand : DateTime) (acc : Acc) : Flow × Acc :=
  if pastUntil rule cand then (.stop, acc)
  else if !le cand q.rangeEnd then (.stop, acc)
  else if countReached rule acc then (.stop, acc)
  else
    let acc := { acc with generated := acc.generated + 1 }
    if le q.rangeStart cand then
      let acc := { acc with out := acc.out ++ [cand] }
      (if acc.out.length ≥ q.max then .full else .next, acc)
    else (.next, acc)

/-- The dates of one period, with their day numbers. Those before DTSTART do not count. -/
def offerDays (q : Query) (rule : RRule) (dtstart : DateTime) :
    List (Int × Civil) → Acc → Flow × Acc
  | [], acc => (.next, acc)
  | (dn, date) :: dates, acc =>
    if dn < dtstart.days then offerDays q rule dtstart dates acc
    else
      match offer q rule (occ dtstart date) acc with
      | (.next, acc) => offerDays q rule dtstart dates acc
      | (flow, acc) => (flow, acc)

/-- Period by period, until the next one starts after the range. -/
def periodLoop {P : Type} (q : Query) (rule : RRule) (dtstart : DateTime)
    (dates : P → Option (List (Int × Civil))) (advance : P → P) (first : P → Civil) :
    Nat → P → Acc → Option (List DateTime)
  | 0, _, acc => some acc.out
  | steps + 1, p, acc =>
    match dates p with
    | none => none
    | some days =>
      match offerDays q rule dtstart days acc with
      | (.next, acc) =>
        if countReached rule acc then some acc.out
        else if !le (occ dtstart (first (advance p))) q.rangeEnd then some acc.out
        else periodLoop q rule dtstart dates advance first steps (advance p) acc
      | (_, acc) => some acc.out

def interval (rule : RRule) : Int := if rule.interval < 1 then 1 else rule.interval.toNat

def pushNew (days : List Nat) (d : Nat) : List Nat := if days.contains d then days else days ++ [d]

/-! ## Weeks -/

/-- The selected weekdays, counted from Monday, in order. -/
def weekOffsets (byday : List String) : List Nat :=
  let wanted := byday.foldl
    (fun wanted tok =>
      match weekdayToken tok with
      | some wd => pushNew wanted wd
      | none => wanted) []
  (wanted.map fun wd => (wd + 6) % 7).insertionSort (· ≤ ·)

def weekDates (offsets : List Nat) (anchor : Int) : List (Int × Civil) :=
  offsets.map fun (off : Nat) => (anchor + off, civilFromDays (anchor + off))

/-- The Monday of the week of DTSTART. -/
def week0 (dtstart : DateTime) : Int := dtstart.days - ((weekdayFromDays dtstart.days + 6) % 7 : Nat)

/-! ## Months -/

/-- The days BYMONTHDAY selects. -/
def dayNumbers (bymonthday : List Int) (dim : Nat) : List Nat :=
  bymonthday.foldl
    (fun days md =>
      let dnum : Int := if md > 0 then md else dim + 1 + md
      if md ≠ 0 ∧ 1 ≤ dnum ∧ dnum ≤ dim then pushNew days dnum.toNat else days) []

/-- Then those of the BYDAY ordinals. -/
def pushOrdinals (y : Int) (m : Nat) : List (Int × Nat) → List Nat → Option (List Nat)
  | [], days => some days
  | (ord, wd) :: ordinals, days =>
    match nthWeekdayOfMonth y m wd ord with
    | none => none
    | some none => pushOrdinals y m ordinals days
    | some (some dnum) => pushOrdinals y m ordinals (pushNew days dnum)

/-- The selected days of a month, in order. -/
def monthDays (bymonthday : List Int) (ordinals : List (Int × Nat)) (y : Int) (m : Nat) :
    Option (List Nat) :=
  (pushOrdinals y m ordinals (dayNumbers bymonthday (daysInMonth y m))).map
    (·.insertionSort (· ≤ ·))

def monthDates (bymonthday : List Int) (ordinals : List (Int × Nat)) (ym : Int × Nat) :
    Option (List (Int × Civil)) :=
  (monthDays bymonthday ordinals ym.1 ym.2).map fun days =>
    days.map fun (d : Nat) => (daysFromCivil ym.1 ym.2 d, ym.1, ym.2, d)

def advanceMonth (interval : Int) (ym : Int × Nat) : Int × Nat :=
  let (ny, nm, _) := addMonths ym.1 ym.2 1 interval
  (ny, nm)

/-! ## The plain step -/

/-- The date moved on by one interval. `none` for a frequency that is not stepped. -/
def advance (rule : RRule) (cur : DateTime) : Option Civil :=
  match rule.freq with
  | .daily => some (addDays cur.year.toNat cur.month.toNat cur.day.toNat (interval rule))
  | .weekly => some (addDays cur.year.toNat cur.month.toNat cur.day.toNat (interval rule * 7))
  | .monthly => some (addMonths cur.year.toNat cur.month.toNat cur.day.toNat (interval rule))
  | .yearly =>
    let ty : Int := cur.year.toNat + interval rule
    let last := daysInMonth ty cur.month.toNat
    some (ty, cur.month.toNat, if cur.day.toNat > last then last else cur.day.toNat)
  | _ => none

def plainLoop (q : Query) (rule : RRule) (dtstart : DateTime) : Nat → DateTime → Acc → List DateTime
  | 0, _, acc => acc.out
  | steps + 1, cur, acc =>
    match offer q rule cur acc with
    | (.next, acc) =>
      match advance rule cur with
      | some date => plainLoop q rule dtstart steps (occ dtstart date) acc
      | none => acc.out
    | (_, acc) => acc.out

/-! ## Expansion -/

def maxSteps : Nat := 4000000

/-- How a rule is expanded. -/
inductive Shape where
  /-- Sub-daily and unknown frequencies: DTSTART only. -/
  | seed
  | weeks (offsets : List Nat)
  | months (bymonthday : List Int) (ordinals : List (Int × Nat))
  | plain

def shape (rule : RRule) : Option Shape :=
  match rule.freq with
  | .daily | .yearly => some .plain
  | .weekly =>
    let offsets := weekOffsets rule.byday
    some (if offsets.isEmpty then .plain else .weeks offsets)
  | .monthly => do
    let ordinals ← ordinalBydays rule.byday
    let bymonthday := extractBymonthday rule.raw
    some (if bymonthday.isEmpty && ordinals.isEmpty then .plain else .months bymonthday ordinals)
  | _ => some .seed

def expandShape (q : Query) (rule : RRule) (dtstart : DateTime) : Shape → Option (List DateTime)
  | .seed => some (if le q.rangeStart dtstart && le dtstart q.rangeEnd then [dtstart] else [])
  | .weeks offsets =>
    periodLoop q rule dtstart (fun anchor => some (weekDates offsets anchor))
      (· + interval rule * 7) civilFromDays maxSteps (week0 dtstart) {}
  | .months bymonthday ordinals =>
    periodLoop q rule dtstart (monthDates bymonthday ordinals) (advanceMonth (interval rule))
      (fun ym => (ym.1, ym.2, 1)) maxSteps (dtstart.year.toNat, dtstart.month.toNat) {}
  | .plain => some (plainLoop q rule dtstart maxSteps dtstart {})

def expand (dtstart : DateTime) (rule : RRule) (q : Query) : Option (List DateTime) :=
  if q.max = 0 then some [] else (shape rule).bind (expandShape q rule dtstart)

end AthenaOS.Pim
