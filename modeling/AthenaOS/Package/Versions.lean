import AthenaOS.Package.Solver

/-!
# The order of versions

A version string is a sequence of segments: numbers, from runs of digits, and single letters. The
left side decides how a segment is read, so that a number against a letter comes out greater in
both directions, unless the number is zero and is skipped.
-/

namespace AthenaOS.Package

/-! ## Segments -/

inductive Segment where
  /-- Where the version ends, and where the release does. -/
  | stop
  | number (n : Nat)
  | letter (c : UInt8)
  deriving DecidableEq

namespace Segment

def rank : Segment → Nat
  | stop => 0
  | number _ => 1
  | letter _ => 2

def value : Segment → Nat
  | stop => 0
  | number n => n
  | letter c => c.toNat

/-- An end comes before numbers, and numbers before letters. -/
def cmp : Segment → Segment → Ordering := compareLex (compareOn rank) (compareOn value)

instance : Std.TransCmp cmp := inferInstanceAs (Std.TransCmp (compareLex _ _))

end Segment

open Segment

/-- Compare segment by segment, as the source does. -/
def cmpSegments : List Segment → List Segment → Ordering
  | [], [] => .eq
  | [], _ :: _ => .lt
  | _ :: _, [] => .gt
  | s :: as, t :: bs =>
    match s, t with
    | .stop, .stop => cmpSegments as bs
    | .stop, _ => .lt
    | _, .stop => .gt
    | .number m, .number n => (compare m n).then (cmpSegments as bs)
    -- the letter's side counts as zero, and is not moved on
    | .number m, .letter c => if m = 0 then cmpSegments as (.letter c :: bs) else .gt
    | .letter _, .number _ => .gt
    | .letter c, .letter d => (compare c d).then (cmpSegments as bs)

/-- The left side comes out less. -/
inductive Less : List Segment → List Segment → Prop
  | nil {t : Segment} {bs : List Segment} : Less [] (t :: bs)
  | stop {t : Segment} {as bs : List Segment} : t ≠ .stop → Less (.stop :: as) (t :: bs)
  | number {m n : Nat} {as bs : List Segment} : m < n → Less (.number m :: as) (.number n :: bs)
  | letter {c d : UInt8} {as bs : List Segment} : c < d → Less (.letter c :: as) (.letter d :: bs)
  /-- A zero is skipped. -/
  | skip {c : UInt8} {as bs : List Segment} : Less as (.letter c :: bs) → Less (.number 0 :: as) (.letter c :: bs)
  | cons {s : Segment} {as bs : List Segment} : Less as bs → Less (s :: as) (s :: bs)

/-- Behind equal segments a number meets a letter, and its side does not come out less. -/
inductive Clash : List Segment → List Segment → Prop
  | left {m : Nat} {c : UInt8} {as bs : List Segment} :
    ¬ (m = 0 ∧ Less as (.letter c :: bs)) → Clash (.number m :: as) (.letter c :: bs)
  | right {m : Nat} {c : UInt8} {as bs : List Segment} :
    ¬ (m = 0 ∧ Less bs (.letter c :: as)) → Clash (.letter c :: as) (.number m :: bs)
  | cons {s : Segment} {as bs : List Segment} : Clash as bs → Clash (s :: as) (s :: bs)

theorem compare_byte (c d : UInt8) : compare c d = compare c.toNat d.toNat := by
  rw [show compare c d = compareOfLessAndEq c d from rfl, show compare c.toNat d.toNat = compareOfLessAndEq c.toNat d.toNat from rfl,
    compareOfLessAndEq, compareOfLessAndEq]
  simp only [UInt8.lt_iff_toNat_lt, UInt8.toNat_inj]

theorem compare_word (m n : UInt64) : compare m n = compare m.toNat n.toNat := by
  rw [show compare m n = compareOfLessAndEq m n from rfl, show compare m.toNat n.toNat = compareOfLessAndEq m.toNat n.toNat from rfl,
    compareOfLessAndEq, compareOfLessAndEq]
  simp only [UInt64.lt_iff_toNat_lt, UInt64.toNat_inj]

/-! ## The comparison and the order -/

section

variable {as bs : List Segment}

/-- Equal segments are passed. -/
theorem cmpSegments_cons (s : Segment) (as bs : List Segment) : cmpSegments (s :: as) (s :: bs) = cmpSegments as bs := by
  cases s with
  | stop => rfl
  | number n =>
    show (compare n n).then _ = _
    rw [Nat.compare_eq_eq.mpr rfl]
    rfl
  | letter c =>
    show (compare c c).then _ = _
    rw [compare_byte, Nat.compare_eq_eq.mpr rfl]
    rfl

theorem cmp_number (m n : Nat) : (Segment.number m).cmp (.number n) = compare m n := rfl

theorem cmp_letter (c d : UInt8) : (Segment.letter c).cmp (.letter d) = compare c d := (compare_byte c d).symm

theorem less_iff : ∀ {as bs : List Segment}, Less as bs ↔ cmpSegments as bs = .lt
  | [], [] => ⟨fun h => (nomatch h), fun h => (nomatch h)⟩
  | [], _ :: _ => ⟨fun _ => rfl, fun _ => .nil⟩
  | _ :: _, [] => ⟨fun h => (nomatch h), fun h => (nomatch h)⟩
  | s :: as, t :: bs => by
    constructor
    · intro h
      cases h with
      | stop hne =>
        cases t with
        | stop => exact absurd rfl hne
        | number | letter => rfl
      | number hlt =>
        show (compare _ _).then _ = _
        rw [Nat.compare_eq_lt.mpr hlt]
        rfl
      | letter hlt =>
        show (compare _ _).then _ = _
        rw [compare_byte, Nat.compare_eq_lt.mpr (UInt8.lt_iff_toNat_lt.mp hlt)]
        rfl
      | skip h =>
        rw [cmpSegments, if_pos rfl]
        exact less_iff.mp h
      | cons h => exact (cmpSegments_cons s as bs).trans (less_iff.mp h)
    · intro h
      cases s with
      | stop =>
        cases t with
        | stop => exact .cons (less_iff.mpr h)
        | number | letter => exact .stop (by simp)
      | number m =>
        cases t with
        | stop => exact nomatch h
        | number n =>
          obtain hlt | ⟨heq, hrest⟩ := Ordering.then_eq_lt.mp h
          · exact .number (Nat.compare_eq_lt.mp hlt)
          · exact Nat.compare_eq_eq.mp heq ▸ .cons (less_iff.mpr hrest)
        | letter c =>
          rw [cmpSegments] at h
          split at h
          · rename_i hm
            exact hm ▸ .skip (less_iff.mpr h)
          · exact nomatch h
      | letter c =>
        cases t with
        | stop => exact nomatch h
        | number n => exact nomatch h
        | letter d =>
          obtain hlt | ⟨heq, hrest⟩ := Ordering.then_eq_lt.mp h
          · rw [compare_byte] at hlt
            exact .letter (UInt8.lt_iff_toNat_lt.mpr (Nat.compare_eq_lt.mp hlt))
          · rw [compare_byte] at heq
            exact UInt8.toNat_inj.mp (Nat.compare_eq_eq.mp heq) ▸ .cons (less_iff.mpr hrest)

/-- Without a clash the comparison is the lexicographic order. -/
theorem cmpSegments_eq : ∀ {as bs : List Segment}, ¬ Clash as bs → cmpSegments as bs = List.compareLex Segment.cmp as bs
  | [], [], _ => rfl
  | [], _ :: _, _ => rfl
  | _ :: _, [], _ => rfl
  | s :: as, t :: bs, h => by
    -- behind segments that compare equal there is no clash either
    have hrest (heq : s = t) : cmpSegments as bs = List.compareLex Segment.cmp as bs :=
      cmpSegments_eq fun hclash => h (heq ▸ .cons hclash)
    rw [List.compareLex_cons_cons]
    cases s with
    | stop =>
      cases t with
      | stop => exact hrest rfl
      | number | letter => rfl
    | number m =>
      cases t with
      | stop => rfl
      | number n =>
        show (compare m n).then _ = _
        rw [cmp_number]
        cases hcmp : compare m n with
        | lt | gt => rfl
        | eq => exact hrest (by rw [Nat.compare_eq_eq.mp hcmp])
      | letter c =>
        have hless : Less (.number m :: as) (.letter c :: bs) := by
          obtain ⟨hm, hless⟩ := not_not.mp (mt Clash.left h)
          exact hm ▸ .skip hless
        exact less_iff.mp hless
    | letter c =>
      cases t with
      | stop => rfl
      | number n => rfl
      | letter d =>
        show (compare c d).then _ = _
        rw [cmp_letter]
        cases hcmp : compare c d with
        | lt | gt => rfl
        | eq =>
          rw [compare_byte] at hcmp
          exact hrest (by rw [UInt8.toNat_inj.mp (Nat.compare_eq_eq.mp hcmp)])

/-- At a clash, the result depends on which side is compared with which. -/
theorem Clash.not_swap (h : Clash as bs) : cmpSegments bs as ≠ (cmpSegments as bs).swap := by
  have hnumber {m : Nat} {c : UInt8} {as bs : List Segment} (hnot : ¬ (m = 0 ∧ Less as (.letter c :: bs))) :
      cmpSegments (.number m :: as) (.letter c :: bs) ≠ .lt := by
    intro hlt
    have hless := less_iff.mpr hlt
    cases hless with
    | skip hless => exact hnot ⟨rfl, hless⟩
  induction h with
  | left hnot =>
    intro hswap
    exact hnumber hnot (Ordering.swap_inj.mp hswap.symm)
  | right hnot => exact hnumber hnot
  | cons _ ih => rwa [cmpSegments_cons, cmpSegments_cons]

end

/-! ## Segments of strings -/

/-- The number a run of digits spells. -/
def number (digits : List UInt8) : Nat := digits.foldl (fun n c => n * 10 + (c - 48).toNat) 0

namespace Version

/-- From the next letter or digit on. -/
def skip (s : List UInt8) : List UInt8 := s.dropWhile (!isAsciiAlphanumeric ·)

theorem length_skip (s : List UInt8) : (skip s).length ≤ s.length := (List.dropWhile_sublist _).length_le

/-- The segments of a string. -/
def segments (s : List UInt8) : List Segment :=
  match _hs : skip s with
  | [] => []
  | c :: cs =>
    if isAsciiDigit c then .number (number ((c :: cs).takeWhile isAsciiDigit)) :: segments (cs.dropWhile isAsciiDigit)
    else .letter c :: segments cs
termination_by s.length
decreasing_by
  all_goals
    have hlen := length_skip s
    have htail := (List.dropWhile_sublist isAsciiDigit (l := cs)).length_le
    rw [_hs, List.length_cons] at hlen
    omega

variable {s cs : List UInt8} {c d : UInt8} {v w : Version}

theorem segments_nil (h : skip s = []) : segments s = [] := by
  rw [segments]
  split
  · rfl
  · rename_i heq
    exact nomatch h.symm.trans heq

theorem segments_digit (h : skip s = c :: cs) (hc : isAsciiDigit c = true) :
    segments s = .number (number ((c :: cs).takeWhile isAsciiDigit)) ::
      segments (cs.dropWhile isAsciiDigit) := by
  rw [segments]
  split
  · rename_i heq
    exact nomatch h.symm.trans heq
  · rename_i heq
    obtain ⟨rfl, rfl⟩ := List.cons.inj (h.symm.trans heq)
    rw [if_pos hc]

theorem segments_letter (h : skip s = c :: cs) (hc : ¬ isAsciiDigit c = true) :
    segments s = .letter c :: segments cs := by
  rw [segments]
  split
  · rename_i heq
    exact nomatch h.symm.trans heq
  · rename_i heq
    obtain ⟨rfl, rfl⟩ := List.cons.inj (h.symm.trans heq)
    rw [if_neg hc]

theorem cmpVersionStr_eq (a b : List UInt8) : cmpVersionStr a b =
    match skip a, skip b with
    | [], [] => .eq
    | [], _ :: _ => .lt
    | _ :: _, [] => .gt
    | ac :: as, bc :: bs =>
      if isAsciiDigit ac then
        (Ord.compare (digitsValue ((ac :: as).takeWhile isAsciiDigit)) (digitsValue ((bc :: bs).takeWhile isAsciiDigit))).then
          (cmpVersionStr (as.dropWhile isAsciiDigit) ((bc :: bs).dropWhile isAsciiDigit))
      else (Ord.compare ac bc).then (cmpVersionStr as bs) := by
  rw [cmpVersionStr, skip, skip]
  split
  · rename_i ha hb
    rw [ha, hb]
  · rename_i ha hb
    rw [ha, hb]
  · rename_i ha hb
    rw [ha, hb]
  · rename_i ac as bc bs ha hb
    rw [ha, hb]
    dsimp only
    split
    · generalize Ord.compare (digitsValue _) (digitsValue _) = order
      cases order <;> rfl
    · generalize Ord.compare ac bc = order
      cases order <;> rfl

/-! ## Overflow -/

/-- Every number of a sequence fits in 64 bits. -/
def Small (as : List Segment) : Prop := ∀ n, .number n ∈ as → n < 2 ^ 64

/-- One digit of a number, unless it overflows. -/
def digitChecked (n : UInt64) (c : UInt8) : Option UInt64 :=
  if n.toNat * 10 + (c - 48).toNat < 2 ^ 64 then some (n * 10 + (c - 48).toUInt64) else none

/-- The number a run of digits spells, unless it overflows. -/
def digitsChecked (digits : List UInt8) : Option UInt64 := digits.foldlM digitChecked 0

/-- The comparison of strings in a debug build. -/
def cmpVersionStrChecked (a b : List UInt8) : Option Ordering :=
  match _ha : skip a, skip b with
  | [], [] => some .eq
  | [], _ :: _ => some .lt
  | _ :: _, [] => some .gt
  | ac :: as, bc :: bs =>
    if isAsciiDigit ac then do
      let an ← digitsChecked ((ac :: as).takeWhile isAsciiDigit)
      let bn ← digitsChecked ((bc :: bs).takeWhile isAsciiDigit)
      match Ord.compare an bn with
      | .eq => cmpVersionStrChecked (as.dropWhile isAsciiDigit) ((bc :: bs).dropWhile isAsciiDigit)
      | order => some order
    else
      match Ord.compare ac bc with
      | .eq => cmpVersionStrChecked as bs
      | order => some order
termination_by a.length
decreasing_by
  all_goals
    have hlen := length_skip a
    have htail := (List.dropWhile_sublist isAsciiDigit (l := as)).length_le
    rw [_ha, List.length_cons] at hlen
    omega

/-- `compare` in a debug build. -/
def compareChecked (self other : Version) : Option Ordering :=
  match Ord.compare self.epoch other.epoch with
  | .eq => do
    match ← cmpVersionStrChecked self.version.toUTF8.toList other.version.toUTF8.toList with
    | .eq => cmpVersionStrChecked self.release.toUTF8.toList other.release.toUTF8.toList
    | order => some order
  | order => some order

theorem number_le (digits : List UInt8) : ∀ n : Nat, n ≤ digits.foldl (fun n c => n * 10 + (c - 48).toNat) n := by
  induction digits with
  | nil => exact fun n => Nat.le_refl n
  | cons c digits ih => exact fun n => Nat.le_trans (by omega) (ih (n * 10 + (c - 48).toNat))

theorem toNat_digit {n : UInt64} (h : n.toNat * 10 + (c - 48).toNat < 2 ^ 64) :
    (n * 10 + (c - 48).toUInt64).toNat = n.toNat * 10 + (c - 48).toNat := by
  rw [UInt64.toNat_add, UInt64.toNat_mul, UInt8.toNat_toUInt64]
  show (n.toNat * 10 % 2 ^ 64 + (c - 48).toNat) % 2 ^ 64 = _
  omega

/-- A run of digits is read without overflow just when its number fits. -/
theorem foldlM_digits (digits : List UInt8) : ∀ n : UInt64, digits.foldlM digitChecked n =
    if digits.foldl (fun n c => n * 10 + (c - 48).toNat) n.toNat < 2 ^ 64 then
      some (digits.foldl (fun n c => n * 10 + (c - 48).toUInt64) n) else none := by
  induction digits with
  | nil =>
    intro n
    exact (if_pos n.toNat_lt).symm
  | cons c digits ih =>
    intro n
    rw [List.foldlM_cons, digitChecked, List.foldl_cons, List.foldl_cons]
    by_cases h : n.toNat * 10 + (c - 48).toNat < 2 ^ 64
    · rw [if_pos h, ← toNat_digit h]
      exact ih _
    · rw [if_neg h, if_neg fun hlt => h (Nat.lt_of_le_of_lt (number_le digits _) hlt)]
      rfl

theorem toNat_digitsValue {digits : List UInt8} (h : number digits < 2 ^ 64) : (digitsValue digits).toNat = number digits := by
  have hmain (digits : List UInt8) : ∀ n : UInt64, digits.foldl (fun n c => n * 10 + (c - 48).toNat) n.toNat < 2 ^ 64 →
      (digits.foldl (fun n c => n * 10 + (c - 48).toUInt64) n).toNat =
        digits.foldl (fun n c => n * 10 + (c - 48).toNat) n.toNat := by
    induction digits with
    | nil => exact fun _ _ => rfl
    | cons c digits ih =>
      intro n hlt
      have hdigit := toNat_digit (Nat.lt_of_le_of_lt (number_le digits _) hlt)
      rw [List.foldl_cons, List.foldl_cons, ← hdigit]
      exact ih _ (hdigit.symm ▸ hlt)
  exact hmain digits 0 h

theorem digitsChecked_eq (digits : List UInt8) :
    digitsChecked digits = if number digits < 2 ^ 64 then some (digitsValue digits) else none := foldlM_digits digits 0

theorem cmpVersionStrChecked_eq (a b : List UInt8) : cmpVersionStrChecked a b =
    match skip a, skip b with
    | [], [] => some .eq
    | [], _ :: _ => some .lt
    | _ :: _, [] => some .gt
    | ac :: as, bc :: bs =>
      if isAsciiDigit ac then do
        let an ← digitsChecked ((ac :: as).takeWhile isAsciiDigit)
        let bn ← digitsChecked ((bc :: bs).takeWhile isAsciiDigit)
        match Ord.compare an bn with
        | .eq => cmpVersionStrChecked (as.dropWhile isAsciiDigit) ((bc :: bs).dropWhile isAsciiDigit)
        | order => some order
      else
        match Ord.compare ac bc with
        | .eq => cmpVersionStrChecked as bs
        | order => some order := by
  rw [cmpVersionStrChecked]
  split
  · rename_i ha hb
    rw [ha, hb]
  · rename_i ha hb
    rw [ha, hb]
  · rename_i ha hb
    rw [ha, hb]
  · rename_i ha hb
    rw [ha, hb]

/-- What the run of digits at the head of a string is for the comparison: nothing, when a letter is
there. -/
theorem number_letter (hd : ¬ isAsciiDigit d = true) (ds : List UInt8) :
    (d :: ds).takeWhile isAsciiDigit = [] ∧ (d :: ds).dropWhile isAsciiDigit = d :: ds := by
  rw [List.takeWhile_cons, List.dropWhile_cons, if_neg hd, if_neg hd]
  exact ⟨rfl, rfl⟩

theorem alphanumeric_skip (h : skip s = c :: cs) : isAsciiAlphanumeric c = true := by
  have hhead := List.head?_dropWhile_not (fun c => !isAsciiAlphanumeric c) s
  rw [skip] at h
  rw [h] at hhead
  simpa using hhead

/-- A string that starts with a letter or a digit is not skipped. -/
theorem skip_cons (h : isAsciiAlphanumeric c = true) (cs : List UInt8) :
    skip (c :: cs) = c :: cs := by
  rw [skip, List.dropWhile_cons, if_neg (by rw [h]; decide)]

/-- Digits come before letters. -/
theorem digit_lt_letter (hc : isAsciiAlphanumeric c = true) (hc' : ¬ isAsciiDigit c = true)
    (hd : isAsciiDigit d = true) : Ord.compare c d = .gt := by
  rw [compare_byte, Nat.compare_eq_gt]
  simp only [isAsciiAlphanumeric, isAsciiDigit, Bool.or_eq_true, Bool.and_eq_true, decide_eq_true_eq, UInt8.le_iff_toNat_le,
    not_and, not_le] at hc hc' hd
  have h48 : (48 : UInt8).toNat = 48 := rfl
  have h57 : (57 : UInt8).toNat = 57 := rfl
  have h65 : (65 : UInt8).toNat = 65 := rfl
  have h97 : (97 : UInt8).toNat = 97 := rfl
  omega

theorem tail_lt (h : skip s = c :: cs) : cs.length < s.length := by
  have hlen := length_skip s
  rwa [h, List.length_cons] at hlen

theorem digits_lt (h : skip s = c :: cs) : (cs.dropWhile isAsciiDigit).length < s.length :=
  Nat.lt_of_le_of_lt (List.dropWhile_sublist isAsciiDigit).length_le (tail_lt h)

/-- A string that has something left to compare starts with a number or a letter. -/
theorem segments_cons (h : skip s = c :: cs) : ∃ t ts, segments s = t :: ts ∧ t ≠ .stop := by
  by_cases hc : isAsciiDigit c = true
  · exact ⟨_, _, segments_digit h hc, nofun⟩
  · exact ⟨_, _, segments_letter h hc, nofun⟩

/-- The comparison of the source on what is left of both strings. -/
theorem cmpVersionStr_segments : ∀ (a b : List UInt8) (A B : List Segment), Small (segments a) → Small (segments b) →
    cmpSegments (segments a ++ .stop :: A) (segments b ++ .stop :: B) = (cmpVersionStr a b).then (cmpSegments A B) := by
  intro a b A B ha hb
  rw [cmpVersionStr_eq]
  rcases hskipa : skip a with _ | ⟨c, cs⟩
  · rw [segments_nil hskipa]
    rcases hskipb : skip b with _ | ⟨d, ds⟩
    · rw [segments_nil hskipb]
      rfl
    · obtain ⟨t, ts, ht, hne⟩ := segments_cons hskipb
      rw [ht]
      exact less_iff.mp (.stop hne)
  · rcases hskipb : skip b with _ | ⟨d, ds⟩
    · obtain ⟨t, ts, ht, hne⟩ := segments_cons hskipa
      rw [ht, segments_nil hskipb]
      cases t with
      | stop => exact absurd rfl hne
      | number | letter => rfl
    · dsimp only
      by_cases hc : isAsciiDigit c = true
      · rw [segments_digit hskipa hc] at ha ⊢
        have hm := ha _ List.mem_cons_self
        have hmvalue := toNat_digitsValue hm
        rw [if_pos hc, compare_word, hmvalue]
        by_cases hd : isAsciiDigit d = true
        · rw [segments_digit hskipb hd] at hb ⊢
          have hrest := cmpVersionStr_segments (cs.dropWhile isAsciiDigit) (ds.dropWhile isAsciiDigit) A B
            (fun n hn => ha n (List.mem_cons_of_mem _ hn)) fun n hn => hb n (List.mem_cons_of_mem _ hn)
          rw [toNat_digitsValue (hb _ List.mem_cons_self), List.dropWhile_cons, if_pos hd, Ordering.then_assoc, ← hrest]
          rfl
        · -- a letter counts as zero, and is met again behind a zero
          obtain ⟨htake, hdrop⟩ := number_letter hd ds
          have hsame : segments b = segments (d :: ds) := by
            rw [segments_letter hskipb hd, segments_letter (skip_cons (alphanumeric_skip hskipb) ds) hd]
          have hrest := cmpVersionStr_segments (cs.dropWhile isAsciiDigit) (d :: ds) A B
            (fun n hn => ha n (List.mem_cons_of_mem _ hn)) (hsame ▸ hb)
          rw [htake, hdrop, hsame, Ordering.then_assoc, ← hrest,
            segments_letter (skip_cons (alphanumeric_skip hskipb) ds) hd, List.cons_append, List.cons_append, cmpSegments]
          split
          · rename_i hzero
            rw [hzero]
            rfl
          · rename_i hzero
            have hgt : Ord.compare (number ((c :: cs).takeWhile isAsciiDigit)) (digitsValue []).toNat = .gt :=
              Nat.compare_eq_gt.mpr (Nat.pos_of_ne_zero hzero)
            rw [hgt]
            rfl
      · rw [segments_letter hskipa hc] at ha ⊢
        rw [if_neg hc]
        by_cases hd : isAsciiDigit d = true
        · rw [segments_digit hskipb hd, digit_lt_letter (alphanumeric_skip hskipa) hc hd]
          rfl
        · rw [segments_letter hskipb hd] at hb ⊢
          have hrest := cmpVersionStr_segments cs ds A B
            (fun n hn => ha n (List.mem_cons_of_mem _ hn)) fun n hn => hb n (List.mem_cons_of_mem _ hn)
          rw [Ordering.then_assoc, ← hrest]
          rfl
termination_by a => a.length
decreasing_by
  · exact digits_lt hskipa
  · exact digits_lt hskipa
  · exact tail_lt hskipa

/-- A number that is read fits, and so do those behind it. -/
theorem Small.run (h : skip s = c :: cs) (hs : Small (segments s)) :
    number ((c :: cs).takeWhile isAsciiDigit) < 2 ^ 64 ∧
      Small (segments ((c :: cs).dropWhile isAsciiDigit)) := by
  by_cases hc : isAsciiDigit c = true
  · rw [segments_digit h hc] at hs
    rw [List.dropWhile_cons, if_pos hc]
    exact ⟨hs _ List.mem_cons_self, fun n hn => hs n (List.mem_cons_of_mem _ hn)⟩
  · obtain ⟨htake, hdrop⟩ := number_letter hc cs
    rw [htake, hdrop, segments_letter (skip_cons (alphanumeric_skip h) cs) hc, ← segments_letter h hc]
    exact ⟨by decide, hs⟩

/-- With numbers that fit, a debug build compares. -/
theorem cmpVersionStrChecked_of_small : ∀ (a b : List UInt8), Small (segments a) → Small (segments b) →
    cmpVersionStrChecked a b = some (cmpVersionStr a b) := by
  intro a b ha hb
  rw [cmpVersionStr_eq, cmpVersionStrChecked_eq]
  rcases hskipa : skip a with _ | ⟨c, cs⟩
  · rcases skip b with _ | ⟨d, ds⟩ <;> rfl
  · rcases hskipb : skip b with _ | ⟨d, ds⟩
    · rfl
    · dsimp only
      by_cases hc : isAsciiDigit c = true
      · obtain ⟨hm, has⟩ := ha.run hskipa
        obtain ⟨hn, hbs⟩ := hb.run hskipb
        rw [List.dropWhile_cons, if_pos hc] at has
        have hrest := cmpVersionStrChecked_of_small (cs.dropWhile isAsciiDigit) ((d :: ds).dropWhile isAsciiDigit) has hbs
        rw [if_pos hc, if_pos hc, digitsChecked_eq, if_pos hm, digitsChecked_eq, if_pos hn]
        dsimp only [Option.bind_eq_bind, Option.bind_some]
        rw [hrest]
        generalize Ord.compare (digitsValue _) (digitsValue _) = order
        cases order <;> rfl
      · rw [if_neg hc, if_neg hc]
        have hrest (hd : c = d) : cmpVersionStrChecked cs ds = some (cmpVersionStr cs ds) := by
          subst hd
          rw [segments_letter hskipa hc] at ha
          rw [segments_letter hskipb hc] at hb
          exact cmpVersionStrChecked_of_small cs ds (fun n hn => ha n (List.mem_cons_of_mem _ hn))
            fun n hn => hb n (List.mem_cons_of_mem _ hn)
        cases hcmp : Ord.compare c d with
        | lt | gt => rfl
        | eq =>
          rw [compare_byte] at hcmp
          exact hrest (UInt8.toNat_inj.mp (Nat.compare_eq_eq.mp hcmp))
termination_by a => a.length
decreasing_by
  · exact digits_lt hskipa
  · exact tail_lt hskipa

/-- A string that a debug build can compare with itself has numbers that fit. -/
theorem small_of_checked : ∀ a : List UInt8, cmpVersionStrChecked a a ≠ none → Small (segments a) := by
  intro a h
  rw [cmpVersionStrChecked_eq] at h
  rcases hskip : skip a with _ | ⟨c, cs⟩
  · rw [segments_nil hskip]
    exact fun n hn => nomatch hn
  · rw [hskip] at h
    dsimp only at h
    by_cases hc : isAsciiDigit c = true
    · rw [if_pos hc, digitsChecked_eq] at h
      by_cases hm : number ((c :: cs).takeWhile isAsciiDigit) < 2 ^ 64
      · rw [if_pos hm] at h
        dsimp only [Option.bind_eq_bind, Option.bind_some] at h
        rw [compare_word, Nat.compare_eq_eq.mpr rfl, List.dropWhile_cons, if_pos hc] at h
        have hrest := small_of_checked (cs.dropWhile isAsciiDigit) h
        rw [segments_digit hskip hc]
        intro n hn
        obtain heq | hn := List.mem_cons.mp hn
        · exact Segment.number.inj heq ▸ hm
        · exact hrest n hn
      · rw [if_neg hm] at h
        exact absurd rfl h
    · rw [if_neg hc, compare_byte, Nat.compare_eq_eq.mpr rfl] at h
      rw [segments_letter hskip hc]
      intro n hn
      obtain heq | hn := List.mem_cons.mp hn
      · exact nomatch heq
      · exact small_of_checked cs h n hn
termination_by a => a.length
decreasing_by
  · exact digits_lt hskip
  · exact tail_lt hskip

theorem cmpSegments_self (as : List Segment) : cmpSegments as as = .eq := by
  induction as with
  | nil => rfl
  | cons s as ih => exact (cmpSegments_cons s as as).trans ih

theorem cmpVersionStr_self {a : List UInt8} (h : Small (segments a)) : cmpVersionStr a a = .eq := by
  have hsame := cmpVersionStr_segments a a [] [] h h
  rw [cmpSegments_self] at hsame
  exact (Ordering.then_eq_eq.mp hsame.symm).1

/-! ## Versions -/

/-- What a comparison sees of a version behind its epoch. -/
def key (v : Version) : List Segment :=
  segments v.version.toUTF8.toList ++ .stop :: (segments v.release.toUTF8.toList ++ [.stop])

/-- By epoch and segments, numbers before letters. -/
def order (v w : Version) : Ordering := (Ord.compare v.epoch w.epoch).then (List.compareLex Segment.cmp v.key w.key)

instance : Std.TransCmp (fun v w : Version => List.compareLex Segment.cmp v.key w.key) where
  eq_swap {v w} := @Std.OrientedCmp.eq_swap _ (List.compareLex Segment.cmp) _ v.key w.key
  isLE_trans {u v w} := @Std.TransCmp.isLE_trans _ (List.compareLex Segment.cmp) _ u.key v.key w.key

instance : Std.TransCmp order :=
  inferInstanceAs (Std.TransCmp (compareLex (compareOn Version.epoch) fun v w : Version =>
    List.compareLex Segment.cmp v.key w.key))

/-- Two versions of one epoch with a number against a letter that does not come out less. -/
def Clashes (v w : Version) : Prop := v.epoch = w.epoch ∧ Clash v.key w.key

theorem small_segments (h : Small v.key) :
    Small (segments v.version.toUTF8.toList) ∧ Small (segments v.release.toUTF8.toList) :=
  ⟨fun n hn => h n (List.mem_append_left _ hn),
    fun n hn => h n (List.mem_append_right _ (List.mem_cons_of_mem _ (List.mem_append_left _ hn)))⟩

theorem small_key (hversion : Small (segments v.version.toUTF8.toList))
    (hrelease : Small (segments v.release.toUTF8.toList)) : Small v.key := by
  intro n hn
  obtain hn | hn := List.mem_append.mp hn
  · exact hversion n hn
  · obtain hstop | hn := List.mem_cons.mp hn
    · exact nomatch hstop
    · obtain hn | hn := List.mem_append.mp hn
      · exact hrelease n hn
      · exact nomatch List.mem_singleton.mp hn

/-- `compare` on segments. -/
theorem compare_eq (hv : Small v.key) (hw : Small w.key) :
    v.compare w = (Ord.compare v.epoch w.epoch).then (cmpSegments v.key w.key) := by
  obtain ⟨hv₁, hv₂⟩ := small_segments hv
  obtain ⟨hw₁, hw₂⟩ := small_segments hw
  have hend : cmpSegments [.stop] [.stop] = .eq := rfl
  rw [key, key, cmpVersionStr_segments _ _ _ _ hv₁ hw₁, cmpVersionStr_segments _ _ _ _ hv₂ hw₂, cmpSegments, Ordering.then_eq,
    compare]
  cases Ord.compare v.epoch w.epoch with
  | lt | gt => rfl
  | eq =>
    dsimp only [Ordering.then]
    cases cmpVersionStr v.version.toUTF8.toList w.version.toUTF8.toList <;> rfl

theorem compareChecked_of_small (hv : Small v.key) (hw : Small w.key) :
    v.compareChecked w = some (v.compare w) := by
  obtain ⟨hv₁, hv₂⟩ := small_segments hv
  obtain ⟨hw₁, hw₂⟩ := small_segments hw
  rw [compareChecked, compare, cmpVersionStrChecked_of_small _ _ hv₁ hw₁, cmpVersionStrChecked_of_small _ _ hv₂ hw₂]
  cases Ord.compare v.epoch w.epoch with
  | lt | gt => rfl
  | eq =>
    dsimp only [Option.bind_eq_bind, Option.bind_some]
    cases cmpVersionStr v.version.toUTF8.toList w.version.toUTF8.toList <;> rfl

/-- A debug build that can compare a version with itself reads all its numbers. -/
theorem small_of_compareChecked (h : v.compareChecked v ≠ none) : Small v.key := by
  have hself : Ord.compare v.epoch v.epoch = .eq := Std.ReflCmp.compare_self
  rw [compareChecked, hself] at h
  have hversion : Small (segments v.version.toUTF8.toList) := by
    refine small_of_checked _ fun hnone => h ?_
    rw [hnone]
    rfl
  rw [cmpVersionStrChecked_of_small _ _ hversion hversion] at h
  dsimp only [Option.bind_eq_bind, Option.bind_some] at h
  rw [cmpVersionStr_self hversion] at h
  exact small_key hversion (small_of_checked _ h)

/-- On a set of versions the comparison is total, the same from both sides, and transitive. -/
structure TotalPreorder (S : Set Version) : Prop where
  /-- No comparison overflows. -/
  total : ∀ v ∈ S, ∀ w ∈ S, v.compareChecked w = some (v.compare w)
  swap : ∀ v ∈ S, ∀ w ∈ S, w.compare v = (v.compare w).swap
  trans : ∀ u ∈ S, ∀ v ∈ S, ∀ w ∈ S, (u.compare v).isLE → (v.compare w).isLE → (u.compare w).isLE

/-- Without a clash the comparison is the order. -/
theorem compare_eq_order (hv : Small v.key) (hw : Small w.key) (hclash : ¬ Clashes v w) :
    v.compare w = v.order w := by
  rw [compare_eq hv hw, order]
  cases hepoch : Ord.compare v.epoch w.epoch with
  | lt | gt => rfl
  | eq => exact cmpSegments_eq fun h => hclash ⟨Std.LawfulEqCmp.eq_of_compare hepoch, h⟩

/-- The comparison is a total preorder of a set of versions just when their numbers fit in 64 bits
and no two of them clash. -/
theorem totalPreorder_iff (S : Set Version) :
    TotalPreorder S ↔ (∀ v ∈ S, Small v.key) ∧ ∀ v ∈ S, ∀ w ∈ S, ¬ Clashes v w := by
  constructor
  · intro h
    have hsmall : ∀ v ∈ S, Small v.key := fun v hv =>
      small_of_compareChecked (by rw [h.total v hv v hv]; exact Option.some_ne_none _)
    refine ⟨hsmall, fun v hv w hw => ?_⟩
    rintro ⟨hepoch, hclash⟩
    have hswap := h.swap v hv w hw
    have hself : Ord.compare w.epoch w.epoch = .eq := Std.ReflCmp.compare_self
    rw [compare_eq (hsmall v hv) (hsmall w hw), compare_eq (hsmall w hw) (hsmall v hv), hepoch, hself] at hswap
    exact hclash.not_swap hswap
  · rintro ⟨hsmall, hclash⟩
    have horder {v w : Version} (hv : v ∈ S) (hw : w ∈ S) : v.compare w = v.order w :=
      compare_eq_order (hsmall v hv) (hsmall w hw) (hclash v hv w hw)
    refine ⟨fun v hv w hw => compareChecked_of_small (hsmall v hv) (hsmall w hw), fun v hv w hw => ?_,
      fun u hu v hv w hw => ?_⟩
    · rw [horder hv hw, horder hw hv]
      exact Std.OrientedCmp.eq_swap
    · rw [horder hu hv, horder hv hw, horder hu hw]
      exact Std.TransCmp.isLE_trans

end Version

/-- The constraint that holds where a comparison comes out so. -/
def opOf : Ordering → VersionOp
  | .lt => .lessThan
  | .eq => .equal
  | .gt => .greaterThan

theorem satisfiedBy_iff {op : VersionOp} (hop : op ∈ [VersionOp.lessThan, .equal, .greaterThan]) (candidate version : Version) :
    (VersionConstraint.mk op version).satisfiedBy candidate = true ↔ op = opOf (candidate.compare version) := by
  simp only [List.mem_cons, List.not_mem_nil, or_false] at hop
  rw [VersionConstraint.satisfiedBy]
  generalize candidate.compare version = order
  obtain rfl | rfl | rfl := hop <;> cases order <;> dsimp only [opOf] <;> decide

/-- Against every version, a candidate is exactly one of less, equal and greater. -/
theorem satisfiedBy_unique (candidate version : Version) : ∃! op, op ∈ [VersionOp.lessThan, .equal, .greaterThan] ∧
    (VersionConstraint.mk op version).satisfiedBy candidate = true := by
  have hmem : opOf (candidate.compare version) ∈ [VersionOp.lessThan, .equal, .greaterThan] := by
    cases candidate.compare version <;> decide
  exact ⟨_, ⟨hmem, (satisfiedBy_iff hmem candidate version).mpr rfl⟩,
    fun op h => (satisfiedBy_iff h.1 candidate version).mp h.2⟩

open Version in
/-- The comparison is a total preorder of a set of versions just when their numbers fit in 64 bits
and no two of them clash; constraints single out one of less, equal and greater in any case. -/
theorem compare_iff (S : Set Version) :
    (TotalPreorder S ↔ (∀ v ∈ S, Small v.key) ∧ ∀ v ∈ S, ∀ w ∈ S, ¬ Clashes v w) ∧
      ∀ candidate version : Version, ∃! op, op ∈ [VersionOp.lessThan, .equal, .greaterThan] ∧
        (VersionConstraint.mk op version).satisfiedBy candidate = true :=
  ⟨totalPreorder_iff S, satisfiedBy_unique⟩

/-- A number and a letter: each is greater than the other. -/
theorem number_letter_greater : ¬ ∀ u v w : Version, Version.TotalPreorder {u, v, w} := by
  intro h
  have hswap := (h (.new "1") (.new "a") (.new "a")).swap (.new "1") (Set.mem_insert _ _) (.new "a")
    (Set.mem_insert_of_mem _ (Set.mem_insert _ _))
  have hleft : (Version.new "1").compare (.new "a") = .gt := by decide +kernel
  have hright : (Version.new "a").compare (.new "1") = .gt := by decide +kernel
  rw [hleft, hright] at hswap
  exact nomatch hswap

end AthenaOS.Package
