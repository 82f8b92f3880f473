import Mathlib

/-!
# Fields of a word

A word made of fields: each at a place of its own, put together with `|`.
-/

namespace AthenaOS.Lib.BitFields

variable {w n : Nat}

/-- A word with the field `x` from bit `lo` on. -/
def place (w lo : Nat) (x : BitVec n) : BitVec w := x.setWidth w <<< lo

theorem getLsbD_place {lo i : Nat} {x : BitVec n} (h : lo + n ≤ w) :
    (place w lo x).getLsbD i = (decide (lo ≤ i) && x.getLsbD (i - lo)) := by
  rw [place, BitVec.getLsbD_shiftLeft, BitVec.getLsbD_setWidth]
  by_cases hi : lo ≤ i
  · rcases Nat.lt_or_ge (i - lo) n with hn | hn
    · simp only [show i < w by omega, show ¬ i < lo by omega, show i - lo < w by omega, hi, decide_true, decide_false,
        Bool.not_false, Bool.true_and]
    · rw [BitVec.getLsbD_of_ge x _ hn, Bool.and_false, Bool.and_false, Bool.and_false]
  · simp only [show i < lo by omega, hi, decide_true, decide_false, Bool.not_true, Bool.and_false, Bool.false_and]

/-- **A field is read back.** -/
theorem extract_place {lo : Nat} {x : BitVec n} (h : lo + n ≤ w) : (place w lo x).extractLsb' lo n = x := by
  refine BitVec.eq_of_getLsbD_eq fun i hi => ?_
  rw [BitVec.getLsbD_extractLsb', getLsbD_place h, decide_eq_true hi, decide_eq_true (Nat.le_add_right lo i),
    Bool.true_and, Bool.true_and, Nat.add_sub_cancel_left]

/-- **Nothing is read elsewhere.** -/
theorem extract_place_disjoint {lo lo' m : Nat} {x : BitVec n} (h : lo + n ≤ w)
    (hdisjoint : lo' + m ≤ lo ∨ lo + n ≤ lo') : (place w lo x).extractLsb' lo' m = 0#m := by
  refine BitVec.eq_of_getLsbD_eq fun i hi => ?_
  rw [BitVec.getLsbD_extractLsb', getLsbD_place h, BitVec.getLsbD_zero]
  rcases hdisjoint with hlt | hge
  · rw [decide_eq_false (show ¬ lo ≤ lo' + i by omega), Bool.false_and, Bool.and_false]
  · rw [BitVec.getLsbD_of_ge x _ (by omega), Bool.and_false, Bool.and_false]

/-- **A mask keeps a field.** -/
theorem and_ones {lo : Nat} (h : lo + n ≤ w) (x : BitVec w) :
    x &&& place w lo (BitVec.allOnes n) = place w lo (x.extractLsb' lo n) := by
  refine BitVec.eq_of_getLsbD_eq fun i hi => ?_
  rw [BitVec.getLsbD_and, getLsbD_place h, getLsbD_place h, BitVec.getLsbD_allOnes, BitVec.getLsbD_extractLsb']
  by_cases hlo : lo ≤ i
  · rw [decide_eq_true hlo, Bool.true_and, Bool.true_and, Nat.add_sub_cancel' hlo, Bool.and_comm]
  · rw [decide_eq_false hlo, Bool.false_and, Bool.false_and, Bool.and_false]

/-- A field that is 0 has no bits. -/
theorem place_zero (w n lo : Nat) : place w lo 0#n = 0#w := by
  rw [place, BitVec.setWidth_zero, BitVec.zero_shiftLeft]

end AthenaOS.Lib.BitFields
