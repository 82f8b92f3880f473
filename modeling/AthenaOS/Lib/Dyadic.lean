import Mathlib

/-!
# Aligned blocks of power-of-two size

A block of order `o` and index `q` holds the `2 ^ o` numbers `f` with `f / 2 ^ o = q`.
Two blocks are disjoint or one contains the other, and the two halves of a block are
each other's buddies.
-/

namespace AthenaOS.Lib

/-- A number's block of a larger order. -/
theorem div_pow_of_le {f o o' q : Nat} (ho : o ≤ o') (hf : f / 2 ^ o = q) :
    f / 2 ^ o' = q / 2 ^ (o' - o) := by
  rw [← hf, Nat.div_div_eq_div_mul, ← Nat.pow_add, Nat.add_sub_cancel' ho]

/-- Two buddies have the same parent. -/
theorem xor_one_div_two (q : Nat) : (q ^^^ 1) / 2 = q / 2 := by
  rw [Nat.xor_div_two]
  exact Nat.xor_zero _

theorem xor_one_mod_two (q : Nat) : (q ^^^ 1) % 2 = 1 - q % 2 := by
  rcases Nat.mod_two_eq_zero_or_one q with h | h
  · rw [h]
    exact Nat.xor_mod_two_eq_one.mpr (by omega)
  · rw [h]
    refine (Nat.mod_two_eq_zero_or_one _).resolve_right fun hone => ?_
    rw [Nat.xor_mod_two_eq_one] at hone
    omega

theorem xor_one_ne (q : Nat) : q ^^^ 1 ≠ q := by
  intro h
  have := xor_one_mod_two q
  rw [h] at this
  omega

/-- The smaller of two buddies is the first half of their parent. -/
theorem min_xor_one (q : Nat) : min q (q ^^^ 1) = 2 * (q / 2) := by
  have hdiv := xor_one_div_two q
  have hmod := xor_one_mod_two q
  omega

/-- Flipping the bit of a block's own size gives its buddy. -/
theorem mul_two_pow_xor (q k : Nat) : q * 2 ^ k ^^^ 1 <<< k = (q ^^^ 1) * 2 ^ k := by
  rw [← Nat.shiftLeft_eq, ← Nat.shiftLeft_eq, Nat.shiftLeft_xor_distrib]

/-- **A fully covered block lies inside one block**, in a set of blocks that never holds
two buddies of an order below `M`. -/
theorem exists_block_of_full {B : Nat → Nat → Prop} {M : Nat}
    (hmerged : ∀ o q, o < M → B o (2 * q) → ¬ B o (2 * q + 1)) {o q : Nat} (ho : o ≤ M)
    (hfull : ∀ f, f / 2 ^ o = q → ∃ o' q', B o' q' ∧ f / 2 ^ o' = q') :
    ∃ o', o ≤ o' ∧ B o' (q / 2 ^ (o' - o)) := by
  induction o generalizing q with
  | zero =>
    obtain ⟨o', q', hB, hq⟩ := hfull q (by rw [Nat.pow_zero, Nat.div_one])
    refine ⟨o', Nat.zero_le _, ?_⟩
    rwa [Nat.sub_zero, hq]
  | succ o ih =>
    -- each half lies in one block; if both blocks are the halves, they are buddies
    have hhalf : ∀ b, b < 2 → (∃ o', o + 1 ≤ o' ∧ B o' (q / 2 ^ (o' - (o + 1)))) ∨ B o (2 * q + b) := by
      intro b hb
      obtain ⟨o', ho', hB⟩ := ih (q := 2 * q + b) (by omega) fun f hf => by
        refine hfull f ?_
        rw [div_pow_of_le (Nat.le_add_right o 1) hf, Nat.add_sub_cancel_left, Nat.pow_one]
        omega
      rcases Nat.eq_or_lt_of_le ho' with rfl | hlt
      · right
        rwa [Nat.sub_self, Nat.pow_zero, Nat.div_one] at hB
      · left
        refine ⟨o', hlt, ?_⟩
        rw [show o' - o = 1 + (o' - (o + 1)) by omega, Nat.pow_add, ← Nat.div_div_eq_div_mul,
          Nat.pow_one, show (2 * q + b) / 2 = q by omega] at hB
        exact hB
    rcases hhalf 0 (by omega) with hfound | hlow
    · exact hfound
    · rcases hhalf 1 (by omega) with hfound | hhigh
      · exact hfound
      · exact absurd hhigh (hmerged o q (by omega) hlow)

end AthenaOS.Lib
