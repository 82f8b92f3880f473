import Mathlib

/-!
# Machine integers that must not overflow

Arithmetic of a fixed width, with the check of a debug build: an operation whose exact result does
not fit gives nothing.
-/

namespace AthenaOS.Lib

/-- Signed integers of `w` bits. -/
def InRange (w : Nat) (x : Int) : Prop := -2 ^ (w - 1) ≤ x ∧ x < 2 ^ (w - 1)

instance (w : Nat) (x : Int) : Decidable (InRange w x) := inferInstanceAs (Decidable (_ ∧ _))

/-- The result of an operation, unless it overflows. -/
def fit (w : Nat) (x : Int) : Option Int := if InRange w x then some x else none

/-- The result of a saturating operation. -/
def saturate (w : Nat) (x : Int) : Int := max (-2 ^ (w - 1)) (min (2 ^ (w - 1) - 1) x)

section Fit

variable {w : Nat} {x : Int}

theorem fit_of (h : InRange w x) : fit w x = some x := if_pos h

theorem fit_eq_none_iff : fit w x = none ↔ ¬ InRange w x := by
  rw [fit]
  split
  · rename_i h
    exact ⟨fun hnone => (nomatch hnone), fun hnot => absurd h hnot⟩
  · rename_i h
    exact ⟨fun _ => h, fun _ => rfl⟩

theorem inRange_saturate (x : Int) : InRange w (saturate w x) := by
  have hpos : (0 : Int) < 2 ^ (w - 1) := Int.pow_pos (by decide)
  rw [saturate, InRange]
  omega

theorem inRange_64 : InRange 64 x ↔ -9223372036854775808 ≤ x ∧ x ≤ 9223372036854775807 := by
  rw [InRange]
  omega

end Fit

/-! ## Unsigned words -/

def checkedAdd32 (a b : UInt32) : Option UInt32 := if a.toNat + b.toNat < 2 ^ 32 then some (a + b) else none

def checkedSub32 (a b : UInt32) : Option UInt32 := if b.toNat ≤ a.toNat then some (a - b) else none

def checkedMul32 (a b : UInt32) : Option UInt32 := if a.toNat * b.toNat < 2 ^ 32 then some (a * b) else none

/-- A shift by the word's width or more overflows. -/
def checkedShl32 (a : UInt32) (k : UInt8) : Option UInt32 := if k < 32 then some (a <<< k.toUInt32) else none

def checkedAdd64 (a b : UInt64) : Option UInt64 := if a.toNat + b.toNat < 2 ^ 64 then some (a + b) else none

def checkedMul64 (a b : UInt64) : Option UInt64 := if a.toNat * b.toNat < 2 ^ 64 then some (a * b) else none

theorem checkedAdd32_eq_some {a b c : UInt32} : checkedAdd32 a b = some c ↔ a.toNat + b.toNat < 2 ^ 32 ∧ a + b = c := by
  rw [checkedAdd32, Option.ite_none_right_eq_some, Option.some.injEq]

theorem checkedSub32_eq_some {a b c : UInt32} : checkedSub32 a b = some c ↔ b.toNat ≤ a.toNat ∧ a - b = c := by
  rw [checkedSub32, Option.ite_none_right_eq_some, Option.some.injEq]

theorem checkedMul32_eq_some {a b c : UInt32} : checkedMul32 a b = some c ↔ a.toNat * b.toNat < 2 ^ 32 ∧ a * b = c := by
  rw [checkedMul32, Option.ite_none_right_eq_some, Option.some.injEq]

theorem checkedAdd64_eq_some {a b c : UInt64} : checkedAdd64 a b = some c ↔ a.toNat + b.toNat < 2 ^ 64 ∧ a + b = c := by
  rw [checkedAdd64, Option.ite_none_right_eq_some, Option.some.injEq]

theorem checkedMul64_eq_some {a b c : UInt64} : checkedMul64 a b = some c ↔ a.toNat * b.toNat < 2 ^ 64 ∧ a * b = c := by
  rw [checkedMul64, Option.ite_none_right_eq_some, Option.some.injEq]

/-- After a step that gives a result, the rest runs. -/
theorem bind_of_some {α β : Type} {o : Option α} {a : α} (h : o = some a) (f : α → Option β) : (o >>= f) = f a := by
  rw [h]
  rfl

end AthenaOS.Lib
