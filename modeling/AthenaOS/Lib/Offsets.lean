import Mathlib

/-!
# Byte offsets in a text

A text is its characters; positions in it are counted in bytes of their UTF-8 forms. A position is a
character boundary or inside a character.
-/

namespace AthenaOS.Lib.Offsets

def byteLen (s : List Char) : Nat := (s.map Char.utf8Size).sum

/-- Where character `k` starts. -/
def offset (s : List Char) (k : Nat) : Nat := byteLen (s.take k)

/-- The number of characters before byte `b`; `none` inside a character or past the end. -/
def charIndex : List Char → Nat → Option Nat
  | _, 0 => some 0
  | [], _ + 1 => none
  | c :: s, b + 1 => if c.utf8Size ≤ b + 1 then (charIndex s (b + 1 - c.utf8Size)).map (· + 1) else none

/-- `is_char_boundary`. -/
def isCharBoundary (s : List Char) (b : Nat) : Bool := (charIndex s b).isSome

/-- `&s[a..]`; `none` where that panics. -/
def sliceFrom (s : List Char) (a : Nat) : Option (List Char) := (charIndex s a).map fun i => s.drop i

/-- `&s[a..b]`. -/
def slice (s : List Char) (a b : Nat) : Option (List Char) := do
  let i ← charIndex s a
  let j ← charIndex s b
  if a ≤ b then some ((s.take j).drop i) else none

section Boundaries

variable {s : List Char} {c : Char} {b i j k : Nat}

@[simp] theorem offset_zero (s : List Char) : offset s 0 = 0 := rfl

theorem offset_cons_succ (c : Char) (s : List Char) (k : Nat) : offset (c :: s) (k + 1) = c.utf8Size + offset s k := by
  rw [offset, List.take_succ_cons, byteLen, List.map_cons, List.sum_cons]
  rfl

theorem offset_length (s : List Char) : offset s s.length = byteLen s := by
  rw [offset, List.take_length]

theorem offset_succ (h : s[k]? = some c) : offset s (k + 1) = offset s k + c.utf8Size := by
  rw [offset, offset, List.take_add_one, h, byteLen, byteLen, List.map_append, List.sum_append]
  simp

theorem offset_lt_succ (h : k < s.length) : offset s k < offset s (k + 1) := by
  rw [offset_succ (List.getElem?_eq_getElem h)]
  exact Nat.lt_add_of_pos_right (Char.utf8Size_pos _)

/-- Offsets grow with the characters. -/
theorem offset_lt (h : i < j) (hj : j ≤ s.length) : offset s i < offset s j := by
  induction j with
  | zero => exact absurd h (Nat.not_lt_zero i)
  | succ j ih =>
    have hstep := offset_lt_succ (s := s) (k := j) hj
    rcases Nat.lt_succ_iff_lt_or_eq.mp h with h | rfl
    · exact Nat.lt_trans (ih h (Nat.le_of_succ_le hj)) hstep
    · exact hstep

theorem offset_le (h : i ≤ j) (hj : j ≤ s.length) : offset s i ≤ offset s j := by
  rcases Nat.eq_or_lt_of_le h with rfl | h
  · exact Nat.le_refl _
  · exact Nat.le_of_lt (offset_lt h hj)

theorem offset_le_iff (hi : i ≤ s.length) (hj : j ≤ s.length) : offset s i ≤ offset s j ↔ i ≤ j := by
  constructor
  · intro h
    by_contra hlt
    exact absurd (offset_lt (Nat.not_le.mp hlt) hi) (Nat.not_lt.mpr h)
  · exact fun h => offset_le h hj

theorem offset_inj (hi : i ≤ s.length) (hj : j ≤ s.length) (h : offset s i = offset s j) : i = j :=
  Nat.le_antisymm ((offset_le_iff hi hj).mp (Nat.le_of_eq h)) ((offset_le_iff hj hi).mp (Nat.le_of_eq h.symm))

/-- **An offset is a boundary.** -/
theorem charIndex_offset (h : k ≤ s.length) : charIndex s (offset s k) = some k := by
  induction s generalizing k with
  | nil =>
    obtain rfl := Nat.le_zero.mp h
    rfl
  | cons c s ih =>
    cases k with
    | zero => rw [offset_zero, charIndex]
    | succ k =>
      have hpos := c.utf8Size_pos
      obtain ⟨b, hb⟩ : ∃ b, c.utf8Size + offset s k = b + 1 := ⟨c.utf8Size + offset s k - 1, by omega⟩
      have hrest : b + 1 - c.utf8Size = offset s k := by omega
      rw [offset_cons_succ, hb, charIndex, if_pos (by omega), hrest, ih (Nat.le_of_succ_le_succ h), Option.map_some]

/-- **A boundary is an offset.** -/
theorem charIndex_eq_some (h : charIndex s b = some k) : k ≤ s.length ∧ b = offset s k := by
  induction s generalizing b k with
  | nil =>
    cases b with
    | zero =>
      obtain rfl := Option.some.inj h
      exact ⟨Nat.le_refl 0, rfl⟩
    | succ b => cases h
  | cons c s ih =>
    cases b with
    | zero =>
      obtain rfl := Option.some.inj h
      exact ⟨Nat.zero_le _, rfl⟩
    | succ b =>
      rw [charIndex] at h
      split at h
      · obtain ⟨k, hk, rfl⟩ := Option.map_eq_some_iff.mp h
        obtain ⟨hle, hoff⟩ := ih hk
        refine ⟨Nat.succ_le_succ hle, ?_⟩
        rw [offset_cons_succ, ← hoff]
        omega
      · cases h

theorem sliceFrom_offset (h : k ≤ s.length) : sliceFrom s (offset s k) = some (s.drop k) := by
  rw [sliceFrom, charIndex_offset h, Option.map_some]

theorem slice_offset (h : i ≤ j) (hj : j ≤ s.length) :
    slice s (offset s i) (offset s j) = some ((s.take j).drop i) := by
  rw [slice, charIndex_offset (Nat.le_trans h hj), charIndex_offset hj]
  exact if_pos (offset_le h hj)

end Boundaries

end AthenaOS.Lib.Offsets
