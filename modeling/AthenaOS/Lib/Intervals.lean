import Mathlib

/-!
# Sorted lists of intervals

A map given by intervals that are kept in order of their starts and searched from the
last one: the first interval that starts at or before the position decides. Extent
maps, region tables and address ranges are read like this.
-/

namespace AthenaOS.Lib.Intervals

universe u

variable {α : Type u}

section Defs

variable (start len : α → Nat)

/-- The position lies in the interval. -/
def Covers (a : α) (x : Nat) : Prop := start a ≤ x ∧ x < start a + len a

/-- The starts increase. -/
def Ordered (l : List α) : Prop := l.Pairwise fun a b => start a < start b

/-- No interval reaches into a later one. -/
def Disjoint (l : List α) : Prop := l.Pairwise fun a b => start a + len a ≤ start b

/-- The search through intervals listed from the last one. -/
def scanBack : List α → Nat → Option α
  | [], _ => none
  | a :: l, x =>
    if start a ≤ x then if x < start a + len a then some a else none else scanBack l x

/-- The search from the last interval: the first one not past `x` decides. -/
def scan (l : List α) (x : Nat) : Option α := scanBack start len l.reverse x

end Defs

variable {start len : α → Nat} {l l' : List α} {a b e : α} {x : Nat}

/-! ## The search -/

/-- Of two intervals the one that starts first ends before the other. -/
theorem Disjoint.le_of_lt (h : Disjoint start len l) (hl : Ordered start l) (ha : a ∈ l) (hb : b ∈ l)
    (hlt : start a < start b) : start a + len a ≤ start b := by
  induction l with
  | nil => exact nomatch ha
  | cons c l ih =>
    obtain ⟨hc, hrest⟩ := List.pairwise_cons.mp h
    obtain ⟨hcl, hl⟩ := List.pairwise_cons.mp hl
    rcases List.mem_cons.mp ha with rfl | hal <;> rcases List.mem_cons.mp hb with rfl | hbl
    · exact absurd hlt (Nat.lt_irrefl _)
    · exact hc b hbl
    · exact absurd (hcl a hal) (Nat.lt_asymm hlt)
    · exact ih hrest hl hal hbl

end AthenaOS.Lib.Intervals
