import Mathlib

/-!
# Totals over a finite map

A quantity kept for a whole table, such as the bytes used or the number of references,
is a sum over the entries. Code that maintains it adds and subtracts as entries come,
go and change.
-/

namespace AthenaOS.Lib.Totals

universe u v

variable {α : Type u} {β : Type v} [DecidableEq α]

/-- The sum of `f` over the values. -/
def total (f : β → Nat) (m : Finmap fun _ : α => β) : Nat := (m.entries.map fun e => f e.2).sum

variable {f : β → Nat} {m : Finmap fun _ : α => β} {a : α} {b old : β}

theorem total_insert_new (h : m.lookup a = none) : total f (m.insert a b) = total f m + f b := by
  rw [total, Finmap.entries_insert_of_notMem (Finmap.lookup_eq_none.mp h), Multiset.map_cons,
    Multiset.sum_cons, Nat.add_comm, total]

/-- The entry of a key and the rest. -/
theorem insert_erase (h : m.lookup a = some b) : (m.erase a).insert a b = m := by
  refine Finmap.ext_lookup fun x => ?_
  by_cases hx : x = a
  · subst hx
    rw [Finmap.lookup_insert, h]
  · rw [Finmap.lookup_insert_of_ne _ hx, Finmap.lookup_erase_ne hx]

theorem total_erase (h : m.lookup a = some b) : total f (m.erase a) + f b = total f m := by
  rw [← total_insert_new (Finmap.lookup_erase a m), insert_erase h]

/-- An entry replaced. -/
theorem total_insert (h : m.lookup a = some old) :
    total f (m.insert a b) + f old = total f m + f b := by
  have hinsert : m.insert a b = (m.erase a).insert a b := by
    refine Finmap.ext_lookup fun x => ?_
    by_cases hx : x = a
    · subst hx
      rw [Finmap.lookup_insert, Finmap.lookup_insert]
    · rw [Finmap.lookup_insert_of_ne _ hx, Finmap.lookup_insert_of_ne _ hx,
        Finmap.lookup_erase_ne hx]
  rw [hinsert, total_insert_new (Finmap.lookup_erase a m), ← total_erase h]
  omega

theorem le_total (h : m.lookup a = some b) : f b ≤ total f m := by
  rw [← total_erase h]
  exact Nat.le_add_left _ _

/-- A total of zeros. -/
theorem total_eq_zero (h : ∀ a b, m.lookup a = some b → f b = 0) : total f m = 0 := by
  refine Multiset.sum_eq_zero fun x hx => ?_
  obtain ⟨⟨a, b⟩, hmem, rfl⟩ := Multiset.mem_map.mp hx
  exact h a b (Finmap.lookup_eq_some_iff.mpr hmem)

end AthenaOS.Lib.Totals
