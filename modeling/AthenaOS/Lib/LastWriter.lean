import Mathlib

/-!
# Last-writer-wins registers

A family of registers, one for each key, holds the write with the greatest stamp
it has been given. What such a family holds is determined by the *set* of writes
it has been given, whatever their order and however often each was given, as
long as no two different writes to a key share a stamp.
-/

namespace AthenaOS.Lib.LastWriter

universe u v w

variable {κ : Type u} {τ : Type v} {α : Type w}

/-- A write of a value to a key, under a stamp. -/
structure Write (κ : Type u) (τ : Type v) (α : Type w) where
  key : κ
  stamp : τ
  value : α

/-- What the registers hold: for each key the stamp and value of a write. -/
abbrev Registers (κ : Type u) (τ : Type v) (α : Type w) : Type (max u v w) := κ → Option (τ × α)

variable [DecidableEq κ] (cmp : τ → τ → Ordering)

/-- Give a write to the registers. The one they hold stays if its stamp is at least
as great. -/
def merge (r : Registers κ τ α) (w : Write κ τ α) : Registers κ τ α :=
  match r w.key with
  | some (t, _) =>
    if (cmp t w.stamp).isGE then r else Function.update r w.key (some (w.stamp, w.value))
  | none => Function.update r w.key (some (w.stamp, w.value))

omit [DecidableEq κ] in
/-- The registers hold writes of `ws`, for each key the latest. -/
structure Reflects (r : Registers κ τ α) (ws : Set (Write κ τ α)) : Prop where
  found : ∀ k t a, r k = some (t, a) → ⟨k, t, a⟩ ∈ ws
  latest : ∀ w ∈ ws, ∃ t a, r w.key = some (t, a) ∧ (cmp t w.stamp).isGE

namespace Reflects

variable {cmp} {r r' : Registers κ τ α} {ws : Set (Write κ τ α)}

omit [DecidableEq κ] in
theorem empty : Reflects cmp (fun _ => none : Registers κ τ α) ∅ where
  found _ _ _ h := nomatch h
  latest _ h := absurd h (Set.notMem_empty _)

/-- The registers after an update hold the new write, and later ones than before. -/
theorem update [Std.TransCmp cmp] (h : Reflects cmp r ws) (w : Write κ τ α)
    (hw : ∀ t a, r w.key = some (t, a) → (cmp w.stamp t).isGE) :
    Reflects cmp (Function.update r w.key (some (w.stamp, w.value))) (insert w ws) where
  found k t a hk := by
    by_cases hkey : k = w.key
    · subst hkey
      rw [Function.update_self, Option.some.injEq, Prod.mk.injEq] at hk
      obtain ⟨rfl, rfl⟩ := hk
      exact Set.mem_insert _ _
    · rw [Function.update_of_ne hkey] at hk
      exact Set.mem_insert_of_mem _ (h.found k t a hk)
  latest v hv := by
    by_cases hkey : v.key = w.key
    · rw [hkey, Function.update_self]
      refine ⟨_, _, rfl, ?_⟩
      obtain rfl | hv := hv
      · have hself : cmp v.stamp v.stamp = .eq := Std.ReflCmp.compare_self
        rw [hself]
        rfl
      · obtain ⟨t, a, hr, hge⟩ := h.latest v hv
        rw [hkey] at hr
        exact Std.TransCmp.isGE_trans (hw t a hr) hge
    · rw [Function.update_of_ne hkey]
      obtain rfl | hv := hv
      · exact absurd rfl hkey
      · exact h.latest v hv

/-- A merged write is reflected along with the earlier ones. -/
theorem merge [Std.TransCmp cmp] (h : Reflects cmp r ws) (w : Write κ τ α) :
    Reflects cmp (LastWriter.merge cmp r w) (insert w ws) := by
  rw [LastWriter.merge]
  split
  · rename_i t a hr
    split
    · rename_i hge
      refine ⟨fun k t a hk => Set.mem_insert_of_mem _ (h.found k t a hk), fun v hv => ?_⟩
      obtain rfl | hv := hv
      · exact ⟨t, a, hr, hge⟩
      · exact h.latest v hv
    · rename_i hlt
      refine h.update w fun t' a' hr' => ?_
      obtain ⟨rfl, -⟩ := Prod.mk.inj (Option.some.inj (hr.symm.trans hr'))
      have hswap : cmp w.stamp t = (cmp t w.stamp).swap := Std.OrientedCmp.eq_swap
      rw [hswap]
      cases hcmp : cmp t w.stamp with
      | lt => rfl
      | eq => exact absurd (by rw [hcmp]; rfl) hlt
      | gt => exact absurd (by rw [hcmp]; rfl) hlt
  · rename_i hr
    exact h.update w fun t a hr' => nomatch hr.symm.trans hr'

omit [DecidableEq κ] in
/-- The writes determine the registers, if a key and a stamp determine the write. -/
theorem unique [Std.TransCmp cmp] [Std.LawfulEqCmp cmp] (h : Reflects cmp r ws)
    (h' : Reflects cmp r' ws)
    (hws : ∀ v ∈ ws, ∀ w ∈ ws, v.key = w.key → v.stamp = w.stamp → v.value = w.value) :
    r = r' := by
  funext k
  cases hr : r k with
  | none =>
    cases hr' : r' k with
    | none => rfl
    | some cell' =>
      obtain ⟨t, a, hk, -⟩ := h.latest _ (h'.found k cell'.1 cell'.2 hr')
      exact nomatch hr.symm.trans hk
  | some cell =>
    have hmem := h.found k cell.1 cell.2 hr
    obtain ⟨t', a', hr', hge⟩ := h'.latest _ hmem
    have hmem' := h'.found k t' a' hr'
    obtain ⟨t, a, hk, hge'⟩ := h.latest _ hmem'
    obtain rfl := Option.some.inj (hr.symm.trans hk)
    -- each stamp is at least the other
    have hstamp : t = t' := by
      have hswap : cmp t' t = (cmp t t').swap := Std.OrientedCmp.eq_swap
      rw [hswap] at hge
      cases hcmp : cmp t t' with
      | eq => exact Std.LawfulEqCmp.compare_eq_iff_eq.mp hcmp
      | lt => exact absurd hge' (by rw [hcmp]; exact Bool.false_ne_true)
      | gt => exact absurd hge (by rw [hcmp]; exact Bool.false_ne_true)
    subst hstamp
    have hvalue := hws _ hmem _ hmem' rfl rfl
    rw [hr']
    exact congrArg (fun a => some (t, a)) hvalue

end Reflects

end AthenaOS.Lib.LastWriter
