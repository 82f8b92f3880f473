import Mathlib

/-!
# Clauses and partial assignments

A search for a satisfying valuation works on a partial assignment and fills it in:
by decisions, and by the unit rule where a clause leaves one choice.
-/

namespace AthenaOS.Lib.Sat

universe u

variable {V : Type u}

inductive Literal (V : Type u) where
  | positive (v : V)
  | negative (v : V)
  deriving DecidableEq

namespace Literal

def var : Literal V → V
  | positive v => v
  | negative v => v

/-- The value of the variable that makes the literal true. -/
def sign : Literal V → Bool
  | positive _ => true
  | negative _ => false

end Literal

abbrev Clause (V : Type u) : Type u := List (Literal V)

/-- The valuation satisfies every clause. -/
def Satisfies (m : V → Bool) (cs : List (Clause V)) : Prop :=
  ∀ c ∈ cs, ∃ l ∈ c, m l.var = l.sign

/-- A partial assignment. -/
abbrev Partial (V : Type u) : Type u := V → Option Bool

def Extends (m : V → Bool) (A : Partial V) : Prop := ∀ v b, A v = some b → m v = b

/-- Some model of the clauses extends the assignment. -/
def Extendable (cs : List (Clause V)) (A : Partial V) : Prop := ∃ m, Satisfies m cs ∧ Extends m A

/-- Some literal is true. -/
def TrueUnder (A : Partial V) (c : Clause V) : Prop := ∃ l ∈ c, A l.var = some l.sign

/-- The literals whose variable has no value. -/
def unset (A : Partial V) (c : Clause V) : Clause V := c.filter fun l => (A l.var).isNone

/-- Every literal is false. -/
def FalseUnder (A : Partial V) (c : Clause V) : Prop := ¬ TrueUnder A c ∧ unset A c = []

/-- Every literal but `l` is false, and `l` has no value. -/
def UnitUnder (A : Partial V) (c : Clause V) (l : Literal V) : Prop :=
  ¬ TrueUnder A c ∧ unset A c = [l]

/-- No clause is false and none leaves one choice. -/
def Settled (cs : List (Clause V)) (A : Partial V) : Prop :=
  ∀ c ∈ cs, ¬ FalseUnder A c ∧ ∀ l, ¬ UnitUnder A c l

section Semantics

variable {m : V → Bool} {A A' : Partial V} {cs : List (Clause V)} {c : Clause V} {l : Literal V}

/-- A literal a model makes true is set to true or not set, if the model extends. -/
theorem Extends.value (h : Extends m A) (hl : m l.var = l.sign) :
    A l.var = some l.sign ∨ A l.var = none := by
  cases hA : A l.var with
  | none => exact .inr rfl
  | some b => exact .inl (by rw [← hl, h _ _ hA])

/-- A model that extends satisfies a clause that is not yet true by an unset literal. -/
theorem Satisfies.exists_unset (hm : Satisfies m cs) (h : Extends m A) (hc : c ∈ cs)
    (hfalse : ¬ TrueUnder A c) : ∃ l ∈ unset A c, m l.var = l.sign := by
  obtain ⟨l, hl, hml⟩ := hm c hc
  refine ⟨l, List.mem_filter.mpr ⟨hl, ?_⟩, hml⟩
  obtain htrue | hnone := h.value hml
  · exact absurd ⟨l, hl, htrue⟩ hfalse
  · rw [hnone]
    rfl

/-- The larger assignment has all the values of the smaller one. -/
def Le (A A' : Partial V) : Prop := ∀ v b, A v = some b → A' v = some b

theorem Le.refl (A : Partial V) : Le A A := fun _ _ h => h

theorem Le.trans {A'' : Partial V} (h : Le A A') (h' : Le A' A'') : Le A A'' :=
  fun v b hv => h' v b (h v b hv)

theorem UnitUnder.mem_unset (h : UnitUnder A c l) : l ∈ unset A c := by
  rw [h.2]
  exact List.mem_singleton_self l

theorem UnitUnder.mem (h : UnitUnder A c l) : l ∈ c := (List.mem_filter.mp h.mem_unset).1

/-- The unit literal of a clause has no value. -/
theorem UnitUnder.var_none (h : UnitUnder A c l) : A l.var = none :=
  Option.isNone_iff_eq_none.mp (List.mem_filter.mp h.mem_unset).2

/-- The assigned variables of the smaller assignment are assigned in the larger one. -/
def DomLe (A A' : Partial V) : Prop := ∀ v, A' v = none → A v = none

theorem Le.domLe (h : Le A A') : DomLe A A' := by
  intro v hv
  cases hA : A v with
  | none => rfl
  | some b => exact nomatch (h v b hA).symm.trans hv

theorem TrueUnder.mono (h : TrueUnder A c) (hle : Le A A') : TrueUnder A' c := by
  obtain ⟨l, hl, hval⟩ := h
  exact ⟨l, hl, hle _ _ hval⟩

/-- A larger assignment that is settled has the literal of a unit clause. -/
theorem Settled.value_of_unitUnder (h : Settled cs A') (hle : Le A A') (hc : c ∈ cs)
    (hunit : UnitUnder A c l) : A' l.var = some l.sign := by
  by_cases htrue : TrueUnder A' c
  · obtain ⟨l', hl', hval⟩ := htrue
    cases hA : A l'.var with
    | none =>
      have hmem : l' ∈ unset A c := List.mem_filter.mpr ⟨hl', by rw [hA]; rfl⟩
      rw [hunit.2, List.mem_singleton] at hmem
      exact hmem ▸ hval
    | some b =>
      -- a literal that has a value is false
      have hb := hval.symm.trans (hle _ _ hA)
      exact absurd ⟨l', hl', hA.trans hb.symm⟩ hunit.1
  · have hsub : (unset A' c).Sublist (unset A c) := by
      refine List.monotone_filter_right c fun l' hnone => ?_
      rw [Option.isNone_iff_eq_none] at hnone ⊢
      exact hle.domLe _ hnone
    rw [hunit.2, List.sublist_singleton] at hsub
    rcases hsub with hnil | hone
    · exact absurd ⟨htrue, hnil⟩ (h c hc).1
    · exact absurd ⟨htrue, hone⟩ ((h c hc).2 l)

variable [DecidableEq V]

/-- Give a variable a value. -/
def assign (A : Partial V) (v : V) (b : Bool) : Partial V := Function.update A v (some b)

theorem le_assign {v : V} (h : A v = none) (b : Bool) : Le A (assign A v b) := by
  intro w b' hw
  rw [assign, Function.update_of_ne]
  · exact hw
  · rintro rfl
    exact nomatch h.symm.trans hw

theorem Extends.assign {v : V} {b : Bool} (h : Extends m A) (hv : m v = b) :
    Extends m (assign A v b) := by
  intro w b' hw
  rw [Sat.assign, Function.update_apply] at hw
  split at hw
  · rename_i heq
    rw [heq, hv]
    exact Option.some.inj hw
  · exact h w b' hw

/-- A model that extends takes one of the two branches of a decision. -/
theorem Extendable.branch (h : Extendable cs A) (v : V) :
    Extendable cs (assign A v true) ∨ Extendable cs (assign A v false) := by
  obtain ⟨m, hm, hext⟩ := h
  cases hv : m v with
  | true => exact .inl ⟨m, hm, hext.assign hv⟩
  | false => exact .inr ⟨m, hm, hext.assign hv⟩

/-- Set the one literal a clause has left. -/
inductive UnitStep (cs : List (Clause V)) : Partial V → Partial V → Prop
  | mk {A : Partial V} {c : Clause V} {l : Literal V} :
      c ∈ cs → UnitUnder A c l → UnitStep cs A (assign A l.var l.sign)

/-- A model that extends goes on to through the unit rule. -/
theorem Satisfies.extends_of_unitStep (hm : Satisfies m cs) (hext : Extends m A)
    (hstep : UnitStep cs A A') : Extends m A' := by
  obtain ⟨hc, hunit⟩ := hstep
  obtain ⟨l, hl, hml⟩ := hm.exists_unset hext hc hunit.1
  rw [hunit.2, List.mem_singleton] at hl
  subst hl
  exact hext.assign hml

theorem Satisfies.extends_of_unitSteps (hm : Satisfies m cs) (hext : Extends m A)
    (hsteps : Relation.ReflTransGen (UnitStep cs) A A') : Extends m A' := by
  induction hsteps with
  | refl => exact hext
  | tail _ hstep ih => exact hm.extends_of_unitStep ih hstep

theorem UnitStep.le (hstep : UnitStep cs A A') : Le A A' := by
  obtain ⟨-, hunit⟩ := hstep
  exact le_assign hunit.var_none _

theorem le_of_unitSteps (h : Relation.ReflTransGen (UnitStep cs) A A') : Le A A' := by
  induction h with
  | refl => exact .refl A
  | tail _ hstep ih => exact ih.trans hstep.le

/-- **Propagation can be done in any order**: what it sets, every settled assignment above has. -/
theorem Settled.le_of_unitSteps {B : Partial V} (h : Settled cs B) (hle : Le A B)
    (hsteps : Relation.ReflTransGen (UnitStep cs) A A') : Le A' B := by
  induction hsteps with
  | refl => exact hle
  | tail _ hstep ih =>
    obtain ⟨hc, hunit⟩ := hstep
    intro v b hv
    rw [assign, Function.update_apply] at hv
    split at hv
    · rename_i heq
      rw [heq, ← Option.some.inj hv]
      exact h.value_of_unitUnder ih hc hunit
    · exact ih v b hv

end Semantics

/-! ## How much is left to decide -/

section Count

variable {A A' : Partial V} {vars : List V}

theorem DomLe.trans {A'' : Partial V} (h : DomLe A A') (h' : DomLe A' A'') : DomLe A A'' :=
  fun v hv => h v (h' v hv)

end Count

end AthenaOS.Lib.Sat
