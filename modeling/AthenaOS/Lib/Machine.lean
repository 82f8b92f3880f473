import Mathlib

/-!
# Labelled transition systems and guarded runs

The state machines of the kernel (capability tables under grant and revoke,
the IPC arms, a mounted volume) are all read the same way: a set of initial
states, a labelled step relation, and a property of every state some run
reaches. Properties that hold only while the steps avoid a faulty branch are
stated over *guarded* runs, where a guard is a condition on the state before a
step and on the step's label.
-/

namespace AthenaOS.Lib

universe u v

/-- A labelled transition system. -/
structure Machine (σ : Type u) (ℓ : Type v) where
  /-- Where runs start. -/
  init : σ → Prop
  /-- What one step with a given label may do. -/
  step : σ → ℓ → σ → Prop

namespace Machine

variable {σ : Type u} {ℓ : Type v}

/-- `M.Run G s`: a run of `M` ends in `s`, and the guard `G` held of the state
before each of its steps. -/
inductive Run (M : Machine σ ℓ) (G : σ → ℓ → Prop) : σ → Prop
  | start {s : σ} : M.init s → Run M G s
  | snoc {s s' : σ} {l : ℓ} : Run M G s → G s l → M.step s l s' → Run M G s'

/-- The states of unguarded runs. -/
abbrev Reachable (M : Machine σ ℓ) (s : σ) : Prop := M.Run (fun _ _ => True) s

/-- The same steps, from a given state on. -/
def startingAt (M : Machine σ ℓ) (s : σ) : Machine σ ℓ := { M with init := fun s' => s' = s }

variable {M : Machine σ ℓ} {G : σ → ℓ → Prop} {I : σ → Prop} {s : σ}

/-- An invariant holds in every state of a guarded run once it holds initially
and every guarded step keeps it. -/
theorem Run.invariant (hinit : ∀ s, M.init s → I s)
    (hstep : ∀ s l s', I s → G s l → M.step s l s' → I s') (h : M.Run G s) :
    I s := by
  induction h with
  | start h => exact hinit _ h
  | snoc _ hg hs ih => exact hstep _ _ _ ih hg hs

/-- A run under a stronger guard. -/
theorem Run.mono {G' : σ → ℓ → Prop} (hG : ∀ s l, G s l → G' s l) (h : M.Run G s) : M.Run G' s := by
  induction h with
  | start h => exact .start h
  | snoc _ hg hs ih => exact .snoc ih (hG _ _ hg) hs

end Machine

/-- Run a list of labels; `none` as soon as one of them is not enabled. -/
def replay {σ : Type u} {ℓ : Type v} (exec : σ → ℓ → Option σ) : σ → List ℓ → Option σ
  | s, [] => some s
  | s, l :: ls => (exec s l).bind fun s' => replay exec s' ls

variable {σ : Type u} {ℓ : Type v}

/-- A replay extends a run, if every executed step is one of the machine's and
meets the guard. -/
theorem Machine.Run.replay {M : Machine σ ℓ} {G : σ → ℓ → Prop} {exec : σ → ℓ → Option σ}
    (hexec : ∀ s l s', exec s l = some s' → G s l ∧ M.step s l s') :
    ∀ {ls : List ℓ} {s s' : σ}, M.Run G s → Lib.replay exec s ls = some s' → M.Run G s'
  | [], s, s', hs, hrun => by
    rw [Lib.replay, Option.some.injEq] at hrun
    exact hrun ▸ hs
  | l :: ls, s, s', hs, hrun => by
    rw [Lib.replay, Option.bind_eq_some_iff] at hrun
    obtain ⟨s₁, hstep, hrest⟩ := hrun
    obtain ⟨hg, hm⟩ := hexec s l s₁ hstep
    exact Machine.Run.replay hexec (.snoc hs hg hm) hrest

/-- An invariant holds all along a run of a step function exactly when each step meets the condition
that is exact for one step. -/
theorem foldl_invariant_iff {step : σ → ℓ → σ} {A G : σ → ℓ → Prop} {I : σ → Prop}
    (hstep : ∀ s l, I s → A s l → (I (step s l) ↔ G s l)) {s : σ} (hs : I s) {ls : List ℓ}
    (hA : ∀ pre l post, ls = pre ++ l :: post → A (pre.foldl step s) l) :
    (∀ pre post, ls = pre ++ post → I (pre.foldl step s)) ↔
      ∀ pre l post, ls = pre ++ l :: post → G (pre.foldl step s) l := by
  have hlast : ∀ pre l, (pre ++ [l]).foldl step s = step (pre.foldl step s) l := fun pre l => by
    rw [List.foldl_append, List.foldl_cons, List.foldl_nil]
  constructor
  · intro hI pre l post heq
    have hnext := hI (pre ++ [l]) post (by rw [heq, List.append_assoc, List.singleton_append])
    rw [hlast] at hnext
    exact (hstep _ _ (hI pre _ heq) (hA pre l post heq)).mp hnext
  · intro hG pre
    induction pre using List.reverseRecOn with
    | nil => exact fun _ _ => hs
    | append_singleton pre l ih =>
      intro post heq
      rw [List.append_assoc, List.singleton_append] at heq
      rw [hlast]
      exact (hstep _ _ (ih _ heq) (hA pre l post heq)).mpr (hG pre l post heq)

/-- What holds of every element and the ones in front of it. -/
theorem forall_split_cons {P : List ℓ → ℓ → Prop} {a : ℓ} {ls : List ℓ} :
    (∀ pre l post, a :: ls = pre ++ l :: post → P pre l) ↔
      P [] a ∧ ∀ pre l post, ls = pre ++ l :: post → P (a :: pre) l := by
  constructor
  · intro h
    exact ⟨h [] a ls rfl, fun pre l post heq => h (a :: pre) l post (heq ▸ rfl)⟩
  · rintro ⟨hfirst, hrest⟩ pre l post heq
    cases pre with
    | nil => exact (List.cons.inj heq).1 ▸ hfirst
    | cons b pre =>
      obtain ⟨rfl, htail⟩ := List.cons.inj heq
      exact hrest pre l post htail

theorem forall_split_nil {P : List ℓ → ℓ → Prop} :
    ∀ pre l post, [] = pre ++ l :: post → P pre l := fun pre _ _ heq => by
  cases pre <;> exact nomatch heq

end AthenaOS.Lib
