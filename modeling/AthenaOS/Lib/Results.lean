import Mathlib

/-!
# Code that returns an error

Running a program on a state step by step, and the rules for what its runs give, in the shape of
the program.
-/

namespace AthenaOS.Lib

universe u v

variable {ε : Type u} {σ α β : Type v}

/-- A computation that succeeds succeeded at every step. -/
theorem ok_of_bind {r : Except ε α} {f : α → Except ε β} {b : β} (h : (r >>= f) = .ok b) :
    ∃ a, r = .ok a ∧ f a = .ok b := by
  cases r with
  | error e => exact nomatch h
  | ok a => exact ⟨a, rfl, h⟩

section Run

variable {m : StateT σ (Except ε) α} {f : α → StateT σ (Except ε) β} {s s' : σ} {a : α}

theorem run_bind_ok (h : m s = .ok (a, s')) : (m >>= f) s = f a s' := by
  show (m s >>= fun r => f r.1 r.2) = _
  rw [h]
  rfl

/-- A run that succeeds succeeded at every step. -/
theorem run_of_bind {b : β} (h : (m >>= f) s = .ok (b, s')) :
    ∃ a s₁, m s = .ok (a, s₁) ∧ f a s₁ = .ok (b, s') := by
  obtain ⟨⟨a, s₁⟩, h₁, h₂⟩ := ok_of_bind (r := m s) (f := fun r => f r.1 r.2) h
  exact ⟨a, s₁, h₁, h₂⟩

end Run

/-- Where `m` succeeds it gives `P`. -/
def Gives (m : StateT σ (Except ε) α) (P : σ → α → σ → Prop) : Prop := ∀ s a s', m s = .ok (a, s') → P s a s'

namespace Gives

variable {m : StateT σ (Except ε) α} {f : α → StateT σ (Except ε) β} {P Q : σ → α → σ → Prop}

theorem mono (h : Gives m P) (hPQ : ∀ s a s', P s a s' → Q s a s') : Gives m Q :=
  fun s a s' hrun => hPQ s a s' (h s a s' hrun)

theorem pure {a : α} (h : ∀ s, P s a s) : Gives (Pure.pure a : StateT σ (Except ε) α) P := by
  intro s b s' hrun
  obtain ⟨rfl, rfl⟩ := Prod.mk.inj (Except.ok.inj hrun)
  exact h s

theorem ite {c : Prop} [Decidable c] {m' : StateT σ (Except ε) α} (ht : c → Gives m P) (he : ¬ c → Gives m' P) :
    Gives (if c then m else m') P := by
  split
  · exact ht ‹_›
  · exact he ‹_›

end Gives

end AthenaOS.Lib
