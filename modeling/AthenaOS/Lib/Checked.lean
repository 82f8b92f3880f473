import Mathlib

/-!
# Programs that check before they write

Code that reads a shared state, returns an error at the first check that fails, and changes the
state otherwise. An error does not undo what was written before it.
-/

namespace AthenaOS.Lib

/-- A program over a state that may return an error, keeping the state it reached. -/
abbrev Checked (ε σ α : Type) : Type := ExceptT ε (StateM σ) α

namespace Checked

variable {ε σ α β : Type}

/-- The result and the state left behind. -/
def exec (m : Checked ε σ α) (s : σ) : Except ε α × σ := m.run.run s

/-- `?` on a result. -/
def ofExcept (r : Except ε α) : Checked ε σ α := ExceptT.mk (pure r)

/-- `ok_or(e)?` on an option. -/
def okOr (o : Option α) (e : ε) : Checked ε σ α :=
  ofExcept (match o with
    | some a => .ok a
    | none => .error e)

/-- Return an error unless `c` holds. -/
def require (c : Bool) (e : ε) : Checked ε σ Unit := ofExcept (if c then .ok () else .error e)

/-- The current state. -/
def read : Checked ε σ σ := ExceptT.mk fun s => (.ok s, s)

/-- Change the state. -/
def write (f : σ → σ) : Checked ε σ Unit := ExceptT.mk fun s => (.ok (), f s)

section Run

variable {m : Checked ε σ α} {f : α → Checked ε σ β} {s s' : σ} {a : α} {e : ε}

@[simp] theorem exec_pure : (pure a : Checked ε σ α).exec s = (.ok a, s) := rfl

variable {r : Except ε α} {g : σ → σ} {c : Bool}

@[simp] theorem exec_ofExcept : (ofExcept r : Checked ε σ α).exec s = (r, s) := rfl

@[simp] theorem exec_read : (read : Checked ε σ σ).exec s = (.ok s, s) := rfl

@[simp] theorem exec_write : (write g : Checked ε σ Unit).exec s = (.ok (), g s) := rfl

theorem require_exec (h : c = true) : (require c e : Checked ε σ Unit).exec s = (.ok (), s) := by
  rw [require, if_pos h, exec_ofExcept]

theorem okOr_some_exec : (okOr (some a) e : Checked ε σ α).exec s = (.ok a, s) := rfl

theorem okOr_none_exec : (okOr none e : Checked ε σ α).exec s = (.error e, s) := rfl

theorem require_fails (h : c = false) :
    (require c e : Checked ε σ Unit).exec s = (.error e, s) := by
  rw [require, h, if_neg (by decide), exec_ofExcept]

theorem exec_bind : (m >>= f).exec s =
    match m.exec s with
    | (.ok a, s') => (f a).exec s'
    | (.error e, s') => (.error e, s') := by
  show (match m.run.run s with
    | (r, s') => (ExceptT.bindCont f r).run s') = _
  rw [exec]
  rcases m.run.run s with ⟨_ | a, s'⟩
  · rfl
  · rfl

/-- After a step that succeeds, the rest runs. -/
theorem bind_ok (h : m.exec s = (.ok a, s')) : (m >>= f).exec s = (f a).exec s' := by
  rw [exec_bind, h]

/-- A step that fails ends the program. -/
theorem bind_error (h : m.exec s = (.error e, s')) : (m >>= f).exec s = (.error e, s') := by
  rw [exec_bind, h]

/-- A program that succeeds succeeded at every step. -/
theorem bind_eq_ok {b : β} (h : (m >>= f).exec s = (.ok b, s')) :
    ∃ a s₁, m.exec s = (.ok a, s₁) ∧ (f a).exec s₁ = (.ok b, s') := by
  rw [exec_bind] at h
  rcases hm : m.exec s with ⟨_ | a, s₁⟩
  · rw [hm] at h
    exact nomatch congrArg Prod.fst h
  · rw [hm] at h
    exact ⟨a, s₁, rfl, h⟩

theorem ofExcept_eq_ok (h : (ofExcept r : Checked ε σ α).exec s = (.ok a, s')) :
    r = .ok a ∧ s' = s := by
  obtain ⟨hr, hs⟩ := Prod.mk.inj h
  exact ⟨hr, hs.symm⟩

theorem okOr_eq_ok {o : Option α} (h : (okOr o e : Checked ε σ α).exec s = (.ok a, s')) :
    o = some a ∧ s' = s := by
  obtain ⟨ho, rfl⟩ := ofExcept_eq_ok h
  cases o with
  | none => exact nomatch ho
  | some a' => exact ⟨congrArg some (Except.ok.inj ho), rfl⟩

theorem require_eq_ok {u : Unit} (h : (require c e : Checked ε σ Unit).exec s = (.ok u, s')) :
    c = true ∧ s' = s := by
  obtain ⟨hc, rfl⟩ := ofExcept_eq_ok h
  cases c with
  | false => exact nomatch hc
  | true => exact ⟨rfl, rfl⟩

theorem read_eq_ok {t : σ} (h : (read : Checked ε σ σ).exec s = (.ok t, s')) : t = s ∧ s' = s := by
  obtain ⟨ht, hs⟩ := Prod.mk.inj h
  exact ⟨(Except.ok.inj ht).symm, hs.symm⟩

/-- What a program that ends in a write has done. -/
theorem write_bind_eq_ok {b b' : β}
    (h : ((write g : Checked ε σ Unit) >>= fun _ => pure b).exec s = (.ok b', s')) : s' = g s := by
  rw [bind_ok exec_write, exec_pure] at h
  exact (congrArg Prod.snd h).symm

end Run

/-! ## Errors that change nothing -/

/-- The state is left alone. -/
def ReadOnly (m : Checked ε σ α) : Prop := ∀ s, (m.exec s).2 = s

/-- An error leaves the state alone. -/
def FailSafe (m : Checked ε σ α) : Prop := ∀ s e s', m.exec s = (.error e, s') → s' = s

theorem readOnly_ofExcept (r : Except ε α) : ReadOnly (ofExcept r : Checked ε σ α) := fun _ => rfl

theorem readOnly_read : ReadOnly (read : Checked ε σ σ) := fun _ => rfl

/-- Checks before a program that is fail-safe. -/
theorem ReadOnly.bind_failSafe {m : Checked ε σ α} {f : α → Checked ε σ β} (hm : ReadOnly m)
    (hf : ∀ a, FailSafe (f a)) : FailSafe (m >>= f) := by
  intro s e s' h
  have hs := hm s
  rw [exec_bind] at h
  rcases hrun : m.exec s with ⟨_ | a, s₁⟩
  · rw [hrun] at h hs
    obtain ⟨-, rfl⟩ := Prod.mk.inj h
    exact hs
  · rw [hrun] at h hs
    obtain rfl : s₁ = s := hs
    exact hf a _ e s' h

/-- A write that nothing fallible follows. -/
theorem write_bind_failSafe {g : σ → σ} {b : β} :
    FailSafe ((write g : Checked ε σ Unit) >>= fun _ => pure b) := by
  intro s e s' h
  exact nomatch congrArg Prod.fst h

/-! ## What a run ends in -/

/-- A run ends with a result and a state that satisfy `ok`, or with an error and a state that satisfy `err`. -/
def Ends (m : Checked ε σ α) (s : σ) (ok : α → σ → Prop) (err : ε → σ → Prop) : Prop :=
  match m.exec s with
  | (.ok a, s') => ok a s'
  | (.error e, s') => err e s'

section Ends

variable {m : Checked ε σ α} {f : α → Checked ε σ β} {s : σ} {err : ε → σ → Prop} {ok : α → σ → Prop}

theorem ends_bind {ok : β → σ → Prop} :
    Ends (m >>= f) s ok err ↔ Ends m s (fun a s' => Ends (f a) s' ok err) err := by
  rw [Ends, exec_bind, Ends]
  rcases m.exec s with ⟨_ | a, s'⟩
  · exact Iff.rfl
  · exact Iff.rfl

theorem ends_read {ok : σ → σ → Prop} : Ends (read : Checked ε σ σ) s ok err ↔ ok s s := Iff.rfl

theorem ends_write {g : σ → σ} {ok : Unit → σ → Prop} :
    Ends (write g : Checked ε σ Unit) s ok err ↔ ok () (g s) := Iff.rfl

variable {e : ε}

theorem ends_require {c : Bool} {ok : Unit → σ → Prop} :
    Ends (require c e : Checked ε σ Unit) s ok err ↔ if c = true then ok () s else err e s := by
  cases c with
  | true => exact Iff.rfl
  | false => exact Iff.rfl

theorem ends_okOr {o : Option α} :
    Ends (okOr o e : Checked ε σ α) s ok err ↔
      match o with
      | some a => ok a s
      | none => err e s := by
  cases o with
  | some a => exact Iff.rfl
  | none => exact Iff.rfl

theorem ends_ite {c : Prop} [Decidable c] {m' : Checked ε σ α} :
    Ends (if c then m else m') s ok err ↔ if c then Ends m s ok err else Ends m' s ok err := by
  by_cases h : c
  · rw [if_pos h, if_pos h]
  · rw [if_neg h, if_neg h]

end Ends

end Checked

end AthenaOS.Lib
