import Mathlib

/-!
# Fallible stateful programs and their pre- and postconditions

Code that mutates a state and may return an error, without undoing what it did
before the error (`?` in the source keeps every earlier write).
-/

namespace AthenaOS.Lib

universe u v

/-- A program over a state that may fail, keeping the state it reached. -/
def Fallible (σ : Type u) (α : Type v) : Type (max u v) := σ → Option α × σ

namespace Fallible

variable {σ : Type u} {α β : Type v}

instance : Monad (Fallible σ) where
  pure a := fun s => (some a, s)
  bind m f := fun s =>
    match m s with
    | (some a, s') => f a s'
    | (none, s') => (none, s')

/-- Return an error. -/
def fail : Fallible σ α := fun s => (none, s)

/-- The current state. -/
def get : Fallible σ σ := fun s => (some s, s)

/-- Change the state. -/
def modify (f : σ → σ) : Fallible σ PUnit := fun s => (some ⟨⟩, f s)

/-- Turn an error into a value: `.ok()`, `is_err()`, `let _ = ...`. -/
def attempt (m : Fallible σ α) : Fallible σ (Option α) := fun s =>
  match m s with
  | (r, s') => (some r, s')

/-- `ok_or(())?` on an option. -/
def ofOption : Option α → Fallible σ α
  | some a => pure a
  | none => fail

/-- Return an error unless `c` holds. -/
def require (c : Bool) : Fallible σ PUnit := if c then pure ⟨⟩ else fail

/-- `if c { m }`. -/
def when (c : Bool) (m : Fallible σ PUnit) : Fallible σ PUnit := if c then m else pure ⟨⟩

section Run

variable {m : Fallible σ α} {f : α → Fallible σ β} {s s' : σ} {a : α}

/-- After a step that succeeds, the rest runs. -/
theorem bind_some (h : m s = (some a, s')) : (m >>= f) s = f a s' := by
  show (match m s with
    | (some a, s') => f a s'
    | (none, s') => (none, s')) = _
  rw [h]

/-- A step that fails ends the program. -/
theorem bind_none (h : m s = (none, s')) : (m >>= f) s = (none, s') := by
  show (match m s with
    | (some a, s') => f a s'
    | (none, s') => (none, s')) = _
  rw [h]

/-- A program that succeeds succeeded at every step. -/
theorem bind_eq_some {b : β} (h : (m >>= f) s = (some b, s')) :
    ∃ a s₁, m s = (some a, s₁) ∧ f a s₁ = (some b, s') := by
  rcases hm : m s with ⟨_ | a, s₁⟩
  · rw [bind_none hm] at h
    exact absurd (congrArg Prod.fst h) (by simp)
  · rw [bind_some hm] at h
    exact ⟨a, s₁, rfl, h⟩

theorem pure_eq_some {b : α} (h : (pure b : Fallible σ α) s = (some a, s')) : a = b ∧ s' = s := by
  obtain ⟨ha, hs⟩ := Prod.mk.inj h
  exact ⟨(Option.some.inj ha).symm, hs.symm⟩

variable {o : Option α}

theorem ofOption_eq_some (h : (ofOption o : Fallible σ α) s = (some a, s')) :
    o = some a ∧ s' = s := by
  cases o with
  | none => exact nomatch congrArg Prod.fst h
  | some b =>
    obtain ⟨rfl, rfl⟩ := pure_eq_some h
    exact ⟨rfl, rfl⟩

theorem attempt_run (h : m s = (o, s')) : attempt m s = (some o, s') := by
  show (match m s with | (r, s') => (some r, s')) = _
  rw [h]

end Run

/-- What an outcome has to satisfy: `Q` with its result, or `E` on an error. -/
def Outcome (Q : α → σ → Prop) (E : σ → Prop) : Option α × σ → Prop
  | (some a, s) => Q a s
  | (none, s) => E s

/-- `m` started in `P` ends in `Q a` with result `a`, or fails in `E`. -/
structure Spec (P : σ → Prop) (m : Fallible σ α) (Q : α → σ → Prop) (E : σ → Prop) : Prop where
  run : ∀ s, P s → Outcome Q E (m s)

/-- `m` keeps `I`, whether it succeeds or fails. -/
abbrev Preserves (I : σ → Prop) (m : Fallible σ α) : Prop := Spec I m (fun _ => I) I

section Rules

variable {P P' I E : σ → Prop} {Q Q' : α → σ → Prop} {R : β → σ → Prop}
variable {m : Fallible σ α} {f : α → Fallible σ β}

variable {s : σ} {E' : σ → Prop} {a : α} {c : Prop} {m' : Fallible σ α} {o : Option α} {γ : Type v}

/-- What holds of every outcome holds of the state left behind. -/
theorem Spec.snd (h : Spec P m (fun _ => E) E) (hs : P s) : E (m s).2 := by
  have hrun := h.run s hs
  rcases hm : m s with ⟨_ | a, s'⟩ <;> rw [hm] at hrun <;> exact hrun

/-- A kept property holds of the state left behind. -/
theorem Preserves.snd (h : Preserves I m) (hs : I s) : I (m s).2 := Spec.snd h hs

theorem Outcome.mono {r : Option α × σ} (h : Outcome Q E r) (hq : ∀ a s, Q a s → Q' a s)
    (he : ∀ s, E s → E' s) : Outcome Q' E' r := by
  rcases r with ⟨_ | a, s⟩
  · exact he s h
  · exact hq a s h

theorem Spec.pre (h : Spec P m Q E) (hp : ∀ s, P' s → P s) : Spec P' m Q E :=
  ⟨fun s hs => h.run s (hp s hs)⟩

theorem Spec.post (h : Spec P m Q E) (hq : ∀ a s, Q a s → Q' a s) (he : ∀ s, E s → E' s) :
    Spec P m Q' E' :=
  ⟨fun s hs => (h.run s hs).mono hq he⟩

theorem Spec.pure (h : ∀ s, P s → Q a s) : Spec P (Pure.pure a) Q E :=
  ⟨fun s hs => h s hs⟩

theorem Spec.fail (h : ∀ s, P s → E s) : Spec P (Fallible.fail : Fallible σ α) Q E :=
  ⟨fun s hs => h s hs⟩

theorem Spec.bind (hm : Spec P m Q E) (hf : ∀ a, Spec (Q a) (f a) R E) :
    Spec P (m >>= f) R E := by
  refine ⟨fun s hs => ?_⟩
  have hrun := hm.run s hs
  show Outcome R E (match m s with
    | (some a, s') => f a s'
    | (none, s') => (none, s'))
  rcases hms : m s with ⟨_ | a, s'⟩ <;> rw [hms] at hrun
  · exact hrun
  · exact (hf a).run s' hrun

theorem Spec.get {Q : σ → σ → Prop} (h : ∀ s, P s → Q s s) :
    Spec P (Fallible.get : Fallible σ σ) Q E :=
  ⟨fun s hs => h s hs⟩

theorem Spec.attempt {Q : Option α → σ → Prop}
    (h : Spec P m (fun a => Q (some a)) (Q none)) : Spec P (Fallible.attempt m) Q E := by
  refine ⟨fun s hs => ?_⟩
  have hrun := h.run s hs
  show Outcome Q E (match m s with | (r, s') => (some r, s'))
  rcases hms : m s with ⟨_ | a, s'⟩ <;> rw [hms] at hrun <;> exact hrun

theorem Spec.ite [Decidable c] (ht : c → Spec P m Q E) (he : ¬ c → Spec P m' Q E) :
    Spec P (if c then m else m') Q E := by
  split
  · exact ht ‹_›
  · exact he ‹_›

theorem Spec.ofOption (hs : ∀ a s, o = some a → P s → Q a s) (hn : ∀ s, o = none → P s → E s) :
    Spec P (Fallible.ofOption o) Q E := by
  cases o with
  | none => exact Spec.fail fun s hp => hn s rfl hp
  | some a => exact Spec.pure fun s hp => hs a s rfl hp

theorem Preserves.pure : Preserves I (Pure.pure a : Fallible σ α) := Spec.pure fun _ h => h

theorem Preserves.fail : Preserves I (Fallible.fail : Fallible σ α) := Spec.fail fun _ h => h

theorem Preserves.get : Preserves I (Fallible.get : Fallible σ σ) := Spec.get fun _ h => h

theorem Preserves.ofOption : Preserves I (Fallible.ofOption o) :=
  Spec.ofOption (fun _ _ _ h => h) (fun _ _ h => h)

theorem Preserves.require {c : Bool} : Preserves I (Fallible.require c : Fallible σ PUnit) :=
  Spec.ite (fun _ => Preserves.pure) (fun _ => Preserves.fail)

theorem Preserves.attempt (h : Preserves I m) : Preserves I (Fallible.attempt m) := Spec.attempt h

theorem Preserves.bind (hm : Preserves I m) (hf : ∀ a, Preserves I (f a)) :
    Preserves I (m >>= f) := Spec.bind hm hf

theorem Preserves.ite [Decidable c] (ht : Preserves I m) (he : Preserves I m') :
    Preserves I (if c then m else m') :=
  Spec.ite (fun _ => ht) (fun _ => he)

theorem Preserves.when {c : Bool} {m : Fallible σ PUnit} (h : Preserves I m) :
    Preserves I (Fallible.when c m) :=
  Preserves.ite h Preserves.pure

theorem Spec.forM {g : γ → Fallible σ PUnit} {l : List γ}
    (h : ∀ a ∈ l, Spec I (g a) (fun _ => I) E) : Spec I (l.forM g) (fun _ => I) E := by
  induction l with
  | nil => exact Spec.pure fun _ hs => hs
  | cons a l ih =>
    refine Spec.bind (h a List.mem_cons_self) fun _ => ?_
    exact ih fun b hb => h b (List.mem_cons_of_mem _ hb)

theorem Preserves.forM {g : γ → Fallible σ PUnit} {l : List γ} (h : ∀ a ∈ l, Preserves I (g a)) :
    Preserves I (l.forM g) := Spec.forM h

/-- A program whose result and error are both decided by `o` gives `o`. -/
theorem Spec.run_eq (h : Spec P m (fun a s => o = some a ∧ I s) (fun s => o = none ∧ I s))
    (hs : P s) : (m s).1 = o ∧ I (m s).2 := by
  have hrun := h.run s hs
  rcases hm : m s with ⟨_ | a, s'⟩ <;> rw [hm] at hrun
  · exact ⟨hrun.1.symm, hrun.2⟩
  · exact ⟨hrun.1.symm, hrun.2⟩

end Rules

section Agreement

variable {P : σ → Prop} {m m' : Fallible σ α} {f f' : α → Fallible σ β}

/-- Two programs do the same from every state in `P`. -/
def Agree (P : σ → Prop) (m m' : Fallible σ α) : Prop := ∀ s, P s → m s = m' s

theorem Agree.refl : Agree P m m := fun _ _ => rfl

/-- Programs agree if their first steps do, keep `P`, and the rests agree. -/
theorem Agree.bind (hm : Agree P m m') (hP : Preserves P m) (hf : ∀ a, Agree P (f a) (f' a)) :
    Agree P (m >>= f) (m' >>= f') := by
  intro s hs
  have hrun := hP.run s hs
  rcases hms : m s with ⟨_ | a, s'⟩
  · rw [bind_none hms, bind_none ((hm s hs).symm.trans hms)]
  · rw [hms] at hrun
    rw [bind_some hms, bind_some ((hm s hs).symm.trans hms)]
    exact hf a s' hrun

theorem Agree.ite {c : Prop} [Decidable c] {n n' : Fallible σ α} (hm : Agree P m m') (hn : Agree P n n') :
    Agree P (if c then m else n) (if c then m' else n') := by
  split
  · exact hm
  · exact hn

end Agreement

section Results

variable {m : Fallible σ α} {f : α → Fallible σ β} {Q : α → Prop} {R : β → Prop}

/-- A result of `m`, if there is one, satisfies `Q`. -/
def Yields (m : Fallible σ α) (Q : α → Prop) : Prop := ∀ s a s', m s = (some a, s') → Q a

theorem Yields.pure {a : α} (h : Q a) : Yields (Pure.pure a : Fallible σ α) Q := by
  intro s a' s' hrun
  obtain ⟨rfl, -⟩ := pure_eq_some hrun
  exact h

theorem Yields.fail : Yields (Fallible.fail : Fallible σ α) Q := fun _ _ _ hrun => nomatch congrArg Prod.fst hrun

theorem Yields.ofOption {o : Option α} (h : ∀ a, o = some a → Q a) :
    Yields (Fallible.ofOption o : Fallible σ α) Q :=
  fun _ a _ hrun => h a (ofOption_eq_some hrun).1

/-- Nothing is known of a result. -/
theorem Yields.any (m : Fallible σ α) : Yields m fun _ => True := fun _ _ _ _ => trivial

theorem Yields.bind (hm : Yields m Q) (hf : ∀ a, Q a → Yields (f a) R) : Yields (m >>= f) R := by
  intro s b s' hrun
  obtain ⟨a, s₁, hfirst, hrest⟩ := bind_eq_some hrun
  exact hf a (hm s a s₁ hfirst) s₁ b s' hrest

theorem Yields.ite {c : Prop} [Decidable c] {m' : Fallible σ α} (hm : c → Yields m Q) (hm' : ¬ c → Yields m' Q) :
    Yields (if c then m else m') Q := by
  split
  · next hc => exact hm hc
  · next hc => exact hm' hc

end Results

end Fallible

end AthenaOS.Lib
