import Mathlib

/-!
# Decoders

A decoder reads from an input it carries along and stops at the first error: `?` in
code that returns a `Result` and whose caller drops the input on failure.

- `loop`: `loop { .. }` with `break` and `?`, where every round that goes on consumes
  something. `loop_continue` and `loop_break` run one round, `loop_invariant` is its invariant rule, and `loop_transfer`
  carries a run over to another body.
-/

namespace AthenaOS.Lib

universe u

/-- A decoder over an input of type `σ` with errors in `ε`. -/
abbrev Decoder (σ ε α : Type u) : Type u := StateT σ (Except ε) α

namespace Decoder

variable {σ ε α β : Type u}

/-- A result that does not depend on the input. -/
def ofExcept (r : Except ε α) : Decoder σ ε α := fun s => r.map fun a => (a, s)

section Run

variable {m : Decoder σ ε α} {f : α → Decoder σ ε β} {s s' : σ} {a : α}

/-- After a step that succeeds, the rest runs. -/
theorem bind_ok (h : m s = .ok (a, s')) : (m >>= f) s = f a s' := by
  show (m s >>= fun p => f p.1 p.2) = _
  rw [h]
  rfl

/-- A decoder that succeeds succeeded at every step. -/
theorem bind_eq_ok {b : β} (h : (m >>= f) s = .ok (b, s')) :
    ∃ a s₁, m s = .ok (a, s₁) ∧ f a s₁ = .ok (b, s') := by
  have h : (m s >>= fun p => f p.1 p.2) = .ok (b, s') := h
  cases hm : m s with
  | error e =>
    rw [hm] at h
    exact nomatch h
  | ok p =>
    rw [hm] at h
    exact ⟨p.1, p.2, rfl, h⟩

theorem pure_eq_ok {b : α} (h : (pure b : Decoder σ ε α) s = .ok (a, s')) : a = b ∧ s' = s := by
  obtain ⟨rfl, rfl⟩ := Prod.mk.inj (Except.ok.inj h)
  exact ⟨rfl, rfl⟩

theorem ofExcept_eq_ok {r : Except ε α} (h : (ofExcept r : Decoder σ ε α) s = .ok (a, s')) :
    r = .ok a ∧ s' = s := by
  cases r with
  | error e => exact nomatch h
  | ok b =>
    obtain ⟨rfl, rfl⟩ := Prod.mk.inj (Except.ok.inj h)
    exact ⟨rfl, rfl⟩

end Run

/-! ## Reading back what was written -/

section Reads

variable {β : Type u} {γ δ : Type u} {m : Decoder (List β) ε γ} {f : γ → Decoder (List β) ε δ}
  {part part' : List β} {a : γ} {b : δ}

/-- Where `part` comes next, `m` reads it as `a`. -/
def Reads (m : Decoder (List β) ε γ) (part : List β) (a : γ) : Prop :=
  ∀ rest, m (part ++ rest) = .ok (a, rest)

theorem Reads.pure (a : γ) : Reads (Pure.pure a : Decoder (List β) ε γ) [] a := fun _ => rfl

/-- One part after the other. -/
theorem Reads.bind (hm : Reads m part a) (hf : Reads (f a) part' b) :
    Reads (m >>= f) (part ++ part') b := by
  intro rest
  rw [List.append_assoc, bind_ok (hm (part' ++ rest))]
  exact hf rest

/-- A check that passes reads nothing. -/
theorem Reads.of_check {c : Prop} [Decidable c] {e : ε} (hc : ¬ c) (hm : Reads m part a) :
    Reads (do
      if c then throw e
      m) part a := by
  intro rest
  simp only [if_neg hc]
  exact hm rest

end Reads

/-! ## Progress -/

/-- Where `m` succeeds, it consumes at least `k` of what is left. -/
def Consumes (left : σ → Nat) (k : Nat) (m : Decoder σ ε α) : Prop :=
  ∀ s a s', m s = .ok (a, s') → left s' + k ≤ left s

namespace Consumes

variable {left : σ → Nat} {k l : Nat} {m : Decoder σ ε α} {f : α → Decoder σ ε β}

theorem pure (a : α) : Consumes left 0 (Pure.pure a : Decoder σ ε α) := by
  intro s b s' h
  rw [(pure_eq_ok h).2]
  exact Nat.le_refl _

theorem throw (e : ε) (k : Nat) : Consumes left k (throw e : Decoder σ ε α) :=
  fun _ _ _ h => nomatch h

theorem ofExcept (r : Except ε α) : Consumes left 0 (Decoder.ofExcept r : Decoder σ ε α) := by
  intro s a s' h
  rw [(ofExcept_eq_ok h).2]
  exact Nat.le_refl _

theorem mono (h : Consumes left k m) (hl : l ≤ k) : Consumes left l m := by
  intro s a s' hrun
  have := h s a s' hrun
  omega

theorem bind (hm : Consumes left k m) (hf : ∀ a, Consumes left l (f a)) :
    Consumes left (k + l) (m >>= f) := by
  intro s b s' hrun
  obtain ⟨a, s₁, hfirst, hrest⟩ := bind_eq_ok hrun
  have h₁ := hm s a s₁ hfirst
  have h₂ := hf a s₁ b s' hrest
  omega

/-- Only the first part counts. -/
theorem bind_left (hm : Consumes left k m) (hf : ∀ a, Consumes left 0 (f a)) :
    Consumes left k (m >>= f) := hm.bind hf

/-- Only the rest counts. -/
theorem bind_right (hm : Consumes left k m) (hf : ∀ a, Consumes left l (f a)) :
    Consumes left l (m >>= f) := (hm.bind hf).mono (Nat.le_add_left l k)

theorem ite {c : Prop} [Decidable c] {m' : Decoder σ ε α} (hm : Consumes left k m)
    (hm' : Consumes left k m') : Consumes left k (if c then m else m') := by
  split
  · exact hm
  · exact hm'

end Consumes

/-! ## Loops -/

section Loop

variable {left : σ → Nat}

/-- Every round that goes on consumes something. -/
def Progresses (left : σ → Nat) (body : α → Decoder σ ε (α ⊕ β)) : Prop :=
  ∀ a s a' s', body a s = .ok (.inl a', s') → left s' < left s

theorem Progresses.of_consumes {body : α → Decoder σ ε (α ⊕ β)} (h : ∀ a, Consumes left 1 (body a)) :
    Progresses left body := fun a s _ s' hround => h a s _ s' hround

/-- `loop { .. }`: a round goes on with a new value (`inl`) or breaks (`inr`). -/
def loop (left : σ → Nat) (body : α → Decoder σ ε (α ⊕ β)) (hbody : Progresses left body) (a : α)
    (s : σ) : Except ε (β × σ) :=
  match _h : body a s with
  | .error e => .error e
  | .ok (.inr b, s') => .ok (b, s')
  | .ok (.inl a', s') => loop left body hbody a' s'
termination_by left s
decreasing_by exact hbody a s _ _ _h

variable {body : α → Decoder σ ε (α ⊕ β)} {hbody : Progresses left body}
variable {a a' : α} {b : β} {s s' : σ}

/-- One round that goes on. -/
theorem loop_continue (h : body a s = .ok (.inl a', s')) :
    loop left body hbody a s = loop left body hbody a' s' := by
  rw [loop]
  split
  · rename_i heq
    exact nomatch h.symm.trans heq
  · rename_i heq
    exact nomatch h.symm.trans heq
  · rename_i heq
    obtain ⟨⟨rfl⟩, rfl⟩ := Prod.mk.inj (Except.ok.inj (h.symm.trans heq))
    rfl

/-- The last round. -/
theorem loop_break (h : body a s = .ok (.inr b, s')) : loop left body hbody a s = .ok (b, s') := by
  rw [loop]
  split
  · rename_i heq
    exact nomatch h.symm.trans heq
  · rename_i heq
    obtain ⟨⟨rfl⟩, rfl⟩ := Prod.mk.inj (Except.ok.inj (h.symm.trans heq))
    rfl
  · rename_i heq
    exact nomatch h.symm.trans heq

/-- A loop that succeeds ran one round, and either it broke or it went on. -/
theorem loop_eq_ok (h : loop left body hbody a s = .ok (b, s')) :
    body a s = .ok (.inr b, s') ∨ ∃ a₁ s₁, body a s = .ok (.inl a₁, s₁) ∧
      loop left body hbody a₁ s₁ = .ok (b, s') := by
  rw [loop] at h
  split at h
  · exact nomatch h
  · rename_i heq
    obtain ⟨rfl, rfl⟩ := Prod.mk.inj (Except.ok.inj h)
    exact .inl heq
  · rename_i a₁ s₁ heq
    exact .inr ⟨a₁, s₁, heq, h⟩

/-- **Invariant rule**: what every round keeps holds of the result. -/
theorem loop_invariant {I : α → σ → Prop} {Q : β → σ → Prop}
    (hcont : ∀ a s a' s', I a s → body a s = .ok (.inl a', s') → I a' s')
    (hbreak : ∀ a s b s', I a s → body a s = .ok (.inr b, s') → Q b s') (hI : I a s)
    (h : loop left body hbody a s = .ok (b, s')) : Q b s' := by
  induction hn : left s using Nat.strongRecOn generalizing a s with
  | _ n ih =>
    rcases loop_eq_ok h with hlast | ⟨a₁, s₁, hround, hrest⟩
    · exact hbreak a s b s' hI hlast
    · have hless := hbody a s a₁ s₁ hround
      exact ih (left s₁) (hn ▸ hless) (hcont a s a₁ s₁ hI hround) hrest rfl

/-- **A run of one loop is a run of another**, if that holds round by round. `B` is known
of the end and carried backwards. -/
theorem loop_transfer {body' : α → Decoder σ ε (α ⊕ β)} {hbody' : Progresses left body'}
    {B : α → Prop} {C : β → Prop}
    (hcont : ∀ a s a' s', body a s = .ok (.inl a', s') → B a' → B a ∧ body' a s = .ok (.inl a', s'))
    (hbreak : ∀ a s b s', body a s = .ok (.inr b, s') → C b → B a ∧ body' a s = .ok (.inr b, s'))
    (h : loop left body hbody a s = .ok (b, s')) (hb : C b) :
    B a ∧ loop left body' hbody' a s = .ok (b, s') := by
  induction hn : left s using Nat.strongRecOn generalizing a s with
  | _ n ih =>
    rcases loop_eq_ok h with hlast | ⟨a₁, s₁, hround, hrest⟩
    · obtain ⟨hB, hlast'⟩ := hbreak a s b s' hlast hb
      exact ⟨hB, loop_break hlast'⟩
    · have hless := hbody a s a₁ s₁ hround
      obtain ⟨hB₁, hrest'⟩ := ih (left s₁) (hn ▸ hless) hrest rfl
      obtain ⟨hB, hround'⟩ := hcont a s a₁ s₁ hround hB₁
      exact ⟨hB, (loop_continue hround').trans hrest'⟩

/-- A loop gives nothing back. -/
theorem Consumes.loop (h : ∀ a, Consumes left 0 (body a)) (a : α) :
    Consumes left 0 (loop left body hbody a) := by
  intro s b s' hrun
  refine loop_invariant (I := fun _ s₁ => left s₁ ≤ left s) (Q := fun _ s₁ => left s₁ ≤ left s)
    ?_ ?_ (Nat.le_refl _) hrun
  · intro a s₁ a' s₂ hle hround
    exact Nat.le_trans (h a s₁ _ s₂ hround) hle
  · intro a s₁ b s₂ hle hround
    exact Nat.le_trans (h a s₁ _ s₂ hround) hle

end Loop

end Decoder

end AthenaOS.Lib
