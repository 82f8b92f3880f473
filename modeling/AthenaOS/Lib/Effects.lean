import Mathlib

/-!
# Programs over operations

An interpreter turns syntax into a program over a few operations on its state; what the
operations keep, every program keeps. A program is a tree: operations that may fail, a part
run inside a scope that is closed whether or not the part failed, calls, whose body is found
when the program runs, and loops.
-/

namespace AthenaOS.Lib

/-- The operations of a language. -/
structure Signature where
  Op : Type
  Resp : Op → Type
  Scope : Type
  Call : Type
  /-- What the body of a scope or a call ends with. -/
  Exit : Type
  Err : Type
  /-- The errors a program raises itself. -/
  Raise : Type
  raised : Raise → Err

/-- Programs that end with an `α` or an error. -/
inductive Prog (S : Signature) : Type → Type 1
  | pure {α : Type} (a : α) : Prog S α
  | fail {α : Type} (e : S.Raise) : Prog S α
  | op {α : Type} (o : S.Op) (k : S.Resp o → Prog S α) : Prog S α
  /-- The body runs inside the scope. -/
  | inScope {α : Type} (c : S.Scope) (body : Prog S S.Exit) (k : S.Exit → Prog S α) : Prog S α
  | call {α : Type} (c : S.Call) (k : S.Exit → Prog S α) : Prog S α
  /-- Rounds until there is nothing left to do, or a round says so. -/
  | loop {α L β : Type} (l : L) (done : L → Option β) (round : L → Prog S (L ⊕ β))
      (k : β → Prog S α) : Prog S α

namespace Prog

variable {S : Signature}

def bind {α β : Type} : Prog S α → (α → Prog S β) → Prog S β
  | pure a, f => f a
  | fail e, _ => fail e
  | op o k, f => op o fun r => (k r).bind f
  | inScope c body k, f => inScope c body fun x => (k x).bind f
  | call c k, f => call c fun x => (k x).bind f
  | loop l done round k, f => loop l done round fun b => (k b).bind f

instance : Monad (Prog S) where
  pure := Prog.pure
  bind := Prog.bind

/-- One operation. -/
def perform (o : S.Op) : Prog S (S.Resp o) := .op o .pure

end Prog

/-- The error of an outcome. -/
def failure {ε α : Type} : Except ε α → Option ε
  | .error e => some e
  | .ok _ => none

/-- What the operations do to a state. -/
structure Semantics (S : Signature) (σ : Type) where
  exec : (o : S.Op) → σ → Except S.Err (S.Resp o) × σ
  openScope : S.Scope → σ → σ
  closeScope : S.Scope → σ → σ
  enter : S.Call → σ → Except S.Err σ
  leave : S.Call → σ → σ
  body : S.Call → Prog S S.Exit
  /-- What a round of a loop starts with. -/
  tick : σ → Except S.Err σ

namespace Semantics

variable {S : Signature} {σ τ : Type}

/-- Run a program, at most `n` deep. -/
def run (M : Semantics S σ) : Nat → {α : Type} → Prog S α → σ → Option (Except S.Err α × σ)
  | 0, _, _, _ => none
  | _ + 1, _, .pure a, s => some (.ok a, s)
  | _ + 1, _, .fail e, s => some (.error (S.raised e), s)
  | n + 1, _, .op o k, s =>
    match M.exec o s with
    | (.error e, s) => some (.error e, s)
    | (.ok r, s) => run M n (k r) s
  | n + 1, _, .inScope c body k, s =>
    match run M n body (M.openScope c s) with
    | none => none
    | some (.error e, s) => some (.error e, M.closeScope c s)
    | some (.ok x, s) => run M n (k x) (M.closeScope c s)
  | n + 1, _, .call c k, s =>
    match M.enter c s with
    | .error e => some (.error e, s)
    | .ok s =>
      match run M n (M.body c) s with
      | none => none
      | some (.error e, s) => some (.error e, M.leave c s)
      | some (.ok x, s) => run M n (k x) (M.leave c s)
  | n + 1, _, .loop l done round k, s =>
    match done l with
    | some b => run M n (k b) s
    | none =>
      match M.tick s with
      | .error e => some (.error e, s)
      | .ok s =>
        match run M n (round l) s with
        | none => none
        | some (.error e, s) => some (.error e, s)
        | some (.ok (.inr b), s) => run M n (k b) s
        | some (.ok (.inl l), s) => run M n (.loop l done round k) s

/-! ## Depth -/

/-- More depth changes no result. -/
theorem run_mono (M : Semantics S σ) : ∀ (n m : Nat) {α : Type} (p : Prog S α) (s : σ)
    (x : Except S.Err α × σ), M.run n p s = some x → n ≤ m → M.run m p s = some x
  | 0, _, _, _, _, _, h, _ => nomatch h
  | n + 1, 0, _, _, _, _, _, hle => absurd hle (Nat.not_succ_le_zero n)
  | n + 1, m + 1, _, .pure a, s, x, h, _ => h
  | n + 1, m + 1, _, .fail e, s, x, h, _ => h
  | n + 1, m + 1, _, .op o k, s, x, h, hle => by
    rw [run] at h ⊢
    rcases hexec : M.exec o s with ⟨e | r, s'⟩
    · rw [hexec] at h
      exact h
    · rw [hexec] at h
      exact run_mono M n m (k r) s' x h (Nat.le_of_succ_le_succ hle)
  | n + 1, m + 1, _, .inScope c body k, s, x, h, hle => by
    have hle' := Nat.le_of_succ_le_succ hle
    rw [run] at h ⊢
    cases hbody : M.run n body (M.openScope c s) with
    | none =>
      rw [hbody] at h
      exact nomatch h
    | some y =>
      rw [hbody] at h
      rw [run_mono M n m body (M.openScope c s) y hbody hle']
      obtain ⟨e | b, s'⟩ := y
      · exact h
      · exact run_mono M n m (k b) _ x h hle'
  | n + 1, m + 1, _, .call c k, s, x, h, hle => by
    have hle' := Nat.le_of_succ_le_succ hle
    rw [run] at h ⊢
    cases henter : M.enter c s with
    | error e =>
      rw [henter] at h
      exact h
    | ok s₁ =>
      rw [henter] at h
      dsimp only at h ⊢
      cases hbody : M.run n (M.body c) s₁ with
      | none =>
        rw [hbody] at h
        exact nomatch h
      | some y =>
        rw [hbody] at h
        rw [run_mono M n m (M.body c) s₁ y hbody hle']
        obtain ⟨e | b, s'⟩ := y
        · exact h
        · exact run_mono M n m (k b) _ x h hle'
  | n + 1, m + 1, _, .loop l done round k, s, x, h, hle => by
    have hle' := Nat.le_of_succ_le_succ hle
    rw [run] at h ⊢
    cases hdone : done l with
    | some b =>
      rw [hdone] at h
      exact run_mono M n m (k b) s x h hle'
    | none =>
      rw [hdone] at h
      dsimp only at h ⊢
      cases htick : M.tick s with
      | error e =>
        rw [htick] at h
        exact h
      | ok s₁ =>
        rw [htick] at h
        dsimp only at h ⊢
        cases hround : M.run n (round l) s₁ with
        | none =>
          rw [hround] at h
          exact nomatch h
        | some y =>
          rw [hround] at h
          rw [run_mono M n m (round l) s₁ y hround hle']
          obtain ⟨e | l' | b, s'⟩ := y
          · exact h
          · exact run_mono M n m (.loop l' done round k) s' x h hle'
          · exact run_mono M n m (k b) s' x h hle'

variable {α ε : Type} {M : Semantics S σ}

/-- A scope whose result goes through a function. -/
theorem run_inScope_map (M : Semantics S σ) (c : S.Scope) (body : Prog S S.Exit) (f : S.Exit → α) (s : σ) :
    ∀ n, M.run n (.inScope c body fun x => .pure (f x)) s =
      (M.run n (.inScope c body .pure) s).map fun r => (r.1.map f, r.2)
  | 0 => rfl
  | n + 1 => by
    rw [run, run]
    rcases M.run n body (M.openScope c s) with _ | ⟨_ | x, s'⟩
    · rfl
    · rfl
    · cases n <;> rfl

/-- A loop that goes with another one, round for round: their rounds are one scope, behind which
the loops go on together or end with results that go with each other. -/
structure SameRounds {α α' L L' : Type} (R : L → L' → Prop) (f : α → α') (done : L → Option α) (done' : L' → Option α')
    (round : L → Prog S (L ⊕ α)) (round' : L' → Prog S (L' ⊕ α')) : Prop where
  ends : ∀ l l', R l l' → done' l' = (done l).map f
  rounds : ∀ l l', R l l' → done l = none → ∃ (c : S.Scope) (body : Prog S S.Exit)
    (g : S.Exit → L ⊕ α) (g' : S.Exit → L' ⊕ α'), round l = .inScope c body (fun x => .pure (g x)) ∧
    round' l' = .inScope c body (fun x => .pure (g' x)) ∧ ∀ x, Sum.LiftRel R (fun a a' => a' = f a) (g x) (g' x)

/-- The second loop may have results of its own besides those that go with the first one's. -/
theorem run_sameRounds (M : Semantics S σ) {α' L L' : Type} {R : L → L' → Prop} {f : α → α'}
    {done : L → Option α} {done' : L' → Option α'} {round : L → Prog S (L ⊕ α)}
    {round' : L' → Prog S (L' ⊕ α')} {k : α' → Prog S α}
    (h : SameRounds R f done done' round round') (hk : ∀ a, k (f a) = .pure a) :
    ∀ (n : Nat) (l : L) (l' : L') (s : σ), R l l' →
      M.run n (.loop l' done' round' k) s = M.run n (.loop l done round .pure) s
  | 0, _, _, _, _ => rfl
  | n + 1, l, l', s, hR => by
    rw [run, run, h.ends l l' hR]
    cases hdone : done l with
    | some a =>
      show M.run n (k (f a)) s = M.run n (.pure a) s
      rw [hk]
    | none =>
      rw [Option.map_none]
      dsimp only
      cases M.tick s with
      | error e => rfl
      | ok s₁ =>
        obtain ⟨c, body, g, g', hround, hround', hnext⟩ := h.rounds l l' hR hdone
        dsimp only
        rw [hround, hround', run_inScope_map, run_inScope_map M c body g]
        rcases M.run n (.inScope c body .pure) s₁ with _ | ⟨_ | x, s₂⟩
        · rfl
        · rfl
        · have hx := hnext x
          simp only [Option.map_some, Except.map]
          cases hg : g x with
          | inl l₁ =>
            rw [hg] at hx
            cases hx' : g' x with
            | inl l₁' =>
              rw [hx', Sum.liftRel_inl_inl] at hx
              exact run_sameRounds M h hk n l₁ l₁' s₂ hx
            | inr b' =>
              rw [hx'] at hx
              exact nomatch hx
          | inr b =>
            rw [hg] at hx
            cases hx' : g' x with
            | inl l₁' =>
              rw [hx'] at hx
              exact nomatch hx
            | inr b' =>
              rw [hx', Sum.liftRel_inr_inr] at hx
              rw [hx]
              show M.run n (k (f b)) s₂ = M.run n (.pure b) s₂
              rw [hk]

/-! ## What every program keeps -/

/-- A relation of a state, the error if there is one, and a later state, that holds of the
operations and goes through the program. -/
structure Respects (M : Semantics S σ) (R : σ → Option S.Err → σ → Prop) : Prop where
  refl : ∀ s, R s none s
  fail : ∀ s e, R s (some (S.raised e)) s
  enterFailed : ∀ c s e, M.enter c s = .error e → R s (some e) s
  tickFailed : ∀ s e, M.tick s = .error e → R s (some e) s
  trans : ∀ s s₁ s₂ o, R s none s₁ → R s₁ o s₂ → R s o s₂
  exec : ∀ o s, R s (failure (M.exec o s).1) (M.exec o s).2
  inScope : ∀ c s o s₁, R (M.openScope c s) o s₁ → R s o (M.closeScope c s₁)
  call : ∀ c s s₁ o s₂, M.enter c s = .ok s₁ → R s₁ o s₂ → R s o (M.leave c s₂)
  tick : ∀ s s₁, M.tick s = .ok s₁ → R s none s₁

theorem run_respects {R : σ → Option S.Err → σ → Prop} (hR : Respects M R) :
    ∀ (n : Nat) {α : Type} (p : Prog S α) (s : σ) (r : Except S.Err α) (s' : σ),
      M.run n p s = some (r, s') → R s (failure r) s'
  | 0, _, _, _, _, _, h => nomatch h
  | _ + 1, _, .pure a, s, r, s', h => by
    obtain ⟨rfl, rfl⟩ := Prod.mk.inj (Option.some.inj h)
    exact hR.refl s
  | _ + 1, _, .fail e, s, r, s', h => by
    obtain ⟨rfl, rfl⟩ := Prod.mk.inj (Option.some.inj h)
    exact hR.fail s e
  | n + 1, _, .op o k, s, r, s', h => by
    have hexec := hR.exec o s
    rw [run] at h
    rcases hop : M.exec o s with ⟨e | a, s₁⟩
    · rw [hop] at h hexec
      obtain ⟨rfl, rfl⟩ := Prod.mk.inj (Option.some.inj h)
      exact hexec
    · rw [hop] at h hexec
      exact hR.trans s s₁ s' _ hexec (run_respects hR n (k a) s₁ r s' h)
  | n + 1, _, .inScope c body k, s, r, s', h => by
    rw [run] at h
    rcases hbody : M.run n body (M.openScope c s) with _ | ⟨e | b, s₁⟩
    · rw [hbody] at h
      exact nomatch h
    · have hscope := hR.inScope c s _ _ (run_respects hR n body _ _ _ hbody)
      rw [hbody] at h
      obtain ⟨rfl, rfl⟩ := Prod.mk.inj (Option.some.inj h)
      exact hscope
    · have hscope := hR.inScope c s _ _ (run_respects hR n body _ _ _ hbody)
      rw [hbody] at h
      exact hR.trans s _ s' _ hscope (run_respects hR n (k b) _ r s' h)
  | n + 1, _, .call c k, s, r, s', h => by
    rw [run] at h
    cases henter : M.enter c s with
    | error e =>
      rw [henter] at h
      obtain ⟨rfl, rfl⟩ := Prod.mk.inj (Option.some.inj h)
      exact hR.enterFailed c s e henter
    | ok s₁ =>
      rw [henter] at h
      dsimp only at h
      rcases hbody : M.run n (M.body c) s₁ with _ | ⟨e | b, s₂⟩
      · rw [hbody] at h
        exact nomatch h
      · have hcall := hR.call c s s₁ _ _ henter (run_respects hR n _ _ _ _ hbody)
        rw [hbody] at h
        obtain ⟨rfl, rfl⟩ := Prod.mk.inj (Option.some.inj h)
        exact hcall
      · have hcall := hR.call c s s₁ _ _ henter (run_respects hR n _ _ _ _ hbody)
        rw [hbody] at h
        exact hR.trans s _ s' _ hcall (run_respects hR n (k b) _ r s' h)
  | n + 1, _, .loop l done round k, s, r, s', h => by
    rw [run] at h
    cases hdone : done l with
    | some b =>
      rw [hdone] at h
      exact run_respects hR n (k b) s r s' h
    | none =>
      rw [hdone] at h
      dsimp only at h
      cases htick : M.tick s with
      | error e =>
        rw [htick] at h
        obtain ⟨rfl, rfl⟩ := Prod.mk.inj (Option.some.inj h)
        exact hR.tickFailed s e htick
      | ok s₁ =>
        rw [htick] at h
        dsimp only at h
        have hstart := hR.tick s s₁ htick
        rcases hround : M.run n (round l) s₁ with _ | ⟨e | l' | b, s₂⟩
        · rw [hround] at h
          exact nomatch h
        · have hone := hR.trans s s₁ s₂ _ hstart (run_respects hR n _ _ _ _ hround)
          rw [hround] at h
          obtain ⟨rfl, rfl⟩ := Prod.mk.inj (Option.some.inj h)
          exact hone
        · have hone := hR.trans s s₁ s₂ _ hstart (run_respects hR n _ _ _ _ hround)
          rw [hround] at h
          exact hR.trans s s₂ s' _ hone (run_respects hR n (.loop l' done round k) s₂ r s' h)
        · have hone := hR.trans s s₁ s₂ _ hstart (run_respects hR n _ _ _ _ hround)
          rw [hround] at h
          exact hR.trans s s₂ s' _ hone (run_respects hR n (k b) s₂ r s' h)

/-! ## Runs end -/

/-- Nothing adds to the measure; calls and rounds use it up. -/
structure Metered (M : Semantics S σ) (μ : σ → Nat) : Prop where
  exec : ∀ o s, μ (M.exec o s).2 ≤ μ s
  openScope : ∀ c s, μ (M.openScope c s) ≤ μ s
  closeScope : ∀ c s, μ (M.closeScope c s) ≤ μ s
  leave : ∀ c s, μ (M.leave c s) ≤ μ s
  enter : ∀ c s s', M.enter c s = .ok s' → μ s' < μ s
  tick : ∀ s s', M.tick s = .ok s' → μ s' < μ s

theorem Metered.respects {M : Semantics S σ} {μ : σ → Nat} (h : Metered M μ) :
    Respects M fun s _ s' => μ s' ≤ μ s where
  refl _ := Nat.le_refl _
  fail _ _ := Nat.le_refl _
  enterFailed _ _ _ _ := Nat.le_refl _
  tickFailed _ _ _ := Nat.le_refl _
  trans _ _ _ _ h₁ h₂ := Nat.le_trans h₂ h₁
  exec := h.exec
  inScope c s _ s₁ h₁ := Nat.le_trans (h.closeScope c s₁) (Nat.le_trans h₁ (h.openScope c s))
  call c s s₁ _ s₂ henter h₁ :=
    Nat.le_trans (h.leave c s₂) (Nat.le_trans h₁ (Nat.le_of_lt (h.enter c s s₁ henter)))
  tick s s₁ h₁ := Nat.le_of_lt (h.tick s s₁ h₁)

/-- Some depth is enough. The induction is on the measure, and inside on the program: a part of
the program runs with no more of the measure, a call's body and the next round with less. -/
theorem run_total {μ : σ → Nat} (h : Metered M μ) :
    ∀ (bound : Nat) {α : Type} (p : Prog S α) (s : σ), μ s ≤ bound → ∃ n x, M.run n p s = some x :=
      by
  intro bound
  induction bound using Nat.strongRecOn with
  | _ bound ihμ =>
    intro α p
    induction p with
    | pure a => exact fun s _ => ⟨1, _, rfl⟩
    | fail e => exact fun s _ => ⟨1, _, rfl⟩
    | op o k ih =>
      intro s hs
      rcases hexec : M.exec o s with ⟨e | r, s'⟩
      · exact ⟨1, _, by rw [run, hexec]⟩
      · have hle := h.exec o s
        rw [hexec] at hle
        obtain ⟨n, x, hx⟩ := ih r s' (Nat.le_trans hle hs)
        refine ⟨n + 1, x, ?_⟩
        rw [run, hexec]
        exact hx
    | inScope c body k ihbody ih =>
      intro s hs
      obtain ⟨n, ⟨r, s₁⟩, hbody⟩ := ihbody (M.openScope c s) (Nat.le_trans (h.openScope c s) hs)
      have hle := run_respects h.respects n body _ r s₁ hbody
      cases r with
      | error e =>
        refine ⟨n + 1, (.error e, M.closeScope c s₁), ?_⟩
        rw [run, hbody]
      | ok b =>
        obtain ⟨m, x, hx⟩ := ih b (M.closeScope c s₁) (Nat.le_trans (h.closeScope c s₁)
          (Nat.le_trans hle (Nat.le_trans (h.openScope c s) hs)))
        refine ⟨max n m + 1, x, ?_⟩
        rw [run, run_mono M n (max n m) _ _ _ hbody (Nat.le_max_left n m)]
        exact run_mono M m (max n m) _ _ _ hx (Nat.le_max_right n m)
    | call c k ih =>
      intro s hs
      cases henter : M.enter c s with
      | error e => exact ⟨1, _, by rw [run, henter]⟩
      | ok s₁ =>
        have hlt := h.enter c s s₁ henter
        obtain ⟨n, ⟨r, s₂⟩, hbody⟩ := ihμ (μ s₁) (Nat.lt_of_lt_of_le hlt hs) (M.body c) s₁ (Nat.le_refl _)
        have hle := run_respects h.respects n (M.body c) _ r s₂ hbody
        cases r with
        | error e =>
          refine ⟨n + 1, (.error e, M.leave c s₂), ?_⟩
          rw [run, henter]
          dsimp only
          rw [hbody]
        | ok b =>
          obtain ⟨m, x, hx⟩ := ih b (M.leave c s₂) (Nat.le_trans (h.leave c s₂)
            (Nat.le_trans hle (Nat.le_trans (Nat.le_of_lt hlt) hs)))
          refine ⟨max n m + 1, x, ?_⟩
          rw [run, henter]
          dsimp only
          rw [run_mono M n (max n m) _ _ _ hbody (Nat.le_max_left n m)]
          exact run_mono M m (max n m) _ _ _ hx (Nat.le_max_right n m)
    | loop l done round k ihround ih =>
      intro s hs
      cases hdone : done l with
      | some b =>
        obtain ⟨n, x, hx⟩ := ih b s hs
        refine ⟨n + 1, x, ?_⟩
        rw [run, hdone]
        exact hx
      | none =>
        cases htick : M.tick s with
        | error e => exact ⟨1, _, by rw [run, hdone]; dsimp only; rw [htick]⟩
        | ok s₁ =>
          have hlt := h.tick s s₁ htick
          obtain ⟨n, ⟨r, s₂⟩, hround⟩ := ihround l s₁ (Nat.le_trans (Nat.le_of_lt hlt) hs)
          have hle := run_respects h.respects n (round l) _ r s₂ hround
          have hμ₂ : μ s₂ < bound := Nat.lt_of_le_of_lt hle (Nat.lt_of_lt_of_le hlt hs)
          have hstep : ∀ (m : Nat) (x), (match (r, s₂) with
              | (.error e, s) => some (.error e, s)
              | (.ok (.inr b), s) => M.run m (k b) s
              | (.ok (.inl l), s) => M.run m (.loop l done round k) s) = some x →
              n ≤ m → M.run (m + 1) (.loop l done round k) s = some x := by
            intro m x hx hle'
            rw [run, hdone]
            dsimp only
            rw [htick]
            dsimp only
            rw [run_mono M n m _ _ _ hround hle']
            obtain _ | _ | _ := r <;> exact hx
          obtain e | l' | b := r
          · exact ⟨n + 1, (.error e, s₂), hstep n _ rfl (Nat.le_refl n)⟩
          · obtain ⟨m, x, hx⟩ := ihμ (μ s₂) hμ₂ (.loop l' done round k) s₂ (Nat.le_refl _)
            exact ⟨max n m + 1, x, hstep (max n m) x
              (run_mono M m (max n m) _ _ _ hx (Nat.le_max_right n m)) (Nat.le_max_left n m)⟩
          · obtain ⟨m, x, hx⟩ := ih b s₂ (Nat.le_of_lt hμ₂)
            exact ⟨max n m + 1, x, hstep (max n m) x
              (run_mono M m (max n m) _ _ _ hx (Nat.le_max_right n m)) (Nat.le_max_left n m)⟩

/-! ## Two runs of one program -/

/-- Both fail with one error, or both succeed with related states. -/
def Both {ε : Type} (P : σ → τ → Prop) : Except ε σ → Except ε τ → Prop
  | .ok s, .ok t => P s t
  | .error e, .error e' => e = e'
  | _, _ => False

theorem Both.inv {P : σ → τ → Prop} {x : Except ε σ} {y : Except ε τ} (h : Both P x y) :
    (∃ e, x = .error e ∧ y = .error e) ∨ ∃ s t, x = .ok s ∧ y = .ok t ∧ P s t := by
  cases x with
  | error e =>
    cases y with
    | error e' =>
      obtain rfl : e = e' := h
      exact .inl ⟨e, rfl, rfl⟩
    | ok t => exact h.elim
  | ok s =>
    cases y with
    | error e' => exact h.elim
    | ok t => exact .inr ⟨s, t, rfl, rfl, h⟩

theorem Both.map {σ' τ' : Type} {R : σ → τ → Prop} {Q : σ' → τ' → Prop} {f : σ → σ'} {g : τ → τ'}
    {x : Except ε σ} {y : Except ε τ} (h : Both R x y) (hf : ∀ a b, R a b → Q (f a) (g b)) :
    Both Q (x.map f) (y.map g) := by
  obtain ⟨e, rfl, rfl⟩ | ⟨s, t, rfl, rfl, hst⟩ := h.inv
  · exact rfl
  · exact hf s t hst

/-- States related at a depth of nesting: operations give the same results and keep the states
related, and an open scope or call is one level deeper. -/
structure Simulation (M : Semantics S σ) (M' : Semantics S τ) (P : Nat → σ → τ → Prop) : Prop where
  body : ∀ c, M'.body c = M.body c
  exec : ∀ d o s t, P d s t → (M'.exec o t).1 = (M.exec o s).1 ∧ P d (M.exec o s).2 (M'.exec o t).2
  openScope : ∀ d c s t, P d s t → P (d + 1) (M.openScope c s) (M'.openScope c t)
  closeScope : ∀ d c s t, P (d + 1) s t → P d (M.closeScope c s) (M'.closeScope c t)
  enter : ∀ d c s t, P d s t → Both (P (d + 1)) (M.enter c s) (M'.enter c t)
  leave : ∀ d c s t, P (d + 1) s t → P d (M.leave c s) (M'.leave c t)
  tick : ∀ d s t, P d s t → Both (P d) (M.tick s) (M'.tick t)

section

variable {M : Semantics S σ} {M' : Semantics S τ} {n : Nat} {α : Type} {r : Except S.Err α}
  {s s' : σ} {t : τ} {Q : σ → τ → Prop}

/-- Two runs of a call: `R` relates the states inside it, `Q` those around it. -/
theorem run_call_simulates {R : σ → τ → Prop} {c : S.Call} {k : S.Exit → Prog S α}
    (hbody : ∀ r s₁ s₂ t₁, R s₁ t₁ → M.run n (M.body c) s₁ = some (r, s₂) →
      ∃ t₂, M'.run n (M'.body c) t₁ = some (r, t₂) ∧ R s₂ t₂)
    (hk : ∀ x s₁ t₁, Q s₁ t₁ → M.run n (k x) s₁ = some (r, s') →
      ∃ t', M'.run n (k x) t₁ = some (r, t') ∧ Q s' t')
    (henter : Both R (M.enter c s) (M'.enter c t))
    (hleave : ∀ s₁ t₁, R s₁ t₁ → Q (M.leave c s₁) (M'.leave c t₁)) (hst : Q s t)
    (h : M.run (n + 1) (.call c k) s = some (r, s')) :
    ∃ t', M'.run (n + 1) (.call c k) t = some (r, t') ∧ Q s' t' := by
  rw [run] at h ⊢
  obtain ⟨e, hs, ht⟩ | ⟨s₁, t₁, hs, ht, hst₁⟩ := henter.inv
  · rw [hs] at h
    obtain ⟨rfl, rfl⟩ := Prod.mk.inj (Option.some.inj h)
    rw [ht]
    exact ⟨t, rfl, hst⟩
  · rw [hs] at h
    rw [ht]
    dsimp only at h ⊢
    rcases hrun : M.run n (M.body c) s₁ with _ | ⟨e | b, s₂⟩
    · rw [hrun] at h
      exact nomatch h
    · rw [hrun] at h
      obtain ⟨t₂, ht₂, hst₂⟩ := hbody _ s₁ s₂ t₁ hst₁ hrun
      obtain ⟨rfl, rfl⟩ := Prod.mk.inj (Option.some.inj h)
      rw [ht₂]
      exact ⟨_, rfl, hleave s₂ t₂ hst₂⟩
    · rw [hrun] at h
      obtain ⟨t₂, ht₂, hst₂⟩ := hbody _ s₁ s₂ t₁ hst₁ hrun
      rw [ht₂]
      exact hk b _ _ (hleave s₂ t₂ hst₂) h

/-- Two runs of a loop. -/
theorem run_loop_simulates {L β : Type} {l : L} {done : L → Option β} {round : L → Prog S (L ⊕ β)}
    {k : β → Prog S α}
    (hround : ∀ r s₁ s₂ t₁, Q s₁ t₁ → M.run n (round l) s₁ = some (r, s₂) →
      ∃ t₂, M'.run n (round l) t₁ = some (r, t₂) ∧ Q s₂ t₂)
    (hloop : ∀ l s₁ t₁, Q s₁ t₁ → M.run n (.loop l done round k) s₁ = some (r, s') →
      ∃ t', M'.run n (.loop l done round k) t₁ = some (r, t') ∧ Q s' t')
    (hk : ∀ b s₁ t₁, Q s₁ t₁ → M.run n (k b) s₁ = some (r, s') →
      ∃ t', M'.run n (k b) t₁ = some (r, t') ∧ Q s' t')
    (htick : Both Q (M.tick s) (M'.tick t)) (hst : Q s t)
    (h : M.run (n + 1) (.loop l done round k) s = some (r, s')) :
    ∃ t', M'.run (n + 1) (.loop l done round k) t = some (r, t') ∧ Q s' t' := by
  rw [run] at h ⊢
  cases hdone : done l with
  | some b =>
    rw [hdone] at h
    exact hk b s t hst h
  | none =>
    rw [hdone] at h
    dsimp only at h ⊢
    obtain ⟨e, hs, ht⟩ | ⟨s₁, t₁, hs, ht, hst₁⟩ := htick.inv
    · rw [hs] at h
      obtain ⟨rfl, rfl⟩ := Prod.mk.inj (Option.some.inj h)
      rw [ht]
      exact ⟨t, rfl, hst⟩
    · rw [hs] at h
      rw [ht]
      dsimp only at h ⊢
      rcases hrun : M.run n (round l) s₁ with _ | ⟨e | l' | b, s₂⟩
      · rw [hrun] at h
        exact nomatch h
      · rw [hrun] at h
        obtain ⟨t₂, ht₂, hst₂⟩ := hround _ s₁ s₂ t₁ hst₁ hrun
        obtain ⟨rfl, rfl⟩ := Prod.mk.inj (Option.some.inj h)
        rw [ht₂]
        exact ⟨_, rfl, hst₂⟩
      · rw [hrun] at h
        obtain ⟨t₂, ht₂, hst₂⟩ := hround _ s₁ s₂ t₁ hst₁ hrun
        rw [ht₂]
        exact hloop l' s₂ t₂ hst₂ h
      · rw [hrun] at h
        obtain ⟨t₂, ht₂, hst₂⟩ := hround _ s₁ s₂ t₁ hst₁ hrun
        rw [ht₂]
        exact hk b s₂ t₂ hst₂ h

end

/-- Related states give the same result and related states. -/
theorem run_simulates {M' : Semantics S τ} {P : Nat → σ → τ → Prop} (hP : Simulation M M' P) :
    ∀ (n d : Nat) {α : Type} (p : Prog S α) (r : Except S.Err α) (s s' : σ) (t : τ),
      P d s t → M.run n p s = some (r, s') → ∃ t', M'.run n p t = some (r, t') ∧ P d s' t'
  | 0, _, _, _, _, _, _, _, _, h => nomatch h
  | _ + 1, _, _, .pure a, r, s, s', t, hst, h => by
    obtain ⟨rfl, rfl⟩ := Prod.mk.inj (Option.some.inj h)
    exact ⟨t, rfl, hst⟩
  | _ + 1, _, _, .fail e, r, s, s', t, hst, h => by
    obtain ⟨rfl, rfl⟩ := Prod.mk.inj (Option.some.inj h)
    exact ⟨t, rfl, hst⟩
  | n + 1, d, _, .op o k, r, s, s', t, hst, h => by
    obtain ⟨hresult, hstates⟩ := hP.exec d o s t hst
    rw [run] at h ⊢
    rcases hs : M.exec o s with ⟨e | a, s₁⟩ <;> rcases ht : M'.exec o t with ⟨e' | a', t₁⟩ <;>
      (rw [hs, ht] at hresult hstates; rw [hs] at h)
    · obtain rfl := Except.error.inj hresult
      obtain ⟨rfl, rfl⟩ := Prod.mk.inj (Option.some.inj h)
      exact ⟨t₁, rfl, hstates⟩
    · exact nomatch hresult
    · exact nomatch hresult
    · obtain rfl := Except.ok.inj hresult
      exact run_simulates hP n d (k a') r s₁ s' t₁ hstates h
  | n + 1, d, _, .inScope c body k, r, s, s', t, hst, h => by
    rw [run] at h ⊢
    rcases hbody : M.run n body (M.openScope c s) with _ | ⟨e | b, s₁⟩
    · rw [hbody] at h
      exact nomatch h
    · rw [hbody] at h
      obtain ⟨t₁, ht, hst₁⟩ := run_simulates hP n (d + 1) body _ _ _ (M'.openScope c t)
        (hP.openScope d c s t hst) hbody
      obtain ⟨rfl, rfl⟩ := Prod.mk.inj (Option.some.inj h)
      rw [ht]
      exact ⟨_, rfl, hP.closeScope d c s₁ t₁ hst₁⟩
    · rw [hbody] at h
      obtain ⟨t₁, ht, hst₁⟩ := run_simulates hP n (d + 1) body _ _ _ (M'.openScope c t)
        (hP.openScope d c s t hst) hbody
      rw [ht]
      exact run_simulates hP n d (k b) r _ s' _ (hP.closeScope d c s₁ t₁ hst₁) h
  | n + 1, d, _, .call c k, r, s, s', t, hst, h => by
    refine run_call_simulates (R := P (d + 1)) ?_ (fun x s₁ => run_simulates hP n d (k x) r s₁ s')
      (hP.enter d c s t hst) (hP.leave d c) hst h
    rw [hP.body]
    exact run_simulates hP n (d + 1) (M.body c)
  | n + 1, d, _, .loop l done round k, r, s, s', t, hst, h =>
    run_loop_simulates (run_simulates hP n d (round l))
      (fun l s₁ => run_simulates hP n d (.loop l done round k) r s₁ s')
      (fun b s₁ => run_simulates hP n d (k b) r s₁ s') (hP.tick d s t hst) hst h

end Semantics

/-- Programs whose only operations are calls of one kind. -/
inductive Prog.Calls {S : Signature} (C : S.Call → Prop) : {α : Type} → Prog S α → Prop
  | pure {α : Type} (a : α) : Calls C (.pure a)
  | fail {α : Type} (e : S.Raise) : Calls C (.fail e : Prog S α)
  | call {α : Type} {c : S.Call} {k : S.Exit → Prog S α} (hc : C c) (hk : ∀ x, Calls C (k x)) :
      Calls C (.call c k)
  | loop {α L β : Type} {l : L} {done : L → Option β} {round : L → Prog S (L ⊕ β)}
      {k : β → Prog S α} (hround : ∀ l, Calls C (round l)) (hk : ∀ b, Calls C (k b)) :
      Calls C (.loop l done round k)

theorem Prog.Calls.bind {S : Signature} {C : S.Call → Prop} {α β : Type} {p : Prog S α}
    {f : α → Prog S β} (hp : p.Calls C) (hf : ∀ a, (f a).Calls C) : (p.bind f).Calls C := by
  induction hp with
  | pure a => exact hf a
  | fail e => exact .fail e
  | call hc _ ih => exact .call hc fun x => ih x hf
  | loop hround _ _ ih => exact .loop hround fun b => ih b hf

namespace Semantics

variable {S : Signature} {σ τ : Type}

/-- Two runs of a program that only calls: `Q` relates the states between the calls. -/
theorem run_simulates_calls {M : Semantics S σ} {M' : Semantics S τ} {P : Nat → σ → τ → Prop}
    (hP : Simulation M M' P) {Q : σ → τ → Prop} {C : S.Call → Prop}
    (henter : ∀ c s t, C c → Q s t → Both (P 0) (M.enter c s) (M'.enter c t))
    (hleave : ∀ c s t, P 0 s t → Q (M.leave c s) (M'.leave c t))
    (htick : ∀ s t, Q s t → Both Q (M.tick s) (M'.tick t)) :
    ∀ (n : Nat) {α : Type} (p : Prog S α) (r : Except S.Err α) (s s' : σ) (t : τ), p.Calls C →
      Q s t → M.run n p s = some (r, s') → ∃ t', M'.run n p t = some (r, t') ∧ Q s' t'
  | 0, _, _, _, _, _, _, _, _, h => nomatch h
  | _ + 1, _, .pure a, r, s, s', t, _, hst, h => by
    obtain ⟨rfl, rfl⟩ := Prod.mk.inj (Option.some.inj h)
    exact ⟨t, rfl, hst⟩
  | _ + 1, _, .fail e, r, s, s', t, _, hst, h => by
    obtain ⟨rfl, rfl⟩ := Prod.mk.inj (Option.some.inj h)
    exact ⟨t, rfl, hst⟩
  | n + 1, _, .call c k, r, s, s', t, hp, hst, h => by
    cases hp with
    | call hc hk =>
      refine run_call_simulates (R := P 0) ?_
        (fun x s₁ t₁ => run_simulates_calls hP henter hleave htick n (k x) r s₁ s' t₁ (hk x))
        (henter c s t hc hst) (hleave c) hst h
      rw [hP.body]
      exact run_simulates hP n 0 (M.body c)
  | n + 1, _, .loop l done round k, r, s, s', t, hp, hst, h => by
    cases hp with
    | loop hround hk =>
      exact run_loop_simulates
        (fun r s₁ s₂ t₁ => run_simulates_calls hP henter hleave htick n (round l) r s₁ s₂ t₁ (hround l))
        (fun l s₁ t₁ => run_simulates_calls hP henter hleave htick n (.loop l done round k) r s₁ s' t₁
          (.loop hround hk))
        (fun b s₁ t₁ => run_simulates_calls hP henter hleave htick n (k b) r s₁ s' t₁ (hk b))
        (htick s t hst) hst h

/-! ## The steps of a run -/

end Semantics

/-- What can change a state. -/
inductive Event (S : Signature) where
  | op (o : S.Op)
  | openScope (c : S.Scope)
  | closeScope (c : S.Scope)
  | enter (c : S.Call)
  | leave (c : S.Call)
  | tick

/-- An event, with the states before and after it. -/
structure Step (S : Signature) (σ : Type) where
  pre : σ
  event : Event S
  post : σ

namespace Semantics

variable {S : Signature} {σ : Type}

/-- The event does what the semantics says. -/
def Legal (M : Semantics S σ) (x : Step S σ) : Prop :=
  match x.event with
  | .op o => (M.exec o x.pre).2 = x.post
  | .openScope c => M.openScope c x.pre = x.post
  | .closeScope c => M.closeScope c x.pre = x.post
  | .enter c => M.enter c x.pre = .ok x.post
  | .leave c => M.leave c x.pre = x.post
  | .tick => M.tick x.pre = .ok x.post

/-- Steps that lead from a state to a state. -/
def Path (M : Semantics S σ) : σ → List (Step S σ) → σ → Prop
  | s, [], s' => s = s'
  | s, x :: xs, s' => x.pre = s ∧ M.Legal x ∧ Path M x.post xs s'

variable {M : Semantics S σ} {xs ys : List (Step S σ)} {s s' : σ} {e : S.Err}
variable {x x₁ : σ × List (Step S σ)} {c : S.Call}

theorem Path.append {s₁ : σ} : M.Path s xs s₁ → M.Path s₁ ys s' → M.Path s (xs ++ ys) s' := by
  induction xs generalizing s with
  | nil =>
    rintro rfl h
    exact h
  | cons x xs ih =>
    rintro ⟨hpre, hlegal, hrest⟩ h
    exact ⟨hpre, hlegal, ih hrest h⟩

theorem Path.split (h : M.Path s (xs ++ ys) s') : ∃ s₁, M.Path s xs s₁ ∧ M.Path s₁ ys s' := by
  induction xs generalizing s with
  | nil => exact ⟨s, rfl, h⟩
  | cons x xs ih =>
    obtain ⟨hpre, hlegal, hrest⟩ := h
    obtain ⟨s₁, hxs, hys⟩ := ih hrest
    exact ⟨s₁, ⟨hpre, hlegal, hxs⟩, hys⟩

theorem Path.single {e : Event S} (h : M.Legal ⟨s, e, s'⟩) :
    M.Path s [⟨s, e, s'⟩] s' := ⟨rfl, h, rfl⟩

/-- The same semantics, keeping the steps. -/
def traced (M : Semantics S σ) : Semantics S (σ × List (Step S σ)) where
  exec o x := ((M.exec o x.1).1, (M.exec o x.1).2, x.2 ++ [⟨x.1, .op o, (M.exec o x.1).2⟩])
  openScope c x := (M.openScope c x.1, x.2 ++ [⟨x.1, .openScope c, M.openScope c x.1⟩])
  closeScope c x := (M.closeScope c x.1, x.2 ++ [⟨x.1, .closeScope c, M.closeScope c x.1⟩])
  enter c x := (M.enter c x.1).map fun s' => (s', x.2 ++ [⟨x.1, .enter c, s'⟩])
  leave c x := (M.leave c x.1, x.2 ++ [⟨x.1, .leave c, M.leave c x.1⟩])
  body := M.body
  tick x := (M.tick x.1).map fun s' => (s', x.2 ++ [⟨x.1, .tick, s'⟩])

theorem traced_enter (M : Semantics S σ) (c : S.Call) (x : σ × List (Step S σ)) :
    M.traced.enter c x = (M.enter c x.1).map fun s' => (s', x.2 ++ [⟨x.1, .enter c, s'⟩]) := rfl

theorem traced_tick (M : Semantics S σ) (x : σ × List (Step S σ)) :
    M.traced.tick x = (M.tick x.1).map fun s' => (s', x.2 ++ [⟨x.1, .tick, s'⟩]) := rfl

/-- The steps kept in between lead from the first state to the second. -/
def Grows (M : Semantics S σ) (x y : σ × List (Step S σ)) : Prop :=
  ∃ steps, y.2 = x.2 ++ steps ∧ M.Path x.1 steps y.1

theorem Grows.trans {y z : σ × List (Step S σ)} (h : M.Grows x y) (h' : M.Grows y z) :
    M.Grows x z := by
  obtain ⟨xs, hxs, hpath⟩ := h
  obtain ⟨ys, hys, hpath'⟩ := h'
  exact ⟨xs ++ ys, by rw [hys, hxs, List.append_assoc], hpath.append hpath'⟩

theorem Grows.single {e : Event S} (h : M.Legal ⟨x.1, e, s'⟩) :
    M.Grows x (s', x.2 ++ [⟨x.1, e, s'⟩]) :=
  ⟨[⟨x.1, e, s'⟩], rfl, .single h⟩

theorem traced_enter_ok (h : M.traced.enter c x = .ok x₁) :
    ∃ s, M.enter c x.1 = .ok s ∧ x₁ = (s, x.2 ++ [⟨x.1, .enter c, s⟩]) := by
  rw [traced_enter] at h
  cases hs : M.enter c x.1 with
  | error e =>
    rw [hs] at h
    exact nomatch h
  | ok s =>
    rw [hs] at h
    exact ⟨s, rfl, (Except.ok.inj h).symm⟩

theorem traced_enter_error (h : M.traced.enter c x = .error e) : M.enter c x.1 = .error e := by
  rw [traced_enter] at h
  cases hs : M.enter c x.1 with
  | error e' =>
    rw [hs] at h
    exact congrArg _ (Except.error.inj h)
  | ok s =>
    rw [hs] at h
    exact nomatch h

theorem traced_tick_ok (h : M.traced.tick x = .ok x₁) :
    ∃ s, M.tick x.1 = .ok s ∧ x₁ = (s, x.2 ++ [⟨x.1, .tick, s⟩]) := by
  rw [traced_tick] at h
  cases hs : M.tick x.1 with
  | error e =>
    rw [hs] at h
    exact nomatch h
  | ok s =>
    rw [hs] at h
    exact ⟨s, rfl, (Except.ok.inj h).symm⟩

theorem traced_tick_error (h : M.traced.tick x = .error e) : M.tick x.1 = .error e := by
  rw [traced_tick] at h
  cases hs : M.tick x.1 with
  | error e' =>
    rw [hs] at h
    exact congrArg _ (Except.error.inj h)
  | ok s =>
    rw [hs] at h
    exact nomatch h

theorem grows_enter (h : M.traced.enter c x = .ok x₁) : M.Grows x x₁ := by
  obtain ⟨s, hs, rfl⟩ := traced_enter_ok h
  exact .single hs

theorem grows_tick (h : M.traced.tick x = .ok x₁) : M.Grows x x₁ := by
  obtain ⟨s, hs, rfl⟩ := traced_tick_ok h
  exact .single hs

theorem respects_grows (M : Semantics S σ) : Respects M.traced fun x _ y => M.Grows x y where
  refl _ := ⟨[], (List.append_nil _).symm, rfl⟩
  fail _ _ := ⟨[], (List.append_nil _).symm, rfl⟩
  enterFailed _ _ _ _ := ⟨[], (List.append_nil _).symm, rfl⟩
  tickFailed _ _ _ := ⟨[], (List.append_nil _).symm, rfl⟩
  trans _ _ _ _ h h' := h.trans h'
  exec o x := .single (show M.Legal ⟨x.1, .op o, _⟩ from rfl)
  inScope c x _ y h := by
    have hopen : M.Legal ⟨x.1, .openScope c, M.openScope c x.1⟩ := rfl
    have hclose : M.Legal ⟨y.1, .closeScope c, M.closeScope c y.1⟩ := rfl
    exact (Grows.single hopen).trans (Grows.trans h (.single hclose))
  call c _ _ _ y henter h :=
    (grows_enter henter).trans (Grows.trans h (.single (show M.Legal ⟨y.1, .leave c, _⟩ from rfl)))
  tick _ _ htick := grows_tick htick

/-- Keeping the steps changes nothing else. -/
theorem simulation_traced (M : Semantics S σ) : Simulation M M.traced fun _ s y => y.1 = s where
  body _ := rfl
  exec _ o s y h := by
    subst h
    exact ⟨rfl, rfl⟩
  openScope _ c s y h := by
    subst h
    rfl
  closeScope _ c s y h := by
    subst h
    rfl
  enter _ c s y h := by
    subst h
    rw [traced_enter]
    cases hs : M.enter c y.1 with
    | error e => exact rfl
    | ok s₁ => exact rfl
  leave _ c s y h := by
    subst h
    rfl
  tick _ s y h := by
    subst h
    rw [traced_tick]
    cases hs : M.tick y.1 with
    | error e => exact rfl
    | ok s₁ => exact rfl

/-- Every run has steps, and they lead from its first state to its last. -/
theorem run_traced {n : Nat} {α : Type} {p : Prog S α} {r : Except S.Err α}
    (h : M.run n p s = some (r, s')) :
    ∃ steps, M.traced.run n p (s, []) = some (r, s', steps) ∧ M.Path s steps s' := by
  obtain ⟨⟨s₁, steps⟩, htraced, rfl⟩ :=
    run_simulates (simulation_traced M) n 0 p r s s' (s, []) rfl h
  obtain ⟨steps', hsteps, hpath⟩ := run_respects (respects_grows M) n p _ _ _ htraced
  rw [List.nil_append] at hsteps
  exact ⟨steps, htraced, by rw [show steps = steps' from hsteps]; exact hpath⟩

/-! ## Which step failed -/

/-- The step is an operation that fails with the error. -/
def Blames (M : Semantics S σ) (e : S.Err) (x : Step S σ) : Prop :=
  ∃ o, x.event = .op o ∧ failure (M.exec o x.pre).1 = some e

/-- The error `e` comes from operations only. -/
structure OfOps (M : Semantics S σ) (e : S.Err) : Prop where
  raise : ∀ r, S.raised r ≠ e
  enter : ∀ c s, M.enter c s ≠ .error e
  tick : ∀ s, M.tick s ≠ .error e

/-- The steps in between, one of which fails with `e` when that is the error. -/
def Blamed (M : Semantics S σ) (e : S.Err) (x : σ × List (Step S σ)) (o : Option S.Err)
    (y : σ × List (Step S σ)) : Prop :=
  ∃ steps, y.2 = x.2 ++ steps ∧ (o = some e ↔ ∃ st ∈ steps, M.Blames e st)

section

variable {M : Semantics S σ} {e : S.Err} {x y z : σ × List (Step S σ)}

variable {o : Option S.Err} {ev : Event S} {s : σ}

theorem blamed_same (h : o ≠ some e) : M.Blamed e x o x :=
  ⟨[], (List.append_nil _).symm, iff_of_false h fun ⟨_, hmem, _⟩ => nomatch hmem⟩

theorem Blamed.trans (h : M.Blamed e x none y) (h' : M.Blamed e y o z) : M.Blamed e x o z := by
  obtain ⟨xs, hxs, hnone⟩ := h
  obtain ⟨ys, hys, ho⟩ := h'
  refine ⟨xs ++ ys, by rw [hys, hxs, List.append_assoc], ho.trans ?_⟩
  constructor
  · rintro ⟨st, hst, hblames⟩
    exact ⟨st, List.mem_append_right xs hst, hblames⟩
  · rintro ⟨st, hst, hblames⟩
    rcases List.mem_append.mp hst with hst | hst
    · exact absurd (hnone.mpr ⟨st, hst, hblames⟩) nofun
    · exact ⟨st, hst, hblames⟩

/-- A step that is no operation. -/
theorem blamed_single (hev : ∀ o, ev ≠ .op o) : M.Blamed e x none (s, x.2 ++ [⟨x.1, ev, s⟩]) := by
  refine ⟨_, rfl, iff_of_false nofun ?_⟩
  rintro ⟨st, hst, o, ho, -⟩
  obtain rfl := List.mem_singleton.mp hst
  exact hev o ho

/-- A step at the end changes no error. -/
theorem Blamed.closed (h : M.Blamed e x o y) (hev : ∀ o, ev ≠ .op o) :
    M.Blamed e x o (s, y.2 ++ [⟨y.1, ev, s⟩]) := by
  obtain ⟨xs, hxs, ho⟩ := h
  refine ⟨xs ++ [⟨y.1, ev, s⟩], by rw [← List.append_assoc, ← hxs], ho.trans ?_⟩
  constructor
  · rintro ⟨st, hst, hblames⟩
    exact ⟨st, List.mem_append_left _ hst, hblames⟩
  · rintro ⟨st, hst, o', ho', hfail⟩
    rcases List.mem_append.mp hst with hst | hst
    · exact ⟨st, hst, o', ho', hfail⟩
    · obtain rfl := List.mem_singleton.mp hst
      exact absurd ho' (hev o')

theorem respects_blamed (h : M.OfOps e) : Respects M.traced (M.Blamed e) where
  refl _ := blamed_same nofun
  fail _ r := blamed_same fun hr => h.raise r (Option.some.inj hr)
  enterFailed c x _ henter := blamed_same fun he =>
    h.enter c x.1 (Option.some.inj he ▸ traced_enter_error henter)
  tickFailed x _ htick := blamed_same fun he =>
    h.tick x.1 (Option.some.inj he ▸ traced_tick_error htick)
  trans _ _ _ _ hx hy := hx.trans hy
  exec o x := by
    refine ⟨_, rfl, ?_⟩
    constructor
    · exact fun hfail => ⟨_, List.mem_singleton_self _, o, rfl, hfail⟩
    · rintro ⟨st, hst, o', ho', hfail⟩
      obtain rfl := List.mem_singleton.mp hst
      obtain rfl := Event.op.inj ho'
      exact hfail
  inScope c x _ y hbody := by
    have hopen : M.Blamed e x none (M.traced.openScope c x) := blamed_single nofun
    exact (hopen.trans hbody).closed nofun
  call c x x₁ _ y henter hbody := by
    obtain ⟨s, -, rfl⟩ := traced_enter_ok henter
    have henters : M.Blamed e x none (s, x.2 ++ [⟨x.1, .enter c, s⟩]) := blamed_single nofun
    exact (henters.trans hbody).closed nofun
  tick x x₁ htick := by
    obtain ⟨s, -, rfl⟩ := traced_tick_ok htick
    exact blamed_single nofun

/-- A run ends with an error that comes from operations just when one of its steps fails with it. -/
theorem run_blames (h : M.OfOps e) {n : Nat} {α : Type} {p : Prog S α} {s' : σ} {r : Except S.Err α}
    {steps : List (Step S σ)} (hrun : M.traced.run n p (s, []) = some (r, s', steps)) :
    failure r = some e ↔ ∃ st ∈ steps, M.Blames e st := by
  obtain ⟨steps', hsteps, hiff⟩ := run_respects (respects_blamed h) n p _ _ _ hrun
  obtain rfl : steps = steps' := hsteps
  exact hiff

end

end Semantics

end AthenaOS.Lib
