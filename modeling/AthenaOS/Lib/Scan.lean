import AthenaOS.Lib.Wire

/-!
# Loops over the bytes that are left

`while i < len { ... }` over an input, where one round may take more than one byte (an inner
loop, a two-byte token).
-/

namespace AthenaOS.Lib.Wire

variable {σ ε : Type} {step : UInt8 → ByteString → σ → Except ε (ByteString × σ)}

/-- At most `n` rounds. -/
def scanFor (step : UInt8 → ByteString → σ → Except ε (ByteString × σ)) :
    Nat → ByteString → σ → Except ε σ
  | 0, _, s => .ok s
  | _ + 1, [], s => .ok s
  | n + 1, b :: rest, s =>
    match step b rest s with
    | .error e => .error e
    | .ok (rest', s') => scanFor step n rest' s'

/-- Rounds until no byte is left. -/
def scan (step : UInt8 → ByteString → σ → Except ε (ByteString × σ)) (data : ByteString) (s : σ) :
    Except ε σ := scanFor step data.length data s

/-- A round takes a byte at least. -/
def Consuming (step : UInt8 → ByteString → σ → Except ε (ByteString × σ)) : Prop :=
  ∀ b rest s rest' s', step b rest s = .ok (rest', s') → rest'.length ≤ rest.length

/-- More rounds than bytes make no difference. -/
theorem scanFor_of_le (h : Consuming step) : ∀ (n m : Nat) (data : ByteString) (s : σ),
    data.length ≤ n → data.length ≤ m → scanFor step n data s = scanFor step m data s
  | 0, 0, _, _, _, _ => rfl
  | 0, _ + 1, [], _, _, _ => rfl
  | _ + 1, 0, [], _, _, _ => rfl
  | _ + 1, _ + 1, [], _, _, _ => rfl
  | n + 1, m + 1, b :: rest, s, hn, hm => by
    rw [scanFor, scanFor]
    rcases hstep : step b rest s with _ | ⟨rest', s'⟩
    · rfl
    · have hlen := h b rest s rest' s' hstep
      rw [List.length_cons] at hn hm
      exact scanFor_of_le h n m rest' s' (by omega) (by omega)

/-- One round. -/
theorem scan_cons (h : Consuming step) {b : UInt8} {rest rest' : ByteString} {s s' : σ}
    (hstep : step b rest s = .ok (rest', s')) : scan step (b :: rest) s = scan step rest' s' := by
  rw [scan, List.length_cons, scanFor, hstep]
  exact scanFor_of_le h _ _ rest' s' (h _ _ _ _ _ hstep) (Nat.le_refl _)

/-- What every round keeps, the loop keeps. -/
theorem scan_invariant {I : σ → Prop}
    (hstep : ∀ b rest s rest' s', I s → step b rest s = .ok (rest', s') → I s') {data : ByteString}
    {s s' : σ} (hs : I s) (hscan : scan step data s = .ok s') : I s' := by
  have hrounds : ∀ (n : Nat) (data : ByteString) (s : σ), I s → scanFor step n data s = .ok s' → I s' := by
    intro n
    induction n with
    | zero =>
      intro data s hs hn
      exact Except.ok.inj hn ▸ hs
    | succ n ih =>
      intro data s hs hn
      cases data with
      | nil => exact Except.ok.inj hn ▸ hs
      | cons b rest =>
        rw [scanFor] at hn
        rcases hround : step b rest s with _ | ⟨rest', s₁⟩
        · rw [hround] at hn
          exact nomatch hn
        · rw [hround] at hn
          exact ih rest' s₁ (hstep b rest s rest' s₁ hs hround) hn
  exact hrounds _ data s hs hscan

end AthenaOS.Lib.Wire
