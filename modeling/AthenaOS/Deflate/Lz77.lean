import AthenaOS.Deflate.Compress

/-!
# The match finder is right

The tokens of a text expand to it. Of the hash table it only matters that it holds earlier
positions: a stale slot gives a candidate that is compared like any other.
-/

namespace AthenaOS.Deflate

open Lib Lib.Wire

/-! ## What tokens mean -/

/-- A token the format can carry and a decoder accepts after `out`. -/
def Token.Valid (out : ByteString) : Token → Prop
  | .literal _ => True
  | .match length distance => 3 ≤ length ∧ length ≤ 258 ∧ 1 ≤ distance ∧ distance ≤ 32768 ∧
      distance ≤ out.length

/-- The output after a token. -/
def Token.apply (out : ByteString) : Token → ByteString
  | .literal b => out ++ [b]
  | .match length distance => copyMatch (out.length - distance) length out

/-- The tokens are valid one after the other and turn `out` into `out'`. -/
inductive Expands : ByteString → List Token → ByteString → Prop
  | nil (out : ByteString) : Expands out [] out
  | cons {out out' : ByteString} {token : Token} {tokens : List Token} : token.Valid out →
      Expands (token.apply out) tokens out' → Expands out (token :: tokens) out'

section Copy

variable {data : ByteString}

theorem take_succ_getD {pos : Nat} (h : pos < data.length) :
    data.take (pos + 1) = data.take pos ++ [data.getD pos 0] := by
  rw [List.take_add_one, List.getElem?_eq_getElem h, List.getD_eq_getElem _ _ h]
  rfl

/-- **A copy of bytes that were compared** extends a prefix of the data. -/
theorem copyMatch_take {start pos length : Nat} (hstart : start < pos)
    (hlen : pos + length ≤ data.length)
    (heq : ∀ k < length, data.getD (start + k) 0 = data.getD (pos + k) 0) :
    copyMatch start length (data.take pos) = data.take (pos + length) := by
  induction length with
  | zero => rfl
  | succ length ih =>
    have hcopied := ih (by omega) fun k hk => heq k (by omega)
    rw [copyMatch]
    rw [hcopied, ← Nat.add_assoc, take_succ_getD (by omega), ← heq length (by omega)]
    -- the byte copied lies in the part already written
    have hlt : start + length < (data.take (pos + length)).length := by
      rw [List.length_take]
      omega
    rw [List.getD_eq_getElem _ _ hlt, List.getElem_take, List.getD_eq_getElem]

end Copy

/-! ## Candidates -/

namespace Chains

/-- Every position in the table is before `pos`. -/
def Below (c : Chains) (pos : Nat) : Prop :=
  (∀ i p, c.head i = some p → p < pos) ∧ ∀ i p, c.prev i = some p → p < pos

theorem below_empty : Below .empty 0 :=
  ⟨fun _ _ h => (nomatch h), fun _ _ h => (nomatch h)⟩

theorem Below.mono {c : Chains} {pos pos' : Nat} (h : c.Below pos) (hle : pos ≤ pos') :
    c.Below pos' :=
  ⟨fun i p hp => Nat.lt_of_lt_of_le (h.1 i p hp) hle, fun i p hp => Nat.lt_of_lt_of_le (h.2 i p hp) hle⟩

theorem Below.insert {c : Chains} {pos : Nat} (h : c.Below pos) (data : ByteString) :
    (c.insert data pos).Below (pos + 1) := by
  constructor
  · intro i p hp
    by_cases hi : i = hash3 data pos
    · have hp : Function.update c.head (hash3 data pos) (some pos) i = some p := hp
      rw [hi, Function.update_self] at hp
      have := Option.some.inj hp
      omega
    · exact Nat.lt_succ_of_lt (h.1 i p ((Function.update_of_ne hi ..).symm.trans hp))
  · intro i p hp
    by_cases hi : i = pos % window
    · have hp : Function.update c.prev (pos % window) (c.head (hash3 data pos)) i = some p := hp
      rw [hi, Function.update_self] at hp
      exact Nat.lt_succ_of_lt (h.1 _ p hp)
    · exact Nat.lt_succ_of_lt (h.2 i p ((Function.update_of_ne hi ..).symm.trans hp))

theorem Below.insertFrom {c : Chains} {pos : Nat} (h : c.Below pos) (data : ByteString) (count : Nat) :
    (c.insertFrom data pos count).Below (pos + count) := by
  induction count generalizing c pos with
  | zero => exact h
  | succ count ih =>
    rw [Chains.insertFrom]
    split
    · exact (ih (h.insert data)).mono (by omega)
    · exact h.mono (Nat.le_add_right _ _)

end Chains

variable {data : ByteString} {pos maxLen : Nat}

/-- The comparison counts equal bytes. -/
theorem matchLength_spec (data : ByteString) (candidate pos count len : Nat)
    (h : ∀ k < len, data.getD (candidate + k) 0 = data.getD (pos + k) 0) :
    matchLength data candidate pos len count ≤ len + count ∧
      ∀ k < matchLength data candidate pos len count,
        data.getD (candidate + k) 0 = data.getD (pos + k) 0 := by
  induction count generalizing len with
  | zero => exact ⟨Nat.le_refl _, h⟩
  | succ count ih =>
    rw [matchLength]
    split
    · rename_i heq
      obtain ⟨hle, hall⟩ := ih (len + 1) fun k hk => by
        rcases Nat.lt_succ_iff_lt_or_eq.mp hk with hk | rfl
        · exact h k hk
        · exact heq
      exact ⟨by omega, hall⟩
    · exact ⟨by omega, h⟩

/-- A match: nothing, or a distance into the window at which the bytes are the same. -/
def Match (data : ByteString) (pos maxLen : Nat) (best : Nat × Nat) : Prop :=
  best.1 = 0 ∨ best.1 ≤ maxLen ∧ 1 ≤ best.2 ∧ best.2 ≤ window ∧ best.2 ≤ pos ∧
    ∀ k < best.1, data.getD (pos - best.2 + k) 0 = data.getD (pos + k) 0

theorem longestMatch_spec {prev : Nat → Option Nat} (hprev : ∀ i p, prev i = some p → p < pos)
    (chain : Nat) (candidate : Option Nat) (hcand : ∀ p, candidate = some p → p < pos)
    (best : Nat × Nat) (hbest : Match data pos maxLen best) :
    Match data pos maxLen (longestMatch data prev pos maxLen chain candidate best) := by
  induction chain generalizing candidate best with
  | zero =>
    rw [longestMatch]
    exact hbest
  | succ chain ih =>
    cases candidate with
    | none =>
      rw [longestMatch]
      exact hbest
    | some p =>
      have hp := hcand p rfl
      rw [longestMatch]
      split
      · rename_i hwindow
        obtain ⟨hle, hall⟩ := matchLength_spec data p pos maxLen 0
          fun _ hk => absurd hk (Nat.not_lt_zero _)
        have hmatch : Match data pos maxLen (matchLength data p pos 0 maxLen, pos - p) := by
          refine .inr ⟨by omega, by omega, by omega, by omega, fun k hk => ?_⟩
          rw [Nat.sub_sub_self (Nat.le_of_lt hp)]
          exact hall k hk
        dsimp only
        split
        · split
          · exact hmatch
          · exact ih _ (hprev _) _ hmatch
        · exact ih _ (hprev _) _ hbest
      · exact hbest

/-- **The best match** is none or a valid one. -/
theorem bestMatch_spec (data : ByteString) {c : Chains} (hc : c.Below pos) :
    Match data pos (min (data.length - pos) maxMatch) (bestMatch data c pos) :=
  longestMatch_spec hc.2 maxChain _ (hc.1 _) (0, 0) (.inl rfl)

/-! ## The token stream -/

theorem lz77From_expands (data : ByteString) {c : Chains} (hc : c.Below pos) (hpos : pos ≤ data.length) :
    Expands (data.take pos) (lz77From data c pos) data := by
  induction hn : data.length - pos using Nat.strong_induction_on generalizing c pos with
  | _ n ih =>
    rw [lz77From]
    split
    · rename_i hlt
      have hlit : ∀ c', c'.Below (pos + 1) → Expands (data.take pos)
          (.literal (data.getD pos 0) :: lz77From data c' (pos + 1)) data := by
        intro c' hc'
        refine .cons trivial ?_
        rw [Token.apply, ← take_succ_getD hlt]
        exact ih (data.length - (pos + 1)) (by omega) hc' hlt rfl
      split
      · exact hlit c (hc.mono (Nat.le_succ _))
      · dsimp only
        split
        · rename_i hmin
          have hmatch := bestMatch_spec data hc
          generalize bestMatch data c pos = best at hmin hmatch ⊢
          have hmin' : minMatch = 3 := rfl
          have hmax : maxMatch = 258 := rfl
          obtain hzero | ⟨hle, hone, hwin, hback, hall⟩ := hmatch
          · omega
          · rw [window] at hwin
            have hlen : (data.take pos).length = pos := by
              rw [List.length_take]
              omega
            refine .cons ⟨by omega, by omega, hone, hwin, by omega⟩ ?_
            rw [Token.apply, hlen, copyMatch_take (by omega) (by omega) hall]
            refine ih (data.length - (pos + best.1)) (by omega) ?_ (by omega) rfl
            have hbelow := (hc.insert data).insertFrom data (best.1 - 1)
            rwa [Nat.add_assoc, Nat.add_sub_cancel' (by omega)] at hbelow
        · exact hlit _ (hc.insert data)
    · rename_i hend
      rw [List.take_of_length_le (by omega)]
      exact .nil data

theorem literals_expand (out data : ByteString) : Expands out (data.map .literal) (out ++ data) := by
  induction data generalizing out with
  | nil =>
    rw [List.append_nil]
    exact .nil out
  | cons b data ih =>
    refine .cons trivial ?_
    have hrest := ih (out ++ [b])
    rwa [List.append_assoc] at hrest

/-- **The tokens of `data` expand to `data`.** -/
theorem lz77Tokens_expands (data : ByteString) : Expands [] (lz77Tokens data) data := by
  rw [lz77Tokens]
  split
  · exact literals_expand [] data
  · have hall := lz77From_expands data Chains.below_empty (Nat.zero_le _)
    rwa [List.take_zero] at hall

end AthenaOS.Deflate
