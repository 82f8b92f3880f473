import AthenaOS.Lib.Machine
import AthenaOS.Lib.Overflow
import AthenaOS.Net.Firewall

/-!
# Rate limiting over time (`kernel/src/firewall.rs`)

A token bucket a source: a packet takes a token, and a refill adds the tokens of the whole periods since
the last one. A source without a bucket gets a full one. With 4096 buckets the stale ones go first.
-/

namespace AthenaOS.Net

open Lib

/-! ## Addresses as keys -/

/-- One more byte of a number. -/
theorem toNat_shiftLeft_or {n : UInt32} (b : UInt8) (h : n.toNat < 2 ^ 24) :
    (n <<< 8 ||| b.toUInt32).toNat = n.toNat * 256 + b.toNat := by
  have hb : b.toNat < 2 ^ 8 := b.toNat_lt
  have hshift : (n <<< 8).toNat = n.toNat <<< 8 := by
    rw [UInt32.toNat_shiftLeft]
    change n.toNat <<< 8 % 2 ^ 32 = _
    rw [Nat.shiftLeft_eq]
    omega
  rw [UInt32.toNat_or, hshift, UInt8.toNat_toUInt32, ← Nat.shiftLeft_add_eq_or_of_lt hb, Nat.shiftLeft_eq]

/-- The number an address stands for, byte by byte. -/
theorem Ipv4.toNat_toUInt32 (a b c d : UInt8) : (Ipv4.toUInt32 #v[a, b, c, d]).toNat =
    ((a.toNat * 256 + b.toNat) * 256 + c.toNat) * 256 + d.toNat := by
  have ha : a.toNat < 256 := a.toNat_lt
  have hb : b.toNat < 256 := b.toNat_lt
  have hc : c.toNat < 256 := c.toNat_lt
  have h1 : ((0 : UInt32) <<< 8 ||| a.toUInt32).toNat = a.toNat := by
    rw [toNat_shiftLeft_or a (by decide), UInt32.toNat_zero, Nat.zero_mul, Nat.zero_add]
  have h2 := toNat_shiftLeft_or b (n := (0 : UInt32) <<< 8 ||| a.toUInt32) (by omega)
  have h3 := toNat_shiftLeft_or c (n := ((0 : UInt32) <<< 8 ||| a.toUInt32) <<< 8 ||| b.toUInt32) (by omega)
  rw [h1] at h2
  rw [h2] at h3
  refine (toNat_shiftLeft_or d ?_).trans ?_
  · change ((((0 : UInt32) <<< 8 ||| a.toUInt32) <<< 8 ||| b.toUInt32) <<< 8 ||| c.toUInt32).toNat < _
    omega
  · exact congrArg (· * 256 + d.toNat) h3

theorem Ipv4.exists_bytes (addr : Ipv4) : ∃ a b c d : UInt8, addr = #v[a, b, c, d] := by
  obtain ⟨⟨l⟩, hl⟩ := addr
  match l, hl with
  | [a, b, c, d], _ => exact ⟨a, b, c, d, rfl⟩

/-- Different addresses have different buckets. -/
theorem Ipv4.toUInt32_injective : Function.Injective Ipv4.toUInt32 := by
  intro x y h
  obtain ⟨a, b, c, d, rfl⟩ := x.exists_bytes
  obtain ⟨a', b', c', d', rfl⟩ := y.exists_bytes
  have hnat := congrArg UInt32.toNat h
  rw [Ipv4.toNat_toUInt32, Ipv4.toNat_toUInt32] at hnat
  have hb : b.toNat < 256 := b.toNat_lt
  have hc : c.toNat < 256 := c.toNat_lt
  have hd : d.toNat < 256 := d.toNat_lt
  have hb' : b'.toNat < 256 := b'.toNat_lt
  have hc' : c'.toNat < 256 := c'.toNat_lt
  have hd' : d'.toNat < 256 := d'.toNat_lt
  have ha : a = a' := UInt8.toNat_inj.mp (by omega)
  have hb : b = b' := UInt8.toNat_inj.mp (by omega)
  have hc : c = c' := UInt8.toNat_inj.mp (by omega)
  have hd : d = d' := UInt8.toNat_inj.mp (by omega)
  rw [ha, hb, hc, hd]

/-! ## Overflow -/

namespace RateLimiter

/-- `refill` with overflow checks. -/
def refill? (rl : RateLimiter) (bucket : RateBucket) (nowMs : UInt64) : Option RateBucket :=
  let elapsed := satSub64 nowMs bucket.lastRefill
  if elapsed ≥ rl.refillIntervalMs then do
    let periods := (elapsed / rl.refillIntervalMs).toUInt32
    let tokens ← checkedAdd32 bucket.tokens (← checkedMul32 periods rl.refillRate)
    some { tokens := min tokens rl.maxTokens, lastRefill := nowMs }
  else some bucket

/-- `check` with overflow checks. -/
def check? (rl : RateLimiter) (srcAddr : Ipv4) (nowMs : UInt64) : Option (Bool × RateLimiter) :=
  let key := srcAddr.toUInt32
  match rl.buckets[key]? with
  | some bucket => do
    let bucket ← rl.refill? bucket nowMs
    if bucket.tokens > 0 then
      some (true, { rl with buckets := rl.buckets.insert key { bucket with tokens := bucket.tokens - 1 } })
    else some (false, { rl with buckets := rl.buckets.insert key bucket })
  | none => do
    let rl := if rl.buckets.size ≥ rl.maxSources then rl.evictStale nowMs else rl
    let tokens ← checkedSub32 rl.maxTokens 1
    some (true, { rl with buckets := rl.buckets.insert key { tokens, lastRefill := nowMs } })

/-- The tokens of a due refill fit a word. -/
def RefillFits (rl : RateLimiter) (bucket : RateBucket) (nowMs : UInt64) : Prop :=
  rl.refillIntervalMs ≤ satSub64 nowMs bucket.lastRefill →
    bucket.tokens.toNat +
      (satSub64 nowMs bucket.lastRefill / rl.refillIntervalMs).toUInt32.toNat * rl.refillRate.toNat < 2 ^ 32

/-- A check runs: its refill fits, or the burst of a new bucket is not zero. -/
def Fits (rl : RateLimiter) (srcAddr : Ipv4) (nowMs : UInt64) : Prop :=
  match rl.buckets[srcAddr.toUInt32]? with
  | some bucket => rl.RefillFits bucket nowMs
  | none => 1 ≤ rl.maxTokens.toNat

variable {rl : RateLimiter} {b : RateBucket} {srcAddr : Ipv4} {nowMs : UInt64}

theorem refill?_eq_some {b' : RateBucket} : rl.refill? b nowMs = some b' ↔
    rl.RefillFits b nowMs ∧ rl.refill b nowMs = b' := by
  rw [refill?, refill, RefillFits]
  by_cases hdue : satSub64 nowMs b.lastRefill ≥ rl.refillIntervalMs
  · rw [if_pos hdue, if_pos hdue]
    simp only [Option.bind_eq_bind, Option.bind_eq_some_iff, checkedMul32_eq_some, checkedAdd32_eq_some, Option.some.injEq]
    constructor
    · rintro ⟨_, ⟨hmul, rfl⟩, _, ⟨hadd, rfl⟩, rfl⟩
      rw [UInt32.toNat_mul, Nat.mod_eq_of_lt hmul] at hadd
      exact ⟨fun _ => hadd, rfl⟩
    · rintro ⟨hfits, rfl⟩
      have hmul := (Nat.le_add_left _ _).trans_lt (hfits hdue)
      refine ⟨_, ⟨hmul, rfl⟩, _, ⟨?_, rfl⟩, rfl⟩
      rw [UInt32.toNat_mul, Nat.mod_eq_of_lt hmul]
      exact hfits hdue
  · rw [if_neg hdue, if_neg hdue, Option.some.injEq]
    exact ⟨fun h => ⟨fun h' => absurd h' hdue, h⟩, fun h => h.2⟩

/-- With overflow checks a check gives what it gives without them, where it fits. -/
theorem check?_eq_some {r : Bool × RateLimiter} : rl.check? srcAddr nowMs = some r ↔
    rl.Fits srcAddr nowMs ∧ rl.check srcAddr nowMs = r := by
  rw [check?, check, Fits]
  cases rl.buckets[srcAddr.toUInt32]? with
  | some bucket =>
    simp only [Option.bind_eq_bind, Option.bind_eq_some_iff, refill?_eq_some]
    constructor
    · rintro ⟨_, ⟨hfits, rfl⟩, h⟩
      refine ⟨hfits, ?_⟩
      rwa [← apply_ite some, Option.some.injEq] at h
    · rintro ⟨hfits, h⟩
      refine ⟨_, ⟨hfits, rfl⟩, ?_⟩
      rwa [← apply_ite some, Option.some.injEq]
  | none =>
    have hmax : (if rl.buckets.size ≥ rl.maxSources then rl.evictStale nowMs else rl).maxTokens = rl.maxTokens := by
      split <;> rfl
    simp only [Option.bind_eq_bind, Option.bind_eq_some_iff, checkedSub32_eq_some, hmax, Option.some.injEq]
    constructor
    · rintro ⟨_, ⟨hpos, rfl⟩, h⟩
      exact ⟨hpos, h⟩
    · rintro ⟨hpos, h⟩
      exact ⟨_, ⟨hpos, rfl⟩, h⟩

/-! ## One check -/

/-- A source's bucket. -/
def bucket (rl : RateLimiter) (srcAddr : Ipv4) : Option RateBucket := rl.buckets[srcAddr.toUInt32]?

/-- The limiter runs with these settings, and no bucket is above the burst or from the future. -/
structure Settled (rate burst : UInt32) (now : UInt64) (rl : RateLimiter) : Prop where
  maxTokens : rl.maxTokens = burst
  refillRate : rl.refillRate = rate
  refillIntervalMs : rl.refillIntervalMs = 1000
  maxSources : rl.maxSources = 4096
  tokens : ∀ src b, rl.bucket src = some b → b.tokens ≤ burst
  lastRefill : ∀ src b, rl.bucket src = some b → b.lastRefill ≤ now

/-- What a packet does to the bucket of its source. -/
def spend (bucket : RateBucket) : Bool × RateBucket :=
  if bucket.tokens > 0 then (true, { bucket with tokens := bucket.tokens - 1 }) else (false, bucket)

/-- The bucket a packet finds or gets, refilled. -/
def found (rl : RateLimiter) (srcAddr : Ipv4) (nowMs : UInt64) : Bool × RateBucket :=
  match rl.bucket srcAddr with
  | some b => spend (rl.refill b nowMs)
  | none => (true, { tokens := rl.maxTokens - 1, lastRefill := nowMs })

/-- The buckets a packet of another source leaves. -/
def others (rl : RateLimiter) (srcAddr : Ipv4) (nowMs : UInt64) : RateLimiter :=
  if (rl.bucket srcAddr).isNone ∧ rl.buckets.size ≥ rl.maxSources then rl.evictStale nowMs else rl

theorem check_eq (rl : RateLimiter) (srcAddr : Ipv4) (nowMs : UInt64) : rl.check srcAddr nowMs =
    ((rl.found srcAddr nowMs).1, { rl.others srcAddr nowMs with
      buckets := (rl.others srcAddr nowMs).buckets.insert srcAddr.toUInt32 (rl.found srcAddr nowMs).2 }) := by
  rw [check, found, others, bucket]
  cases hb : rl.buckets[srcAddr.toUInt32]? with
  | some b =>
    simp only [Option.isNone_some, Bool.false_eq_true, false_and, if_false, spend]
    split <;> rfl
  | none =>
    simp only [Option.isNone_none, true_and]
    split <;> rfl

theorem check_fst (rl : RateLimiter) (srcAddr : Ipv4) (nowMs : UInt64) :
    (rl.check srcAddr nowMs).1 = (rl.found srcAddr nowMs).1 := by
  rw [check_eq]

theorem bucket_check_self (rl : RateLimiter) (srcAddr : Ipv4) (nowMs : UInt64) :
    (rl.check srcAddr nowMs).2.bucket srcAddr = some (rl.found srcAddr nowMs).2 := by
  rw [check_eq, bucket, Std.ExtTreeMap.getElem?_insert_self]

variable {src : Ipv4}

theorem bucket_others (h : (rl.others srcAddr nowMs).bucket src = some b) :
    rl.bucket src = some b := by
  rw [others] at h
  split at h
  · rw [bucket, evictStale, Std.ExtTreeMap.getElem?_filter', Option.filter_eq_some_iff] at h
    exact h.1
  · exact h

/-- A packet of another source leaves a bucket as it is or evicts it. -/
theorem bucket_check_of_ne (hne : srcAddr ≠ src)
    (h : (rl.check srcAddr nowMs).2.bucket src = some b) : rl.bucket src = some b := by
  rw [check_eq, bucket, Std.ExtTreeMap.getElem?_insert, if_neg] at h
  · exact bucket_others h
  · rw [Std.LawfulEqCmp.compare_eq_iff_eq]
    exact fun heq => hne (Ipv4.toUInt32_injective heq)

/-! ## Tokens over time -/

theorem toNat_satSub64 (a b : UInt64) : (satSub64 a b).toNat = a.toNat - b.toNat := by
  rw [satSub64]
  split
  · rename_i h
    exact UInt64.toNat_sub_of_le _ _ h
  · rename_i h
    rw [UInt64.le_iff_toNat_le, Nat.not_le] at h
    rw [UInt64.toNat_zero]
    omega

theorem toNat_min (a b : UInt32) : (min a b).toNat = min a.toNat b.toNat := by
  change (if a ≤ b then a else b).toNat = _
  split
  · rename_i h
    exact (Nat.min_eq_left (UInt32.le_iff_toNat_le.mp h)).symm
  · rename_i h
    rw [UInt32.le_iff_toNat_le, Nat.not_le] at h
    exact (Nat.min_eq_right h.le).symm

/-- A bucket's tokens and those of the whole periods until a time: the packets it can still let through. -/
def ahead (rate : UInt32) (b : RateBucket) (t : Nat) : Nat :=
  b.tokens.toNat + rate.toNat * ((t - b.lastRefill.toNat) / 1000)

variable {rate burst : UInt32} {now : UInt64}

/-- A refill gives no more than the whole periods since the last one, wrapped or not. -/
theorem refill_cases (h : rl.Settled rate burst now) (b : RateBucket) (nowMs : UInt64) :
    (rl.refill b nowMs = b ∧ nowMs.toNat - b.lastRefill.toNat < 1000) ∨
      ((rl.refill b nowMs).lastRefill = nowMs ∧ 1000 ≤ nowMs.toNat - b.lastRefill.toNat ∧
        (rl.refill b nowMs).tokens ≤ burst ∧
        (rl.refill b nowMs).tokens.toNat ≤ ahead rate b nowMs.toNat) := by
  have hsub := toNat_satSub64 nowMs b.lastRefill
  rw [refill, h.refillIntervalMs, h.maxTokens, h.refillRate]
  by_cases hdue : satSub64 nowMs b.lastRefill ≥ 1000
  · have hdueNat : 1000 ≤ nowMs.toNat - b.lastRefill.toNat := hsub ▸ UInt64.le_iff_toNat_le.mp hdue
    rw [if_pos hdue]
    refine .inr ⟨rfl, hdueNat, ?_, ?_⟩
    · rw [UInt32.le_iff_toNat_le, toNat_min]
      exact Nat.min_le_right _ _
    · have hperiods : (satSub64 nowMs b.lastRefill / 1000).toUInt32.toNat ≤ (nowMs.toNat - b.lastRefill.toNat) / 1000 := by
        rw [UInt64.toNat_toUInt32, UInt64.toNat_div, hsub]
        exact Nat.mod_le _ _
      calc (min (b.tokens + (satSub64 nowMs b.lastRefill / 1000).toUInt32 * rate) burst).toNat
          ≤ (b.tokens + (satSub64 nowMs b.lastRefill / 1000).toUInt32 * rate).toNat := by
            rw [toNat_min]
            exact Nat.min_le_left _ _
        _ ≤ b.tokens.toNat + (satSub64 nowMs b.lastRefill / 1000).toUInt32.toNat * rate.toNat := by
          rw [UInt32.toNat_add, UInt32.toNat_mul]
          exact (Nat.mod_le _ _).trans (Nat.add_le_add_left (Nat.mod_le _ _) _)
        _ ≤ ahead rate b nowMs.toNat := by
          rw [ahead, Nat.mul_comm]
          exact Nat.add_le_add_left (Nat.mul_le_mul_left _ hperiods) _
  · rw [if_neg hdue]
    refine .inl ⟨rfl, ?_⟩
    rw [ge_iff_le, UInt64.le_iff_toNat_le, Nat.not_le, hsub] at hdue
    exact hdue

/-- The whole periods of two spans are no more than those of both. -/
theorem ahead_refill_le (h : rl.Settled rate burst now) {t : Nat} (hlast : b.lastRefill ≤ nowMs)
    (ht : nowMs.toNat ≤ t) : ahead rate (rl.refill b nowMs) t ≤ ahead rate b t := by
  rcases refill_cases h b nowMs with ⟨heq, -⟩ | ⟨hnow, -, -, hle⟩
  · rw [heq]
  · have hlastNat := UInt64.le_iff_toNat_le.mp hlast
    calc ahead rate (rl.refill b nowMs) t
        ≤ ahead rate b nowMs.toNat + rate.toNat * ((t - nowMs.toNat) / 1000) := by
            rw [ahead, hnow]
            exact Nat.add_le_add_right hle _
      _ = b.tokens.toNat + rate.toNat * ((nowMs.toNat - b.lastRefill.toNat) / 1000 + (t - nowMs.toNat) / 1000) := by
          rw [ahead, Nat.mul_add, Nat.add_assoc]
      _ ≤ ahead rate b t := by
          rw [ahead]
          exact Nat.add_le_add_left (Nat.mul_le_mul_left _ (by omega)) _

/-- An accepted packet takes one of them. -/
theorem ahead_spend (b : RateBucket) (t : Nat) :
    ahead rate (spend b).2 t + (if (spend b).1 = true then 1 else 0) = ahead rate b t := by
  rw [spend]
  by_cases hpos : b.tokens > 0
  · have hpos' : 1 ≤ b.tokens := by
      rw [UInt32.le_iff_toNat_le]
      exact UInt32.lt_iff_toNat_lt.mp hpos
    have hone := UInt32.le_iff_toNat_le.mp hpos'
    rw [if_pos hpos, if_pos rfl]
    simp only [ahead]
    rw [UInt32.toNat_sub_of_le _ _ hpos']
    change b.tokens.toNat - 1 + _ + 1 = _
    change 1 ≤ _ at hone
    omega
  · rw [if_neg hpos]
    rfl

theorem spend_le (b : RateBucket) : (spend b).2.tokens ≤ b.tokens ∧ (spend b).2.lastRefill = b.lastRefill := by
  rw [spend]
  by_cases hpos : b.tokens > 0
  · rw [if_pos hpos]
    refine ⟨?_, rfl⟩
    have hone : (1 : UInt32) ≤ b.tokens := UInt32.le_iff_toNat_le.mpr (UInt32.lt_iff_toNat_lt.mp hpos)
    rw [UInt32.le_iff_toNat_le, UInt32.toNat_sub_of_le _ _ hone]
    exact Nat.sub_le _ _
  · rw [if_neg hpos]
    exact ⟨UInt32.le_refl _, rfl⟩

theorem sub_one_le (hburst : 1 ≤ burst) : (burst - 1).toNat + 1 = burst.toNat := by
  have hone := UInt32.le_iff_toNat_le.mp hburst
  rw [UInt32.toNat_sub_of_le _ _ hburst]
  exact Nat.sub_add_cancel hone

section Settled

variable (h : rl.Settled rate burst now) (hburst : 1 ≤ burst) (hnow : now ≤ nowMs)

include h hburst hnow

/-- The bucket after a packet, and how far it reaches beyond a time. -/
theorem found_spec (srcAddr : Ipv4) :
    (rl.found srcAddr nowMs).2.tokens ≤ burst ∧ (rl.found srcAddr nowMs).2.lastRefill ≤ nowMs ∧
      ∀ t₁ t₂ : Nat, t₁ ≤ nowMs.toNat → nowMs.toNat ≤ t₂ →
        ahead rate (rl.found srcAddr nowMs).2 t₂ + (if (rl.found srcAddr nowMs).1 = true then 1 else 0) ≤
          burst.toNat + rate.toNat * (1 + (t₂ - t₁) / 1000) := by
  rw [found]
  cases hb : rl.bucket srcAddr with
  | some b =>
    have htokens := h.tokens srcAddr b hb
    have hlast := UInt64.le_trans (h.lastRefill srcAddr b hb) hnow
    obtain ⟨hspend, hspendLast⟩ := spend_le (rl.refill b nowMs)
    rcases refill_cases h b nowMs with ⟨heq, hshort⟩ | ⟨hlast', -, hburst', -⟩
    · rw [heq] at hspend hspendLast
      simp only [heq]
      refine ⟨UInt32.le_trans hspend htokens, hspendLast ▸ hlast, fun t₁ t₂ h₁ h₂ => ?_⟩
      rw [ahead_spend, ahead]
      have hspan : (t₂ - b.lastRefill.toNat) / 1000 ≤ 1 + (t₂ - t₁) / 1000 := by omega
      exact Nat.add_le_add (UInt32.le_iff_toNat_le.mp htokens) (Nat.mul_le_mul_left _ hspan)
    · refine ⟨UInt32.le_trans hspend hburst', by rw [hspendLast, hlast']; exact UInt64.le_refl _, fun t₁ t₂ h₁ h₂ => ?_⟩
      simp only [ahead_spend]
      rw [ahead, hlast']
      have hspan : (t₂ - nowMs.toNat) / 1000 ≤ 1 + (t₂ - t₁) / 1000 := by omega
      exact Nat.add_le_add (UInt32.le_iff_toNat_le.mp hburst') (Nat.mul_le_mul_left _ hspan)
  | none =>
    have hone := sub_one_le hburst
    simp only [h.maxTokens]
    refine ⟨UInt32.le_iff_toNat_le.mpr (by omega), UInt64.le_refl _, fun t₁ t₂ h₁ h₂ => ?_⟩
    rw [if_pos trivial, ahead]
    have hspan : (t₂ - nowMs.toNat) / 1000 ≤ 1 + (t₂ - t₁) / 1000 := by omega
    have hle := Nat.mul_le_mul_left rate.toNat hspan
    change (burst - 1).toNat + rate.toNat * ((t₂ - nowMs.toNat) / 1000) + 1 ≤ _
    omega

theorem settled_check (srcAddr : Ipv4) : (rl.check srcAddr nowMs).2.Settled rate burst nowMs := by
  obtain ⟨htokens, hlast, -⟩ := found_spec h hburst hnow srcAddr
  have hothers : (rl.others srcAddr nowMs).maxTokens = burst ∧ (rl.others srcAddr nowMs).refillRate = rate ∧
      (rl.others srcAddr nowMs).refillIntervalMs = 1000 ∧ (rl.others srcAddr nowMs).maxSources = 4096 := by
    rw [others]
    split <;> exact ⟨h.maxTokens, h.refillRate, h.refillIntervalMs, h.maxSources⟩
  refine ⟨?_, ?_, ?_, ?_, fun src b hb => ?_, fun src b hb => ?_⟩
  · rw [check_eq]
    exact hothers.1
  · rw [check_eq]
    exact hothers.2.1
  · rw [check_eq]
    exact hothers.2.2.1
  · rw [check_eq]
    exact hothers.2.2.2
  · by_cases hsrc : srcAddr = src
    · rw [← hsrc, bucket_check_self] at hb
      exact Option.some.inj hb ▸ htokens
    · exact h.tokens src b (bucket_check_of_ne hsrc hb)
  · by_cases hsrc : srcAddr = src
    · rw [← hsrc, bucket_check_self] at hb
      exact Option.some.inj hb ▸ hlast
    · exact UInt64.le_trans (h.lastRefill src b (bucket_check_of_ne hsrc hb)) hnow

end Settled

/-! ## Runs -/

end RateLimiter

/-- A packet that reaches the limiter. -/
structure Arrival where
  srcAddr : Ipv4
  nowMs : UInt64

namespace RateLimiter

def arrive (rl : RateLimiter) (a : Arrival) : RateLimiter := (rl.check a.srcAddr a.nowMs).2

/-- The accepted packets of a source in a period. -/
def accepted (src : Ipv4) (t₁ t₂ : Nat) (rl : RateLimiter) : List Arrival → Nat
  | [] => 0
  | a :: as =>
    (if a.srcAddr = src ∧ t₁ ≤ a.nowMs.toNat ∧ a.nowMs.toNat ≤ t₂ ∧ (rl.check a.srcAddr a.nowMs).1 = true then 1 else 0) +
      accepted src t₁ t₂ (rl.arrive a) as

/-- In the period no packet evicts the source's bucket. -/
def KeepsBucket (src : Ipv4) (t₁ t₂ : Nat) (rl : RateLimiter) : List Arrival → Prop
  | [] => True
  | a :: as =>
    (t₁ ≤ a.nowMs.toNat → a.nowMs.toNat ≤ t₂ → (rl.bucket src).isSome = true → ((rl.arrive a).bucket src).isSome = true) ∧
      KeepsBucket src t₁ t₂ (rl.arrive a) as

/-- Times do not decrease. -/
def Ordered (as : List Arrival) : Prop := as.Pairwise fun a a' => a.nowMs ≤ a'.nowMs

variable {rl : RateLimiter} {rate burst : UInt32} {now nowMs : UInt64} {srcAddr src : Ipv4} {t₁ t₂ : Nat}

theorem accepted_after (as : List Arrival) : ∀ {rl : RateLimiter}, (∀ a ∈ as, t₂ < a.nowMs.toNat) →
    accepted src t₁ t₂ rl as = 0 := by
  induction as with
  | nil => exact fun _ => rfl
  | cons a as ih =>
    intro rl h
    rw [accepted, ih fun a' ha' => h a' (List.mem_cons_of_mem a ha'), if_neg]
    rintro ⟨-, -, hle, -⟩
    exact absurd (h a List.mem_cons_self) (Nat.not_lt.mpr hle)

/-- From a time on, a source's packets are those its bucket still lets through. -/
theorem accepted_le_ahead (hburst : 1 ≤ burst) (as : List Arrival) : ∀ {rl : RateLimiter} {now : UInt64} {b : RateBucket},
    rl.Settled rate burst now → rl.bucket src = some b → (∀ a ∈ as, now ≤ a.nowMs) → Ordered as → t₁ ≤ now.toNat →
    KeepsBucket src t₁ t₂ rl as → accepted src t₁ t₂ rl as ≤ ahead rate b t₂ := by
  induction as with
  | nil => exact fun _ _ _ _ _ _ => Nat.zero_le _
  | cons a as ih =>
    intro rl now b h hb hlater hordered hstart hkeeps
    obtain ⟨hnext, hrest⟩ := List.pairwise_cons.mp hordered
    have hnow := hlater a List.mem_cons_self
    have hnowNat := UInt64.le_iff_toNat_le.mp hnow
    by_cases hend : t₂ < a.nowMs.toNat
    · rw [accepted_after]
      · exact Nat.zero_le _
      · intro a' ha'
        rcases List.mem_cons.mp ha' with rfl | ha'
        · exact hend
        · exact hend.trans_le (UInt64.le_iff_toNat_le.mp (hnext a' ha'))
    · have hsettled : (rl.arrive a).Settled rate burst a.nowMs := settled_check h hburst hnow a.srcAddr
      have hreach := fun {b'} hb' => ih (b := b') hsettled hb' hnext hrest (hstart.trans hnowNat) hkeeps.2
      rw [accepted]
      by_cases hsrc : a.srcAddr = src
      · have hself : (rl.arrive a).bucket src = some (rl.found src a.nowMs).2 := by
          rw [arrive, hsrc, bucket_check_self]
        have hspend := @ahead_spend rate (rl.refill b a.nowMs) t₂
        have hrefill := ahead_refill_le (t := t₂) h (UInt64.le_trans (h.lastRefill src b hb) hnow) (Nat.not_lt.mp hend)
        have hfound : rl.found src a.nowMs = spend (rl.refill b a.nowMs) := by rw [found, hb]
        have hle := hreach hself
        rw [hfound] at hle
        rw [check_fst, hsrc, hfound]
        have hif : (if src = src ∧ t₁ ≤ a.nowMs.toNat ∧ a.nowMs.toNat ≤ t₂ ∧ (spend (rl.refill b a.nowMs)).1 = true
            then 1 else 0) ≤ if (spend (rl.refill b a.nowMs)).1 = true then 1 else 0 := by
          split
          · rename_i hall
            rw [if_pos hall.2.2.2]
          · exact Nat.zero_le _
        omega
      · rw [if_neg fun hall => hsrc hall.1, Nat.zero_add]
        obtain ⟨b', hb'⟩ := Option.isSome_iff_exists.mp
          (hkeeps.1 (hstart.trans hnowNat) (Nat.not_lt.mp hend) (by rw [hb]; rfl))
        have hsame := bucket_check_of_ne hsrc hb'
        rw [hb] at hsame
        rw [Option.some.inj hsame]
        exact hreach hb'

/-- In any run a source's packets in a period stay within the burst and the periods begun. -/
theorem accepted_le (hburst : 1 ≤ burst) (as : List Arrival) : ∀ {rl : RateLimiter} {now : UInt64},
    rl.Settled rate burst now → (∀ a ∈ as, now ≤ a.nowMs) → Ordered as → KeepsBucket src t₁ t₂ rl as →
    accepted src t₁ t₂ rl as ≤ burst.toNat + rate.toNat * (1 + (t₂ - t₁) / 1000) := by
  induction as with
  | nil => exact fun _ _ _ _ => Nat.zero_le _
  | cons a as ih =>
    intro rl now h hlater hordered hkeeps
    obtain ⟨hnext, hrest⟩ := List.pairwise_cons.mp hordered
    have hnow := hlater a List.mem_cons_self
    have hsettled : (rl.arrive a).Settled rate burst a.nowMs := settled_check h hburst hnow a.srcAddr
    rw [accepted]
    by_cases hin : a.srcAddr = src ∧ t₁ ≤ a.nowMs.toNat ∧ a.nowMs.toNat ≤ t₂ ∧ (rl.check a.srcAddr a.nowMs).1 = true
    · obtain ⟨rfl, hstart, hend, haccepted⟩ := hin
      obtain ⟨-, -, hbound⟩ := found_spec h hburst hnow a.srcAddr
      have hfound := hbound t₁ t₂ hstart hend
      rw [← check_fst, if_pos haccepted] at hfound
      have hle := accepted_le_ahead hburst as hsettled (bucket_check_self rl a.srcAddr a.nowMs) hnext hrest hstart hkeeps.2
      rw [if_pos ⟨rfl, hstart, hend, haccepted⟩]
      omega
    · rw [if_neg hin, Nat.zero_add]
      exact ih hsettled hnext hrest hkeeps.2

/-! ## The bounds of a run -/

/-- A new bucket does not make too many: there is room, or a bucket was last refilled a minute ago. -/
def HasRoom (rl : RateLimiter) (a : Arrival) : Prop :=
  rl.bucket a.srcAddr = none → rl.buckets.size < rl.maxSources ∨
    ∃ src b, rl.bucket src = some b ∧ b.lastRefill ≤ satSub64 a.nowMs 60000

/-- Before a packet: a due refill of its bucket fits, and there is room for a new one. -/
structure Safe (rl : RateLimiter) (a : Arrival) : Prop where
  refill : ∀ b, rl.bucket a.srcAddr = some b → rl.RefillFits b a.nowMs
  room : rl.HasRoom a

/-- Every key is an address. -/
theorem exists_address (key : UInt32) : ∃ addr : Ipv4, addr.toUInt32 = key := by
  have hkey := key.toNat_lt
  refine ⟨#v[UInt8.ofNat (key.toNat / 16777216), UInt8.ofNat (key.toNat / 65536 % 256),
    UInt8.ofNat (key.toNat / 256 % 256), UInt8.ofNat (key.toNat % 256)], UInt32.toNat_inj.mp ?_⟩
  simp only [Ipv4.toNat_toUInt32, UInt8.toNat_ofNat']
  omega

/-- Eviction frees something exactly when a bucket is stale. -/
theorem size_evictStale_lt_iff (rl : RateLimiter) (nowMs : UInt64) :
    (rl.evictStale nowMs).buckets.size < rl.buckets.size ↔
      ∃ src b, rl.bucket src = some b ∧ b.lastRefill ≤ satSub64 nowMs 60000 := by
  have hsize : (rl.evictStale nowMs).buckets.size ≤ rl.buckets.size := Std.ExtTreeMap.size_filter_le_size
  rw [← not_iff_not, Nat.not_lt]
  have heq : rl.buckets.size ≤ (rl.evictStale nowMs).buckets.size ↔
      (rl.evictStale nowMs).buckets.size = rl.buckets.size := ⟨fun h => Nat.le_antisymm hsize h, fun h => h.ge⟩
  rw [heq, evictStale, Std.ExtTreeMap.size_filter_eq_size_iff]
  constructor
  · rintro h ⟨src, b, hb, hstale⟩
    obtain ⟨hmem, hget⟩ := Std.ExtTreeMap.getElem?_eq_some_iff.mp hb
    have hfresh := h _ hmem
    rw [hget, decide_eq_true_eq] at hfresh
    exact absurd hstale (UInt64.not_le.mpr hfresh)
  · intro h key hmem
    rw [decide_eq_true_eq, gt_iff_lt, ← UInt64.not_le]
    intro hstale
    obtain ⟨addr, rfl⟩ := exists_address key
    exact h ⟨addr, _, Std.ExtTreeMap.getElem?_eq_some_getElem hmem, hstale⟩

theorem size_arrive (rl : RateLimiter) (a : Arrival) : (rl.arrive a).buckets.size =
    if (rl.bucket a.srcAddr).isSome then rl.buckets.size else (rl.others a.srcAddr a.nowMs).buckets.size + 1 := by
  rw [arrive, check_eq]
  simp only [Std.ExtTreeMap.size_insert]
  cases hb : rl.bucket a.srcAddr with
  | some b =>
    have hothers : rl.others a.srcAddr a.nowMs = rl := by
      rw [others, hb, if_neg (fun h => nomatch h.1)]
    have hmem : rl.buckets.contains a.srcAddr.toUInt32 = true := by
      rw [Std.ExtTreeMap.contains_eq_isSome_getElem?]
      exact congrArg Option.isSome hb
    rw [hothers, if_pos hmem]
    rfl
  | none =>
    have hgone : (rl.others a.srcAddr a.nowMs).bucket a.srcAddr = none := by
      rw [Option.eq_none_iff_forall_ne_some]
      intro b hb'
      rw [bucket_others hb'] at hb
      exact nomatch hb
    have hmem : ¬ (rl.others a.srcAddr a.nowMs).buckets.contains a.srcAddr.toUInt32 = true := by
      rw [Std.ExtTreeMap.contains_eq_isSome_getElem?]
      change ¬ ((rl.others a.srcAddr a.nowMs).bucket a.srcAddr).isSome = true
      rw [hgone]
      exact Bool.false_ne_true
    rw [if_neg hmem]
    rfl

theorem size_arrive_le_iff (rl : RateLimiter) (a : Arrival) (h : rl.buckets.size ≤ rl.maxSources) :
    (rl.arrive a).buckets.size ≤ rl.maxSources ↔ rl.HasRoom a := by
  rw [size_arrive, HasRoom, others]
  cases hb : rl.bucket a.srcAddr with
  | some b => exact iff_of_true h fun hnone => nomatch hnone
  | none =>
    by_cases hfull : rl.buckets.size ≥ rl.maxSources
    · have hevict := size_evictStale_lt_iff rl a.nowMs
      simp only [Option.isSome_none, Bool.false_eq_true, if_false, Option.isNone_none, true_and, forall_const]
      rw [if_pos hfull, ← hevict]
      omega
    · simp only [Option.isSome_none, Bool.false_eq_true, if_false, Option.isNone_none, true_and, forall_const]
      rw [if_neg hfull]
      exact iff_of_true (Nat.not_le.mp hfull) (.inl (Nat.not_le.mp hfull))

/-- A run keeps the limiter's settings. -/
theorem settled_run (hburst : 1 ≤ burst) (as : List Arrival) : ∀ {rl : RateLimiter} {now : UInt64},
    rl.Settled rate burst now → (∀ a ∈ as, now ≤ a.nowMs) → Ordered as → ∃ now', (as.foldl arrive rl).Settled rate burst now' := by
  induction as with
  | nil => exact fun h _ _ => ⟨_, h⟩
  | cons a as ih =>
    intro rl now h hlater hordered
    obtain ⟨hnext, hrest⟩ := List.pairwise_cons.mp hordered
    exact ih (settled_check h hburst (hlater a List.mem_cons_self) a.srcAddr) hnext hrest

theorem settled_new (rate burst : UInt32) : (new rate burst).Settled rate burst 0 where
  maxTokens := rfl
  refillRate := rfl
  refillIntervalMs := rfl
  maxSources := rfl
  tokens src b h := by
    rw [bucket, new, Std.ExtTreeMap.getElem?_empty] at h
    exact nomatch h
  lastRefill src b h := by
    rw [bucket, new, Std.ExtTreeMap.getElem?_empty] at h
    exact nomatch h

/-- What a run of packets is promised: no overflow, a bounded number of buckets, and for each source
and period a bounded number of accepted packets. -/
structure Bounded (rate burst : UInt32) (as : List Arrival) : Prop where
  noOverflow : ∀ pre a post, as = pre ++ a :: post →
    (((pre.foldl arrive (new rate burst)).check? a.srcAddr a.nowMs).isSome = true)
  sources : ∀ pre post, as = pre ++ post →
    (pre.foldl arrive (new rate burst)).buckets.size ≤ (pre.foldl arrive (new rate burst)).maxSources
  accepted : ∀ src t₁ t₂, KeepsBucket src t₁ t₂ (new rate burst) as →
    accepted src t₁ t₂ (new rate burst) as ≤ burst.toNat + rate.toNat * (1 + (t₂ - t₁) / 1000)

/-- A check runs exactly when a due refill fits. -/
theorem check?_isSome_iff (h : rl.Settled rate burst now) (hburst : 1 ≤ burst) :
    (rl.check? srcAddr nowMs).isSome = true ↔ ∀ b, rl.bucket srcAddr = some b → rl.RefillFits b nowMs := by
  have hfits : (rl.check? srcAddr nowMs).isSome = true ↔ rl.Fits srcAddr nowMs := by
    rw [Option.isSome_iff_exists]
    simp only [check?_eq_some, exists_and_left, exists_eq', and_true]
  rw [hfits, Fits, bucket]
  cases rl.buckets[srcAddr.toUInt32]? with
  | some b => simp only [Option.some.injEq, forall_eq']
  | none =>
    refine iff_of_true ?_ fun b hb => nomatch hb
    rw [h.maxTokens]
    exact UInt32.le_iff_toNat_le.mp hburst

/-- A run keeps all bounds exactly when each packet finds what it needs. -/
theorem bounded_iff {rate burst : UInt32} (hburst : 1 ≤ burst) {as : List Arrival} (hordered : Ordered as) :
    Bounded rate burst as ↔ ∀ pre a post, as = pre ++ a :: post → Safe (pre.foldl arrive (new rate burst)) a := by
  have hsettled : ∀ pre post, as = pre ++ post → ∃ now, (pre.foldl arrive (new rate burst)).Settled rate burst now := by
    intro pre post heq
    rw [heq] at hordered
    exact settled_run hburst pre (settled_new rate burst) (fun a _ => UInt64.zero_le) (List.pairwise_append.mp hordered).1
  have hstep : ∀ (rl : RateLimiter) (a : Arrival), rl.buckets.size ≤ rl.maxSources → True →
      ((rl.arrive a).buckets.size ≤ (rl.arrive a).maxSources ↔ rl.HasRoom a) := fun rl a hsize _ => by
    have hmax : (rl.arrive a).maxSources = rl.maxSources := by
      rw [arrive, check_eq, others]
      split <;> rfl
    rw [hmax]
    exact size_arrive_le_iff rl a hsize
  have hsources := foldl_invariant_iff (A := fun _ _ => True) (I := fun rl => rl.buckets.size ≤ rl.maxSources)
    (G := HasRoom) hstep (s := new rate burst) (Nat.zero_le _) fun pre a post (_ : as = pre ++ a :: post) => trivial
  constructor
  · intro h pre a post heq
    obtain ⟨now, hnow⟩ := hsettled pre (a :: post) heq
    exact ⟨(check?_isSome_iff hnow hburst).mp (h.noOverflow pre a post heq), hsources.mp h.sources pre a post heq⟩
  · intro h
    refine ⟨fun pre a post heq => ?_, hsources.mpr fun pre a post heq => (h pre a post heq).room, fun src t₁ t₂ hkeeps => ?_⟩
    · obtain ⟨now, hnow⟩ := hsettled pre (a :: post) heq
      exact (check?_isSome_iff hnow hburst).mpr (h pre a post heq).refill
    · exact accepted_le hburst as (settled_new rate burst) (fun a _ => UInt64.zero_le) hordered hkeeps

variable {a : Arrival}

/-- A source with a bucket needs its refill to fit. -/
theorem safe_of_bucket {b : RateBucket} (hb : rl.bucket a.srcAddr = some b)
    (hfits : rl.RefillFits b a.nowMs) : Safe rl a := by
  refine ⟨fun b' hb' => ?_, fun hnone => nomatch hnone.symm.trans hb⟩
  obtain rfl := Option.some.inj (hb.symm.trans hb')
  exact hfits

/-- A source without one needs room. -/
theorem safe_of_room (hnone : rl.bucket a.srcAddr = none)
    (hroom : rl.buckets.size < rl.maxSources) : Safe rl a :=
  ⟨fun _ hb => (nomatch hnone.symm.trans hb), fun _ => .inl hroom⟩

/-- Two sources in turn. The first one sends once too often, and again when its refill is due. -/
def twoSources : List Arrival :=
  [⟨#v[10, 0, 0, 1], 0⟩, ⟨#v[10, 0, 0, 3], 10⟩, ⟨#v[10, 0, 0, 1], 20⟩, ⟨#v[10, 0, 0, 1], 30⟩,
    ⟨#v[10, 0, 0, 3], 40⟩, ⟨#v[10, 0, 0, 1], 1500⟩]

/-- Two packets of the first source are accepted in its first second, and one after its refill. -/
theorem bounded_twoSources : Bounded 2 2 twoSources ∧
    accepted #v[10, 0, 0, 1] 0 1000 (new 2 2) twoSources = 2 ∧
    accepted #v[10, 0, 0, 1] 0 1500 (new 2 2) twoSources = 3 := by
  refine ⟨(bounded_iff (by decide) ?_).mpr ?_, by decide +kernel, by decide +kernel⟩
  · unfold Ordered
    decide
  · simp only [twoSources, forall_split_cons]
    refine ⟨safe_of_room rfl (by decide), safe_of_room rfl (by decide +kernel),
      safe_of_bucket (b := ⟨1, 0⟩) rfl ?_, safe_of_bucket (b := ⟨0, 0⟩) rfl ?_,
      safe_of_bucket (b := ⟨1, 10⟩) rfl ?_, safe_of_bucket (b := ⟨0, 0⟩) rfl ?_, forall_split_nil⟩
    all_goals
      unfold RefillFits
      decide +kernel

/-- With different sources at one time, every packet makes a bucket, and none is evicted. -/
theorem size_flood (rate burst : UInt32) (hnow : 0 < nowMs) (as : List Arrival)
    (hnodup : (as.map Arrival.srcAddr).Nodup) (htime : ∀ a ∈ as, a.nowMs = nowMs) :
    (as.foldl arrive (new rate burst)).buckets.size = as.length ∧ ∀ src b,
      (as.foldl arrive (new rate burst)).bucket src = some b → src ∈ as.map Arrival.srcAddr ∧
      b.lastRefill = nowMs := by
  induction as using List.reverseRecOn with
  | nil =>
    refine ⟨rfl, fun src b hb => ?_⟩
    rw [List.foldl_nil, bucket, new, Std.ExtTreeMap.getElem?_empty] at hb
    exact nomatch hb
  | append_singleton as a ih =>
    rw [List.map_append, List.nodup_append] at hnodup
    obtain ⟨hsize, hbuckets⟩ := ih hnodup.1 fun a' ha' => htime a' (List.mem_append_left _ ha')
    have ha := htime a (List.mem_append_right _ List.mem_cons_self)
    rw [List.foldl_append, List.foldl_cons, List.foldl_nil]
    generalize as.foldl arrive (new rate burst) = rl at hsize hbuckets ⊢
    have hfresh : ¬ (rl.evictStale a.nowMs).buckets.size < rl.buckets.size := by
      rw [size_evictStale_lt_iff]
      rintro ⟨src, b, hb, hstale⟩
      rw [(hbuckets src b hb).2, ha, UInt64.le_iff_toNat_le, toNat_satSub64] at hstale
      have hpos := UInt64.lt_iff_toNat_lt.mp hnow
      change 0 < nowMs.toNat at hpos
      change _ ≤ nowMs.toNat - 60000 at hstale
      omega
    have hnone : rl.bucket a.srcAddr = none := by
      rw [Option.eq_none_iff_forall_ne_some]
      intro b hb
      exact hnodup.2.2 _ (hbuckets _ b hb).1 _ (List.mem_map_of_mem List.mem_cons_self) rfl
    have hothers : (rl.others a.srcAddr a.nowMs).buckets.size = rl.buckets.size := by
      rw [others]
      split
      · exact Nat.le_antisymm Std.ExtTreeMap.size_filter_le_size (Nat.not_lt.mp hfresh)
      · rfl
    refine ⟨?_, fun src b hb => ?_⟩
    · rw [size_arrive, hnone, if_neg (by decide), hothers, hsize, List.length_append, List.length_singleton]
    · rw [List.map_append, List.mem_append]
      by_cases hsrc : a.srcAddr = src
      · subst hsrc
        rw [arrive, bucket_check_self, found, hnone] at hb
        refine ⟨.inr List.mem_cons_self, ?_⟩
        rw [← Option.some.inj hb, ha]
      · obtain ⟨hmem, hlast⟩ := hbuckets src b (bucket_check_of_ne hsrc hb)
        exact ⟨.inl hmem, hlast⟩

/-- The arrival at time 1 of the source 10.0.`i / 256`.`i % 256`. -/
def floodArrival (i : Nat) : Arrival := ⟨#v[10, 0, UInt8.ofNat (i / 256), UInt8.ofNat (i % 256)], 1⟩

/-- One source more than the limit makes one bucket more. A source that comes back after 4294968 seconds
overflows its refill. -/
theorem bounds_broken :
    ((List.range 4097).map floodArrival |>.foldl arrive (new 1000 2000)).buckets.size = 4097 ∧
      (([⟨#v[10, 0, 0, 1], 0⟩] : List Arrival).foldl arrive (new 1000 2000)).check? #v[10, 0, 0, 1] 4294968000 = none := by
  constructor
  · have hnodup : (((List.range 4097).map floodArrival).map Arrival.srcAddr).Nodup := by
      rw [List.map_map]
      refine List.Nodup.map_on (fun i hi j hj heq => ?_) List.nodup_range
      have hnat := congrArg (UInt32.toNat ∘ Ipv4.toUInt32) heq
      simp only [Function.comp_apply, floodArrival, Ipv4.toNat_toUInt32, UInt8.toNat_ofNat'] at hnat
      rw [List.mem_range] at hi hj
      omega
    have htime : ∀ a ∈ (List.range 4097).map floodArrival, a.nowMs = 1 := by
      intro a ha
      obtain ⟨i, -, rfl⟩ := List.mem_map.mp ha
      rfl
    rw [(size_flood 1000 2000 (by decide) _ hnodup htime).1, List.length_map, List.length_range]
  · have hsettled := settled_check (settled_new 1000 2000) (by decide) (UInt64.le_refl 0) #v[10, 0, 0, 1]
    have hbucket : ((new 1000 2000).check #v[10, 0, 0, 1] 0).2.bucket #v[10, 0, 0, 1] = some ⟨1999, 0⟩ := by
      rw [bucket_check_self, found, bucket, new, Std.ExtTreeMap.getElem?_empty]
      rfl
    rw [List.foldl_cons, List.foldl_nil, arrive, ← Option.not_isSome_iff_eq_none, check?_isSome_iff hsettled (by decide)]
    intro hfits
    have hrefill := hfits _ hbucket
    rw [RefillFits, hsettled.refillIntervalMs, hsettled.refillRate] at hrefill
    exact absurd (hrefill (by decide)) (by decide)

end RateLimiter

end AthenaOS.Net
