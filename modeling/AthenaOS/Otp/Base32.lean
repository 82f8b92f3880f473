import AthenaOS.Lib.BitString
import AthenaOS.Lib.Wire

/-!
# Base32 secrets

`decode_base32` of `components/ath_otp/src/lib.rs`: the shared secret of an
authenticator as people paste it.
-/

namespace AthenaOS.Otp

open Lib Lib.Wire

/-! ## The format -/

/-- The alphabet. -/
def base32Alphabet : List Char := "ABCDEFGHIJKLMNOPQRSTUVWXYZ234567".toList

/-- The character of a five-bit value. -/
def base32Symbol (v : Nat) : Char := base32Alphabet.getD v 'A'

/-- The bits of a secret, the highest bit of a byte first. -/
def secretBits (b : ByteString) : List Bool := b.flatMap fun x => msbBits 8 x.toNat

/-- The values of five bits each. -/
def quintets : List Bool → List Nat
  | b₀ :: b₁ :: b₂ :: b₃ :: b₄ :: rest => msbNat [b₀, b₁, b₂, b₃, b₄] :: quintets rest
  | _ => []

/-- The zeros that complete the last group. -/
def fill (b : ByteString) : Nat := (5 - 8 * b.length % 5) % 5

/-- The encoding without padding. -/
def base32Encode (b : ByteString) : List Char :=
  (quintets (secretBits b ++ List.replicate (fill b) false)).map base32Symbol

/-! ## Decoding -/

/-- The separators of a displayed secret. -/
def isSeparator (ch : Char) : Bool := ch = ' ' || ch = '-' || ch = '\t' || ch = '\n' || ch = '\r'

/-- `base32_value`. -/
def base32Value (ch : Char) : Option Nat :=
  if 'A' ≤ ch ∧ ch ≤ 'Z' then some (ch.toNat - 'A'.toNat)
  else if 'a' ≤ ch ∧ ch ≤ 'z' then some (ch.toNat - 'a'.toNat)
  else if '2' ≤ ch ∧ ch ≤ '7' then some (ch.toNat - '2'.toNat + 26)
  else none

/-- The locals of `decode_base32`; `bits` is a `u32`. -/
structure Decoder where
  bits : Nat
  bitCount : Nat
  out : ByteString
  seenPad : Bool
  deriving Repr

/-- One symbol shifted in, and a byte out where there is one. -/
def Decoder.push (d : Decoder) (val : Nat) : Decoder :=
  let bits := d.bits <<< 5 % 2 ^ 32 ||| val
  if 8 ≤ d.bitCount + 5 then
    let bitCount := d.bitCount + 5 - 8
    { d with bits := bits, bitCount := bitCount, out := d.out ++ [UInt8.ofNat (bits >>> bitCount)] }
  else { d with bits := bits, bitCount := d.bitCount + 5 }

/-- One character. -/
def Decoder.step (d : Decoder) (ch : Char) : Option Decoder :=
  if isSeparator ch then some d
  else if ch = '=' then some { d with seenPad := true }
  else if d.seenPad then none
  else (base32Value ch).map d.push

/-- The leftover bits must be zeros. -/
def Decoder.finish (d : Decoder) : Option ByteString :=
  if 0 < d.bitCount ∧ d.bits &&& (1 <<< d.bitCount - 1) ≠ 0 then none else some d.out

/-- The decoder at the start. -/
def Decoder.start : Decoder := ⟨0, 0, [], false⟩

/-- `decode_base32`. -/
def decodeBase32 (input : String) : Option ByteString :=
  input.toList.foldlM Decoder.step Decoder.start >>= Decoder.finish

/-- The symbols of a text: no separators, no padding at the end. -/
def symbols (l : List Char) : List Char := (l.filter fun ch => ! isSeparator ch).rdropWhile (· = '=')

/-- A text without separators and trailing padding, in upper case. -/
def stripped (input : String) : List Char := (symbols input.toList).map Char.toUpper

/-! ## The alphabet -/

/-- A check on the characters below 128 decides all of them. -/
theorem forall_char {b : Nat} {P : Char → Prop} (hlow : ∀ n < b, P (Char.ofNat n)) (c : Char) (h : c.toNat < b) :
    P c := by
  have hc := hlow c.toNat h
  rwa [Char.ofNat_toNat] at hc

theorem base32Symbol_lt (v : Nat) : (base32Symbol v).toNat < 128 := by
  rw [base32Symbol, List.getD_eq_getElem?_getD]
  rcases Nat.lt_or_ge v 32 with h | h
  · revert v
    decide
  · rw [List.getElem?_eq_none h]
    decide

variable {b : ByteString} {c : Char} {v : Nat} {vs : List Nat} {d : Decoder}

theorem base32Value_lt (h : base32Value c = some v) : v < 32 := by
  rw [base32Value] at h
  have hle : ∀ a b : Char, a ≤ b → a.toNat ≤ b.toNat := fun a b hab => UInt32.le_iff_toNat_le.mp hab
  split at h
  · rename_i hc
    have hlow := hle _ _ hc.1
    have hhigh := hle _ _ hc.2
    have hv := Option.some.inj h
    simp only [Char.reduceToNat] at hlow hhigh hv
    omega
  · split at h
    · rename_i hc
      have hlow := hle _ _ hc.1
      have hhigh := hle _ _ hc.2
      have hv := Option.some.inj h
      simp only [Char.reduceToNat] at hlow hhigh hv
      omega
    · split at h
      · rename_i hc
        have hlow := hle _ _ hc.1
        have hhigh := hle _ _ hc.2
        have hv := Option.some.inj h
        simp only [Char.reduceToNat] at hlow hhigh hv
        omega
      · exact nomatch h

/-- The characters above the alphabet stand for nothing. -/
theorem base32Value_high (h : 128 ≤ c.toNat) : base32Value c = none := by
  have hhigh : ∀ b : Char, b.toNat < 128 → ¬ c ≤ b := by
    intro b hb hcb
    have hle := UInt32.le_iff_toNat_le.mp hcb
    exact absurd (Nat.le_trans h hle) (Nat.not_le.mpr hb)
  rw [base32Value, if_neg (fun hc => hhigh _ (by decide) hc.2), if_neg (fun hc => hhigh _ (by decide) hc.2),
    if_neg (fun hc => hhigh _ (by decide) hc.2)]

theorem toUpper_high (h : 128 ≤ c.toNat) : c.toUpper = c := by
  rw [Char.toUpper, dif_neg]
  rintro ⟨-, hz⟩
  exact absurd (Nat.le_trans h (UInt32.le_iff_toNat_le.mp hz)) (by decide)

/-- The characters of the alphabet's range stand for what they do in upper case. -/
theorem base32Value_low (hc : c.toNat < 128) :
    base32Value c = base32Value c.toUpper ∧ ∀ v ∈ base32Value c, c.toUpper = base32Symbol v :=
  forall_char (P := fun c => base32Value c = base32Value c.toUpper ∧
    ∀ v ∈ base32Value c, c.toUpper = base32Symbol v) (by decide) c hc

/-- A character stands for a value when it is its symbol in either case. -/
theorem base32Value_eq_some : base32Value c = some v ↔ v < 32 ∧ c.toUpper = base32Symbol v := by
  have hsymbol : ∀ v < 32, base32Value (base32Symbol v) = some v := by decide
  constructor
  · intro h
    rcases Nat.lt_or_ge c.toNat 128 with hc | hc
    · exact ⟨base32Value_lt h, (base32Value_low hc).2 v h⟩
    · rw [base32Value_high hc] at h
      exact nomatch h
  · rintro ⟨hv, h⟩
    rcases Nat.lt_or_ge c.toNat 128 with hc | hc
    · rw [(base32Value_low hc).1, h, hsymbol v hv]
    · rw [toUpper_high hc] at h
      exact absurd (h ▸ base32Symbol_lt v) (Nat.not_lt.mpr hc)

/-- A text that spells values. -/
def Spells (text : List Char) (vs : List Nat) : Prop := text = vs.map base32Symbol ∧ ∀ v ∈ vs, v < 32

theorem mapM_base32Value {l : List Char} :
    l.mapM base32Value = some vs ↔ Spells (l.map Char.toUpper) vs := by
  induction l generalizing vs with
  | nil =>
    constructor
    · intro h
      obtain rfl : [] = vs := Option.some.inj h
      exact ⟨rfl, fun _ hv => absurd hv List.not_mem_nil⟩
    · rintro ⟨h, -⟩
      obtain rfl : vs = [] := List.map_eq_nil_iff.mp h.symm
      rfl
  | cons c l ih =>
    rw [List.mapM_cons]
    constructor
    · intro h
      obtain ⟨v, hv, h⟩ := Option.bind_eq_some_iff.mp h
      obtain ⟨ws, hws, h⟩ := Option.bind_eq_some_iff.mp h
      obtain rfl : v :: ws = vs := Option.some.inj h
      obtain ⟨htext, hlt⟩ := ih.mp hws
      obtain ⟨hv, hc⟩ := base32Value_eq_some.mp hv
      refine ⟨?_, List.forall_mem_cons.mpr ⟨hv, hlt⟩⟩
      rw [List.map_cons, List.map_cons, hc, htext]
    · rintro ⟨htext, hlt⟩
      cases vs with
      | nil => exact nomatch htext
      | cons v ws =>
        rw [List.map_cons, List.map_cons] at htext
        obtain ⟨hc, hl⟩ := List.cons.inj htext
        obtain ⟨hv, hws⟩ := List.forall_mem_cons.mp hlt
        rw [base32Value_eq_some.mpr ⟨hv, hc⟩, ih.mpr ⟨hl, hws⟩]
        rfl

/-! ## The symbols of a text -/

theorem rdropWhile_cons (p : Char → Bool) (c : Char) (l : List Char) :
    (c :: l).rdropWhile p = if l.rdropWhile p = [] then (if p c then [] else [c]) else c :: l.rdropWhile p := by
  rw [List.rdropWhile, List.rdropWhile, List.reverse_cons, List.dropWhile_append]
  by_cases hnil : l.reverse.dropWhile p = []
  · rw [if_pos (List.isEmpty_iff.mpr hnil), if_pos (List.reverse_eq_nil_iff.mpr hnil)]
    by_cases hc : p c = true
    · rw [if_pos hc, List.dropWhile_cons_of_pos hc]
      rfl
    · rw [if_neg hc, List.dropWhile_cons_of_neg hc]
      rfl
  · rw [if_neg (fun h => hnil (List.isEmpty_iff.mp h)), if_neg (fun h => hnil (List.reverse_eq_nil_iff.mp h)),
      List.reverse_append]
    rfl

theorem symbols_separator (h : isSeparator c = true) (l : List Char) :
    symbols (c :: l) = symbols l := by
  rw [symbols, List.filter_cons_of_neg (by rw [h]; decide)]
  rfl

theorem symbols_cons (h : isSeparator c = false) (l : List Char) :
    symbols (c :: l) = if symbols l = [] then (if c = '=' then [] else [c]) else c :: symbols l :=
      by
  rw [symbols, List.filter_cons_of_pos (by rw [h]; rfl), rdropWhile_cons]
  simp only [decide_eq_true_eq]
  rfl

/-! ## The loop -/

/-- After padding only padding may follow. -/
theorem foldlM_padded (l : List Char) (h : d.seenPad = true) :
    (l.foldlM Decoder.step d >>= Decoder.finish) = if symbols l = [] then d.finish else none := by
  induction l with
  | nil => rfl
  | cons c l ih =>
    rw [List.foldlM_cons]
    cases hsep : isSeparator c with
    | true =>
      rw [symbols_separator hsep, Decoder.step, if_pos hsep]
      exact ih
    | false =>
      rw [symbols_cons hsep, Decoder.step, if_neg (by rw [hsep]; decide)]
      by_cases hpad : c = '='
      · have hd : ({ d with seenPad := true } : Decoder) = d := by rw [← h]
        rw [if_pos hpad, if_pos hpad, hd]
        refine ih.trans ?_
        split
        · rw [if_pos rfl]
        · rw [if_neg (List.cons_ne_nil _ _)]
      · rw [if_neg hpad, if_pos h, if_neg hpad]
        have hne : (if symbols l = [] then [c] else c :: symbols l) ≠ [] := by
          split <;> exact List.cons_ne_nil _ _
        rw [if_neg hne]
        rfl

/-- The loop takes in the symbols one after the other. -/
theorem foldlM_step (l : List Char) (h : d.seenPad = false) :
    (l.foldlM Decoder.step d >>= Decoder.finish) =
      ((symbols l).mapM base32Value >>= fun vs => (vs.foldl Decoder.push d).finish) := by
  induction l generalizing d with
  | nil => rfl
  | cons c l ih =>
    rw [List.foldlM_cons]
    cases hsep : isSeparator c with
    | true =>
      rw [symbols_separator hsep, Decoder.step, if_pos hsep]
      exact ih h
    | false =>
      rw [symbols_cons hsep, Decoder.step, if_neg (by rw [hsep]; decide)]
      by_cases hpad : c = '='
      · -- padding is refused as a symbol where symbols follow it
        rw [if_pos hpad, if_pos hpad]
        refine (foldlM_padded l (d := { d with seenPad := true }) rfl).trans ?_
        split
        · rfl
        · rw [List.mapM_cons, hpad]
          rfl
      · have hcons : (if symbols l = [] then [c] else c :: symbols l) = c :: symbols l := by
          split
          · rename_i hnil
            rw [hnil]
          · rfl
        rw [if_neg hpad, if_neg (by rw [h]; decide), if_neg hpad, hcons, List.mapM_cons]
        cases base32Value c with
        | none => rfl
        | some v =>
          have hpush : (d.push v).seenPad = false := by
            rw [Decoder.push]
            split <;> exact h
          refine (ih hpush).trans ?_
          cases (symbols l).mapM base32Value <;> rfl

/-! ## The accumulator -/

/-- What has been read: the bytes and the pending bits. -/
def Decoder.read (d : Decoder) : List Bool := secretBits d.out ++ msbBits d.bitCount d.bits

/-- The shift keeps the pending bits and appends the symbol. -/
theorem msbBits_shift {n bits val : Nat} (hn : n ≤ 27) (hval : val < 32) :
    msbBits (n + 5) (bits <<< 5 % 2 ^ 32 ||| val) = msbBits n bits ++ msbBits 5 val := by
  have hsum : bits <<< 5 % 2 ^ 32 ||| val = bits % 2 ^ 27 * 2 ^ 5 + val := by
    rw [Nat.shiftLeft_eq, show (2 : Nat) ^ 32 = 2 ^ 27 * 2 ^ 5 from rfl, Nat.mul_mod_mul_right, ← Nat.shiftLeft_eq,
      ← Nat.shiftLeft_add_eq_or_of_lt hval]
  have hdiv : (bits % 2 ^ 27 * 2 ^ 5 + val) / 2 ^ 5 = bits % 2 ^ 27 := by omega
  have hmod : (bits % 2 ^ 27 * 2 ^ 5 + val) % 2 ^ 5 = val := by omega
  rw [hsum, msbBits_add, hdiv, msbBits_mod hn, ← msbBits_mod (Nat.le_refl 5), hmod]

theorem secretBits_concat (b : ByteString) (n : Nat) :
    secretBits (b ++ [UInt8.ofNat n]) = secretBits b ++ msbBits 8 n := by
  rw [secretBits, List.flatMap_append, List.flatMap_singleton, UInt8.toNat_ofNat', msbBits_mod (Nat.le_refl 8)]
  rfl

/-- One symbol is read, and less than a byte is pending. -/
theorem read_push {d : Decoder} {val : Nat} (hcount : d.bitCount < 8) (hval : val < 32) :
    (d.push val).read = d.read ++ msbBits 5 val ∧ (d.push val).bitCount < 8 := by
  have hshift := @msbBits_shift d.bitCount d.bits val (by omega) hval
  rw [Decoder.push]
  split
  · rename_i hbyte
    refine ⟨?_, by dsimp only; omega⟩
    have hsplit : d.bitCount + 5 = 8 + (d.bitCount + 5 - 8) := by omega
    rw [Decoder.read, secretBits_concat, Nat.shiftRight_eq_div_pow, List.append_assoc, ← msbBits_add, ← hsplit, hshift,
      ← List.append_assoc]
    rfl
  · refine ⟨?_, by dsimp only; omega⟩
    rw [Decoder.read, hshift, ← List.append_assoc]
    rfl

/-- Bytes and pending bits together are the bits of the symbols. -/
theorem read_foldl (hvs : ∀ v ∈ vs, v < 32) (hcount : d.bitCount < 8) :
    (vs.foldl Decoder.push d).read = d.read ++ vs.flatMap (msbBits 5) ∧
      (vs.foldl Decoder.push d).bitCount < 8 := by
  induction vs generalizing d with
  | nil => exact ⟨(List.append_nil _).symm, hcount⟩
  | cons v vs ih =>
    obtain ⟨hv, hrest⟩ := List.forall_mem_cons.mp hvs
    obtain ⟨hread, hlt⟩ := read_push hcount hv
    obtain ⟨hrun, hend⟩ := ih hrest hlt
    rw [List.foldl_cons, List.flatMap_cons, hrun, hread, List.append_assoc]
    exact ⟨rfl, hend⟩

/-- The leftover bits are zeros. -/
theorem finish_eq_some :
    d.finish = some b ↔ d.out = b ∧ msbBits d.bitCount d.bits = List.replicate d.bitCount false :=
      by
  have hlow : d.bits &&& (1 <<< d.bitCount - 1) = d.bits % 2 ^ d.bitCount := by
    rw [Nat.one_shiftLeft, Nat.and_two_pow_sub_one_eq_mod]
  have hzero : msbBits d.bitCount d.bits = List.replicate d.bitCount false ↔ d.bits % 2 ^ d.bitCount = 0 := by
    rw [← msbBits_zero, ← msbBits_mod (Nat.le_refl d.bitCount) d.bits]
    constructor
    · intro h
      exact msbBits_injective (Nat.mod_lt _ (Nat.two_pow_pos _)) (Nat.two_pow_pos _) h
    · intro h
      rw [h]
  rw [Decoder.finish, hlow, hzero]
  by_cases hbits : d.bits % 2 ^ d.bitCount = 0
  · rw [if_neg (fun h => h.2 hbits), Option.some_inj]
    exact ⟨fun h => ⟨h, hbits⟩, And.left⟩
  · have hpos : 0 < d.bitCount := by
      refine Nat.pos_of_ne_zero fun hnone => hbits ?_
      rw [hnone]
      exact Nat.mod_one _
    rw [if_pos ⟨hpos, hbits⟩]
    exact ⟨fun h => (nomatch h), fun h => absurd h.2 hbits⟩

/-! ## Texts and bit strings -/

theorem length_secretBits (b : ByteString) : (secretBits b).length = 8 * b.length := by
  induction b with
  | nil => rfl
  | cons x b ih =>
    rw [secretBits, List.flatMap_cons, List.length_append, length_msbBits, ← secretBits, ih, List.length_cons]
    omega

theorem length_flatMap_msbBits (n : Nat) (vs : List Nat) : (vs.flatMap (msbBits n)).length = n * vs.length := by
  induction vs with
  | nil => rfl
  | cons v vs ih =>
    rw [List.flatMap_cons, List.length_append, length_msbBits, ih, List.length_cons, Nat.mul_succ, Nat.add_comm]

theorem secretBits_injective {b' : ByteString} (h : secretBits b = secretBits b') : b = b' := by
  have hmap : ∀ b : ByteString, secretBits b = (b.map UInt8.toNat).flatMap (msbBits 8) := by
    intro b
    rw [secretBits, List.flatMap_map]
  have hlt : ∀ b : ByteString, ∀ v ∈ b.map UInt8.toNat, v < 2 ^ 8 := by
    intro b v hv
    obtain ⟨x, -, rfl⟩ := List.mem_map.mp hv
    exact x.toNat_lt
  rw [hmap, hmap] at h
  exact List.map_injective_iff.mpr (fun _ _ => UInt8.toNat_inj.mp)
    (flatMap_msbBits_injective (by decide) (hlt b) (hlt b') h)

/-- **What is accepted**: the bits of the symbols are those of the bytes, and zeros. -/
theorem decodeBase32_iff {input : String} :
    decodeBase32 input = some b ↔ ∃ vs, Spells (stripped input) vs ∧
      vs.flatMap (msbBits 5) = secretBits b ++ List.replicate (5 * vs.length % 8) false := by
  have hread : ∀ vs : List Nat, (∀ v ∈ vs, v < 32) →
      secretBits (vs.foldl Decoder.push .start).out ++
        msbBits (vs.foldl Decoder.push .start).bitCount (vs.foldl Decoder.push .start).bits =
          vs.flatMap (msbBits 5) ∧ (vs.foldl Decoder.push .start).bitCount = 5 * vs.length % 8 := by
    intro vs hvs
    obtain ⟨hrun, hlt⟩ := read_foldl hvs (d := .start) (by decide)
    refine ⟨hrun, ?_⟩
    have hlen := congrArg List.length hrun
    rw [Decoder.read, List.length_append, length_secretBits, length_msbBits] at hlen
    rw [show Decoder.start.read = [] from rfl, List.nil_append, length_flatMap_msbBits] at hlen
    omega
  rw [decodeBase32, foldlM_step _ rfl]
  constructor
  · intro h
    obtain ⟨vs, hvs, hfinish⟩ := Option.bind_eq_some_iff.mp h
    have hspells := mapM_base32Value.mp hvs
    obtain ⟨hbits, hcount⟩ := hread vs hspells.2
    obtain ⟨hout, hzero⟩ := finish_eq_some.mp hfinish
    refine ⟨vs, hspells, ?_⟩
    rw [← hbits, hout, hzero, hcount]
  · rintro ⟨vs, hspells, hvs⟩
    obtain ⟨hbits, hcount⟩ := hread vs hspells.2
    rw [← hbits] at hvs
    obtain ⟨hout, hzero⟩ := List.append_inj' hvs (by rw [length_msbBits, List.length_replicate, hcount])
    rw [mapM_base32Value.mpr hspells]
    refine finish_eq_some.mpr ⟨secretBits_injective hout, ?_⟩
    rw [hzero, hcount]

/-- Groups of five bits keep all of them. -/
theorem flatMap_quintets {bits : List Bool} (h : bits.length % 5 = 0) : (quintets bits).flatMap (msbBits 5) = bits := by
  have hgroup : ∀ b₀ b₁ b₂ b₃ b₄ : Bool, msbBits 5 (msbNat [b₀, b₁, b₂, b₃, b₄]) = [b₀, b₁, b₂, b₃, b₄] := by decide
  induction bits using quintets.induct with
  | case1 b₀ b₁ b₂ b₃ b₄ rest ih =>
    rw [quintets, List.flatMap_cons, hgroup, ih (by simp only [List.length_cons] at h; omega)]
    rfl
  | case2 bits hshort =>
    match bits, hshort, h with
    | [], _, _ => rfl
    | b₀ :: b₁ :: b₂ :: b₃ :: b₄ :: rest, hshort, _ => exact absurd rfl (hshort b₀ b₁ b₂ b₃ b₄ rest)

theorem quintets_lt (bits : List Bool) : ∀ v ∈ quintets bits, v < 32 := by
  have hgroup : ∀ b₀ b₁ b₂ b₃ b₄ : Bool, msbNat [b₀, b₁, b₂, b₃, b₄] < 32 := by decide
  induction bits using quintets.induct with
  | case1 b₀ b₁ b₂ b₃ b₄ rest ih => exact List.forall_mem_cons.mpr ⟨hgroup b₀ b₁ b₂ b₃ b₄, ih⟩
  | case2 bits hshort =>
    rw [quintets.eq_2 bits hshort]
    exact fun v hv => absurd hv List.not_mem_nil

/-- What an encoding spells. -/
theorem eq_base32Encode_iff {text : List Char} :
    text = base32Encode b ↔ ∃ vs, Spells text vs ∧
      vs.flatMap (msbBits 5) = secretBits b ++ List.replicate (fill b) false := by
  have hwhole : (secretBits b ++ List.replicate (fill b) false).length % 5 = 0 := by
    rw [List.length_append, length_secretBits, List.length_replicate, fill]
    omega
  constructor
  · rintro rfl
    exact ⟨_, ⟨rfl, quintets_lt _⟩, flatMap_quintets hwhole⟩
  · rintro ⟨vs, ⟨rfl, hlt⟩, hbits⟩
    rw [base32Encode, flatMap_msbBits_injective (n := 5) (by decide) hlt (quintets_lt _)
      (hbits.trans (flatMap_quintets hwhole).symm)]

/-! ## Idle symbols -/

/-- An encoding whose bits, with five zeros behind them, are those of as many bytes. -/
def Idle (text : List Char) : Prop :=
  ∃ b : ByteString, (b.length % 5 = 0 ∨ b.length % 5 = 1 ∨ b.length % 5 = 3) ∧ text = base32Encode b ++ ['A']

/-- Bytes and at least five zeros are an encoding and an idle symbol. -/
theorem idle_of_zeros (hlt : ∀ v ∈ vs, v < 32) {r : Nat} (h₅ : 5 ≤ r) (h₈ : r < 8)
    (h : vs.flatMap (msbBits 5) = secretBits b ++ List.replicate r false) :
    Idle (vs.map base32Symbol) := by
  have hlen := congrArg List.length h
  rw [length_flatMap_msbBits, List.length_append, length_secretBits, List.length_replicate] at hlen
  rcases List.eq_nil_or_concat vs with rfl | ⟨ws, v, rfl⟩
  · rw [List.length_nil] at hlen
    omega
  · rw [List.concat_eq_append] at hlt h hlen ⊢
    have hsplit : List.replicate r false = List.replicate (r - 5) false ++ List.replicate 5 false := by
      rw [List.replicate_append_replicate]
      congr 1
      omega
    rw [List.flatMap_append, List.flatMap_singleton, hsplit, ← List.append_assoc] at h
    obtain ⟨hws, hv⟩ := List.append_inj' h (by rw [length_msbBits, List.length_replicate])
    have hzero : v = 0 := by
      rw [← msbBits_zero] at hv
      exact msbBits_injective (hlt v (List.mem_append_right _ (List.mem_singleton.mpr rfl))) (by decide) hv
    have hfill : r - 5 = fill b := by
      rw [List.length_append, List.length_singleton] at hlen
      rw [fill]
      omega
    refine ⟨b, by rw [fill] at hfill; omega, ?_⟩
    rw [List.map_append, hzero]
    refine congrArg (· ++ ['A']) (eq_base32Encode_iff.mpr ⟨ws, ⟨rfl, ?_⟩, hfill ▸ hws⟩)
    exact fun w hw => hlt w (List.mem_append_left _ hw)

/-- **Base32 secrets decode exactly** where no idle symbol stands behind the encoding. -/
theorem decodes_iff (input : String) :
    (∀ b, decodeBase32 input = some b ↔ stripped input = base32Encode b) ↔ ¬ Idle (stripped input) := by
  constructor
  · rintro h ⟨b, hlen, htext⟩
    obtain ⟨vs, ⟨hvs, hlt⟩, hbits⟩ := eq_base32Encode_iff.mp (Eq.refl (base32Encode b))
    have hcount := congrArg List.length hbits
    rw [length_flatMap_msbBits, List.length_append, length_secretBits, List.length_replicate] at hcount
    have hidle : decodeBase32 input = some b := by
      refine decodeBase32_iff.mpr ⟨vs ++ [0], ⟨?_, ?_⟩, ?_⟩
      · rw [htext, hvs, List.map_append]
        rfl
      · intro v hv
        rcases List.mem_append.mp hv with hv | hv
        · exact hlt v hv
        · rw [List.mem_singleton.mp hv]
          decide
      · have hmod : 5 * (vs ++ [0]).length % 8 = fill b + 5 := by
          rw [List.length_append, List.length_singleton]
          rw [fill] at hcount ⊢
          omega
        rw [List.flatMap_append, hbits, hmod, List.append_assoc, ← List.replicate_append_replicate]
        rfl
    have hsame := (h b).mp hidle
    rw [htext] at hsame
    exact absurd (congrArg List.length hsame) (by rw [List.length_append, List.length_singleton]; omega)
  · intro hidle b
    rw [decodeBase32_iff, eq_base32Encode_iff]
    constructor
    · rintro ⟨vs, hspells, hbits⟩
      refine ⟨vs, hspells, ?_⟩
      have hlen := congrArg List.length hbits
      rw [length_flatMap_msbBits, List.length_append, length_secretBits, List.length_replicate] at hlen
      rcases Nat.lt_or_ge (5 * vs.length % 8) 5 with hlt | hge
      · have hfill : 5 * vs.length % 8 = fill b := by
          rw [fill]
          omega
        rw [hbits, hfill]
      · refine absurd ?_ hidle
        rw [hspells.1]
        exact idle_of_zeros hspells.2 hge (Nat.mod_lt _ (by decide)) hbits
    · rintro ⟨vs, hspells, hbits⟩
      refine ⟨vs, hspells, ?_⟩
      have hlen := congrArg List.length hbits
      rw [length_flatMap_msbBits, List.length_append, length_secretBits, List.length_replicate] at hlen
      have hfill : fill b = 5 * vs.length % 8 := by
        rw [fill] at hlen ⊢
        omega
      rw [hbits, hfill]

/-- One symbol cannot form a byte, and `A` is accepted. -/
theorem decodeBase32_idle :
    ¬ ∀ (input : String) (b : ByteString), decodeBase32 input = some b ↔ stripped input = base32Encode b := by
  intro h
  have hsome : decodeBase32 "A" = some [] := by decide
  have hne : stripped "A" ≠ base32Encode [] := by decide
  exact hne ((h "A" []).mp hsome)

end AthenaOS.Otp
