import AthenaOS.Deflate.Lz77

/-!
# The bit stream

A reader stands for the bits it has not read, a writer for the bits it was given.
-/

namespace AthenaOS.Deflate

open Lib Lib.Wire

/-! ## Reading -/

namespace BitReader

/-- The bits not read yet. -/
def rest (br : BitReader) : List Bool := (bitsOf br.data).drop (8 * br.bytePos + br.bitPos)

/-- The reader `n` bits further. -/
def advance (br : BitReader) (n : Nat) : BitReader :=
  ⟨br.data, (8 * br.bytePos + br.bitPos + n) / 8, ⟨(8 * br.bytePos + br.bitPos + n) % 8, by omega⟩⟩

theorem rest_new (data : ByteString) : (new data).rest = bitsOf data := List.drop_zero

theorem rest_advance {br : BitReader} {w r : List Bool} (h : br.rest = w ++ r) :
    (br.advance w.length).rest = r := by
  have hpos : 8 * ((8 * br.bytePos + br.bitPos + w.length) / 8) +
      (8 * br.bytePos + br.bitPos + w.length) % 8 = 8 * br.bytePos + br.bitPos + w.length :=
    Nat.div_add_mod ..
  rw [rest] at h
  rw [rest, advance]
  dsimp only
  rw [hpos, ← List.drop_drop, h, List.drop_left]

theorem ext {br br' : BitReader} (hdata : br.data = br'.data)
    (hpos : 8 * br.bytePos + br.bitPos = 8 * br'.bytePos + br'.bitPos) : br = br' := by
  obtain ⟨data, bytePos, bitPos, hlt⟩ := br
  obtain ⟨data', bytePos', bitPos', hlt'⟩ := br'
  dsimp only at hdata hpos
  obtain rfl : bytePos = bytePos' := by omega
  obtain rfl : bitPos = bitPos' := by omega
  rw [hdata]

theorem position_advance (br : BitReader) (n : Nat) :
    8 * (br.advance n).bytePos + (br.advance n).bitPos = 8 * br.bytePos + br.bitPos + n :=
  Nat.div_add_mod ..

theorem advance_advance (br : BitReader) (m n : Nat) :
    (br.advance m).advance n = br.advance (m + n) := by
  refine ext rfl ?_
  rw [position_advance, position_advance, position_advance, Nat.add_assoc]

theorem advance_zero (br : BitReader) : br.advance 0 = br := ext rfl (position_advance br 0)

/-- The bits from a byte boundary inside the data on. -/
theorem rest_eq (br : BitReader) : br.rest = (bitsOf (br.data.drop br.bytePos)).drop br.bitPos := by
  rw [rest, ← List.drop_drop, drop_bitsOf]

end BitReader

open BitReader

/-- In front of the bits `w`, `m` consumes exactly these and returns `a`. -/
def Reads {α : Type} (m : Reader α) (w : List Bool) (a : α) : Prop :=
  ∀ br r, br.rest = w ++ r → m br = .ok (a, br.advance w.length)

namespace Reads

variable {α β : Type} {m : Reader α} {f : α → Reader β} {w w' : List Bool} {a : α} {b : β}

theorem pure (a : α) : Reads (Pure.pure a) [] a := by
  intro br r _
  rw [List.length_nil, advance_zero]
  rfl

theorem ofExcept {e : Except InflateError α} (h : e = .ok a) : Reads (Decoder.ofExcept e) [] a := by
  intro br r _
  rw [List.length_nil, advance_zero, h]
  rfl

theorem bind (hm : Reads m w a) (hf : Reads (f a) w' b) : Reads (m >>= f) (w ++ w') b := by
  intro br r hrest
  rw [List.append_assoc] at hrest
  rw [Decoder.bind_ok (hm br _ hrest), hf _ r (rest_advance hrest), advance_advance,
    List.length_append]

/-- A first part that reads nothing. -/
theorem bind_nil (hm : Reads m [] a) (hf : Reads (f a) w b) : Reads (m >>= f) w b := hm.bind hf

/-- A last part that reads nothing. -/
theorem bind_last (hm : Reads m w a) (hf : Reads (f a) [] b) : Reads (m >>= f) w b := by
  have h := hm.bind hf
  rwa [List.append_nil] at h

section Loop

variable {body : α → Reader (α ⊕ β)} {hbody : Decoder.Progresses left body} {a' : α}

theorem loop_continue (hround : Reads (body a) w (.inl a'))
    (hrest : Reads (Decoder.loop left body hbody a') w' b) :
    Reads (Decoder.loop left body hbody a) (w ++ w') b := by
  intro br r h
  rw [List.append_assoc] at h
  rw [Decoder.loop_continue (hround br _ h), hrest _ r (rest_advance h), advance_advance,
    List.length_append]

theorem loop_break (hround : Reads (body a) w (.inr b)) :
    Reads (Decoder.loop left body hbody a) w b :=
  fun br r h => Decoder.loop_break (hround br r h)

end Loop

/-- `bit` reads one bit. -/
theorem bit (b : Bool) : Reads BitReader.bit [b] b.toNat := by
  intro br r hrest
  have hlt := br.bitPos.isLt
  rw [rest_eq] at hrest
  rw [BitReader.bit]
  cases hbyte : br.data[br.bytePos]? with
  | none =>
    rw [List.drop_eq_nil_of_le (List.getElem?_eq_none_iff.mp hbyte), bitsOf_nil, List.drop_nil] at hrest
    cases hrest
  | some byte =>
    obtain ⟨hin, rfl⟩ := List.getElem?_eq_some_iff.mp hbyte
    -- the bits of the current byte from `bitPos` on
    obtain ⟨k, hk⟩ : ∃ k, 8 - br.bitPos.val = k + 1 := ⟨7 - br.bitPos.val, by omega⟩
    rw [List.drop_eq_getElem_cons hin, bitsOf_cons,
      List.drop_append_of_le_length (by rw [length_lsbBits]; omega), drop_lsbBits _ (by omega), hk,
      lsbBits, List.cons_append, List.cons_append, List.cons.injEq] at hrest
    obtain ⟨hb, -⟩ := hrest
    have hbit : br.data[br.bytePos].toNat >>> br.bitPos.val % 2 = b.toNat := by
      rw [Nat.shiftRight_eq_div_pow, ← hb]
      rcases Nat.mod_two_eq_zero_or_one (br.data[br.bytePos].toNat / 2 ^ br.bitPos.val) with h | h <;>
        rw [h] <;> rfl
    dsimp only
    rw [hbit]
    congr 2
    split
    · rename_i hlast
      refine BitReader.ext rfl ?_
      rw [position_advance, hlast]
      rfl
    · rename_i hlast
      have hval : (br.bitPos + 1).val = br.bitPos.val + 1 := by
        have : br.bitPos.val ≠ 7 := fun hc => hlast (Fin.ext hc)
        rw [Fin.val_add_one_of_lt' (by omega)]
      refine BitReader.ext rfl ?_
      rw [position_advance]
      show 8 * br.bytePos + (br.bitPos + 1).val = _
      rw [hval]
      rfl

/-- `bits` reads a number. -/
theorem bits (n v : Nat) : Reads (BitReader.bits n) (lsbBits n v) (v % 2 ^ n) := by
  induction n with
  | zero =>
    rw [Nat.pow_zero, Nat.mod_one]
    exact pure 0
  | succ n ih =>
    rw [lsbBits_add, BitReader.bits]
    refine ih.bind ((bit (v / 2 ^ n % 2 == 1)).bind_last ?_)
    have hbit : (v / 2 ^ n % 2 == 1).toNat = v / 2 ^ n % 2 := by
      rcases Nat.mod_two_eq_zero_or_one (v / 2 ^ n) with h | h <;> rw [h] <;> rfl
    have hvalue : v % 2 ^ n ||| (v / 2 ^ n % 2 == 1).toNat <<< n = v % 2 ^ (n + 1) := by
      rw [hbit, Nat.or_comm, ← Nat.shiftLeft_add_eq_or_of_lt (Nat.mod_lt _ (Nat.two_pow_pos n)),
        Nat.mod_pow_succ, Nat.shiftLeft_eq, Nat.add_comm, Nat.mul_comm]
    rw [← hvalue]
    exact pure _

end Reads

/-! ## Writing -/

namespace BitWriter

/-- The bits written so far. -/
def bits (bw : BitWriter) : List Bool := bitsOf bw.out ++ lsbBits bw.bitCnt bw.bitBuf

/-- Between two calls fewer than 8 bits wait, and nothing above them is set. -/
structure Sound (bw : BitWriter) : Prop where
  cnt_lt : bw.bitCnt < 8
  buf_lt : bw.bitBuf < 2 ^ bw.bitCnt

theorem sound_new : Sound new := ⟨by decide, by decide⟩

theorem bits_new : new.bits = [] := rfl

theorem flush_spec (bw : BitWriter) (hbuf : bw.bitBuf < 2 ^ bw.bitCnt) :
    bw.flush.Sound ∧ bw.flush.bits = bw.bits := by
  induction hn : bw.bitCnt using Nat.strong_induction_on generalizing bw with
  | _ n ih =>
    rw [flush]
    split
    · rename_i hfull
      have hcnt : bw.bitCnt = 8 + (bw.bitCnt - 8) := by omega
      have hrest : bw.bitBuf / 256 < 2 ^ (bw.bitCnt - 8) := by
        rw [hcnt, Nat.pow_add] at hbuf
        exact Nat.div_lt_of_lt_mul hbuf
      obtain ⟨hsound, hbits⟩ := ih (bw.bitCnt - 8) (by omega)
        ⟨bw.out ++ [UInt8.ofNat bw.bitBuf], bw.bitBuf / 256, bw.bitCnt - 8⟩ hrest rfl
      refine ⟨hsound, hbits.trans ?_⟩
      rw [bits, bits]
      dsimp only
      conv_rhs => rw [hcnt, lsbBits_add]
      rw [bitsOf_append, bitsOf_cons, bitsOf_nil, List.append_nil, UInt8.toNat_ofNat', List.append_assoc,
        ← lsbBits_mod 8 bw.bitBuf]
      rfl
    · rename_i hfew
      exact ⟨⟨by omega, hbuf⟩, rfl⟩

/-- **`push_bits` appends the bits of the value.** -/
theorem pushBits_spec {bw : BitWriter} (h : bw.Sound) (value : Nat) {n : Nat} (hn : n ≤ 24) :
    (bw.pushBits value n).Sound ∧ (bw.pushBits value n).bits = bw.bits ++ lsbBits n value := by
  have hvalue : value % 2 ^ n < 2 ^ n := Nat.mod_lt _ (Nat.two_pow_pos n)
  have hlow : (value % 2 ^ n) <<< bw.bitCnt < 2 ^ (bw.bitCnt + n) := by
    rw [Nat.shiftLeft_eq, Nat.pow_add, Nat.mul_comm]
    exact Nat.mul_lt_mul_of_pos_left hvalue (Nat.two_pow_pos _)
  have hle : 2 ^ (bw.bitCnt + n) ≤ 2 ^ 32 := by
    have := h.cnt_lt
    exact Nat.pow_le_pow_right (by decide) (by omega)
  -- the new bits lie above those that wait
  have hbuf : bw.bitBuf ||| ((value % 2 ^ n) <<< bw.bitCnt) % 2 ^ 32 =
      bw.bitBuf + 2 ^ bw.bitCnt * (value % 2 ^ n) := by
    rw [Nat.mod_eq_of_lt (Nat.lt_of_lt_of_le hlow hle), Nat.or_comm,
      ← Nat.shiftLeft_add_eq_or_of_lt h.buf_lt, Nat.shiftLeft_eq, Nat.add_comm, Nat.mul_comm]
  have hlt : bw.bitBuf + 2 ^ bw.bitCnt * (value % 2 ^ n) < 2 ^ (bw.bitCnt + n) := by
    have hstep : 2 ^ bw.bitCnt * (value % 2 ^ n + 1) ≤ 2 ^ bw.bitCnt * 2 ^ n :=
      Nat.mul_le_mul_left _ hvalue
    have hb := h.buf_lt
    rw [Nat.mul_add, Nat.mul_one] at hstep
    rw [Nat.pow_add]
    omega
  rw [pushBits, hbuf]
  obtain ⟨hsound, hbits⟩ := flush_spec
    ⟨bw.out, bw.bitBuf + 2 ^ bw.bitCnt * (value % 2 ^ n), bw.bitCnt + n⟩ hlt
  refine ⟨hsound, hbits.trans ?_⟩
  have hdiv : (bw.bitBuf + 2 ^ bw.bitCnt * (value % 2 ^ n)) / 2 ^ bw.bitCnt = value % 2 ^ n := by
    rw [Nat.add_mul_div_left _ _ (Nat.two_pow_pos _), Nat.div_eq_of_lt h.buf_lt, Nat.zero_add]
  rw [bits, bits]
  dsimp only
  rw [lsbBits_add, lsbBits_add_mul, hdiv, lsbBits_mod, List.append_assoc]

/-- The bits of a code as they are written. -/
def codeBits (code : Nat × Nat) : List Bool := lsbBits code.2 (reverseCode code.1 code.2)

theorem pushCode_spec {bw : BitWriter} (h : bw.Sound) (code : Nat × Nat) (hlen : code.2 ≤ 24) :
    (bw.pushCode code).Sound ∧ (bw.pushCode code).bits = bw.bits ++ codeBits code :=
  pushBits_spec h _ hlen

/-- `finish` pads the last byte. -/
theorem bits_finish {bw : BitWriter} (h : bw.Sound) : ∃ pad, bitsOf bw.finish = bw.bits ++ pad := by
  rw [finish]
  split
  · refine ⟨lsbBits (8 - bw.bitCnt) (bw.bitBuf / 2 ^ bw.bitCnt), ?_⟩
    have hcnt : 8 = bw.bitCnt + (8 - bw.bitCnt) := by
      have := h.cnt_lt
      omega
    rw [bitsOf_append, bitsOf_cons, bitsOf_nil, List.append_nil, UInt8.toNat_ofNat', lsbBits_mod 8,
      bits, List.append_assoc, ← lsbBits_add, ← hcnt]
  · rename_i hnone
    refine ⟨[], ?_⟩
    have hzero : bw.bitCnt = 0 := by omega
    rw [bits, hzero, lsbBits, List.append_nil, List.append_nil]

end BitWriter

end AthenaOS.Deflate
