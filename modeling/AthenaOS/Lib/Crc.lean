import AthenaOS.Lib.Wire

/-!
# What a CRC-32 detects

The register of the checksum is shifted one bit at a time, and the polynomial has its top
bit set, so that no two registers shift to the same one. Bits above the lowest only move
down in a shift; four bytes can therefore be fed in together, as one word.
-/

namespace AthenaOS.Lib.Wire

/-! ## One bit -/

theorem crc32Bit_toBitVec (crc : UInt32) :
    (crc32Bit crc).toBitVec = (crc.toBitVec >>> 1) ^^^
      (if crc.toBitVec.getLsbD 0 then 0xEDB88320#32 else 0#32) := by
  have hlow : (crc &&& 1).toBitVec = BitVec.setWidth 32 (BitVec.ofBool (crc.toBitVec.getLsbD 0)) := by
    rw [UInt32.toBitVec_and]
    exact BitVec.and_one_eq_setWidth_ofBool_getLsbD
  rw [crc32Bit, UInt32.toBitVec_xor, UInt32.toBitVec_and, UInt32.toBitVec_sub, hlow]
  cases crc.toBitVec.getLsbD 0 <;> simp

/-- The top bit of the register after a shift is the bit that was shifted out. -/
theorem getLsbD_crc32Bit (crc : UInt32) :
    (crc32Bit crc).toBitVec.getLsbD 31 = crc.toBitVec.getLsbD 0 := by
  rw [crc32Bit_toBitVec, BitVec.getLsbD_xor, BitVec.getLsbD_ushiftRight]
  cases crc.toBitVec.getLsbD 0 <;> simp

theorem crc32Bit_injective : Function.Injective crc32Bit := by
  intro x y h
  have hbits := congrArg UInt32.toBitVec h
  have hlow := congrArg (BitVec.getLsbD · 31) hbits
  simp only [getLsbD_crc32Bit] at hlow
  rw [crc32Bit_toBitVec, crc32Bit_toBitVec, hlow] at hbits
  have hshift : x.toBitVec >>> 1 = y.toBitVec >>> 1 := (BitVec.xor_left_inj _).mp hbits
  refine UInt32.toBitVec_inj.mp (BitVec.eq_of_getLsbD_eq fun i hi => ?_)
  cases i with
  | zero => exact hlow
  | succ i =>
    have hbit := congrArg (BitVec.getLsbD · i) hshift
    simpa [BitVec.getLsbD_ushiftRight, Nat.add_comm] using hbit

theorem testBit_high {n k i : Nat} (hn : n < 2 ^ k) (hi : k ≤ i) : n.testBit i = false :=
  Nat.testBit_lt_two_pow (Nat.lt_of_lt_of_le hn (Nat.pow_le_pow_right (by decide) hi))

/-- Bits above the lowest one move down. -/
theorem crc32Bit_xor_shiftLeft (x : UInt32) {y : BitVec 32} (hy : y.toNat < 2 ^ 31) :
    crc32Bit (x ^^^ ⟨y <<< 1⟩) = crc32Bit x ^^^ ⟨y⟩ := by
  refine UInt32.toBitVec_inj.mp ?_
  rw [UInt32.toBitVec_xor, crc32Bit_toBitVec, crc32Bit_toBitVec]
  have hback : (y <<< 1) >>> 1 = y := by
    refine BitVec.eq_of_getLsbD_eq fun i hi => ?_
    rw [BitVec.getLsbD_ushiftRight, BitVec.getLsbD_shiftLeft]
    have htop : y.getLsbD 31 = false := testBit_high hy (Nat.le_refl _)
    by_cases hlast : i = 31
    · rw [hlast, htop]
      rfl
    · simp [show 1 + i < 32 by omega]
  have hlow : (x ^^^ ⟨y <<< 1⟩ : UInt32).toBitVec.getLsbD 0 = x.toBitVec.getLsbD 0 := by
    rw [UInt32.toBitVec_xor, BitVec.getLsbD_xor]
    simp
  rw [hlow, UInt32.toBitVec_xor, BitVec.ushiftRight_xor_distrib, hback, BitVec.xor_assoc,
    BitVec.xor_assoc, BitVec.xor_comm y]

/-- Bits that do not reach the low end within `k` shifts pass through. -/
theorem crc32Bit_iterate_xor {k : Nat} (hk : k ≤ 32) (x : UInt32) {y : BitVec 32}
    (hy : y.toNat < 2 ^ (32 - k)) :
    crc32Bit^[k] (x ^^^ ⟨y <<< k⟩) = crc32Bit^[k] x ^^^ ⟨y⟩ := by
  induction k generalizing x with
  | zero => simp
  | succ k ih =>
    have hshift : (y <<< k).toNat < 2 ^ 31 := by
      rw [BitVec.toNat_shiftLeft, Nat.shiftLeft_eq]
      refine Nat.lt_of_le_of_lt (Nat.mod_le _ _) ?_
      calc y.toNat * 2 ^ k < 2 ^ (32 - (k + 1)) * 2 ^ k :=
            Nat.mul_lt_mul_of_pos_right hy (Nat.two_pow_pos k)
        _ = 2 ^ 31 := by rw [← Nat.pow_add]; congr 1; omega
    rw [Function.iterate_succ_apply, Function.iterate_succ_apply, BitVec.shiftLeft_add,
      crc32Bit_xor_shiftLeft x hshift]
    exact ih (by omega) _ (Nat.lt_of_lt_of_le hy (Nat.pow_le_pow_right (by decide) (by omega)))

/-! ## Four bytes at once -/

/-- Up to four bytes, read as a word with the first byte lowest. -/
def crcWord : ByteString → BitVec 32
  | [] => 0
  | b :: bs => b.toBitVec.setWidth 32 ^^^ crcWord bs <<< 8

theorem crcWord_lt (bs : ByteString) : (crcWord bs).toNat < 2 ^ (8 * bs.length) := by
  induction bs with
  | nil => exact Nat.one_pos
  | cons b bs ih =>
    rw [crcWord, BitVec.toNat_xor, List.length_cons]
    refine Nat.xor_lt_two_pow ?_ ?_
    · rw [BitVec.toNat_setWidth]
      calc b.toBitVec.toNat % 2 ^ 32 ≤ b.toBitVec.toNat := Nat.mod_le _ _
        _ < 2 ^ 8 := b.toBitVec.isLt
        _ ≤ 2 ^ (8 * (bs.length + 1)) := Nat.pow_le_pow_right (by decide) (by omega)
    · rw [BitVec.toNat_shiftLeft, Nat.shiftLeft_eq]
      calc (crcWord bs).toNat * 2 ^ 8 % 2 ^ 32 ≤ (crcWord bs).toNat * 2 ^ 8 := Nat.mod_le _ _
        _ < 2 ^ (8 * bs.length) * 2 ^ 8 := Nat.mul_lt_mul_of_pos_right ih (by decide)
        _ = 2 ^ (8 * (bs.length + 1)) := by rw [← Nat.pow_add, Nat.mul_succ]

/-- Up to four bytes are fed into the register like one word. -/
theorem foldl_crc32Byte_eq {bs : ByteString} (h : bs.length ≤ 4) (crc : UInt32) :
    bs.foldl crc32Byte crc = crc32Bit^[8 * bs.length] (crc ^^^ ⟨crcWord bs⟩) := by
  induction bs generalizing crc with
  | nil =>
    show crc = crc ^^^ 0
    simp
  | cons b bs ih =>
    have hlen : bs.length ≤ 3 := Nat.le_of_succ_le_succ h
    have hword : (crcWord bs).toNat < 2 ^ (32 - 8) :=
      Nat.lt_of_lt_of_le (crcWord_lt bs) (Nat.pow_le_pow_right (by decide) (by omega))
    have hbyte : crc ^^^ ⟨crcWord (b :: bs)⟩ = crc ^^^ b.toUInt32 ^^^ ⟨crcWord bs <<< 8⟩ := by
      rw [UInt32.xor_assoc]
      rfl
    rw [List.foldl_cons, ih (by omega), crc32Byte, ← crc32Bit_iterate_xor (by decide) _ hword,
      hbyte, List.length_cons, Nat.mul_succ, Function.iterate_add_apply]

/-- The word has all the bytes. -/
theorem crcWord_inj {bs bs' : ByteString} (hlen : bs.length = bs'.length) (h : bs.length ≤ 4)
    (hword : crcWord bs = crcWord bs') : bs = bs' := by
  induction bs generalizing bs' with
  | nil => exact (List.length_eq_zero_iff.mp hlen.symm).symm
  | cons b bs ih =>
    obtain ⟨b', bs', rfl⟩ := List.exists_cons_of_length_eq_add_one hlen.symm
    have hbits : ∀ i, (crcWord (b :: bs)).getLsbD i = (crcWord (b' :: bs')).getLsbD i :=
      fun i => by rw [hword]
    simp only [crcWord, BitVec.getLsbD_xor, BitVec.getLsbD_shiftLeft, BitVec.getLsbD_setWidth] at hbits
    have hfirst : b = b' := by
      refine UInt8.toBitVec_inj.mp (BitVec.eq_of_getLsbD_eq fun i hi => ?_)
      simpa [hi, show i < 32 by omega] using hbits i
    have hrest : crcWord bs = crcWord bs' := by
      refine BitVec.eq_of_getLsbD_eq fun i hi => ?_
      by_cases hlow : i < 24
      · have hbit := hbits (8 + i)
        rw [BitVec.getLsbD_of_ge b.toBitVec (8 + i) (by omega),
          BitVec.getLsbD_of_ge b'.toBitVec (8 + i) (by omega)] at hbit
        simpa [show 8 + i < 32 by omega, show ¬ 8 + i < 8 by omega] using hbit
      · have hzero : ∀ bs : ByteString, bs.length ≤ 3 → (crcWord bs).getLsbD i = false := by
          intro bs hlen
          exact testBit_high (crcWord_lt bs) (by omega)
        simp only [List.length_cons] at hlen h
        rw [hzero bs (by omega), hzero bs' (by omega)]
    rw [hfirst, ih (by simpa using hlen) (by simp at h; omega) hrest]

/-! ## Messages -/

theorem crc32Byte_injective (b : UInt8) : Function.Injective fun crc => crc32Byte crc b := by
  intro x y h
  have hxor : x ^^^ b.toUInt32 = y ^^^ b.toUInt32 := crc32Bit_injective.iterate 8 h
  exact (UInt32.xor_left_inj _).mp hxor

/-- Registers that differ still differ after the same bytes. -/
theorem foldl_crc32Byte_injective (bs : ByteString) :
    Function.Injective fun crc => bs.foldl crc32Byte crc := by
  induction bs with
  | nil => exact fun _ _ h => h
  | cons b bs ih => exact ih.comp (crc32Byte_injective b)

/-- **A change of up to four consecutive bytes changes the checksum.** -/
theorem crc32_window {pre suf w w' : ByteString} (hlen : w.length = w'.length)
    (h : w.length ≤ 4) (hcrc : crc32 (pre ++ (w ++ suf)) = crc32 (pre ++ (w' ++ suf))) : w = w' := by
  have hfold := (UInt32.xor_left_inj _).mp hcrc
  simp only [List.foldl_append] at hfold
  have hword := foldl_crc32Byte_injective suf hfold
  simp only [foldl_crc32Byte_eq h, foldl_crc32Byte_eq (hlen ▸ h), ← hlen] at hword
  have hxor := (UInt32.xor_right_inj _).mp (crc32Bit_injective.iterate _ hword)
  exact crcWord_inj hlen h (congrArg UInt32.toBitVec hxor)

end AthenaOS.Lib.Wire
