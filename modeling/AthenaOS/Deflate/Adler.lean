import AthenaOS.Deflate.Gzip
import AthenaOS.Lib.Overflow
import AthenaOS.Lib.Wire

/-!
# Adler-32

`adler32` of `ath_deflate`, the trailer of a zlib stream. The sums are reduced once for each
chunk of 5552 bytes.
-/

namespace AthenaOS.Deflate

open Lib Lib.Wire

/-! ## The checksum -/

/-- `s1 += b; s2 += s1`. -/
def adlerByte (s : UInt32 × UInt32) (b : UInt8) : Option (UInt32 × UInt32) := do
  let s1 ← checkedAdd32 s.1 b.toUInt32
  let s2 ← checkedAdd32 s.2 s1
  return (s1, s2)

/-- One chunk, reduced at its end. -/
def adlerChunk (s : UInt32 × UInt32) (chunk : ByteString) : Option (UInt32 × UInt32) := do
  let s ← chunk.foldlM adlerByte s
  return (s.1 % 65521, s.2 % 65521)

/-- The loop over `data.chunks(5552)`. -/
def adlerChunks (s : UInt32 × UInt32) (data : ByteString) : Option (UInt32 × UInt32) :=
  if 0 < data.length then do adlerChunks (← adlerChunk s (data.take 5552)) (data.drop 5552) else some s
termination_by data.length
decreasing_by
  rw [List.length_drop]
  omega

/-- `adler32`. -/
def adler32 (data : ByteString) : Option UInt32 := do
  let s ← adlerChunks (1, 0) data
  return (s.2 <<< 16) ||| s.1

/-! ## The sums -/

/-- One more than the sum of the bytes. -/
def adlerA (data : ByteString) : Nat := 1 + (data.map UInt8.toNat).sum

/-- The sum of the values of `adlerA` after each byte. -/
def adlerB (data : ByteString) : Nat := ∑ i ∈ Finset.range data.length, adlerA (data.take (i + 1))

theorem adlerA_concat (data : ByteString) (b : UInt8) : adlerA (data ++ [b]) = adlerA data + b.toNat := by
  rw [adlerA, List.map_append, List.sum_append, List.map_singleton, List.sum_singleton, ← Nat.add_assoc, adlerA]

theorem adlerB_concat (data : ByteString) (b : UInt8) :
    adlerB (data ++ [b]) = adlerB data + adlerA (data ++ [b]) := by
  have hlen : (data ++ [b]).length = data.length + 1 := List.length_append
  rw [adlerB, hlen, Finset.sum_range_succ, List.take_of_length_le (Nat.le_of_eq hlen), adlerB]
  congr 1
  refine Finset.sum_congr rfl fun i hi => ?_
  rw [List.take_append_of_le_length (Finset.mem_range.mp hi)]

/-- The state after `data`, `k` bytes into a chunk: the sums modulo 65521, and how far they
can have grown from the largest reduced state. -/
structure Sums (data : ByteString) (k : Nat) (s : UInt32 × UInt32) : Prop where
  modA : s.1.toNat % 65521 = adlerA data % 65521
  modB : s.2.toNat % 65521 = adlerB data % 65521
  leA : s.1.toNat ≤ 65520 + 255 * k
  leB : 2 * s.2.toNat ≤ 131040 + k * 131040 + 255 * (k * (k + 1))

variable {data : ByteString} {k : Nat} {s : UInt32 × UInt32}

/-- A byte within the first 5552 of a chunk fits both sums. -/
theorem Sums.byte (h : Sums data k s) (hk : k < 5552) (b : UInt8) :
    ∃ s', adlerByte s b = some s' ∧ Sums (data ++ [b]) (k + 1) s' := by
  have hb : b.toUInt32.toNat = b.toNat := UInt8.toNat_toUInt32 b
  have hb' := b.toNat_lt
  have hA := h.leA
  have hB := h.leB
  have hquad : (k + 1) * (k + 1 + 1) = k * (k + 1) + 2 * (k + 1) := by ring
  have hmax : k * (k + 1) ≤ 5551 * 5552 := Nat.mul_le_mul (by omega) (by omega)
  have h1 : s.1.toNat + b.toUInt32.toNat < 2 ^ 32 := by omega
  have hs1 : (s.1 + b.toUInt32).toNat = s.1.toNat + b.toNat := by
    rw [UInt32.toNat_add, Nat.mod_eq_of_lt h1, hb]
  have h2 : s.2.toNat + (s.1 + b.toUInt32).toNat < 2 ^ 32 := by omega
  have hs2 : (s.2 + (s.1 + b.toUInt32)).toNat = s.2.toNat + (s.1.toNat + b.toNat) := by
    rw [UInt32.toNat_add, Nat.mod_eq_of_lt h2, hs1]
  refine ⟨(s.1 + b.toUInt32, s.2 + (s.1 + b.toUInt32)), ?_, ?_, ?_, ?_, ?_⟩
  · rw [adlerByte, bind_of_some (checkedAdd32_eq_some.mpr ⟨h1, rfl⟩),
      bind_of_some (checkedAdd32_eq_some.mpr ⟨h2, rfl⟩)]
    rfl
  · rw [hs1, adlerA_concat, Nat.add_mod, h.modA, ← Nat.add_mod]
  · have hmodA := h.modA
    have hmodB := h.modB
    rw [hs2, adlerB_concat, adlerA_concat]
    omega
  · show (s.1 + b.toUInt32).toNat ≤ _
    omega
  · show 2 * (s.2 + (s.1 + b.toUInt32)).toNat ≤ _
    rw [hs2]
    omega

theorem Sums.bytes (h : Sums data k s) (chunk : ByteString) (hk : k + chunk.length ≤ 5552) :
    ∃ s', chunk.foldlM adlerByte s = some s' ∧ Sums (data ++ chunk) (k + chunk.length) s' := by
  induction chunk generalizing data k s with
  | nil => exact ⟨s, rfl, by rwa [List.append_nil]⟩
  | cons b chunk ih =>
    rw [List.length_cons] at hk
    obtain ⟨s₁, hbyte, h₁⟩ := h.byte (by omega) b
    obtain ⟨s', hrest, h'⟩ := ih h₁ (by omega)
    refine ⟨s', ?_, ?_⟩
    · rw [List.foldlM_cons, bind_of_some hbyte, hrest]
    · rwa [List.append_assoc, Nat.add_right_comm, Nat.add_assoc] at h'

/-- A chunk ends in a reduced state. -/
theorem Sums.chunk (h : Sums data 0 s) (chunk : ByteString) (hlen : chunk.length ≤ 5552) :
    ∃ s', adlerChunk s chunk = some s' ∧ Sums (data ++ chunk) 0 s' := by
  obtain ⟨s₁, hfold, h₁⟩ := h.bytes chunk (by omega)
  have h1 : (s₁.1 % 65521).toNat = s₁.1.toNat % 65521 := UInt32.toNat_mod _ _
  have h2 : (s₁.2 % 65521).toNat = s₁.2.toNat % 65521 := UInt32.toNat_mod _ _
  refine ⟨(s₁.1 % 65521, s₁.2 % 65521), ?_, ?_, ?_, ?_, ?_⟩
  · rw [adlerChunk, bind_of_some hfold]
    rfl
  · rw [h1, Nat.mod_mod, h₁.modA]
  · rw [h2, Nat.mod_mod, h₁.modB]
  · show (s₁.1 % 65521).toNat ≤ _
    omega
  · show 2 * (s₁.2 % 65521).toNat ≤ _
    omega

theorem Sums.chunks (h : Sums data 0 s) (rest : ByteString) :
    ∃ s', adlerChunks s rest = some s' ∧ Sums (data ++ rest) 0 s' := by
  induction hn : rest.length using Nat.strong_induction_on generalizing rest data s with
  | _ n ih =>
    rw [adlerChunks]
    split
    · rename_i hpos
      obtain ⟨s₁, hchunk, h₁⟩ := h.chunk (rest.take 5552) (List.length_take_le _ _)
      obtain ⟨s', hrest, h'⟩ := ih _ (by rw [List.length_drop]; omega) h₁ (rest.drop 5552) rfl
      rw [List.append_assoc, List.take_append_drop] at h'
      exact ⟨s', by rw [bind_of_some hchunk, hrest], h'⟩
    · rename_i hpos
      obtain rfl : rest = [] := List.eq_nil_of_length_eq_zero (by omega)
      exact ⟨s, rfl, by rwa [List.append_nil]⟩

theorem sums_start : Sums [] 0 (1, 0) := ⟨rfl, rfl, by decide, by decide⟩

/-- **Adler-32 is exact**: no sum overflows, and the result holds both sums modulo 65521. -/
theorem adler32_exact (data : ByteString) :
    ∃ r, adler32 data = some r ∧
      r.toNat = adlerB data % 65521 * 65536 + adlerA data % 65521 := by
  obtain ⟨s, hrun, h⟩ := sums_start.chunks data
  rw [List.nil_append] at h
  have hA := h.leA
  have hB := h.leB
  refine ⟨(s.2 <<< 16) ||| s.1, by rw [adler32, bind_of_some hrun]; rfl, ?_⟩
  have hshift : (s.2 <<< 16).toNat = s.2.toNat * 2 ^ 16 := by
    rw [UInt32.toNat_shiftLeft, Nat.shiftLeft_eq]
    exact Nat.mod_eq_of_lt (by show s.2.toNat * 2 ^ 16 < _; omega)
  rw [UInt32.toNat_or, hshift, Nat.mul_comm, ← Nat.two_pow_add_eq_or_of_lt (by omega), ← h.modA,
    ← h.modB, Nat.mod_eq_of_lt (by omega), Nat.mod_eq_of_lt (by omega), Nat.mul_comm]

/-! ## zlib -/

/-- `zlib_compress`; nothing when the checksum overflows. -/
def zlibCompress (data : ByteString) : Option ByteString := do
  let cmf : UInt16 := 0x78
  let rem := (cmf <<< 8 ||| 0) % 31
  let flg := if rem ≠ 0 then 31 - rem else 0
  return [cmf.toUInt8, flg.toUInt8] ++ (deflate data ++ (leBytes 4 (← adler32 data).toNat).reverse)

/-- `zlib_decompress`. -/
def zlibDecompress (data : ByteString) : Option (Except InflateError ByteString) :=
  let cmf := data.getD 0 0
  let flg := data.getD 1 0
  if data.length < 6 then some (.error .truncated)
  else if cmf &&& 0x0F ≠ 8 ∨ (cmf.toUInt16 <<< 8 ||| flg.toUInt16) % 31 ≠ 0 ∨ flg &&& 0x20 ≠ 0 then
    some (.error .badHeader)
  else
    match inflate (slice data 2 (data.length - 4 - 2)) with
    | .error e => some (.error e)
    | .ok out => do
      let want := leNat (slice data (data.length - 4) 4).reverse
      return if (← adler32 out).toNat ≠ want then .error .badChecksum else .ok out

/-- **`zlib_decompress` undoes `zlib_compress`**, and neither overflows. -/
theorem zlib_roundTrip (data : ByteString) (h : data.length ≤ maxOutput) :
    (zlibCompress data).bind zlibDecompress = some (.ok data) := by
  obtain ⟨s, hrun, -⟩ := sums_start.chunks data
  obtain ⟨sum, hsum⟩ : ∃ sum, adler32 data = some sum := ⟨_, by rw [adler32, bind_of_some hrun]; rfl⟩
  obtain ⟨tail, htail⟩ : ∃ tail, (leBytes 4 sum.toNat).reverse = tail := ⟨_, rfl⟩
  have hlen : tail.length = 4 := by simp [← htail]
  have hlt : sum.toNat < 256 ^ 4 := UInt32.toNat_lt _
  have hwant : sum.toNat = leNat (slice tail 0 4).reverse := by
    rw [slice, List.drop_zero, List.take_of_length_le hlen.le, ← htail, List.reverse_reverse, leNat_leBytes_of_lt hlt]
  have hbody : slice ([0x78, 0x01] ++ (deflate data ++ tail)) 2
      (([0x78, 0x01] ++ (deflate data ++ tail)).length - 4 - 2) = deflate data :=
    slice_append_mid _ _ _ rfl (by simp [hlen])
  have hinflate : inflate (deflate data) = .ok data := inflateCapped_deflate h
  rw [zlibCompress, hsum]
  show zlibDecompress ([0x78, 0x01] ++ (deflate data ++ (leBytes 4 sum.toNat).reverse)) = _
  dsimp only [zlibDecompress]
  rw [htail, hbody, hinflate, slice_end (by simp [hlen]), slice_end hlen.ge, hlen, ← hwant, if_neg (by simp [hlen]), if_neg]
  · simp [hsum]
  · -- the two bytes are a multiple of 31, without a dictionary
    simp only [List.cons_append, List.getD_cons_zero, List.getD_cons_succ]
    decide

/-- The body has a match. -/
theorem zlib_roundTrip_repeats :
    (zlibCompress [1, 2, 3, 1, 2, 3, 1, 2, 3, 1, 2, 3]).bind zlibDecompress =
      some (.ok [1, 2, 3, 1, 2, 3, 1, 2, 3, 1, 2, 3]) :=
  zlib_roundTrip _ (by decide)

end AthenaOS.Deflate
