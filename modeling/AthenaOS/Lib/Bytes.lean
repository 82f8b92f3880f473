import Mathlib

/-!
# Byte arrays of a fixed length

`[u8; n]` as a function on `Fin n`, so that two arrays are equal when their bytes
are and an index is in range by its type.
-/

namespace AthenaOS

/-- An array of `n` bytes. -/
abbrev Bytes (n : Nat) : Type := Fin n → UInt8

namespace Bytes

variable {n m : Nat}

/-- The array of zeros. -/
def zero : Bytes n := fun _ => 0

/-- The byte at `i`, 0 past the end. -/
def get (data : Bytes n) (i : Nat) : UInt8 :=
  if h : i < n then data ⟨i, h⟩ else 0

/-- The bytes in order. -/
def toList (data : Bytes n) : List UInt8 := List.ofFn data

/-- The first `n` bytes of a list, filled up with zeros. -/
def ofList (l : List UInt8) : Bytes n := fun i => l.getD i 0

/-- `data[i..i + m]`. -/
def slice (data : Bytes n) (i : Nat) : Bytes m := fun j => data.get (i + j)

/-- `data[i..i + m].copy_from_slice(part)`. -/
def splice (data : Bytes n) (i : Nat) (part : Bytes m) : Bytes n :=
  fun k => if i ≤ k.val ∧ k.val < i + m then part.get (k - i) else data k

/-- Bytewise exclusive or. -/
def xor (a b : Bytes n) : Bytes n := fun i => a i ^^^ b i

variable {i k j off len val : Nat} {l : List UInt8}

theorem get_of_lt (data : Bytes n) (h : i < n) : data.get i = data ⟨i, h⟩ := by
  rw [get, dif_pos h]

theorem get_val (data : Bytes n) (i : Fin n) : data.get i = data i := by
  rw [get_of_lt data i.isLt]

@[simp] theorem length_toList (data : Bytes n) : data.toList.length = n := List.length_ofFn

/-- A list of full length is read back. -/
theorem ofList_toList (data : Bytes n) : ofList data.toList = data := by
  funext i
  rw [ofList, toList, List.getD_eq_getElem _ _ (by simp), List.getElem_ofFn]

/-- A list that fits is a prefix of the array made from it. -/
theorem take_toList_ofList (h : l.length ≤ n) : (ofList l : Bytes n).toList.take l.length = l := by
  refine List.ext_getElem (by simp [h]) fun i h1 h2 => ?_
  simp only [List.getElem_take, toList, List.getElem_ofFn]
  exact List.getD_eq_getElem l 0 h2

@[simp] theorem xor_xor_cancel (a b : Bytes n) : xor (xor a b) b = a := by
  funext i
  rw [xor, xor, UInt8.xor_assoc, UInt8.xor_self, UInt8.xor_zero]

/-- A byte of the part written. -/
theorem get_splice_of_mem (data : Bytes n) (part : Bytes m) (hk : k < m) (hn : i + k < n) :
    (splice data i part).get (i + k) = part.get k := by
  rw [get_of_lt _ hn, splice, if_pos (by simp only; omega)]
  simp only [Nat.add_sub_cancel_left]

/-- A byte outside the part written. -/
theorem get_splice_of_ne (data : Bytes n) (part : Bytes m) (h : k < i ∨ i + m ≤ k) :
    (splice data i part).get k = data.get k := by
  rw [get, get]
  split
  · rw [splice, if_neg (by simp only; omega)]
  · rfl

/-- Parts that read the same bytes are the same. -/
theorem slice_congr {data : Bytes n} {data' : Bytes m} {i' : Nat}
    (h : ∀ j < k, data.get (i + j) = data'.get (i' + j)) :
    (slice data i : Bytes k) = slice data' i' := by
  funext j
  exact h j j.isLt

/-- The part just written. -/
theorem slice_splice_self (data : Bytes n) (part : Bytes m) (h : i + m ≤ n) :
    slice (splice data i part) i = part := by
  funext j
  have hj := j.isLt
  rw [slice, get_of_lt _ (by omega), splice, if_pos (by simp only; omega)]
  simp only [Nat.add_sub_cancel_left, get_val]

/-- A part apart from the one written. -/
theorem slice_splice_of_disjoint (data : Bytes n) (part : Bytes m) (h : j + k ≤ i ∨ i + m ≤ j) :
    (slice (splice data i part) j : Bytes k) = slice data j :=
  slice_congr fun l hl => get_splice_of_ne data part (by omega)

/-- Writing a list into zeros fills a wider part. -/
theorem splice_ofList (data : Bytes n) (h : l.length ≤ m)
    (hzero : ∀ k, i + l.length ≤ k → k < i + m → data.get k = 0) :
    splice data i (ofList l : Bytes l.length) = splice data i (ofList l : Bytes m) := by
  funext k
  simp only [splice]
  by_cases hk : i ≤ k.val ∧ k.val < i + l.length
  · rw [if_pos hk, if_pos (by omega), get_of_lt _ (by omega), get_of_lt _ (by omega)]
    rfl
  · rw [if_neg hk]
    split
    · next hm =>
      have hget := hzero k (by omega) hm.2
      rw [get_val] at hget
      rw [hget, get_of_lt _ (by omega), ofList, List.getD_eq_default _ _ (by simp only; omega)]
    · rfl

/-- A list without zeros is what comes before the first zero. -/
theorem takeWhile_toList_ofList (h : l.length ≤ n) (hzero : 0 ∉ l) :
    (ofList l : Bytes n).toList.takeWhile (· ≠ 0) = l := by
  have hlist : (ofList l : Bytes n).toList = l ++ List.replicate (n - l.length) 0 := by
    refine List.ext_getElem (by simp [h]) fun i h1 h2 => ?_
    simp only [toList, List.getElem_ofFn, ofList]
    by_cases hi : i < l.length
    · rw [List.getElem_append_left hi, List.getD_eq_getElem _ _ hi]
    · rw [List.getElem_append_right (by omega), List.getElem_replicate, List.getD_eq_default _ _ (by omega)]
  have hl : ∀ b ∈ l, decide (b ≠ 0) = true := by
    intro b hb
    refine decide_eq_true ?_
    rintro rfl
    exact hzero hb
  rw [hlist, List.takeWhile_append_of_pos hl]
  cases n - l.length with
  | zero => simp
  | succ k => simp [List.replicate_succ]

/-- A part before the one written. -/
theorem slice_splice_before (data : Bytes n) (part : Bytes m) (h : j + m ≤ i) :
    (slice (splice data i part) j : Bytes m) = slice data j :=
  slice_splice_of_disjoint data part (.inl h)

/-- Writing two parts, the second one again. -/
theorem splice_splice_self (data : Bytes n) (i : Nat) (part part' : Bytes m) :
    splice (splice data i part) i part' = splice data i part' := by
  funext k
  simp only [splice]
  split <;> rfl

/-- Writing a part back. -/
theorem splice_slice_self (data : Bytes n) (i : Nat) :
    splice data i (slice data i : Bytes m) = data := by
  funext k
  rw [splice]
  split
  · rename_i h
    rw [get_of_lt _ (by omega), slice, get_of_lt _ (by simp only; omega)]
    congr 1
    exact Fin.ext (Nat.add_sub_cancel' h.1)
  · rfl

/-- Two parts that do not meet can be written in either order. -/
theorem splice_comm (data : Bytes n) (p q : Bytes m) (h : j + m ≤ i) :
    splice (splice data j q) i p = splice (splice data i p) j q := by
  funext k
  simp only [splice]
  split
  · rw [if_neg (by omega)]
  · rfl

/-! ## Little-endian fields -/

/-- The `len`-byte little-endian number at `off`. -/
def getLE (data : Bytes n) : Nat → Nat → Nat
  | _, 0 => 0
  | off, len + 1 => (data.get off).toNat + 256 * data.getLE (off + 1) len

/-- Write `val` as a `len`-byte little-endian number at `off`. -/
def putLE (data : Bytes n) (off len val : Nat) : Bytes n :=
  fun k => if off ≤ k.val ∧ k.val < off + len then UInt8.ofNat (val >>> (8 * (k.val - off)))
    else data k

/-- A byte outside the field written. -/
theorem get_putLE_of_ne (data : Bytes n) (h : i < off ∨ off + len ≤ i) :
    (data.putLE off len val).get i = data.get i := by
  rw [get, get]
  split
  · rw [putLE, if_neg (by simp only; omega)]
  · rfl

/-- A byte of the field written. -/
theorem get_putLE_of_mem (data : Bytes n) (hi : i < len) (hn : off + len ≤ n) :
    (data.putLE off len val).get (off + i) = UInt8.ofNat (val >>> (8 * i)) := by
  rw [get_of_lt _ (by omega), putLE, if_pos (by simp only; omega)]
  simp only [Nat.add_sub_cancel_left]

/-- Numbers that read the same bytes are the same. -/
theorem getLE_congr {data : Bytes n} {data' : Bytes m} {off off' : Nat} :
    ∀ {len : Nat}, (∀ i < len, data.get (off + i) = data'.get (off' + i)) →
      data.getLE off len = data'.getLE off' len
  | 0, _ => rfl
  | len + 1, h => by
    have hhead := h 0 (by omega)
    have htail := @getLE_congr data data' (off + 1) (off' + 1) len fun i hi => by
      have := h (i + 1) (by omega)
      rwa [← Nat.add_assoc, ← Nat.add_assoc, Nat.add_right_comm, Nat.add_right_comm off'] at this
    simp only [Nat.add_zero] at hhead
    rw [getLE, getLE, hhead, htail]

/-- A field apart from the one written. -/
theorem getLE_putLE_of_disjoint (data : Bytes n) {off' len' : Nat}
    (h : off' + len' ≤ off ∨ off + len ≤ off') :
    (data.putLE off len val).getLE off' len' = data.getLE off' len' :=
  getLE_congr fun i hi => get_putLE_of_ne data (by omega)

/-- The field just written, when it fits. -/
theorem getLE_putLE_self (data : Bytes n) (hn : off + len ≤ n) (hval : val < 256 ^ len) :
    (data.putLE off len val).getLE off len = val := by
  -- the digits from `i` on read back as `val` shifted by `i` bytes
  have hdigits : ∀ k i, i + k = len →
      (data.putLE off len val).getLE (off + i) k = val >>> (8 * i) := by
    intro k
    induction k with
    | zero =>
      intro i hi
      rw [getLE, Nat.shiftRight_eq_div_pow, Nat.pow_mul]
      exact (Nat.div_eq_of_lt (by rw [show i = len by omega]; exact hval)).symm
    | succ k ih =>
      intro i hi
      rw [getLE, get_putLE_of_mem data (by omega) hn, Nat.add_assoc, ih (i + 1) (by omega),
        UInt8.toNat_ofNat', Nat.shiftRight_eq_div_pow, Nat.shiftRight_eq_div_pow,
        show 8 * (i + 1) = 8 * i + 8 by omega, Nat.pow_add, ← Nat.div_div_eq_div_mul]
      omega
  exact hdigits len 0 (by omega)

/-- A field inside the part written. -/
theorem getLE_splice_of_mem (data : Bytes n) (part : Bytes m) (hm : off + len ≤ m)
    (hn : i + off + len ≤ n) : (splice data i part).getLE (i + off) len = part.getLE off len :=
  getLE_congr fun k hk => by
    rw [Nat.add_assoc]
    exact get_splice_of_mem data part (by omega) (by omega)

/-- A field apart from the part written. -/
theorem getLE_splice_of_disjoint (data : Bytes n) (part : Bytes m)
    (h : off + len ≤ i ∨ i + m ≤ off) :
    (splice data i part).getLE off len = data.getLE off len :=
  getLE_congr fun k hk => get_splice_of_ne data part (by omega)

/-- A little-endian field is bounded by its width. -/
theorem getLE_lt (data : Bytes n) : ∀ (off len : Nat), data.getLE off len < 256 ^ len
  | _, 0 => by simp [getLE]
  | off, len + 1 => by
    have hb := (data.get off).toNat_lt
    have ht := data.getLE_lt (off + 1) len
    rw [getLE, Nat.pow_succ]
    omega

/-! ## Bitmaps -/

/-- Bit `i`: `data[i / 8] & (1 << (i % 8)) != 0`. -/
def bit (data : Bytes n) (i : Nat) : Bool := (data.get (i / 8)).toNat.testBit (i % 8)

/-- `data[i / 8] |= 1 << (i % 8)`. -/
def setBit (data : Bytes n) (i : Nat) : Bytes n :=
  fun k => if k.val = i / 8 then data k ||| UInt8.ofNat (1 <<< (i % 8)) else data k

/-- `data[i / 8] &= !(1 << (i % 8))`. -/
def clearBit (data : Bytes n) (i : Nat) : Bytes n :=
  fun k => if k.val = i / 8 then data k &&& ~~~ UInt8.ofNat (1 <<< (i % 8)) else data k

/-- The mask of bit `k` of a byte. -/
theorem toNat_mask (hk : k < 8) : (UInt8.ofNat (1 <<< k)).toNat = 2 ^ k := by
  have hlt : 2 ^ k < 2 ^ 8 := Nat.pow_lt_pow_right (by decide) hk
  rw [UInt8.toNat_ofNat', Nat.one_shiftLeft]
  exact Nat.mod_eq_of_lt hlt

/-- Setting a bit sets that bit and no other. -/
theorem bit_setBit (data : Bytes n) (hi : i / 8 < n) :
    (data.setBit i).bit j = (decide (j = i) || data.bit j) := by
  have hmod : i % 8 < 8 := Nat.mod_lt _ (by decide)
  rw [bit, bit, get, get]
  by_cases hj : j / 8 = i / 8
  · rw [dif_pos (by omega), dif_pos (by omega), setBit, if_pos hj, UInt8.toNat_or,
      Nat.testBit_or, toNat_mask hmod, Nat.testBit_two_pow, Bool.or_comm]
    congr 1
    exact decide_eq_decide.mpr ⟨fun h => by omega, fun h => by omega⟩
  · have hne : ¬ j = i := fun h => hj (by rw [h])
    rw [decide_eq_false hne, Bool.false_or]
    split
    · rw [setBit, if_neg hj]
    · rfl

/-- Clearing a bit clears that bit and no other. -/
theorem bit_clearBit (data : Bytes n) :
    (data.clearBit i).bit j = (!decide (j = i) && data.bit j) := by
  have hmod : i % 8 < 8 := Nat.mod_lt _ (by decide)
  have hjmod : j % 8 < 8 := Nat.mod_lt _ (by decide)
  rw [bit, bit, get, get]
  by_cases hj : j / 8 = i / 8
  · split
    · have hnot : (~~~ UInt8.ofNat (1 <<< (i % 8))).toNat.testBit (j % 8)
          = !decide (j % 8 = i % 8) := by
        have htwo : 2 ^ (i % 8) < 2 ^ 8 := Nat.pow_lt_pow_right (by decide) hmod
        rw [UInt8.toNat_not, toNat_mask hmod]
        show (2 ^ 8 - 1 - 2 ^ (i % 8)).testBit (j % 8) = _
        rw [show 2 ^ 8 - 1 - 2 ^ (i % 8) = 2 ^ 8 - (2 ^ (i % 8) + 1) by omega,
          Nat.testBit_two_pow_sub_succ htwo, Nat.testBit_two_pow, decide_eq_true hjmod,
          Bool.true_and]
        congr 1
        exact decide_eq_decide.mpr ⟨fun h => h.symm, fun h => h.symm⟩
      rw [clearBit, if_pos hj, UInt8.toNat_and, Nat.testBit_and, hnot, Bool.and_comm]
      congr 2
      exact decide_eq_decide.mpr ⟨fun h => by omega, fun h => by rw [h]⟩
    · rw [UInt8.toNat_zero, Nat.zero_testBit, Bool.and_false]
  · have hne : ¬ j = i := fun h => hj (by rw [h])
    rw [decide_eq_false hne, Bool.not_false, Bool.true_and]
    split
    · rw [clearBit, if_neg hj]
    · rfl

end Bytes

end AthenaOS
