import Mathlib

/-!
# Byte strings on the wire

File formats are byte strings read through a cursor. Integers are little-endian
fields of a fixed width.
-/

namespace AthenaOS.Lib.Wire

/-- A byte string. -/
abbrev ByteString : Type := List UInt8

/-- The `n` bytes from `i` on. -/
def slice {α : Type} (data : List α) (i n : Nat) : List α := (data.drop i).take n

/-- The `w` low bytes of `n`, the lowest first. -/
def leBytes : Nat → Nat → ByteString
  | 0, _ => []
  | w + 1, n => UInt8.ofNat n :: leBytes w (n / 256)

/-- The number a little-endian field holds. -/
def leNat : ByteString → Nat
  | [] => 0
  | b :: bs => b.toNat + 256 * leNat bs

section Slice

variable {α : Type} (data pre mid suf : List α)

theorem length_slice (i n : Nat) : (slice data i n).length = min n (data.length - i) := by
  rw [slice, List.length_take, List.length_drop]

variable {i n : Nat}

theorem length_slice_of_le (h : i + n ≤ data.length) : (slice data i n).length = n := by
  rw [length_slice]
  omega

/-- A part is read back where it was written. -/
theorem slice_append_mid (hi : i = pre.length) (hn : n = mid.length) :
    slice (pre ++ (mid ++ suf)) i n = mid := by
  rw [slice, hi, List.drop_left, hn, List.take_left]

theorem slice_append_start (hn : n = mid.length) : slice (mid ++ suf) 0 n = mid := by
  rw [slice, List.drop_zero, hn, List.take_left]

/-- A read that ends inside the first part does not see the second. -/
theorem slice_append_left (h : i + n ≤ pre.length) : slice (pre ++ suf) i n = slice pre i n := by
  rw [slice, slice, List.drop_append_of_le_length (by omega),
    List.take_append_of_le_length (by rw [List.length_drop]; omega)]

/-- A read that starts behind the first part only sees the second. -/
theorem slice_append_right (h : pre.length ≤ i) :
    slice (pre ++ suf) i n = slice suf (i - pre.length) n := by
  rw [slice, slice, List.drop_append, List.drop_eq_nil_of_le h, List.nil_append]

end Slice

@[simp] theorem length_leBytes (w n : Nat) : (leBytes w n).length = w := by
  induction w generalizing n with
  | zero => rfl
  | succ w ih => rw [leBytes, List.length_cons, ih]

/-- A field holds the written number modulo its range. -/
theorem leNat_leBytes (w n : Nat) : leNat (leBytes w n) = n % 256 ^ w := by
  induction w generalizing n with
  | zero => rw [leBytes, leNat, Nat.pow_zero, Nat.mod_one]
  | succ w ih =>
    rw [leBytes, leNat, ih, UInt8.toNat_ofNat']
    show n % 256 + 256 * (n / 256 % 256 ^ w) = n % 256 ^ (w + 1)
    rw [Nat.pow_succ', Nat.mod_mul]

theorem leNat_leBytes_of_lt {w n : Nat} (h : n < 256 ^ w) : leNat (leBytes w n) = n := by
  rw [leNat_leBytes, Nat.mod_eq_of_lt h]

/-- A field is the bytes of the number it holds. -/
theorem leBytes_leNat (bytes : ByteString) : leBytes bytes.length (leNat bytes) = bytes := by
  induction bytes with
  | nil => rfl
  | cons b bytes ih =>
    have hlow : UInt8.ofNat (b.toNat + 256 * leNat bytes) = b := by
      refine UInt8.toNat_inj.mp ?_
      rw [UInt8.toNat_ofNat', Nat.add_mul_mod_self_left, Nat.mod_eq_of_lt b.toNat_lt]
    have hhigh : (b.toNat + 256 * leNat bytes) / 256 = leNat bytes := by
      rw [Nat.add_mul_div_left _ _ (by decide), Nat.div_eq_of_lt b.toNat_lt, Nat.zero_add]
    rw [List.length_cons, leNat, leBytes, hlow, hhigh, ih]

/-- One bit of a CRC-32 with the reflected polynomial. -/
def crc32Bit (crc : UInt32) : UInt32 := (crc >>> 1) ^^^ (0xEDB88320 &&& (0 - (crc &&& 1)))

def crc32Byte (crc : UInt32) (b : UInt8) : UInt32 := crc32Bit^[8] (crc ^^^ b.toUInt32)

/-- The IEEE CRC-32 of a byte string. -/
def crc32 (data : ByteString) : UInt32 := data.foldl crc32Byte 0xFFFFFFFF ^^^ 0xFFFFFFFF

/-- The check value of the polynomial: the digits 1 to 9. -/
example : crc32 [49, 50, 51, 52, 53, 54, 55, 56, 57] = 0xCBF43926 := by decide +kernel

end AthenaOS.Lib.Wire
