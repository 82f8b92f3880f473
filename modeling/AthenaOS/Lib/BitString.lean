import Mathlib

/-!
# Bit strings

Packed formats are byte strings read bit by bit, the lowest bit of a byte first or the highest.
-/

namespace AthenaOS.Lib

/-- The `n` low bits of `v`, the lowest first. -/
def lsbBits : Nat → Nat → List Bool
  | 0, _ => []
  | n + 1, v => (v % 2 == 1) :: lsbBits n (v / 2)

/-- The number whose bits these are, the lowest first. -/
def lsbNat : List Bool → Nat
  | [] => 0
  | b :: bs => b.toNat + 2 * lsbNat bs

@[simp] theorem length_lsbBits (n v : Nat) : (lsbBits n v).length = n := by
  induction n generalizing v with
  | zero => rfl
  | succ n ih => rw [lsbBits, List.length_cons, ih]

/-- A number is its low bits and then the rest of it, which is how a buffer of bits is flushed byte by byte. -/
theorem lsbBits_add (m n v : Nat) : lsbBits (m + n) v = lsbBits m v ++ lsbBits n (v / 2 ^ m) := by
  induction m generalizing v with
  | zero => rw [Nat.zero_add, lsbBits, List.nil_append, Nat.pow_zero, Nat.div_one]
  | succ m ih =>
    rw [Nat.add_right_comm, lsbBits, lsbBits, ih, List.cons_append, Nat.div_div_eq_div_mul, Nat.pow_succ']

/-- Bits above the `n` low ones do not show. -/
theorem lsbBits_add_mul (n a b : Nat) : lsbBits n (a + 2 ^ n * b) = lsbBits n a := by
  induction n generalizing a b with
  | zero => rfl
  | succ n ih =>
    have hdiv : (a + 2 ^ (n + 1) * b) / 2 = a / 2 + 2 ^ n * b := by
      rw [Nat.pow_succ', Nat.mul_assoc, Nat.add_mul_div_left _ _ (by decide)]
    have hmod : (a + 2 ^ (n + 1) * b) % 2 = a % 2 := by
      rw [Nat.pow_succ', Nat.mul_assoc, Nat.add_mul_mod_self_left]
    rw [lsbBits, lsbBits, hdiv, hmod, ih]

theorem lsbBits_mod (n v : Nat) : lsbBits n (v % 2 ^ n) = lsbBits n v := by
  conv_rhs => rw [← Nat.mod_add_div v (2 ^ n)]
  rw [lsbBits_add_mul]

theorem lsbNat_lsbBits (n v : Nat) : lsbNat (lsbBits n v) = v % 2 ^ n := by
  induction n generalizing v with
  | zero => rw [lsbBits, lsbNat, Nat.pow_zero, Nat.mod_one]
  | succ n ih =>
    rw [lsbBits, lsbNat, ih, Nat.pow_succ', Nat.mod_mul]
    have hbit : (v % 2 == 1).toNat = v % 2 := by
      rcases Nat.mod_two_eq_zero_or_one v with h | h <;> rw [h] <;> rfl
    rw [hbit]

/-- The bits of a byte string. -/
def bitsOf (data : List UInt8) : List Bool := data.flatMap fun b => lsbBits 8 b.toNat

@[simp] theorem bitsOf_nil : bitsOf [] = [] := rfl

@[simp] theorem bitsOf_cons (b : UInt8) (data : List UInt8) :
    bitsOf (b :: data) = lsbBits 8 b.toNat ++ bitsOf data := List.flatMap_cons

@[simp] theorem bitsOf_append (data data' : List UInt8) :
    bitsOf (data ++ data') = bitsOf data ++ bitsOf data' := List.flatMap_append

/-- Whole bytes dropped. -/
theorem drop_bitsOf (data : List UInt8) (i : Nat) :
    (bitsOf data).drop (8 * i) = bitsOf (data.drop i) := by
  induction data generalizing i with
  | nil => rw [List.drop_nil, bitsOf_nil, List.drop_nil]
  | cons b data ih =>
    cases i with
    | zero => rfl
    | succ i =>
      have hlen : 8 * (i + 1) = (lsbBits 8 b.toNat).length + 8 * i := by
        rw [length_lsbBits]
        omega
      rw [bitsOf_cons, hlen, ← List.drop_drop, List.drop_left, List.drop_succ_cons, ih]

/-- The bits of a number from the `k`-th on. -/
theorem drop_lsbBits {k n : Nat} (v : Nat) (h : k ≤ n) :
    (lsbBits n v).drop k = lsbBits (n - k) (v / 2 ^ k) := by
  obtain ⟨m, rfl⟩ := Nat.exists_eq_add_of_le h
  rw [lsbBits_add, List.drop_left' (length_lsbBits k v), Nat.add_sub_cancel_left]

/-! ## The highest bit first -/

/-- The `n` low bits of `v`, the highest first. -/
def msbBits (n v : Nat) : List Bool := (lsbBits n v).reverse

/-- The number whose bits these are, the highest first. -/
def msbNat (bits : List Bool) : Nat := bits.foldl (fun n b => 2 * n + b.toNat) 0

@[simp] theorem length_msbBits (n v : Nat) : (msbBits n v).length = n := by
  rw [msbBits, List.length_reverse, length_lsbBits]

theorem msbBits_add (m n v : Nat) : msbBits (m + n) v = msbBits m (v / 2 ^ n) ++ msbBits n v := by
  rw [msbBits, Nat.add_comm, lsbBits_add, List.reverse_append]
  rfl

/-- Bits above the `n` low ones do not show. -/
theorem msbBits_mod {n m : Nat} (h : n ≤ m) (v : Nat) : msbBits n (v % 2 ^ m) = msbBits n v := by
  rw [msbBits, msbBits, ← lsbBits_mod, Nat.mod_mod_of_dvd _ (Nat.pow_dvd_pow 2 h), lsbBits_mod]

theorem msbBits_injective {n v v' : Nat} (hv : v < 2 ^ n) (hv' : v' < 2 ^ n) (h : msbBits n v = msbBits n v') :
    v = v' := by
  have hlow := congrArg lsbNat (List.reverse_injective h)
  rwa [lsbNat_lsbBits, lsbNat_lsbBits, Nat.mod_eq_of_lt hv, Nat.mod_eq_of_lt hv'] at hlow

theorem msbBits_zero (n : Nat) : msbBits n 0 = List.replicate n false := by
  have hlow : lsbBits n 0 = List.replicate n false := by
    induction n with
    | zero => rfl
    | succ n ih =>
      rw [lsbBits, ih]
      rfl
  rw [msbBits, hlow, List.reverse_replicate]

/-- Numbers of one width are told apart by their bits, one after the other. -/
theorem flatMap_msbBits_injective {n : Nat} {vs vs' : List Nat} (hn : 0 < n) (hvs : ∀ v ∈ vs, v < 2 ^ n)
    (hvs' : ∀ v ∈ vs', v < 2 ^ n) (h : vs.flatMap (msbBits n) = vs'.flatMap (msbBits n)) : vs = vs' := by
  induction vs generalizing vs' with
  | nil =>
    cases vs' with
    | nil => rfl
    | cons v' vs' =>
      have hlen := congrArg List.length h
      rw [List.flatMap_cons, List.length_append, length_msbBits] at hlen
      exact absurd hlen (by rw [List.flatMap_nil, List.length_nil]; omega)
  | cons v vs ih =>
    cases vs' with
    | nil =>
      have hlen := congrArg List.length h
      rw [List.flatMap_cons, List.length_append, length_msbBits] at hlen
      exact absurd hlen (by rw [List.flatMap_nil, List.length_nil]; omega)
    | cons v' vs' =>
      obtain ⟨hv, hrest⟩ := List.forall_mem_cons.mp hvs
      obtain ⟨hv', hrest'⟩ := List.forall_mem_cons.mp hvs'
      rw [List.flatMap_cons, List.flatMap_cons] at h
      obtain ⟨hhead, htail⟩ := List.append_inj h (by rw [length_msbBits, length_msbBits])
      rw [msbBits_injective hv hv' hhead, ih hrest hrest' htail]

end AthenaOS.Lib
