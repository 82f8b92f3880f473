import Mathlib

/-!
# LEB128

Integers as groups of seven bits, the lowest first, one group a byte. The top bit of a byte says
that another one follows; a signed integer has its sign in the highest bit of the last group.
-/

namespace AthenaOS.Lib.Leb128

/-- Every byte but the last has its top bit set. -/
inductive Terminated : List UInt8 → Prop
  | last {b : UInt8} : b.toNat < 128 → Terminated [b]
  | more {b : UInt8} {bs : List UInt8} : 128 ≤ b.toNat → Terminated bs → Terminated (b :: bs)

variable {bs init : List UInt8} {b : UInt8}

theorem Terminated.ne_nil (h : Terminated bs) : bs ≠ [] := by
  cases h <;> exact List.cons_ne_nil _ _

theorem Terminated.length_pos (h : Terminated bs) : 0 < bs.length :=
  List.length_pos_iff.mpr h.ne_nil

/-- A byte behind bytes that have their top bits set is one of the integer that starts there. -/
theorem Terminated.reaches {rest : List UInt8} (h : Terminated bs)
    (hinit : ∀ c ∈ init, 128 ≤ c.toNat) (hpre : init ++ [b] <+: bs ++ rest) :
    ∃ tail, bs = init ++ b :: tail ∧ Terminated (b :: tail) := by
  induction init generalizing bs with
  | nil =>
    cases h with
    | last hb =>
      obtain ⟨rfl, -⟩ := List.cons_prefix_cons.mp hpre
      exact ⟨[], rfl, .last hb⟩
    | more hb h =>
      obtain ⟨rfl, -⟩ := List.cons_prefix_cons.mp hpre
      exact ⟨_, rfl, .more hb h⟩
  | cons c init ih =>
    have hc := hinit c List.mem_cons_self
    cases h with
    | last hb =>
      obtain ⟨rfl, -⟩ := List.cons_prefix_cons.mp hpre
      omega
    | more hb h =>
      obtain ⟨rfl, hpre'⟩ := List.cons_prefix_cons.mp hpre
      obtain ⟨tail, rfl, htail⟩ := ih h (fun d hd => hinit d (List.mem_cons_of_mem _ hd)) hpre'
      exact ⟨tail, rfl, htail⟩

/-- Bytes that have their top bits set, and the last one. -/
theorem Terminated.exists_last (h : Terminated bs) :
    ∃ init b, bs = init ++ [b] ∧ (∀ c ∈ init, 128 ≤ c.toNat) ∧ b.toNat < 128 := by
  induction h with
  | @last b hb => exact ⟨[], b, rfl, by simp, hb⟩
  | @more c _ hc _ ih =>
    obtain ⟨init, b, rfl, hinit, hb⟩ := ih
    exact ⟨c :: init, b, rfl, List.forall_mem_cons.mpr ⟨hc, hinit⟩, hb⟩

theorem Terminated.of_last (hinit : ∀ c ∈ init, 128 ≤ c.toNat) (hb : b.toNat < 128) :
    Terminated (init ++ [b]) := by
  induction init with
  | nil => exact .last hb
  | cons c init ih =>
    obtain ⟨hc, hinit⟩ := List.forall_mem_cons.mp hinit
    exact .more hc (ih hinit)

/-! ## Values -/

/-- The groups, the lowest first. -/
def unsigned : List UInt8 → Nat
  | [] => 0
  | b :: bs => b.toNat % 128 + 128 * unsigned bs

/-- The same, with the sign in the last group. -/
def signed : List UInt8 → Int
  | [] => 0
  | [b] => if b.toNat % 128 < 64 then (b.toNat % 128 : Nat) else (b.toNat % 128 : Nat) - 128
  | b :: b' :: bs => (b.toNat % 128 : Nat) + 128 * signed (b' :: bs)

theorem signed_cons (h : bs ≠ []) : signed (b :: bs) = (b.toNat % 128 : Nat) + 128 * signed bs := by
  cases bs with
  | nil => exact absurd rfl h
  | cons b' bs => rw [signed]

theorem unsigned_lt (bs : List UInt8) : unsigned bs < 2 ^ (7 * bs.length) := by
  induction bs with
  | nil => decide
  | cons b bs ih =>
    rw [unsigned, List.length_cons, Nat.mul_add, Nat.pow_add]
    omega

/-- The last group on its own. -/
theorem signed_singleton (b : UInt8) : -64 ≤ signed [b] ∧ signed [b] < 64 := by
  rw [signed]
  split <;> omega

theorem unsigned_append (init : List UInt8) (b : UInt8) :
    unsigned (init ++ [b]) = unsigned init + 2 ^ (7 * init.length) * (b.toNat % 128) := by
  induction init with
  | nil => simp [unsigned]
  | cons c init ih =>
    rw [List.cons_append, unsigned, unsigned, ih, List.length_cons]
    ring

theorem signed_append (init : List UInt8) (b : UInt8) :
    signed (init ++ [b]) = unsigned init + 2 ^ (7 * init.length) * signed [b] := by
  induction init with
  | nil => simp [unsigned]
  | cons c init ih =>
    rw [List.cons_append, signed_cons (by simp), ih, unsigned, List.length_cons]
    push_cast
    ring

/-! ## Widths -/

/-- A byte with `i` bytes before it that brings in bits from `bits` on. -/
def UnsignedPast (bits i : Nat) (b : UInt8) : Prop := bits ≤ 7 * i ∨ 2 ^ bits ≤ 2 ^ (7 * i) * (b.toNat % 128)

/-- The same for a signed integer, whose sign goes on for ever. -/
def SignedPast (bits i : Nat) (b : UInt8) : Prop :=
  bits ≤ 7 * i ∨ 2 ^ (7 * i) * signed [b] < -2 ^ (bits - 1) ∨ 2 ^ (bits - 1) < 2 ^ (7 * i) * (signed [b] + 1)

section Past

variable {bits i : Nat} {b : UInt8} {init : List UInt8}

/-- With room for a whole group nothing gets past the width. -/
theorem not_unsignedPast_of_le (h : 7 * (i + 1) ≤ bits) : ¬ UnsignedPast bits i b := by
  obtain ⟨n, rfl⟩ := Nat.exists_eq_add_of_le h
  have hgroup : 2 ^ (7 * i) * (b.toNat % 128) < 2 ^ (7 * i) * 2 ^ (7 + n) := by
    refine Nat.mul_lt_mul_of_pos_left ?_ (Nat.two_pow_pos _)
    refine Nat.lt_of_lt_of_le (Nat.mod_lt _ (by decide)) ?_
    exact Nat.pow_le_pow_right (n := 2) (by decide) (Nat.le_add_right 7 n)
  rw [← Nat.pow_add, ← Nat.add_assoc] at hgroup
  rintro (hshift | hpast)
  · omega
  · exact absurd hpast (Nat.not_le.mpr hgroup)

theorem not_signedPast_of_le (h : 7 * (i + 1) ≤ bits) : ¬ SignedPast bits i b := by
  obtain ⟨n, rfl⟩ := Nat.exists_eq_add_of_le h
  have hwidth : (2 : Int) ^ (7 * (i + 1) + n - 1) = 2 ^ (7 * i) * 2 ^ (6 + n) := by
    rw [← Int.pow_add]
    congr 1
    omega
  have hpos : (0 : Int) < 2 ^ (7 * i) := by positivity
  have hgroup : (2 : Int) ^ 6 ≤ 2 ^ (6 + n) := pow_le_pow_right₀ (by decide) (Nat.le_add_right 6 n)
  obtain ⟨hlo, hhi⟩ := signed_singleton b
  rintro (hshift | hpast | hpast)
  · omega
  · rw [hwidth, ← Int.mul_neg] at hpast
    have := lt_of_mul_lt_mul_left hpast hpos.le
    omega
  · rw [hwidth] at hpast
    have := lt_of_mul_lt_mul_left hpast hpos.le
    omega

/-- An integer whose last byte stays in the width fits it. -/
theorem unsigned_lt_of_not_past (h : ¬ UnsignedPast bits init.length b) : unsigned (init ++ [b]) < 2 ^ bits := by
  obtain ⟨hshift, hpast⟩ := not_or.mp h
  obtain ⟨n, rfl⟩ := Nat.exists_eq_add_of_le (Nat.le_of_not_le hshift)
  rw [Nat.pow_add, Nat.not_le] at hpast
  have hgroup := Nat.mul_le_mul_left (2 ^ (7 * init.length)) (Nat.lt_of_mul_lt_mul_left hpast)
  have hlow := unsigned_lt init
  rw [Nat.mul_succ] at hgroup
  rw [unsigned_append, Nat.pow_add]
  omega

theorem signed_range_of_not_past (h : ¬ SignedPast bits init.length b) :
    -2 ^ (bits - 1) ≤ signed (init ++ [b]) ∧ signed (init ++ [b]) < 2 ^ (bits - 1) := by
  obtain ⟨-, hrange⟩ := not_or.mp h
  obtain ⟨hlo, hhi⟩ := not_or.mp hrange
  have hlow : (unsigned init : Int) < 2 ^ (7 * init.length) := by exact_mod_cast unsigned_lt init
  rw [Int.mul_add] at hhi
  rw [signed_append]
  omega

end Past

/-! ## Encodings -/

/-- No terminated string with the same value is shorter. -/
def Shortest {α : Type} (value : List UInt8 → α) (bs : List UInt8) (a : α) : Prop :=
  Terminated bs ∧ value bs = a ∧ ∀ bs', Terminated bs' → value bs' = a → bs.length ≤ bs'.length

def encodeUnsigned (v : Nat) : List UInt8 :=
  if v < 128 then [UInt8.ofNat v] else UInt8.ofNat (v % 128 + 128) :: encodeUnsigned (v / 128)

def encodeSigned (v : Int) : List UInt8 :=
  if -64 ≤ v ∧ v < 64 then [UInt8.ofNat (v % 128).toNat]
  else UInt8.ofNat ((v % 128).toNat + 128) :: encodeSigned (v / 128)
termination_by v.natAbs

theorem toNat_ofNat {n : Nat} (h : n < 256) : (UInt8.ofNat n).toNat = n := Nat.mod_eq_of_lt h

theorem terminated_encodeUnsigned (v : Nat) : Terminated (encodeUnsigned v) := by
  induction v using encodeUnsigned.induct with
  | case1 v hv =>
    rw [encodeUnsigned, if_pos hv]
    exact .last (by rwa [toNat_ofNat (by omega)])
  | case2 v hv ih =>
    rw [encodeUnsigned, if_neg hv]
    exact .more (by rw [toNat_ofNat (by omega)]; omega) ih

theorem unsigned_encodeUnsigned (v : Nat) : unsigned (encodeUnsigned v) = v := by
  induction v using encodeUnsigned.induct with
  | case1 v hv =>
    rw [encodeUnsigned, if_pos hv, unsigned, unsigned, toNat_ofNat (by omega)]
    omega
  | case2 v hv ih =>
    rw [encodeUnsigned, if_neg hv, unsigned, ih, toNat_ofNat (by omega)]
    omega

theorem length_encodeUnsigned_le (h : Terminated bs) :
    (encodeUnsigned (unsigned bs)).length ≤ bs.length := by
  induction h with
  | @last b hb =>
    rw [encodeUnsigned, if_pos]
    · exact Nat.le_refl 1
    · rw [unsigned, unsigned]
      omega
  | @more b bs _ _ ih =>
    have hhigh : (b.toNat % 128 + 128 * unsigned bs) / 128 = unsigned bs := by omega
    rw [unsigned, encodeUnsigned, List.length_cons]
    split
    · exact Nat.le_add_left 1 _
    · rw [hhigh]
      exact Nat.succ_le_succ ih

/-- **The encoding is the shortest one.** -/
theorem shortest_encodeUnsigned (v : Nat) : Shortest unsigned (encodeUnsigned v) v := by
  refine ⟨terminated_encodeUnsigned v, unsigned_encodeUnsigned v, ?_⟩
  rintro bs hbs rfl
  exact length_encodeUnsigned_le hbs

/-- A number of `bits` bits is encoded in as many groups as cover them. -/
theorem length_encodeUnsigned_lt {v bits : Nat} (hbits : 0 < bits) (hv : v < 2 ^ bits) :
    7 * ((encodeUnsigned v).length - 1) < bits := by
  induction v using encodeUnsigned.induct generalizing bits with
  | case1 v h =>
    rw [encodeUnsigned, if_pos h]
    exact hbits
  | case2 v h ih =>
    have hlong : 7 < bits := by
      by_contra hle
      have : 2 ^ bits ≤ 2 ^ 7 := Nat.pow_le_pow_right (by decide) (by omega)
      omega
    obtain ⟨n, rfl⟩ : ∃ n, bits = n + 7 := ⟨bits - 7, by omega⟩
    rw [Nat.pow_add] at hv
    have hlen := ih (by omega : 0 < n) (by omega)
    rw [encodeUnsigned, if_neg h, List.length_cons]
    omega

theorem terminated_encodeSigned (v : Int) : Terminated (encodeSigned v) := by
  induction v using encodeSigned.induct with
  | case1 v hv =>
    rw [encodeSigned, if_pos hv]
    exact .last (by rw [toNat_ofNat (by omega)]; omega)
  | case2 v hv ih =>
    rw [encodeSigned, if_neg hv]
    exact .more (by rw [toNat_ofNat (by omega)]; omega) ih

theorem signed_encodeSigned (v : Int) : signed (encodeSigned v) = v := by
  induction v using encodeSigned.induct with
  | case1 v hv =>
    rw [encodeSigned, if_pos hv, signed, toNat_ofNat (by omega)]
    split <;> omega
  | case2 v hv ih =>
    rw [encodeSigned, if_neg hv, signed_cons (terminated_encodeSigned _).ne_nil, ih, toNat_ofNat (by omega)]
    omega

theorem length_encodeSigned_le (h : Terminated bs) :
    (encodeSigned (signed bs)).length ≤ bs.length := by
  induction h with
  | @last b hb =>
    rw [encodeSigned, if_pos (signed_singleton b)]
    exact Nat.le_refl 1
  | @more b bs _ hbs ih =>
    have hhigh : (((b.toNat % 128 : Nat) : Int) + 128 * signed bs) / 128 = signed bs := by omega
    rw [signed_cons hbs.ne_nil, encodeSigned, List.length_cons]
    split
    · exact Nat.le_add_left 1 _
    · rw [hhigh]
      exact Nat.succ_le_succ ih

/-- **The encoding is the shortest one.** -/
theorem shortest_encodeSigned (v : Int) : Shortest signed (encodeSigned v) v := by
  refine ⟨terminated_encodeSigned v, signed_encodeSigned v, ?_⟩
  rintro bs hbs rfl
  exact length_encodeSigned_le hbs

theorem length_encodeSigned_lt {v : Int} {bits : Nat} (hbits : 0 < bits) (hlo : -2 ^ (bits - 1) ≤ v)
    (hhi : v < 2 ^ (bits - 1)) : 7 * ((encodeSigned v).length - 1) < bits := by
  induction v using encodeSigned.induct generalizing bits with
  | case1 v h =>
    rw [encodeSigned, if_pos h]
    exact hbits
  | case2 v h ih =>
    have hlong : 7 < bits := by
      by_contra hle
      have : (2 : Int) ^ (bits - 1) ≤ 2 ^ 6 := pow_le_pow_right₀ (by decide) (by omega)
      omega
    obtain ⟨n, rfl⟩ : ∃ n, bits = n + 1 + 7 := ⟨bits - 8, by omega⟩
    rw [show n + 1 + 7 - 1 = n + 7 by omega, Int.pow_add] at hlo hhi
    have hlen := ih (by omega : 0 < n + 1) (by rw [Nat.add_sub_cancel]; omega) (by rw [Nat.add_sub_cancel]; omega)
    rw [encodeSigned, if_neg h, List.length_cons]
    omega

end AthenaOS.Lib.Leb128
