import AthenaOS.Lib.Leb128
import AthenaOS.Wasm.Encoding

/-!
# The integers of a module

`read_uleb` and `read_sleb` on any bytes. They look at a group's shift, not at its bits, so the
last group that they take may reach past the width.
-/

namespace AthenaOS.Wasm

open Lib Lib.Wire Lib.Leb128

/-! ## What is read -/

/-- The bytes from `pos` on start with the integer `g`. -/
def IntegerAt (bytes : ByteString) (pos : Nat) (g : ByteString) : Prop := Terminated g ∧ g <+: bytes.drop pos

/-- `b` is a byte of what starts at `pos`, and `init` is before it. -/
def ByteAt (bytes : ByteString) (pos : Nat) (init : ByteString) (b : UInt8) : Prop :=
  (∀ c ∈ init, 128 ≤ c.toNat) ∧ init ++ [b] <+: bytes.drop pos

section Read

variable {bits shift pos : Nat} {g bytes rest : ByteString}

variable {result x : Nat} {r : Nat × Nat}

/-- A group that is cut off at 64 bits. -/
theorem or_group (h : result < 2 ^ shift) (hshift : shift ≤ 64) :
    result ||| x <<< shift % 2 ^ 64 = (result + 2 ^ shift * x) % 2 ^ 64 := by
  obtain ⟨n, hn⟩ := Nat.exists_eq_add_of_le hshift
  have hlow : (result + 2 ^ shift * x) % 2 ^ shift = result := by
    rw [Nat.add_mul_mod_self_left, Nat.mod_eq_of_lt h]
  have hhigh : (result + 2 ^ shift * x) / 2 ^ shift = x := by
    rw [Nat.add_mul_div_left _ _ (Nat.two_pow_pos _), Nat.div_eq_of_lt h, Nat.zero_add]
  rw [hn, Nat.shiftLeft_eq, Nat.mul_comm x, Nat.pow_add, Nat.mul_mod_mul_left, Nat.mod_mul, hlow, hhigh,
    ← or_shiftLeft h, Nat.shiftLeft_eq, Nat.mul_comm (2 ^ shift)]

/-- The groups read so far. -/
theorem group_lt {b : UInt8} (h : result < 2 ^ shift) :
    result + 2 ^ shift * (b.toNat % 2 ^ 7) < 2 ^ (shift + 7) := by
  have hle : 2 ^ shift * (b.toNat % 2 ^ 7 + 1) ≤ 2 ^ shift * 2 ^ 7 :=
    Nat.mul_le_mul_left _ (Nat.mod_lt _ (by decide))
  rw [Nat.pow_add]
  rw [Nat.mul_succ] at hle
  omega

theorem ulebLoop_terminated (hg : Terminated g) (hbits : bits ≤ 64) (hresult : result < 2 ^ shift)
    (hroom : shift + 7 * (g.length - 1) < bits) (pos : Nat) :
    ulebLoop bits (g ++ rest) pos shift result =
      some ((result + 2 ^ shift * unsigned g) % 2 ^ 64, pos + g.length) := by
  induction hg generalizing shift result pos with
  | @last b hb =>
    rw [List.length_singleton] at hroom
    rw [List.singleton_append, ulebLoop, if_neg (by omega), toNat_and_0x7F, or_group hresult (by omega)]
    dsimp only
    rw [if_pos ((toNat_and_flags b).1.mpr hb)]
    rfl
  | @more b bs hb hbs ih =>
    have hlen := hbs.length_pos
    rw [List.length_cons] at hroom
    have hnext := group_lt (b := b) hresult
    have hfits : 2 ^ (shift + 7) ≤ 2 ^ 64 := Nat.pow_le_pow_right (by decide) (by omega)
    have hvalue : result + 2 ^ shift * (b.toNat % 2 ^ 7) + 2 ^ (shift + 7) * unsigned bs =
        result + 2 ^ shift * unsigned (b :: bs) := by
      rw [unsigned, show b.toNat % 128 = b.toNat % 2 ^ 7 from rfl]
      ring
    rw [List.cons_append, ulebLoop, if_neg (by omega), toNat_and_0x7F, or_group hresult (by omega),
      Nat.mod_eq_of_lt (Nat.lt_of_lt_of_le hnext hfits)]
    dsimp only
    rw [if_neg (fun hc => by have := (toNat_and_flags b).1.mp hc; omega), ih hnext (by omega) (pos + 1), hvalue,
      List.length_cons, Nat.add_assoc pos 1, Nat.add_comm 1]

/-- What is read ends, and its last group starts inside the width. -/
theorem ulebLoop_eq_some (h : ulebLoop bits bytes pos shift result = some r) :
    ∃ g, Terminated g ∧ g <+: bytes ∧ shift + 7 * (g.length - 1) < bits := by
  induction bytes generalizing pos shift result with
  | nil => cases h
  | cons b rest ih =>
    rw [ulebLoop] at h
    split at h
    · cases h
    · next hshift =>
      dsimp only at h
      split at h
      · next hlast =>
        exact ⟨[b], .last ((toNat_and_flags b).1.mp hlast), ⟨rest, rfl⟩, Nat.not_le.mp hshift⟩
      · next hmore =>
        obtain ⟨g, hg, hpre, hroom⟩ := ih h
        have hb : 128 ≤ b.toNat := Nat.le_of_not_lt fun hb => hmore ((toNat_and_flags b).1.mpr hb)
        have hlen := hg.length_pos
        refine ⟨b :: g, .more hb hg, List.cons_prefix_cons.mpr ⟨rfl, hpre⟩, ?_⟩
        rw [List.length_cons]
        omega

/-- **What `read_uleb` reads**: the groups, up to one that starts at the width, modulo 2⁶⁴. -/
theorem readUleb_eq_some_iff (hbits : bits ≤ 64) :
    readUleb bytes bits pos = some r ↔ ∃ g, IntegerAt bytes pos g ∧ 7 * (g.length - 1) < bits ∧
      r = (unsigned g % 2 ^ 64, pos + g.length) := by
  have hread : ∀ g, IntegerAt bytes pos g → 7 * (g.length - 1) < bits →
      readUleb bytes bits pos = some (unsigned g % 2 ^ 64, pos + g.length) := by
    rintro g ⟨hg, rest, hrest⟩ hroom
    rw [readUleb, ← hrest, ulebLoop_terminated hg hbits (by decide) (by omega) pos, Nat.zero_add, Nat.pow_zero,
      Nat.one_mul]
  constructor
  · intro h
    obtain ⟨g, hg, hpre, hroom⟩ := ulebLoop_eq_some h
    rw [Nat.zero_add] at hroom
    exact ⟨g, ⟨hg, hpre⟩, hroom, Option.some.inj (h.symm.trans (hread g ⟨hg, hpre⟩ hroom))⟩
  · rintro ⟨g, hg, hroom, rfl⟩
    exact hread g hg hroom

theorem toNat_or_group {result : BitVec 64} (h : result.toNat < 2 ^ shift) (hshift : shift ≤ 64)
    (hx : x < 2 ^ 7) :
    (result ||| BitVec.ofNat 64 x <<< shift).toNat = (result.toNat + 2 ^ shift * x) % 2 ^ 64 := by
  rw [BitVec.toNat_or, BitVec.toNat_shiftLeft, BitVec.toNat_ofNat, Nat.mod_eq_of_lt (by omega : x < 2 ^ 64),
    or_group h hshift]

theorem slebLoop_terminated (hg : Terminated g) (hbits : bits ≤ 64) {result : BitVec 64}
    (hresult : result.toNat < 2 ^ shift) (hroom : shift + 7 * (g.length - 1) < bits) (pos : Nat) :
    slebLoop bits (g ++ rest) pos shift result =
      some (BitVec.ofInt 64 (result.toNat + 2 ^ shift * signed g), pos + g.length) := by
  induction hg generalizing shift result pos with
  | @last b hb =>
    rw [List.length_singleton] at hroom
    have hlow : b.toNat % 2 ^ 7 = b.toNat := Nat.mod_eq_of_lt hb
    have hvalue := toNat_or_group hresult (by omega) hb
    have hnext := group_lt (b := b) hresult
    rw [hlow] at hnext
    have hplain : result ||| BitVec.ofNat 64 b.toNat <<< shift =
        BitVec.ofInt 64 (result.toNat + 2 ^ shift * b.toNat) := by
      refine BitVec.eq_of_toNat_eq ?_
      rw [hvalue, BitVec.toNat_ofInt]
      norm_cast
    have hsigned : (result.toNat : Int) + 2 ^ shift * ((b.toNat : Int) - 128) =
        result.toNat + 2 ^ shift * b.toNat - 2 ^ (shift + 7) := by
      rw [Int.pow_add]
      ring
    rw [List.singleton_append, slebLoop, if_neg (by omega), toNat_and_0x7F, hlow]
    dsimp only
    rw [if_pos ((toNat_and_flags b).1.mpr hb), signed, show b.toNat % 128 = b.toNat from hlow]
    by_cases hsign : b.toNat < 64
    · rw [if_neg (fun hc => hc.2 (((toNat_and_flags b).2 hb).mpr hsign)), if_pos hsign, hplain]
      rfl
    rw [if_neg hsign, hsigned]
    by_cases hfull : shift + 7 < 64
    · have hfits : 2 ^ (shift + 7) ≤ 2 ^ 64 := Nat.pow_le_pow_right (by decide) (by omega)
      rw [Nat.mod_eq_of_lt (Nat.lt_of_lt_of_le hnext hfits)] at hvalue
      rw [if_pos ⟨hfull, fun hc => hsign (((toNat_and_flags b).2 hb).mp hc)⟩, or_signBits (hvalue ▸ hnext) hfull,
        hvalue]
      push_cast
      rfl
    · -- the sign is at bit 64 or above, and its weight is a multiple of 2⁶⁴
      obtain ⟨n, hn⟩ := Nat.exists_eq_add_of_le (Nat.le_of_not_lt hfull)
      have hmod : BitVec.ofInt 64 (result.toNat + 2 ^ shift * b.toNat - 2 ^ (shift + 7)) =
          BitVec.ofInt 64 (result.toNat + 2 ^ shift * b.toNat) := by
        refine BitVec.eq_of_toNat_eq ?_
        rw [BitVec.toNat_ofInt, BitVec.toNat_ofInt, hn, Int.pow_add]
        congr 1
        exact Int.sub_mul_emod_self_left _ _ _
      rw [if_neg (fun hc => hfull hc.1), hplain, hmod]
      rfl
  | @more b bs hb hbs ih =>
    have hlen := hbs.length_pos
    rw [List.length_cons] at hroom
    have hfits : 2 ^ (shift + 7) ≤ 2 ^ 64 := Nat.pow_le_pow_right (by decide) (by omega)
    have hnext := group_lt (b := b) hresult
    have hvalue := toNat_or_group hresult (by omega) (Nat.mod_lt b.toNat (by decide : 0 < 2 ^ 7))
    rw [Nat.mod_eq_of_lt (Nat.lt_of_lt_of_le hnext hfits)] at hvalue
    have hint : ((result.toNat + 2 ^ shift * (b.toNat % 2 ^ 7) : Nat) : Int) + 2 ^ (shift + 7) * signed bs =
        result.toNat + 2 ^ shift * signed (b :: bs) := by
      rw [signed_cons hbs.ne_nil, show b.toNat % 128 = b.toNat % 2 ^ 7 from rfl, Int.pow_add]
      push_cast
      ring
    rw [List.cons_append, slebLoop, if_neg (by omega), toNat_and_0x7F]
    dsimp only
    rw [if_neg (fun hc => by have := (toNat_and_flags b).1.mp hc; omega),
      ih (hvalue ▸ hnext) (by omega) (pos + 1), hvalue, hint, List.length_cons, Nat.add_assoc pos 1, Nat.add_comm 1]

theorem slebLoop_eq_some {result : BitVec 64} {r : BitVec 64 × Nat}
    (h : slebLoop bits bytes pos shift result = some r) :
    ∃ g, Terminated g ∧ g <+: bytes ∧ shift + 7 * (g.length - 1) < bits := by
  induction bytes generalizing pos shift result with
  | nil => cases h
  | cons b rest ih =>
    rw [slebLoop] at h
    split at h
    · cases h
    · next hshift =>
      dsimp only at h
      split at h
      · next hlast =>
        exact ⟨[b], .last ((toNat_and_flags b).1.mp hlast), ⟨rest, rfl⟩, Nat.not_le.mp hshift⟩
      · next hmore =>
        obtain ⟨g, hg, hpre, hroom⟩ := ih h
        have hb : 128 ≤ b.toNat := Nat.le_of_not_lt fun hb => hmore ((toNat_and_flags b).1.mpr hb)
        have hlen := hg.length_pos
        refine ⟨b :: g, .more hb hg, List.cons_prefix_cons.mpr ⟨rfl, hpre⟩, ?_⟩
        rw [List.length_cons]
        omega

/-- **What `read_sleb` reads.** -/
theorem readSleb_eq_some_iff (hbits : bits ≤ 64) {r : BitVec 64 × Nat} : readSleb bytes bits pos = some r ↔
    ∃ g, IntegerAt bytes pos g ∧ 7 * (g.length - 1) < bits ∧ r = (BitVec.ofInt 64 (signed g), pos + g.length) := by
  have hread : ∀ g, IntegerAt bytes pos g → 7 * (g.length - 1) < bits →
      readSleb bytes bits pos = some (BitVec.ofInt 64 (signed g), pos + g.length) := by
    rintro g ⟨hg, rest, hrest⟩ hroom
    rw [readSleb, ← hrest, slebLoop_terminated hg hbits (by decide) (by omega) pos]
    simp
  constructor
  · intro h
    obtain ⟨g, hg, hpre, hroom⟩ := slebLoop_eq_some h
    rw [Nat.zero_add] at hroom
    exact ⟨g, ⟨hg, hpre⟩, hroom, Option.some.inj (h.symm.trans (hread g ⟨hg, hpre⟩ hroom))⟩
  · rintro ⟨g, hg, hroom, rfl⟩
    exact hread g hg hroom

end Read

/-! ## Widths -/

/-- The last group that starts inside the width. -/
def lastGroup (bits : Nat) : Nat := (bits - 1) / 7

/-- Results are in the type, and a byte past the width is rejected. -/
def UnsignedStays (bytes : ByteString) (bits pos : Nat) : Prop :=
  (∀ v p, readUleb bytes bits pos = some (v, p) → v < 2 ^ bits) ∧
    ∀ init b, ByteAt bytes pos init b → UnsignedPast bits init.length b → readUleb bytes bits pos = none

def SignedStays (bytes : ByteString) (bits pos : Nat) : Prop :=
  (∀ v p, readSleb bytes bits pos = some (v, p) → -2 ^ (bits - 1) ≤ v.toInt ∧ v.toInt < 2 ^ (bits - 1)) ∧
    ∀ init b, ByteAt bytes pos init b → SignedPast bits init.length b → readSleb bytes bits pos = none

/-- An integer that goes on to the last group ends there with bits that the width has room for. -/
def UnsignedRoom (bytes : ByteString) (bits pos : Nat) : Prop :=
  ∀ init b, ByteAt bytes pos init b → init.length = lastGroup bits → b.toNat < 128 →
    b.toNat < 2 ^ (bits - 7 * lastGroup bits)

/-- The same, where all bits from the sign on are equal. -/
def SignedRoom (bytes : ByteString) (bits pos : Nat) : Prop :=
  ∀ init b, ByteAt bytes pos init b → init.length = lastGroup bits → b.toNat < 128 →
    b.toNat < 2 ^ (bits - 1 - 7 * lastGroup bits) ∨ 128 ≤ b.toNat + 2 ^ (bits - 1 - 7 * lastGroup bits)

section Width

variable {bits pos : Nat} {bytes : ByteString} {b : UInt8}

/-- Where a reader takes every integer whose last group starts inside the width, only that group can
get past it. -/
theorem rejects_iff {α : Type} {read : Option α} {P : Nat → UInt8 → Prop} (hbits : 0 < bits)
    (hread : (∃ r, read = some r) ↔ ∃ g, IntegerAt bytes pos g ∧ 7 * (g.length - 1) < bits)
    (hle : ∀ i b, 7 * (i + 1) ≤ bits → ¬ P i b) :
    (∀ init b, ByteAt bytes pos init b → P init.length b → read = none) ↔
      ∀ init b, ByteAt bytes pos init b → init.length = lastGroup bits → b.toNat < 128 → ¬ P init.length b := by
  constructor
  · rintro hrejects init b ⟨hinit, hpre⟩ hlast hb hpast
    have hroom : 7 * ((init ++ [b]).length - 1) < bits := by
      rw [List.length_append, List.length_singleton, Nat.add_sub_cancel, hlast, lastGroup]
      omega
    obtain ⟨r, hr⟩ := hread.mpr ⟨init ++ [b], ⟨.of_last hinit hb, hpre⟩, hroom⟩
    rw [hrejects init b ⟨hinit, hpre⟩ hpast] at hr
    cases hr
  · rintro hroom init b ⟨hinit, hpre⟩ hpast
    rcases hr : read with _ | r
    · rfl
    obtain ⟨g, ⟨hg, rest, hrest⟩, hlen⟩ := hread.mp ⟨r, hr⟩
    obtain ⟨tail, rfl, htail⟩ := hg.reaches hinit (hrest ▸ hpre)
    rw [List.length_append, List.length_cons] at hlen
    have hlast : init.length = lastGroup bits := by
      by_contra hne
      refine hle _ _ ?_ hpast
      rw [lastGroup] at hne
      omega
    cases htail with
    | last hb => exact absurd hpast (hroom init b ⟨hinit, hpre⟩ hlast hb)
    | more _ htail =>
      have := htail.length_pos
      rw [lastGroup] at hlast
      omega

theorem unsignedPast_lastGroup_iff (hbits : 0 < bits) (hb : b.toNat < 128) :
    ¬ UnsignedPast bits (lastGroup bits) b ↔ b.toNat < 2 ^ (bits - 7 * lastGroup bits) := by
  have hshift : 7 * lastGroup bits < bits := by
    rw [lastGroup]
    omega
  obtain ⟨n, hn⟩ := Nat.exists_eq_add_of_lt hshift
  have hwidth : 2 ^ bits = 2 ^ (7 * lastGroup bits) * 2 ^ (bits - 7 * lastGroup bits) := by
    rw [← Nat.pow_add]
    congr 1
    omega
  rw [UnsignedPast, not_or, Nat.not_le, Nat.not_le, Nat.mod_eq_of_lt hb, hwidth,
    Nat.mul_lt_mul_left (Nat.two_pow_pos _)]
  exact and_iff_right hshift

theorem signedPast_lastGroup_iff (hbits : 0 < bits) (hb : b.toNat < 128) :
    ¬ SignedPast bits (lastGroup bits) b ↔ b.toNat < 2 ^ (bits - 1 - 7 * lastGroup bits) ∨
      128 ≤ b.toNat + 2 ^ (bits - 1 - 7 * lastGroup bits) := by
  have hshift : 7 * lastGroup bits < bits := by
    rw [lastGroup]
    omega
  obtain ⟨n, hn⟩ : ∃ n, bits - 1 - 7 * lastGroup bits = n := ⟨_, rfl⟩
  have hsmall : 2 ^ n ≤ 2 ^ 6 := by
    refine Nat.pow_le_pow_right (by decide) ?_
    rw [← hn, lastGroup]
    omega
  have hwidth : (2 : Int) ^ (bits - 1) = 2 ^ (7 * lastGroup bits) * 2 ^ n := by
    rw [← Int.pow_add]
    congr 1
    omega
  have hpos : (0 : Int) < 2 ^ (7 * lastGroup bits) := by positivity
  have hcast : ((2 ^ n : Nat) : Int) = 2 ^ n := Nat.cast_pow 2 n
  rw [hn, SignedPast, not_or, not_or, Nat.not_le, Int.not_lt, Int.not_lt, hwidth, ← Int.mul_neg,
    Int.mul_le_mul_left hpos, Int.mul_le_mul_left hpos, signed, Nat.mod_eq_of_lt hb, and_iff_right hshift]
  split <;> omega

theorem readUleb_exists_iff (hbits : bits ≤ 64) (bytes : ByteString) (pos : Nat) :
    (∃ r, readUleb bytes bits pos = some r) ↔ ∃ g, IntegerAt bytes pos g ∧ 7 * (g.length - 1) < bits := by
  simp only [readUleb_eq_some_iff hbits]
  constructor
  · rintro ⟨_, g, hg, hlen, -⟩
    exact ⟨g, hg, hlen⟩
  · rintro ⟨g, hg, hlen⟩
    exact ⟨_, g, hg, hlen, rfl⟩

theorem readSleb_exists_iff (hbits : bits ≤ 64) (bytes : ByteString) (pos : Nat) :
    (∃ r, readSleb bytes bits pos = some r) ↔ ∃ g, IntegerAt bytes pos g ∧ 7 * (g.length - 1) < bits := by
  simp only [readSleb_eq_some_iff hbits]
  constructor
  · rintro ⟨_, g, hg, hlen, -⟩
    exact ⟨g, hg, hlen⟩
  · rintro ⟨g, hg, hlen⟩
    exact ⟨_, g, hg, hlen, rfl⟩

variable {g : ByteString} {v : Int}

/-- The last byte of an integer is one that the reader gets to. -/
theorem IntegerAt.exists_last (hg : IntegerAt bytes pos g) :
    ∃ init b, g = init ++ [b] ∧ ByteAt bytes pos init b := by
  obtain ⟨init, b, rfl, hinit, -⟩ := hg.1.exists_last
  exact ⟨init, b, rfl, hinit, hg.2⟩

/-- **Where `read_uleb` stays in its type.** -/
theorem unsignedStays_iff (hpos : 0 < bits) (hbits : bits ≤ 64) :
    UnsignedStays bytes bits pos ↔ UnsignedRoom bytes bits pos := by
  have hrejects := rejects_iff (P := UnsignedPast bits) hpos (readUleb_exists_iff hbits bytes pos)
    fun _ _ h => not_unsignedPast_of_le h
  constructor
  · intro h init b hb hlast hb'
    have hpast := hrejects.mp h.2 init b hb hlast hb'
    rw [hlast] at hpast
    exact (unsignedPast_lastGroup_iff hpos hb').mp hpast
  · intro h
    have hnone := hrejects.mpr fun init b hb hlast hb' => by
      rw [hlast]
      exact (unsignedPast_lastGroup_iff hpos hb').mpr (h init b hb hlast hb')
    refine ⟨fun v p hread => ?_, hnone⟩
    obtain ⟨g, hg, -, heq⟩ := (readUleb_eq_some_iff hbits).mp hread
    obtain ⟨rfl, -⟩ := Prod.mk.inj heq
    obtain ⟨init, b, rfl, hb⟩ := hg.exists_last
    refine Nat.lt_of_le_of_lt (Nat.mod_le _ _) (unsigned_lt_of_not_past fun hpast => ?_)
    exact nomatch (hnone init b hb hpast).symm.trans hread

/-- A number of at most 64 bits. -/
theorem toInt_ofInt (hpos : 0 < bits) (hbits : bits ≤ 64)
    (hv : -2 ^ (bits - 1) ≤ v ∧ v < 2 ^ (bits - 1)) : (BitVec.ofInt 64 v).toInt = v := by
  have hle : (2 : Int) ^ (bits - 1) ≤ 2 ^ 63 := pow_le_pow_right₀ (by decide) (by omega)
  rw [BitVec.toInt_ofInt, Int.bmod_eq_of_le] <;> omega

/-- **Where `read_sleb` stays in its type.** -/
theorem signedStays_iff (hpos : 0 < bits) (hbits : bits ≤ 64) :
    SignedStays bytes bits pos ↔ SignedRoom bytes bits pos := by
  have hrejects := rejects_iff (P := SignedPast bits) hpos (readSleb_exists_iff hbits bytes pos)
    fun _ _ h => not_signedPast_of_le h
  constructor
  · intro h init b hb hlast hb'
    have hpast := hrejects.mp h.2 init b hb hlast hb'
    rw [hlast] at hpast
    exact (signedPast_lastGroup_iff hpos hb').mp hpast
  · intro h
    have hnone := hrejects.mpr fun init b hb hlast hb' => by
      rw [hlast]
      exact (signedPast_lastGroup_iff hpos hb').mpr (h init b hb hlast hb')
    refine ⟨fun v p hread => ?_, hnone⟩
    obtain ⟨g, hg, -, heq⟩ := (readSleb_eq_some_iff hbits).mp hread
    obtain ⟨rfl, -⟩ := Prod.mk.inj heq
    obtain ⟨init, b, rfl, hb⟩ := hg.exists_last
    have hrange : -2 ^ (bits - 1) ≤ signed (init ++ [b]) ∧ signed (init ++ [b]) < 2 ^ (bits - 1) := by
      refine signed_range_of_not_past fun hpast => ?_
      exact nomatch (hnone init b hb hpast).symm.trans hread
    rwa [toInt_ofInt hpos hbits hrange]

/-! ## Round trips -/

theorem integerAt_append (hg : Terminated g) (pre rest : ByteString) :
    IntegerAt (pre ++ g ++ rest) pre.length g := by
  refine ⟨hg, ⟨rest, ?_⟩⟩
  rw [List.append_assoc, List.drop_left]

theorem readUleb_encodeUnsigned (hpos : 0 < bits) (hbits : bits ≤ 64) {v : Nat} (hv : v < 2 ^ bits)
    (pre rest : ByteString) : readUleb (pre ++ encodeUnsigned v ++ rest) bits pre.length =
      some (v, pre.length + (encodeUnsigned v).length) := by
  have hfits : 2 ^ bits ≤ 2 ^ 64 := Nat.pow_le_pow_right (by decide) hbits
  refine (readUleb_eq_some_iff hbits).mpr ⟨_, integerAt_append (terminated_encodeUnsigned v) pre rest,
    length_encodeUnsigned_lt hpos hv, ?_⟩
  rw [unsigned_encodeUnsigned, Nat.mod_eq_of_lt (Nat.lt_of_lt_of_le hv hfits)]

theorem readSleb_encodeSigned (hpos : 0 < bits) (hbits : bits ≤ 64)
    (hv : -2 ^ (bits - 1) ≤ v ∧ v < 2 ^ (bits - 1)) (pre rest : ByteString) :
    ∃ r, readSleb (pre ++ encodeSigned v ++ rest) bits pre.length =
      some (r, pre.length + (encodeSigned v).length) ∧ r.toInt = v := by
  refine ⟨BitVec.ofInt 64 v, ?_, toInt_ofInt hpos hbits hv⟩
  refine (readSleb_eq_some_iff hbits).mpr ⟨_, integerAt_append (terminated_encodeSigned v) pre rest,
    length_encodeSigned_lt hpos hv.1 hv.2, ?_⟩
  rw [signed_encodeSigned]

/-- **Both readers stay in their types** exactly where the last group has room, and read every shortest
encoding back. -/
theorem readLeb_stays_iff (hbits : bits = 32 ∨ bits = 64) (bytes : ByteString) (pos : Nat) :
    (UnsignedStays bytes bits pos ↔ UnsignedRoom bytes bits pos) ∧
    (SignedStays bytes bits pos ↔ SignedRoom bytes bits pos) ∧
    (∀ v < 2 ^ bits, Shortest unsigned (encodeUnsigned v) v ∧ ∀ pre rest : ByteString,
      readUleb (pre ++ encodeUnsigned v ++ rest) bits pre.length =
        some (v, pre.length + (encodeUnsigned v).length)) ∧
    ∀ v : Int, -2 ^ (bits - 1) ≤ v ∧ v < 2 ^ (bits - 1) → Shortest signed (encodeSigned v) v ∧
      ∀ pre rest : ByteString, ∃ r, readSleb (pre ++ encodeSigned v ++ rest) bits pre.length =
        some (r, pre.length + (encodeSigned v).length) ∧ r.toInt = v := by
  have hpos : 0 < bits := by omega
  have hle : bits ≤ 64 := by omega
  refine ⟨unsignedStays_iff hpos hle, signedStays_iff hpos hle, fun v hv => ?_, fun v hv => ?_⟩
  · exact ⟨shortest_encodeUnsigned v, readUleb_encodeUnsigned hpos hle hv⟩
  · exact ⟨shortest_encodeSigned v, readSleb_encodeSigned hpos hle hv⟩

theorem readLeb_stays_iff_short : UnsignedStays [0xE5, 0x8E, 0x26] 32 0 ↔ UnsignedRoom [0xE5, 0x8E, 0x26] 32 0 :=
  (readLeb_stays_iff (.inl rfl) _ _).1

/-- The fifth group starts at bit 28, and all of its seven bits are taken. -/
theorem readUleb_leaves : ¬ ∀ bytes pos bits, bits = 32 ∨ bits = 64 →
    UnsignedStays bytes bits pos ∧ SignedStays bytes bits pos := by
  intro h
  have hread : readUleb [0xFF, 0xFF, 0xFF, 0xFF, 0x7F] 32 0 = some (2 ^ 35 - 1, 5) := by decide
  exact absurd ((h _ 0 32 (.inl rfl)).1.1 _ _ hread) (by decide)

end Width

end AthenaOS.Wasm
