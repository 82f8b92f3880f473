import AthenaOS.Lib.BitFields

/-!
# Page descriptors (`components/aarch64_logic/src/mmu.rs`)

A stage-1 descriptor holds an output address, attributes and its type in one 64-bit word.
-/

namespace AthenaOS.Aarch64

open Lib.BitFields

/-! ## The encoder -/

/-- `DESC_VALID` and the other bits. -/
def descValid : BitVec 64 := 1 <<< 0
def descTypeTableOrPage : BitVec 64 := 1 <<< 1
def descAf : BitVec 64 := 1 <<< 10
def descNg : BitVec 64 := 1 <<< 11
def descPxn : BitVec 64 := 1 <<< 53
def descUxn : BitVec 64 := 1 <<< 54

/-- `OA_MASK_4K`. -/
def oaMask4k : BitVec 64 := 0x0000FFFFFFFFF000

/-- `AccessPerm`. -/
inductive AccessPerm where
  | rwEl1
  | rwEl0El1
  | roEl1
  | roEl0El1
  deriving DecidableEq, Repr

def AccessPerm.code : AccessPerm → BitVec 2
  | rwEl1 => 0b00
  | rwEl0El1 => 0b01
  | roEl1 => 0b10
  | roEl0El1 => 0b11

/-- `Shareability`. -/
inductive Shareability where
  | nonShareable
  | outerShareable
  | innerShareable
  deriving DecidableEq, Repr

def Shareability.code : Shareability → BitVec 2
  | nonShareable => 0b00
  | outerShareable => 0b10
  | innerShareable => 0b11

/-- `DescKind`. -/
inductive DescKind where
  | block
  | page
  | table
  deriving DecidableEq, Repr

/-- `LeafAttrs`. -/
structure LeafAttrs where
  attrIndex : BitVec 8
  ap : AccessPerm
  sh : Shareability
  af : Bool
  ng : Bool
  pxn : Bool
  uxn : Bool
  deriving DecidableEq

/-- `MmuError`. -/
inductive MmuError where
  | misalignedOrOversizedPa
  | attrIndexTooLarge
  | blockLevelInvalid
  | pageLevelInvalid
  deriving DecidableEq, Repr

/-- `pa_ok`. -/
def paOk (pa : BitVec 64) : Bool := pa &&& 0xFFF = 0 && pa &&& ~~~oaMask4k &&& 0x000FFFFFFFFFFFFF = 0

/-- `if flag { bits |= mask }`. -/
def withFlag (flag : Bool) (mask bits : BitVec 64) : BitVec 64 := if flag then bits ||| mask else bits

/-- `encode_leaf_attrs`. -/
def encodeLeafAttrs (a : LeafAttrs) : Except MmuError (BitVec 64) :=
  if a.attrIndex > 0b111 then .error .attrIndexTooLarge
  else
    let bits : BitVec 64 := 0
    let bits := bits ||| a.attrIndex.setWidth 64 <<< 2
    let bits := bits ||| a.ap.code.setWidth 64 <<< 6
    let bits := bits ||| a.sh.code.setWidth 64 <<< 8
    let bits := withFlag a.af descAf bits
    let bits := withFlag a.ng descNg bits
    let bits := withFlag a.pxn descPxn bits
    .ok (withFlag a.uxn descUxn bits)

/-- `encode_table`. -/
def encodeTable (nextTablePa : BitVec 64) : Except MmuError (BitVec 64) :=
  if !paOk nextTablePa then .error .misalignedOrOversizedPa
  else .ok (descValid ||| descTypeTableOrPage ||| nextTablePa &&& oaMask4k)

/-- The end of `encode_leaf`. -/
def leafWord (pa : BitVec 64) (kind : DescKind) (attrs : LeafAttrs) : Except MmuError (BitVec 64) := do
  let d := descValid
  let d := withFlag (kind = .page) descTypeTableOrPage d
  let d := d ||| pa &&& oaMask4k
  .ok (d ||| (← encodeLeafAttrs attrs))

/-- `encode_leaf`. -/
def encodeLeaf (pa : BitVec 64) (level : BitVec 8) (kind : DescKind) (attrs : LeafAttrs) :
    Except MmuError (BitVec 64) :=
  if !paOk pa then .error .misalignedOrOversizedPa
  else
    match kind with
    | .block => if level ≠ 1 ∧ level ≠ 2 then .error .blockLevelInvalid else leafWord pa kind attrs
    | .page => if level ≠ 3 then .error .pageLevelInvalid else leafWord pa kind attrs
    | .table => encodeTable pa

/-- `descriptor_output_pa`. -/
def descriptorOutputPa (desc : BitVec 64) : BitVec 64 := desc &&& oaMask4k

/-! ## Fields -/

/-- The attributes that a leaf's bits say. -/
structure Fields where
  attrIndex : BitVec 3
  ap : BitVec 2
  sh : BitVec 2
  af : BitVec 1
  ng : BitVec 1
  pxn : BitVec 1
  uxn : BitVec 1
  deriving DecidableEq

/-- The documented layout of a leaf. -/
def Fields.ofDescriptor (d : BitVec 64) : Fields where
  attrIndex := d.extractLsb' 2 3
  ap := d.extractLsb' 6 2
  sh := d.extractLsb' 8 2
  af := d.extractLsb' 10 1
  ng := d.extractLsb' 11 1
  pxn := d.extractLsb' 53 1
  uxn := d.extractLsb' 54 1

/-- What is asked for. -/
def LeafAttrs.fields (a : LeafAttrs) : Fields where
  attrIndex := a.attrIndex.setWidth 3
  ap := a.ap.code
  sh := a.sh.code
  af := .ofBool a.af
  ng := .ofBool a.ng
  pxn := .ofBool a.pxn
  uxn := .ofBool a.uxn

/-- The fields of a leaf, each in its place. -/
def Fields.word (f : Fields) : BitVec 64 :=
  place 64 2 f.attrIndex ||| place 64 6 f.ap ||| place 64 8 f.sh ||| place 64 10 f.af ||| place 64 11 f.ng |||
    place 64 53 f.pxn ||| place 64 54 f.uxn

variable {bits pa d : BitVec 64} {kind : DescKind} {attrs : LeafAttrs}

theorem withFlag_eq {flag : Bool} {mask : BitVec 64} {lo : Nat} (h : mask = place 64 lo 1#1) :
    withFlag flag mask bits = bits ||| place 64 lo (BitVec.ofBool flag) := by
  subst h
  cases flag with
  | false => exact (BitVec.or_zero.symm.trans (congrArg _ (place_zero 64 1 lo).symm))
  | true => rfl

/-- **The bits of the attributes** are their fields. -/
theorem encodeLeafAttrs_eq_ok {a : LeafAttrs} :
    encodeLeafAttrs a = .ok bits ↔ a.attrIndex ≤ 7 ∧ bits = a.fields.word := by
  rw [encodeLeafAttrs]
  split
  · next h => exact ⟨nofun, fun hle => absurd h (BitVec.not_lt.mpr hle.1)⟩
  · next h =>
    have hle : a.attrIndex ≤ 7 := BitVec.not_lt.mp h
    have hindex : a.attrIndex.setWidth 64 = (a.attrIndex.setWidth 3).setWidth 64 := by
      refine BitVec.eq_of_toNat_eq ?_
      have hlt : a.attrIndex.toNat ≤ 7 := hle
      rw [BitVec.toNat_setWidth, BitVec.toNat_setWidth, BitVec.toNat_setWidth]
      omega
    dsimp only
    rw [withFlag_eq (show descUxn = place 64 54 1#1 from rfl), withFlag_eq (show descPxn = place 64 53 1#1 from rfl),
      withFlag_eq (show descNg = place 64 11 1#1 from rfl), withFlag_eq (show descAf = place 64 10 1#1 from rfl), hindex,
      show (0 : BitVec 64) = 0#64 from rfl, BitVec.zero_or, Except.ok.injEq, eq_comm (a := _ ||| _)]
    exact ⟨fun h => ⟨hle, h⟩, And.right⟩

/-! ## Addresses -/

theorem oaMask4k_eq : oaMask4k = place 64 12 (BitVec.allOnes 36) := rfl

theorem and_oaMask4k (pa : BitVec 64) : pa &&& oaMask4k = place 64 12 (pa.extractLsb' 12 36) := by
  rw [oaMask4k_eq, and_ones (by decide)]

theorem getLsbD_oaMask4k : ∀ i < 64, oaMask4k.getLsbD i = (decide (12 ≤ i) && decide (i < 48)) := by decide

theorem getLsbD_low : ∀ i < 64, (0xFFF : BitVec 64).getLsbD i = decide (i < 12) := by decide

theorem getLsbD_physical : ∀ i < 64, (0x000FFFFFFFFFFFFF : BitVec 64).getLsbD i = decide (i < 52) := by decide

/-- An address that passes the check has no bits below 12 or from 48 to 51. -/
theorem getLsbD_of_paOk (h : paOk pa = true) {i : Nat} (hi : i < 12 ∨ 48 ≤ i ∧ i < 52) :
    pa.getLsbD i = false := by
  rw [paOk, Bool.and_eq_true, decide_eq_true_eq, decide_eq_true_eq] at h
  have hi64 : i < 64 := by omega
  rcases hi with hi | hi
  · have hbit : (pa &&& 0xFFF).getLsbD i = (0 : BitVec 64).getLsbD i := by rw [h.1]
    rw [BitVec.getLsbD_and, getLsbD_low i hi64, decide_eq_true hi, Bool.and_true] at hbit
    exact hbit.trans BitVec.getLsbD_zero
  · have hbit : (pa &&& ~~~oaMask4k &&& 0x000FFFFFFFFFFFFF).getLsbD i = (0 : BitVec 64).getLsbD i := by rw [h.2]
    rw [BitVec.getLsbD_and, BitVec.getLsbD_and, BitVec.getLsbD_not, getLsbD_oaMask4k i hi64, getLsbD_physical i hi64,
      decide_eq_true hi.2, decide_eq_false (show ¬ i < 48 by omega), decide_eq_true hi64, Bool.and_false, Bool.not_false,
      Bool.and_true, Bool.and_true, Bool.and_true] at hbit
    exact hbit.trans BitVec.getLsbD_zero

/-- **What the check lets through** is an address but for the bits above 51. -/
theorem masked_eq_iff (h : paOk pa = true) : pa &&& oaMask4k = pa ↔ pa.toNat < 2 ^ 52 := by
  constructor
  · intro heq
    rw [← heq]
    refine Nat.lt_of_le_of_lt (Nat.and_le_right : _ ≤ oaMask4k.toNat) (by decide)
  · intro hlt
    refine BitVec.eq_of_getLsbD_eq fun i hi => ?_
    rw [BitVec.getLsbD_and, getLsbD_oaMask4k i hi]
    by_cases hin : 12 ≤ i ∧ i < 48
    · rw [decide_eq_true hin.1, decide_eq_true hin.2, Bool.and_true, Bool.and_true]
    · have hzero : pa.getLsbD i = false := by
        rcases Nat.lt_or_ge i 52 with hi52 | hi52
        · exact getLsbD_of_paOk h (by omega)
        · exact Nat.testBit_lt_two_pow (Nat.lt_of_lt_of_le hlt (Nat.pow_le_pow_right Nat.two_pos hi52))
      rw [hzero, Bool.false_and]

/-! ## Leaves -/

/-- Bit 1 of a leaf. -/
def DescKind.code : DescKind → BitVec 1
  | block => 0
  | page | table => 1

/-- **A leaf** is its fields, each in its place. -/
theorem leafWord_eq_ok (hkind : kind ≠ .table) :
    leafWord pa kind attrs = .ok d ↔ attrs.attrIndex ≤ 7 ∧
      d = place 64 0 1#1 ||| place 64 1 kind.code ||| place 64 12 (pa.extractLsb' 12 36) |||
      attrs.fields.word := by
  have hflag : withFlag (kind = .page) descTypeTableOrPage descValid = place 64 0 1#1 ||| place 64 1 kind.code := by
    cases kind with
    | block | page => rfl
    | table => exact absurd rfl hkind
  rw [leafWord, hflag, and_oaMask4k]
  rcases hattrs : encodeLeafAttrs attrs with e | bits
  · refine ⟨nofun, fun h => ?_⟩
    exact nomatch hattrs.symm.trans (encodeLeafAttrs_eq_ok.mpr ⟨h.1, rfl⟩)
  · obtain ⟨hle, rfl⟩ := encodeLeafAttrs_eq_ok.mp hattrs
    show Except.ok _ = _ ↔ _
    rw [Except.ok.injEq, eq_comm]
    exact ⟨fun h => ⟨hle, h⟩, And.right⟩

/-- The attributes of a leaf are read back. -/
theorem fields_leafWord (hkind : kind ≠ .table) (h : leafWord pa kind attrs = .ok d) :
    Fields.ofDescriptor d = attrs.fields := by
  obtain ⟨-, rfl⟩ := (leafWord_eq_ok hkind).mp h
  simp only [Fields.ofDescriptor, Fields.word, BitVec.extractLsb'_or]
  simp (disch := omega) only [extract_place, extract_place_disjoint, BitVec.zero_or, BitVec.or_zero]

theorem descriptorOutputPa_eq (d : BitVec 64) : descriptorOutputPa d = place 64 12 (d.extractLsb' 12 36) := and_oaMask4k d

theorem outputPa_leafWord (hkind : kind ≠ .table) (h : leafWord pa kind attrs = .ok d) :
    descriptorOutputPa d = pa &&& oaMask4k := by
  obtain ⟨-, rfl⟩ := (leafWord_eq_ok hkind).mp h
  rw [descriptorOutputPa_eq, and_oaMask4k]
  simp only [Fields.word, BitVec.extractLsb'_or]
  simp (disch := omega) only [extract_place, extract_place_disjoint, BitVec.zero_or, BitVec.or_zero]

theorem outputPa_encodeTable (h : encodeTable pa = .ok d) :
    descriptorOutputPa d = pa &&& oaMask4k := by
  rw [encodeTable] at h
  split at h
  · cases h
  · obtain rfl := Except.ok.inj h
    rw [descriptorOutputPa_eq, and_oaMask4k, show descValid = place 64 0 1#1 from rfl,
      show descTypeTableOrPage = place 64 1 1#1 from rfl]
    simp only [BitVec.extractLsb'_or]
    simp (disch := omega) only [extract_place, extract_place_disjoint, BitVec.zero_or, BitVec.or_zero]

/-! ## What a descriptor says -/

/-- The bytes that a block maps. -/
def blockSize (level : BitVec 8) : Nat := if level = 1 then 2 ^ 30 else 2 ^ 21

/-- Whether a leaf or table is encoded at all. -/
def Accepted (pa : BitVec 64) (level : BitVec 8) (attrs : LeafAttrs) : DescKind → Prop
  | .block => paOk pa = true ∧ (level = 1 ∨ level = 2) ∧ attrs.attrIndex ≤ 7
  | .page => paOk pa = true ∧ level = 3 ∧ attrs.attrIndex ≤ 7
  | .table => paOk pa = true

/-- What `encode_leaf` returns has the address and the attributes that were asked for; a table has no attributes. -/
def FaithfulLeaf (pa : BitVec 64) (level : BitVec 8) (kind : DescKind) (attrs : LeafAttrs) : Prop :=
  ∀ d, encodeLeaf pa level kind attrs = .ok d → descriptorOutputPa d = pa ∧
    (kind ≠ .table → Fields.ofDescriptor d = attrs.fields) ∧ (kind = .block → blockSize level ∣ pa.toNat)

def FaithfulTable (pa : BitVec 64) : Prop := ∀ d, encodeTable pa = .ok d → descriptorOutputPa d = pa

section Faithful

variable {pa d : BitVec 64} {level : BitVec 8} {kind : DescKind} {attrs : LeafAttrs}

theorem accepted_paOk (h : Accepted pa level attrs kind) : paOk pa = true := by
  cases kind with
  | block | page => exact h.1
  | table => exact h

theorem encodeTable_accepted (h : paOk pa = true) : ∃ d, encodeTable pa = .ok d := by
  rw [encodeTable, h]
  exact ⟨_, rfl⟩

/-- A call that succeeds is accepted, and a leaf is a leaf word. -/
theorem encodeLeaf_eq_ok (h : encodeLeaf pa level kind attrs = .ok d) : Accepted pa level attrs kind ∧
    (kind ≠ .table → leafWord pa kind attrs = .ok d) ∧ (kind = .table → encodeTable pa = .ok d) := by
  unfold encodeLeaf at h
  split at h
  · cases h
  next hpa =>
  have hok : paOk pa = true := by simpa using hpa
  cases kind with
  | block | page =>
    dsimp only at h
    split at h
    · cases h
    · next hlevel =>
      have hleaf := (leafWord_eq_ok (by decide)).mp h
      exact ⟨⟨hok, by tauto, hleaf.1⟩, fun _ => h, nofun⟩
  | table => exact ⟨hok, fun hne => absurd rfl hne, fun _ => h⟩

theorem encodeLeaf_accepted (h : Accepted pa level attrs kind) : ∃ d, encodeLeaf pa level kind attrs = .ok d := by
  have hpa : ¬ (!paOk pa) = true := by rw [accepted_paOk h]; decide
  unfold encodeLeaf
  rw [if_neg hpa]
  cases kind with
  | block =>
    have hlevel : ¬ (level ≠ 1 ∧ level ≠ 2) := by have := h.2.1; tauto
    exact ⟨_, (if_neg hlevel).trans ((leafWord_eq_ok (by decide)).mpr ⟨h.2.2, rfl⟩)⟩
  | page => exact ⟨_, (if_neg (not_not_intro h.2.1)).trans ((leafWord_eq_ok (by decide)).mpr ⟨h.2.2, rfl⟩)⟩
  | table => exact encodeTable_accepted h

theorem outputPa_encodeLeaf (h : encodeLeaf pa level kind attrs = .ok d) : descriptorOutputPa d = pa &&& oaMask4k := by
  obtain ⟨-, hleaf, htable⟩ := encodeLeaf_eq_ok h
  by_cases hkind : kind = .table
  · exact outputPa_encodeTable (htable hkind)
  · exact outputPa_leafWord hkind (hleaf hkind)

theorem faithfulTable_iff : FaithfulTable pa ↔ (paOk pa = true → pa.toNat < 2 ^ 52) := by
  constructor
  · intro h hok
    obtain ⟨d, hd⟩ := encodeTable_accepted hok
    rw [← masked_eq_iff hok, ← outputPa_encodeTable hd]
    exact h d hd
  · intro h d hd
    have hok : paOk pa = true := by
      by_contra hnot
      rw [encodeTable, Bool.eq_false_iff.mpr hnot] at hd
      cases hd
    rw [outputPa_encodeTable hd, masked_eq_iff hok]
    exact h hok

/-- **Which descriptors say what was asked for**: of the calls that are not refused, those with an address below
2^52, and a multiple of its size for a block. -/
theorem faithful_iff (pa : BitVec 64) (level : BitVec 8) (kind : DescKind) (attrs : LeafAttrs) :
    FaithfulLeaf pa level kind attrs ∧ FaithfulTable pa ↔ (paOk pa = true → pa.toNat < 2 ^ 52) ∧
      (kind = .block → Accepted pa level attrs kind → blockSize level ∣ pa.toNat) := by
  rw [faithfulTable_iff]
  constructor
  · rintro ⟨hleaf, hsmall⟩
    refine ⟨hsmall, fun hkind haccepted => ?_⟩
    obtain ⟨d, hd⟩ := encodeLeaf_accepted haccepted
    exact (hleaf d hd).2.2 hkind
  · rintro ⟨hsmall, hblock⟩
    refine ⟨fun d hd => ?_, hsmall⟩
    obtain ⟨haccepted, hleaf, -⟩ := encodeLeaf_eq_ok hd
    have hok := accepted_paOk haccepted
    refine ⟨?_, fun hkind => fields_leafWord hkind (hleaf hkind), fun hkind => hblock hkind haccepted⟩
    rw [outputPa_encodeLeaf hd, masked_eq_iff hok]
    exact hsmall hok

end Faithful

/-- A 1 GiB block at an address that is aligned to 4 KiB only. -/
theorem encodeLeaf_misaligned : ¬ ∀ pa level kind attrs, FaithfulLeaf pa level kind attrs ∧ FaithfulTable pa := by
  intro h
  have hpage := (h 0x1000 1 .block ⟨0, .rwEl1, .innerShareable, true, false, false, true⟩).1
    (0x0040000000001701) (by decide)
  exact absurd (hpage.2.2 rfl) (by decide)

end AthenaOS.Aarch64
