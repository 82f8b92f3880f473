import AthenaOS.Wasm.Sandbox
import AthenaOS.Wasm.Semantics

/-!
# The binary format

The grammar of the WebAssembly binary format for integers and instructions, and what the
decoder and the scans of the interpreter do on bytes of that grammar.
-/

namespace AthenaOS.Wasm

open Lib Lib.Wire

/-! ## Integers -/

/-- `uN`. -/
inductive ULeb : Nat → ByteString → Nat → Prop
  | last {N : Nat} {b : UInt8} : b.toNat < 2 ^ 7 → b.toNat < 2 ^ N → ULeb N [b] b.toNat
  | more {N m : Nat} {b : UInt8} {bs : ByteString} : 2 ^ 7 ≤ b.toNat → 7 < N → ULeb (N - 7) bs m →
    ULeb N (b :: bs) (2 ^ 7 * m + (b.toNat - 2 ^ 7))

/-- `sN`. -/
inductive SLeb : Nat → ByteString → Int → Prop
  | pos {N : Nat} {b : UInt8} : b.toNat < 2 ^ 6 → b.toNat < 2 ^ (N - 1) → SLeb N [b] b.toNat
  | neg {N : Nat} {b : UInt8} : 2 ^ 6 ≤ b.toNat → b.toNat < 2 ^ 7 → 2 ^ 7 ≤ b.toNat + 2 ^ (N - 1) →
    SLeb N [b] (b.toNat - 2 ^ 7)
  | more {N : Nat} {m : Int} {b : UInt8} {bs : ByteString} : 2 ^ 7 ≤ b.toNat → 7 < N →
    SLeb (N - 7) bs m → SLeb N (b :: bs) (2 ^ 7 * m + (b.toNat - 2 ^ 7))

theorem toNat_and_0x7F (b : UInt8) : b.toNat &&& 0x7F = b.toNat % 2 ^ 7 :=
  Nat.and_two_pow_sub_one_eq_mod b.toNat 7

theorem toNat_and_flags (b : UInt8) :
    (b.toNat &&& 0x80 = 0 ↔ b.toNat < 2 ^ 7) ∧
      (b.toNat < 2 ^ 7 → (b.toNat &&& 0x40 = 0 ↔ b.toNat < 2 ^ 6)) := by
  have hall : ∀ n < 256, (n &&& 0x80 = 0 ↔ n < 2 ^ 7) ∧ (n < 2 ^ 7 → (n &&& 0x40 = 0 ↔ n < 2 ^ 6)) := by
    decide +kernel
  exact hall b.toNat b.toNat_lt

variable {result x shift N n pos bits : Nat} {bs code rest : ByteString} {b : UInt8}

/-- A new group of bits above the ones read so far. -/
theorem or_shiftLeft (h : result < 2 ^ shift) :
    result ||| x <<< shift = result + 2 ^ shift * x := by
  rw [Nat.or_comm, ← Nat.shiftLeft_add_eq_or_of_lt h, Nat.shiftLeft_eq, Nat.mul_comm, Nat.add_comm]

theorem ULeb.lt (h : ULeb N bs n) : n < 2 ^ N := by
  induction h with
  | last _ hN => exact hN
  | @more N m b bs hb hN _ ih =>
    have hpow : 2 ^ N = 2 ^ 7 * 2 ^ (N - 7) := by
      rw [← Nat.pow_add]
      congr 1
      omega
    have hb' : b.toNat < 256 := b.toNat_lt
    have hm : 2 ^ 7 * (m + 1) ≤ 2 ^ 7 * 2 ^ (N - 7) := Nat.mul_le_mul_left _ ih
    omega

theorem ulebLoop_of (h : ULeb N bs n) (hN : 0 < N) (hshift : shift + N = 32)
    (hresult : result < 2 ^ shift) (rest : ByteString) (pos : Nat) :
    ulebLoop 32 (bs ++ rest) pos shift result = some (result + 2 ^ shift * n, pos + bs.length) := by
  induction h generalizing shift result pos with
  | @last N b hb _ =>
    have hmod : (b.toNat % 2 ^ 7) <<< shift % 2 ^ 64 = b.toNat <<< shift := by
      rw [Nat.mod_eq_of_lt hb, Nat.shiftLeft_eq]
      refine Nat.mod_eq_of_lt (Nat.lt_of_lt_of_le (Nat.mul_lt_mul_of_pos_right hb (Nat.two_pow_pos _)) ?_)
      rw [← Nat.pow_add]
      exact Nat.pow_le_pow_right (by decide) (by omega)
    rw [List.singleton_append, ulebLoop, if_neg (by omega), toNat_and_0x7F, hmod, or_shiftLeft hresult]
    dsimp only
    rw [if_pos ((toNat_and_flags b).1.mpr hb)]
    rfl
  | @more N m b bs hb hN7 _ ih =>
    have hlow : b.toNat % 2 ^ 7 = b.toNat - 2 ^ 7 := by
      have := b.toNat_lt
      omega
    have hlow' : b.toNat - 2 ^ 7 < 2 ^ 7 := by
      have := b.toNat_lt
      omega
    have hmod : (b.toNat - 2 ^ 7) <<< shift % 2 ^ 64 = (b.toNat - 2 ^ 7) <<< shift := by
      rw [Nat.shiftLeft_eq]
      refine Nat.mod_eq_of_lt (Nat.lt_of_lt_of_le (Nat.mul_lt_mul_of_pos_right hlow' (Nat.two_pow_pos _)) ?_)
      rw [← Nat.pow_add]
      exact Nat.pow_le_pow_right (by decide) (by omega)
    have hnext : result + 2 ^ shift * (b.toNat - 2 ^ 7) < 2 ^ (shift + 7) := by
      have hle : 2 ^ shift * (b.toNat - 2 ^ 7 + 1) ≤ 2 ^ shift * 2 ^ 7 := Nat.mul_le_mul_left _ hlow'
      rw [Nat.pow_add]
      rw [Nat.mul_add] at hle
      omega
    have hvalue : result + 2 ^ shift * (b.toNat - 2 ^ 7) + 2 ^ (shift + 7) * m =
        result + 2 ^ shift * (2 ^ 7 * m + (b.toNat - 2 ^ 7)) := by
      rw [Nat.pow_add, Nat.mul_add, Nat.mul_assoc]
      omega
    have hpos : pos + 1 + bs.length = pos + (bs.length + 1) := by omega
    rw [List.cons_append, ulebLoop, if_neg (by omega), toNat_and_0x7F, hlow, hmod, or_shiftLeft hresult]
    dsimp only
    rw [if_neg (fun hc => by have := (toNat_and_flags b).1.mp hc; omega),
      ih (by omega) (by omega) hnext (pos + 1), List.length_cons, hvalue, hpos]

/-- **The decoder reads a `u32`** wherever it lies. -/
theorem readUleb_of (h : ULeb 32 bs n) (hcode : code.drop pos = bs ++ rest) :
    readUleb code 32 pos = some (n, pos + bs.length) := by
  rw [readUleb, hcode, ulebLoop_of h (by decide) rfl (by decide)]
  simp

theorem readU32_of (h : ULeb 32 bs n) (hcode : code.drop pos = bs ++ rest) :
    readU32 code pos = some (n, pos + bs.length) := by
  show ((readUleb code 32 pos).bind fun p => some (p.1 % 2 ^ 32, p.2)) = _
  rw [readUleb_of h hcode, Option.bind_some, Nat.mod_eq_of_lt h.lt]

theorem toNat_or_shiftLeft {result : BitVec 64} (hresult : result.toNat < 2 ^ shift)
    (hx : x < 2 ^ 7) (hshift : shift < 32) :
    (result ||| BitVec.ofNat 64 x <<< shift).toNat = result.toNat + 2 ^ shift * x := by
  have hmod : x <<< shift % 2 ^ 64 = x <<< shift := by
    rw [Nat.shiftLeft_eq]
    refine Nat.mod_eq_of_lt (Nat.lt_of_lt_of_le (Nat.mul_lt_mul_of_pos_right hx (Nat.two_pow_pos _)) ?_)
    rw [← Nat.pow_add]
    exact Nat.pow_le_pow_right (by decide) (by omega)
  rw [BitVec.toNat_or, BitVec.toNat_shiftLeft, BitVec.toNat_ofNat, Nat.mod_eq_of_lt (by omega : x < 2 ^ 64),
    hmod, or_shiftLeft hresult]

/-- The sign bits above `s`. -/
theorem or_signBits {v : BitVec 64} {s : Nat} (hv : v.toNat < 2 ^ s) (hs : s < 64) :
    v ||| (-1#64) <<< s = BitVec.ofInt 64 (v.toNat - 2 ^ s) := by
  have hp : 0 < 2 ^ s := Nat.two_pow_pos _
  have hpq : 2 ^ (64 - s) * 2 ^ s = 2 ^ 64 := by
    rw [← Nat.pow_add, Nat.sub_add_cancel (Nat.le_of_lt hs)]
  have hsign : ((-1#64) <<< s).toNat = (2 ^ (64 - s) - 1) <<< s := by
    rw [BitVec.toNat_shiftLeft, Nat.shiftLeft_eq, Nat.shiftLeft_eq, Nat.sub_mul, hpq]
    have hsplit : (-1#64).toNat * 2 ^ s = (2 ^ 64 - 1 * 2 ^ s) + 2 ^ 64 * (2 ^ s - 1) := by
      have hlt : 2 ^ s ≤ 2 ^ 64 := Nat.pow_le_pow_right (by decide) (Nat.le_of_lt hs)
      have hmul : 2 ^ 64 * (2 ^ s - 1) = 2 ^ 64 * 2 ^ s - 2 ^ 64 := by rw [Nat.mul_sub, Nat.mul_one]
      have hone : (-1#64).toNat = 2 ^ 64 - 1 := by decide
      have hle : 2 ^ 64 ≤ 2 ^ 64 * 2 ^ s := Nat.le_mul_of_pos_right _ hp
      rw [hone, hmul, Nat.sub_mul]
      omega
    rw [hsplit, Nat.add_mul_mod_self_left]
    exact Nat.mod_eq_of_lt (by omega)
  refine BitVec.eq_of_toNat_eq ?_
  rw [BitVec.toNat_or, hsign, or_shiftLeft hv, BitVec.toNat_ofInt]
  have hlt : 2 ^ s ≤ 2 ^ 64 := Nat.pow_le_pow_right (by decide) (Nat.le_of_lt hs)
  have hright : 2 ^ s * (2 ^ (64 - s) - 1) = 2 ^ 64 - 2 ^ s := by
    rw [Nat.mul_sub, Nat.mul_one, Nat.mul_comm, hpq]
  have hcast : ((2 ^ s : Nat) : Int) = (2 : Int) ^ s := Nat.cast_pow 2 s
  have hmod : ((v.toNat : Int) - 2 ^ s) % ((2 ^ 64 : Nat) : Int) = v.toNat - 2 ^ s + 2 ^ 64 := by
    rw [← Int.add_emod_right]
    exact Int.emod_eq_of_lt (by omega) (by omega)
  rw [hright, hmod]
  omega

theorem slebLoop_of {n : Int} (h : SLeb N bs n) (hN : 0 < N) (hbits : 32 ≤ bits)
    {result : BitVec 64} (hshift : shift + N = 32) (hresult : result.toNat < 2 ^ shift)
    (rest : ByteString) (pos : Nat) :
    slebLoop bits (bs ++ rest) pos shift result =
      some (BitVec.ofInt 64 (result.toNat + 2 ^ shift * n), pos + bs.length) := by
  have hcast : ((2 ^ shift : Nat) : Int) = (2 : Int) ^ shift := Nat.cast_pow 2 shift
  induction h generalizing shift result pos with
  | @pos N b hb _ =>
    have hlow : b.toNat % 2 ^ 7 = b.toNat := Nat.mod_eq_of_lt (by omega)
    have hvalue := toNat_or_shiftLeft hresult (by omega : b.toNat < 2 ^ 7) (by omega)
    rw [List.singleton_append, slebLoop, if_neg (by omega), toNat_and_0x7F, hlow]
    dsimp only
    rw [if_pos ((toNat_and_flags b).1.mpr (by omega)),
      if_neg (fun hc => hc.2 (((toNat_and_flags b).2 (by omega)).mpr hb)), ← hcast, ← Int.natCast_mul,
      ← Int.natCast_add, ← hvalue, BitVec.ofInt_natCast, BitVec.ofNat_toNat, BitVec.setWidth_eq]
    rfl
  | @neg N b hb hb' _ =>
    have hlow : b.toNat % 2 ^ 7 = b.toNat := Nat.mod_eq_of_lt (by omega)
    have hvalue := toNat_or_shiftLeft hresult hb' (by omega)
    have hfits : (result ||| BitVec.ofNat 64 b.toNat <<< shift).toNat < 2 ^ (shift + 7) := by
      have hle : 2 ^ shift * (b.toNat + 1) ≤ 2 ^ shift * 2 ^ 7 := Nat.mul_le_mul_left _ hb'
      rw [hvalue, Nat.pow_add]
      rw [Nat.mul_add] at hle
      omega
    rw [List.singleton_append, slebLoop, if_neg (by omega), toNat_and_0x7F, hlow]
    dsimp only
    rw [if_pos ((toNat_and_flags b).1.mpr hb'),
      if_pos ⟨by omega, fun hc => by have := ((toNat_and_flags b).2 hb').mp hc; omega⟩,
      or_signBits hfits (by omega), hvalue]
    have hint : ((result.toNat + 2 ^ shift * b.toNat : Nat) : Int) - 2 ^ (shift + 7) =
        result.toNat + 2 ^ shift * ((b.toNat : Int) - 2 ^ 7) := by
      rw [Int.mul_sub, Int.pow_add]
      push_cast
      omega
    rw [hint]
    rfl
  | @more N m b bs hb hN7 _ ih =>
    have hlow : b.toNat % 2 ^ 7 = b.toNat - 2 ^ 7 := by
      have := b.toNat_lt
      omega
    have hlow' : b.toNat - 2 ^ 7 < 2 ^ 7 := by
      have := b.toNat_lt
      omega
    have hvalue := toNat_or_shiftLeft hresult hlow' (by omega)
    have hfits : (result ||| BitVec.ofNat 64 (b.toNat - 2 ^ 7) <<< shift).toNat < 2 ^ (shift + 7) := by
      have hle : 2 ^ shift * (b.toNat - 2 ^ 7 + 1) ≤ 2 ^ shift * 2 ^ 7 := Nat.mul_le_mul_left _ hlow'
      rw [hvalue, Nat.pow_add]
      rw [Nat.mul_add] at hle
      omega
    have hint : ((result.toNat + 2 ^ shift * (b.toNat - 2 ^ 7) : Nat) : Int) + 2 ^ (shift + 7) * m =
        result.toNat + 2 ^ shift * (2 ^ 7 * m + ((b.toNat : Int) - 2 ^ 7)) := by
      rw [Int.mul_add, Int.pow_add, Int.mul_assoc, Int.natCast_add, Int.natCast_mul, Int.ofNat_sub hb]
      push_cast
      omega
    have hpos : pos + 1 + bs.length = pos + (bs.length + 1) := by omega
    rw [List.cons_append, slebLoop, if_neg (by omega), toNat_and_0x7F, hlow]
    dsimp only
    rw [if_neg (fun hc => by have := (toNat_and_flags b).1.mp hc; omega),
      ih (by omega) (by omega) hfits (pos + 1) (Nat.cast_pow 2 _), hvalue, hint, List.length_cons, hpos]

/-- **The decoder reads an `s32`** wherever it lies. -/
theorem readSleb_of {n : Int} (h : SLeb 32 bs n) (hbits : 32 ≤ bits)
    (hcode : code.drop pos = bs ++ rest) :
    readSleb code bits pos = some (BitVec.ofInt 64 n, pos + bs.length) := by
  rw [readSleb, hcode, slebLoop_of h (by decide) hbits rfl (by decide)]
  simp

/-! ## Instructions -/

def UnOp.opcode : UnOp → UInt8
  | .eqz => 0x45
  | .clz => 0x67
  | .ctz => 0x68
  | .popcnt => 0x69

def BinOp.opcode : BinOp → UInt8
  | .eq => 0x46
  | .ne => 0x47
  | .ltS => 0x48
  | .ltU => 0x49
  | .gtS => 0x4A
  | .gtU => 0x4B
  | .leS => 0x4C
  | .leU => 0x4D
  | .geS => 0x4E
  | .geU => 0x4F
  | .add => 0x6A
  | .sub => 0x6B
  | .mul => 0x6C
  | .divS => 0x6D
  | .divU => 0x6E
  | .remS => 0x6F
  | .remU => 0x70
  | .and => 0x71
  | .or => 0x72
  | .xor => 0x73
  | .shl => 0x74
  | .shrS => 0x75
  | .shrU => 0x76
  | .rotl => 0x77
  | .rotr => 0x78

/-- A block type: empty or one value type. -/
def blockByte : Option ValType → UInt8
  | none => 0x40
  | some .i32 => 0x7F
  | some .i64 => 0x7E
  | some .f32 => 0x7D
  | some .f64 => 0x7C

/-- The bytes of an instruction without a body that neither branches nor calls. -/
inductive EncPlain : Instr → ByteString → Prop
  | nop : EncPlain .nop [0x01]
  | drop : EncPlain .drop [0x1A]
  | select : EncPlain .select [0x1B]
  | localGet {x : Nat} {u : ByteString} : ULeb 32 u x → EncPlain (.localGet x) (0x20 :: u)
  | localSet {x : Nat} {u : ByteString} : ULeb 32 u x → EncPlain (.localSet x) (0x21 :: u)
  | localTee {x : Nat} {u : ByteString} : ULeb 32 u x → EncPlain (.localTee x) (0x22 :: u)
  | load {align off : Nat} {a o : ByteString} : ULeb 32 a align → ULeb 32 o off →
    EncPlain (.load align off) (0x28 :: (a ++ o))
  | load8 {align off : Nat} {a o : ByteString} : ULeb 32 a align → ULeb 32 o off →
    EncPlain (.load8 align off) (0x2D :: (a ++ o))
  | store {align off : Nat} {a o : ByteString} : ULeb 32 a align → ULeb 32 o off →
    EncPlain (.store align off) (0x36 :: (a ++ o))
  | store8 {align off : Nat} {a o : ByteString} : ULeb 32 a align → ULeb 32 o off →
    EncPlain (.store8 align off) (0x3A :: (a ++ o))
  | memorySize : EncPlain .memorySize [0x3F, 0x00]
  | memoryGrow : EncPlain .memoryGrow [0x40, 0x00]
  | const {n : Int} {s : ByteString} : SLeb 32 s n → EncPlain (.const (BitVec.ofInt 32 n)) (0x41 :: s)
  | unary (op : UnOp) : EncPlain (.unary op) [op.opcode]
  | binary (op : BinOp) : EncPlain (.binary op) [op.opcode]

/-- The bytes of a sequence. -/
inductive Enc : List Instr → ByteString → Prop
  | nil : Enc [] []
  | plain {i : Instr} {is : List Instr} {b bs : ByteString} : EncPlain i b → Enc is bs →
    Enc (i :: is) (b ++ bs)
  | unreachable {is : List Instr} {bs : ByteString} : Enc is bs → Enc (.unreachable :: is) (0x00 :: bs)
  | ret {is : List Instr} {bs : ByteString} : Enc is bs → Enc (.ret :: is) (0x0F :: bs)
  | br {l : Nat} {is : List Instr} {u bs : ByteString} : ULeb 32 u l → Enc is bs →
    Enc (.br l :: is) (0x0C :: (u ++ bs))
  | brIf {l : Nat} {is : List Instr} {u bs : ByteString} : ULeb 32 u l → Enc is bs →
    Enc (.brIf l :: is) (0x0D :: (u ++ bs))
  | call {x : Nat} {is : List Instr} {u bs : ByteString} : ULeb 32 u x → Enc is bs →
    Enc (.call x :: is) (0x10 :: (u ++ bs))
  | block {rt : Option ValType} {body is : List Instr} {b bs : ByteString} : Enc body b → Enc is bs →
    Enc (.block rt body :: is) (0x02 :: blockByte rt :: (b ++ 0x0B :: bs))
  | loop {rt : Option ValType} {body is : List Instr} {b bs : ByteString} : Enc body b → Enc is bs →
    Enc (.loop rt body :: is) (0x03 :: blockByte rt :: (b ++ 0x0B :: bs))
  | ite {rt : Option ValType} {thn is : List Instr} {b bs : ByteString} : Enc thn b → Enc is bs →
    Enc (.ite rt thn [] :: is) (0x04 :: blockByte rt :: (b ++ 0x0B :: bs))
  | iteElse {rt : Option ValType} {thn els is : List Instr} {b e bs : ByteString} : Enc thn b →
    Enc els e → Enc is bs →
    Enc (.ite rt thn els :: is) (0x04 :: blockByte rt :: (b ++ 0x05 :: (e ++ 0x0B :: bs)))

/-! ## Bytes at a position -/

section Position

variable {code rest bs : ByteString} {pos : Nat} {b : UInt8}

theorem getElem?_of_drop (h : code.drop pos = b :: rest) : code[pos]? = some b := by
  rw [← List.head?_drop, h, List.head?_cons]

theorem drop_succ_of_drop (h : code.drop pos = b :: rest) : code.drop (pos + 1) = rest := by
  rw [← List.drop_drop, h, List.drop_succ_cons, List.drop_zero]

theorem drop_add_of_drop (h : code.drop pos = bs ++ rest) : code.drop (pos + bs.length) = rest := by
  rw [← List.drop_drop, h, List.drop_left]

end Position

/-! ## Scans -/

/-- What both scans do at a byte; `f depth pos` is what they return from there. -/
structure Scanner {α : Type} (code : ByteString) (f : Nat → Nat → Option α) : Prop where
  opens : ∀ depth pos next b, code[pos]? = some b → b = 0x02 ∨ b = 0x03 ∨ b = 0x04 →
    skipInstr code pos = some next → f depth pos = (deeper depth).bind fun depth => f depth next
  closes : ∀ depth pos, code[pos]? = some 0x0B → f (depth + 1) pos = f depth (pos + 1)
  elses : ∀ depth pos, code[pos]? = some 0x05 → f (depth + 1) pos = f (depth + 1) (pos + 1)
  others : ∀ depth pos next b, code[pos]? = some b →
    b ≠ 0x02 ∧ b ≠ 0x03 ∧ b ≠ 0x04 ∧ b ≠ 0x05 ∧ b ≠ 0x0B → skipInstr code pos = some next →
    f depth pos = f depth next

theorem skipInstr_delim (h : code[pos]? = some b) (hb : b = 0x05 ∨ b = 0x0B) :
    skipInstr code pos = some (pos + 1) := by
  rw [skipInstr, h]
  rcases hb with rfl | rfl <;> rfl

/-- `skip_block_body` from any depth. -/
def skipFrom (code : ByteString) (depth pos : Nat) : Option Nat :=
  skipBlockBodyLoop code (code.length + 1) depth pos

/-- `skip_then` from any depth. -/
def skipThenFrom (code : ByteString) (depth pos : Nat) : Option (Bool × Nat) :=
  skipThenLoop code (code.length + 1) depth pos

/-- One round of `skip_block_body`. -/
theorem skipFrom_eq (h : code[pos]? = some b) (depth : Nat) :
    skipFrom code depth pos =
      if b = 0x02 ∨ b = 0x03 ∨ b = 0x04 then
        (deeper depth).bind fun depth => (skipInstr code pos).bind (skipFrom code depth)
      else if b = 0x0B then
        if depth = 0 then some (pos + 1) else (skipInstr code pos).bind (skipFrom code (depth - 1))
      else (skipInstr code pos).bind (skipFrom code depth) := by
  have hpos := (List.getElem?_eq_some_iff.mp h).1
  rw [skipFrom, skipBlockBodyLoop, h]
  cases hskip : skipInstr code pos with
  | none => rfl
  | some next =>
    have hnext := skipInstr_lt hskip
    have hrest : ∀ d, skipBlockBodyLoop code code.length d next = skipFrom code d next := fun d =>
      skipBlockBodyLoop_rounds d next (by omega) (by omega)
    simp only [Option.bind_eq_bind, Option.bind_some, hrest]

/-- One round of `skip_then`. -/
theorem skipThenFrom_eq (h : code[pos]? = some b) (depth : Nat) :
    skipThenFrom code depth pos =
      if b = 0x02 ∨ b = 0x03 ∨ b = 0x04 then
        (deeper depth).bind fun depth => (skipInstr code pos).bind (skipThenFrom code depth)
      else if b = 0x05 ∧ depth = 0 then some (true, pos + 1)
      else if b = 0x0B then
        if depth = 0 then some (false, pos + 1)
        else (skipInstr code pos).bind (skipThenFrom code (depth - 1))
      else (skipInstr code pos).bind (skipThenFrom code depth) := by
  have hpos := (List.getElem?_eq_some_iff.mp h).1
  rw [skipThenFrom, skipThenLoop, h]
  cases hskip : skipInstr code pos with
  | none => rfl
  | some next =>
    have hnext := skipInstr_lt hskip
    have hrest : ∀ d, skipThenLoop code code.length d next = skipThenFrom code d next := fun d =>
      skipThenLoop_rounds d next (by omega) (by omega)
    simp only [Option.bind_eq_bind, Option.bind_some, hrest]

theorem scanner_skipFrom (code : ByteString) : Scanner code (skipFrom code) where
  opens depth pos next b h hb hskip := by
    rw [skipFrom_eq h, if_pos hb, hskip]
    rfl
  closes depth pos h := by
    rw [skipFrom_eq h, if_neg (by decide), if_pos rfl, if_neg (Nat.succ_ne_zero _),
      skipInstr_delim h (.inr rfl), Option.bind_some, Nat.add_sub_cancel]
  elses depth pos h := by
    rw [skipFrom_eq h, if_neg (by decide), if_neg (by decide), skipInstr_delim h (.inl rfl), Option.bind_some]
  others depth pos next b h hb hskip := by
    rw [skipFrom_eq h, if_neg (by tauto), if_neg hb.2.2.2.2, hskip, Option.bind_some]

theorem scanner_skipThenFrom (code : ByteString) : Scanner code (skipThenFrom code) where
  opens depth pos next b h hb hskip := by
    rw [skipThenFrom_eq h, if_pos hb, hskip]
    rfl
  closes depth pos h := by
    rw [skipThenFrom_eq h, if_neg (by decide), if_neg (fun hc => absurd hc.1 (by decide)), if_pos rfl,
      if_neg (Nat.succ_ne_zero _), skipInstr_delim h (.inr rfl), Option.bind_some, Nat.add_sub_cancel]
  elses depth pos h := by
    rw [skipThenFrom_eq h, if_neg (by decide), if_neg (fun hc => Nat.succ_ne_zero _ hc.2),
      if_neg (by decide), skipInstr_delim h (.inl rfl), Option.bind_some]
  others depth pos next b h hb hskip := by
    rw [skipThenFrom_eq h, if_neg (by tauto), if_neg (fun hc => hb.2.2.2.1 hc.1), if_neg hb.2.2.2.2, hskip,
      Option.bind_some]

section Skip

variable {code rest u a o : ByteString} {pos n m : Nat} {b : UInt8}

/-- An opcode with one index after it. -/
theorem skipInstr_index (hb : b = 0x0C ∨ b = 0x0D ∨ b = 0x10 ∨ b = 0x20 ∨ b = 0x21 ∨ b = 0x22)
    (hu : ULeb 32 u n) (h : code.drop pos = b :: (u ++ rest)) :
    skipInstr code pos = some (pos + (b :: u).length) := by
  have hskip : skipInstr code pos = (readUleb code 32 (pos + 1)).map (·.2) := by
    rw [skipInstr, getElem?_of_drop h]
    rcases hb with rfl | rfl | rfl | rfl | rfl | rfl <;> rfl
  rw [hskip, readUleb_of hu (drop_succ_of_drop h), Option.map_some, List.length_cons]
  congr 1
  omega

/-- A load or a store. -/
theorem skipInstr_memArg (hb : b = 0x28 ∨ b = 0x2D ∨ b = 0x36 ∨ b = 0x3A) (ha : ULeb 32 a n)
    (ho : ULeb 32 o m) (h : code.drop pos = b :: ((a ++ o) ++ rest)) :
    skipInstr code pos = some (pos + (b :: (a ++ o)).length) := by
  have hskip : skipInstr code pos = (readUleb code 32 (pos + 1)).bind fun p =>
      (readUleb code 32 p.2).map (·.2) := by
    rw [skipInstr, getElem?_of_drop h]
    rcases hb with rfl | rfl | rfl | rfl <;> rfl
  have hfirst : code.drop (pos + 1) = a ++ (o ++ rest) := by
    rw [drop_succ_of_drop h, List.append_assoc]
  rw [hskip, readUleb_of ha hfirst, Option.bind_some, readUleb_of ho (drop_add_of_drop hfirst),
    Option.map_some, List.length_cons, List.length_append]
  congr 1
  omega

/-- A plain instruction is skipped, and its opcode is no delimiter. -/
theorem skipInstr_plain {i : Instr} {bs : ByteString} (hi : EncPlain i bs)
    (h : code.drop pos = bs ++ rest) : ∃ op t, bs = op :: t ∧
      (op ≠ 0x02 ∧ op ≠ 0x03 ∧ op ≠ 0x04 ∧ op ≠ 0x05 ∧ op ≠ 0x0B) ∧
      skipInstr code pos = some (pos + bs.length) := by
  cases hi with
  | nop => exact ⟨_, _, rfl, by decide, by rw [skipInstr, getElem?_of_drop h]; rfl⟩
  | drop => exact ⟨_, _, rfl, by decide, by rw [skipInstr, getElem?_of_drop h]; rfl⟩
  | select => exact ⟨_, _, rfl, by decide, by rw [skipInstr, getElem?_of_drop h]; rfl⟩
  | localGet hu => exact ⟨_, _, rfl, by decide, skipInstr_index (by decide) hu h⟩
  | localSet hu => exact ⟨_, _, rfl, by decide, skipInstr_index (by decide) hu h⟩
  | localTee hu => exact ⟨_, _, rfl, by decide, skipInstr_index (by decide) hu h⟩
  | load ha ho => exact ⟨_, _, rfl, by decide, skipInstr_memArg (by decide) ha ho h⟩
  | load8 ha ho => exact ⟨_, _, rfl, by decide, skipInstr_memArg (by decide) ha ho h⟩
  | store ha ho => exact ⟨_, _, rfl, by decide, skipInstr_memArg (by decide) ha ho h⟩
  | store8 ha ho => exact ⟨_, _, rfl, by decide, skipInstr_memArg (by decide) ha ho h⟩
  | memorySize => exact ⟨_, _, rfl, by decide, by rw [skipInstr, getElem?_of_drop h]; rfl⟩
  | memoryGrow => exact ⟨_, _, rfl, by decide, by rw [skipInstr, getElem?_of_drop h]; rfl⟩
  | @const n s hs =>
    refine ⟨_, _, rfl, by decide, ?_⟩
    have hskip : skipInstr code pos = (readSleb code 64 (pos + 1)).map (·.2) := by
      rw [skipInstr, getElem?_of_drop h]
      rfl
    rw [hskip, readSleb_of hs (by decide) (drop_succ_of_drop h), Option.map_some, List.length_cons]
    congr 1
    omega
  | unary op =>
    refine ⟨_, _, rfl, by cases op <;> decide, ?_⟩
    rw [skipInstr, getElem?_of_drop h]
    cases op <;> rfl
  | binary op =>
    refine ⟨_, _, rfl, by cases op <;> decide, ?_⟩
    rw [skipInstr, getElem?_of_drop h]
    cases op <;> rfl

/-- The opcode and the block type of a block. -/
theorem skipInstr_open {bt : UInt8} (hb : b = 0x02 ∨ b = 0x03 ∨ b = 0x04)
    (h : code.drop pos = b :: bt :: rest) : skipInstr code pos = some (pos + 2) := by
  have hskip : skipInstr code pos = code[pos + 1]?.map fun _ => pos + 1 + 1 := by
    rw [skipInstr, getElem?_of_drop h]
    rcases hb with rfl | rfl | rfl <;> rfl
  rw [hskip, getElem?_of_drop (drop_succ_of_drop h), Option.map_some]

end Skip

section Sequence

variable {α : Type} {code : ByteString} {f : Nat → Nat → Option α}

/-- The scan passes over these bytes, wherever they lie. A block takes two bytes and more, so its
depth fits the counter. -/
def Passes (code : ByteString) (f : Nat → Nat → Option α) (bs : ByteString) : Prop :=
  ∀ (depth pos : Nat) (rest : ByteString), code.drop pos = bs ++ rest →
    2 * depth + bs.length < 2 ^ 32 → f depth pos = f depth (pos + bs.length)

variable {b bs : ByteString} {op : UInt8}

theorem Passes.append (hb : Passes code f b) (hbs : Passes code f bs) :
    Passes code f (b ++ bs) := by
  intro depth pos rest hcode hdepth
  rw [List.append_assoc] at hcode
  rw [List.length_append] at hdepth ⊢
  rw [hb depth pos _ hcode (by omega), hbs depth _ _ (drop_add_of_drop hcode) (by omega), Nat.add_assoc]

/-- An instruction that is no delimiter. -/
theorem Scanner.instr (hs : Scanner code f) {t : ByteString}
    (hop : op ≠ 0x02 ∧ op ≠ 0x03 ∧ op ≠ 0x04 ∧ op ≠ 0x05 ∧ op ≠ 0x0B)
    (hskip : ∀ pos rest, code.drop pos = (op :: t) ++ rest →
      skipInstr code pos = some (pos + (op :: t).length)) :
    Passes code f (op :: t) := fun depth pos rest hcode _ =>
  hs.others depth pos _ op (getElem?_of_drop hcode) hop (hskip pos rest hcode)

theorem Scanner.index (hs : Scanner code f) {u : ByteString} {n : Nat}
    (hop : op = 0x0C ∨ op = 0x0D ∨ op = 0x10) (hu : ULeb 32 u n) : Passes code f (op :: u) := by
  refine hs.instr ?_ fun pos rest hcode => skipInstr_index (by tauto) hu hcode
  rcases hop with rfl | rfl | rfl <;> decide

/-- Two arms around an `else`, inside a block. -/
theorem Scanner.arms (hs : Scanner code f) {e : ByteString} (hb : Passes code f b)
    (he : Passes code f e) (depth : Nat) {pos : Nat} {rest : ByteString}
    (hcode : code.drop pos = (b ++ 0x05 :: e) ++ rest)
    (hdepth : 2 * (depth + 1) + (b ++ 0x05 :: e).length < 2 ^ 32) :
    f (depth + 1) pos = f (depth + 1) (pos + (b ++ 0x05 :: e).length) := by
  rw [List.append_assoc] at hcode
  rw [List.length_append, List.length_cons] at hdepth ⊢
  have helse := drop_add_of_drop hcode
  rw [hb (depth + 1) pos _ hcode (by omega), hs.elses depth _ (getElem?_of_drop helse),
    he (depth + 1) _ _ (drop_succ_of_drop helse) (by omega)]
  congr 1
  omega

/-- A block: in through its opening byte, out through its closing one. -/
theorem Scanner.block (hs : Scanner code f) (bt : UInt8) {body : ByteString}
    (hop : op = 0x02 ∨ op = 0x03 ∨ op = 0x04) (hbody : ∀ depth pos rest,
      code.drop pos = body ++ rest → 2 * (depth + 1) + body.length < 2 ^ 32 →
      f (depth + 1) pos = f (depth + 1) (pos + body.length)) :
    Passes code f (op :: bt :: (body ++ [0x0B])) := by
  intro depth pos rest hcode hdepth
  have hcode' : code.drop pos = op :: bt :: (body ++ 0x0B :: rest) := by simpa using hcode
  rw [List.length_cons, List.length_cons, List.length_append, List.length_singleton] at hdepth ⊢
  have hin := drop_succ_of_drop (drop_succ_of_drop hcode')
  have hclose : code[pos + 1 + 1 + body.length]? = some 0x0B := getElem?_of_drop (drop_add_of_drop hin)
  rw [hs.opens depth pos (pos + 2) op (getElem?_of_drop hcode') hop (skipInstr_open hop hcode'),
    deeper, if_pos (by omega), Option.bind_some, hbody depth (pos + 2) _ hin (by omega),
    hs.closes depth _ hclose]
  congr 1
  omega

/-- **A scan passes over a whole sequence.** -/
theorem Scanner.seq (hs : Scanner code f) {is : List Instr} (h : Enc is bs) : Passes code f bs := by
  induction h with
  | nil => exact fun _ _ _ _ _ => rfl
  | @plain i is b bs hi _ ih =>
    refine Passes.append (fun depth pos rest hcode _ => ?_) ih
    obtain ⟨op, t, rfl, hop, hskip⟩ := skipInstr_plain hi hcode
    exact hs.others depth pos _ op (getElem?_of_drop hcode) hop hskip
  | @unreachable is bs _ ih =>
    refine Passes.append (b := [0x00]) (hs.instr (by decide) fun pos rest hcode => ?_) ih
    rw [skipInstr, getElem?_of_drop hcode]
    rfl
  | @ret is bs _ ih =>
    refine Passes.append (b := [0x0F]) (hs.instr (by decide) fun pos rest hcode => ?_) ih
    rw [skipInstr, getElem?_of_drop hcode]
    rfl
  | br hu _ ih => exact (hs.index (.inl rfl) hu).append ih
  | brIf hu _ ih => exact (hs.index (.inr (.inl rfl)) hu).append ih
  | call hu _ ih => exact (hs.index (.inr (.inr rfl)) hu).append ih
  | @block rt body is b bs _ _ ihb ih =>
    have hpass := (hs.block (blockByte rt) (.inl rfl) fun depth => ihb (depth + 1)).append ih
    simpa using hpass
  | @loop rt body is b bs _ _ ihb ih =>
    have hpass := (hs.block (blockByte rt) (.inr (.inl rfl)) fun depth => ihb (depth + 1)).append ih
    simpa using hpass
  | @ite rt thn is b bs _ _ ihb ih =>
    have hpass := (hs.block (blockByte rt) (.inr (.inr rfl)) fun depth => ihb (depth + 1)).append ih
    simpa using hpass
  | @iteElse rt thn els is b e bs _ _ _ ihb ihe ih =>
    have hpass := (hs.block (blockByte rt) (.inr (.inr rfl)) fun depth pos rest hcode hdepth =>
      hs.arms ihb ihe depth hcode hdepth).append ih
    simpa using hpass

end Sequence

/-! ## Where the scans stop -/

section Stops

variable {code rest b e : ByteString} {pos : Nat} {is els : List Instr}

/-- `skip_block_body` stops past the `end` of the block it is in. -/
theorem skipBlockBody_end (h : Enc is b) (hcode : code.drop pos = b ++ 0x0B :: rest)
    (hlen : code.length < 2 ^ 32) : skipBlockBody code pos = some (pos + b.length + 1) := by
  have hend := drop_add_of_drop hcode
  have hb := congrArg List.length hcode
  rw [List.length_drop, List.length_append] at hb
  show skipFrom code 0 pos = _
  rw [(scanner_skipFrom code).seq h 0 pos _ hcode (by omega),
    skipFrom_eq (getElem?_of_drop hend), if_neg (by decide), if_pos rfl, if_pos rfl]

/-- From the first arm of an `if` it passes the `else`. -/
theorem skipBlockBody_else (h : Enc is b) (he : Enc els e)
    (hcode : code.drop pos = b ++ 0x05 :: (e ++ 0x0B :: rest)) (hlen : code.length < 2 ^ 32) :
    skipBlockBody code pos = some (pos + b.length + 1 + e.length + 1) := by
  have helse := drop_add_of_drop hcode
  have hb := congrArg List.length hcode
  rw [List.length_drop, List.length_append] at hb
  show skipFrom code 0 pos = _
  rw [(scanner_skipFrom code).seq h 0 pos _ hcode (by omega),
    skipFrom_eq (getElem?_of_drop helse), if_neg (by decide), if_neg (by decide),
    skipInstr_delim (getElem?_of_drop helse) (.inl rfl), Option.bind_some]
  exact skipBlockBody_end he (drop_succ_of_drop helse) hlen

/-- `skip_then` stops at the `end` of an `if` without an `else`. -/
theorem skipThen_end (h : Enc is b) (hcode : code.drop pos = b ++ 0x0B :: rest)
    (hlen : code.length < 2 ^ 32) : skipThen code pos = some (false, pos + b.length + 1) := by
  have hend := drop_add_of_drop hcode
  have hb := congrArg List.length hcode
  rw [List.length_drop, List.length_append] at hb
  show skipThenFrom code 0 pos = _
  rw [(scanner_skipThenFrom code).seq h 0 pos _ hcode (by omega),
    skipThenFrom_eq (getElem?_of_drop hend), if_neg (by decide), if_neg (by decide), if_pos rfl, if_pos rfl]

/-- With an `else` it stops there. -/
theorem skipThen_else (h : Enc is b) (hcode : code.drop pos = b ++ 0x05 :: rest)
    (hlen : code.length < 2 ^ 32) : skipThen code pos = some (true, pos + b.length + 1) := by
  have helse := drop_add_of_drop hcode
  have hb := congrArg List.length hcode
  rw [List.length_drop, List.length_append] at hb
  show skipThenFrom code 0 pos = _
  rw [(scanner_skipThenFrom code).seq h 0 pos _ hcode (by omega),
    skipThenFrom_eq (getElem?_of_drop helse), if_neg (by decide), if_pos ⟨rfl, rfl⟩]

end Stops

end AthenaOS.Wasm
