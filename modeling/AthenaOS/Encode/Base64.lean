import AthenaOS.Lib.Utf8

/-!
# Base64

`base64_encode_with` and `base64_decode_with` of `components/ath_encode/src/lib.rs`.
-/

namespace AthenaOS.Encode

open Lib.Wire

/-- `DecodeError`. -/
inductive DecodeError where
  | invalidCharacter
  | invalidLength
  | invalidPadding
  | truncatedEscape
  | invalidUtf8
  deriving DecidableEq, Repr

/-- `STD_ALPHABET`. -/
def stdAlphabet : ByteString := utf8 "ABCDEFGHIJKLMNOPQRSTUVWXYZabcdefghijklmnopqrstuvwxyz0123456789+/"

/-- `URL_ALPHABET`. -/
def urlAlphabet : ByteString := utf8 "ABCDEFGHIJKLMNOPQRSTUVWXYZabcdefghijklmnopqrstuvwxyz0123456789-_"

/-! ## Encoding -/

/-- `alphabet[..] as char`. -/
def symbol (alphabet : ByteString) (n : Nat) : Char := Char.ofNat (alphabet.getD n 0).toNat

/-- The groups of three bytes, and what remains. -/
def encodeLoop (alphabet : ByteString) : ByteString → List Char
  | b₀ :: b₁ :: b₂ :: rest =>
    let b := b₀.toNat <<< 16 ||| b₁.toNat <<< 8 ||| b₂.toNat
    symbol alphabet (b >>> 18 &&& 0x3f) :: symbol alphabet (b >>> 12 &&& 0x3f) ::
      symbol alphabet (b >>> 6 &&& 0x3f) :: symbol alphabet (b &&& 0x3f) :: encodeLoop alphabet rest
  | [b₀, b₁] =>
    let b := b₀.toNat <<< 16 ||| b₁.toNat <<< 8
    [symbol alphabet (b >>> 18 &&& 0x3f), symbol alphabet (b >>> 12 &&& 0x3f), symbol alphabet (b >>> 6 &&& 0x3f), '=']
  | [b₀] =>
    let b := b₀.toNat <<< 16
    [symbol alphabet (b >>> 18 &&& 0x3f), symbol alphabet (b >>> 12 &&& 0x3f), '=', '=']
  | [] => []

/-- `base64_encode_with`. -/
def base64EncodeWith (input alphabet : ByteString) : String := String.ofList (encodeLoop alphabet input)

/-- `base64_encode`. -/
def base64Encode (input : ByteString) : String := base64EncodeWith input stdAlphabet

/-- `base64url_encode`. -/
def base64urlEncode (input : ByteString) : String := base64EncodeWith input urlAlphabet

/-! ## Decoding -/

/-- `base64_value`. -/
def base64Value (c : UInt8) (alphabet : ByteString) : Option Nat := alphabet.findIdx? (· = c)

/-- The white space that is skipped. -/
def isSpace (c : UInt8) : Bool := c = ascii ' ' || c = ascii '\t' || c = ascii '\r' || c = ascii '\n'

/-- The significant characters: the symbols, and how much padding follows them. -/
def collect (alphabet : ByteString) : ByteString → List Nat → Nat → Except DecodeError (List Nat × Nat)
  | [], symbols, pad => .ok (symbols, pad)
  | c :: rest, symbols, pad =>
    if isSpace c then collect alphabet rest symbols pad
    else if c = ascii '=' then collect alphabet rest symbols (pad + 1)
    else if pad ≠ 0 then .error .invalidPadding
    else
      match base64Value c alphabet with
      | some v => collect alphabet rest (symbols ++ [v]) pad
      | none => .error .invalidCharacter

/-- The groups of four symbols, and what remains. -/
def decodeLoop : List Nat → ByteString
  | s₀ :: s₁ :: s₂ :: s₃ :: rest =>
    let n := s₀ <<< 18 ||| s₁ <<< 12 ||| s₂ <<< 6 ||| s₃
    UInt8.ofNat (n >>> 16) :: UInt8.ofNat (n >>> 8) :: UInt8.ofNat n :: decodeLoop rest
  | [s₀, s₁, s₂] =>
    let n := s₀ <<< 18 ||| s₁ <<< 12 ||| s₂ <<< 6
    [UInt8.ofNat (n >>> 16), UInt8.ofNat (n >>> 8)]
  | [s₀, s₁] =>
    let n := s₀ <<< 18 ||| s₁ <<< 12
    [UInt8.ofNat (n >>> 16)]
  | _ => []

/-- The checks of `base64_decode_with` on the numbers of symbols and padding. -/
def checkLength (requirePadding : Bool) (dataLen pad : Nat) : Except DecodeError Unit :=
  let total := dataLen + pad
  let leftover := dataLen % 4
  if 2 < pad then .error .invalidPadding
  else if requirePadding ∧ total % 4 ≠ 0 then .error .invalidLength
  else if ¬ requirePadding ∧ pad ≠ 0 ∧ total % 4 ≠ 0 then .error .invalidLength
  else if leftover = 1 then .error .invalidPadding
  else if requirePadding ∧ pad ≠ 0 ∧ pad ≠ (4 - leftover) % 4 then .error .invalidPadding
  else .ok ()

/-- `base64_decode_with`. -/
def base64DecodeWith (input : String) (alphabet : ByteString) (requirePadding : Bool) :
    Except DecodeError ByteString := do
  let (symbols, pad) ← collect alphabet (utf8 input) [] 0
  checkLength requirePadding symbols.length pad
  return decodeLoop symbols

/-- `base64_decode`. -/
def base64Decode (input : String) : Except DecodeError ByteString := base64DecodeWith input stdAlphabet true

/-- `base64url_decode`. -/
def base64urlDecode (input : String) : Except DecodeError ByteString := base64DecodeWith input urlAlphabet false

example : base64Encode (utf8 "foob") = "Zm9vYg==" := by decide

/-! ## Groups -/

/-- Two fields side by side. -/
theorem or_eq_add {hi lo w : Nat} (h : lo < 2 ^ w) : hi <<< w ||| lo = hi * 2 ^ w + lo := by
  rw [← Nat.shiftLeft_add_eq_or_of_lt h, Nat.shiftLeft_eq]

/-- The low six bits of a number. -/
theorem and_eq_mod (n : Nat) : n &&& 0x3f = n % 64 := Nat.and_two_pow_sub_one_eq_mod _ 6

variable {b₀ b₁ s₀ s₁ s₂ : Nat} {alphabet : ByteString}

/-- Three bytes in one number. -/
theorem bytes_eq_add {b₂ : Nat} (h₁ : b₁ < 256) (h₂ : b₂ < 256) :
    b₀ <<< 16 ||| b₁ <<< 8 ||| b₂ = b₀ * 65536 + b₁ * 256 + b₂ := by
  have hlow : b₁ <<< 8 < 2 ^ 16 := by
    rw [Nat.shiftLeft_eq]
    omega
  have hpair : b₀ <<< 16 ||| b₁ <<< 8 = (b₀ * 256 + b₁) <<< 8 := by
    rw [or_eq_add hlow, Nat.shiftLeft_eq, Nat.shiftLeft_eq]
    omega
  rw [hpair, or_eq_add h₂]
  omega

/-- Four symbols in one number. -/
theorem symbols_eq_add {s₃ : Nat} (h₁ : s₁ < 64) (h₂ : s₂ < 64) (h₃ : s₃ < 64) :
    s₀ <<< 18 ||| s₁ <<< 12 ||| s₂ <<< 6 ||| s₃ = s₀ * 262144 + s₁ * 4096 + s₂ * 64 + s₃ := by
  have hlow₁ : s₁ <<< 12 < 2 ^ 18 := by
    rw [Nat.shiftLeft_eq]
    omega
  have hlow₂ : s₂ <<< 6 < 2 ^ 12 := by
    rw [Nat.shiftLeft_eq]
    omega
  have hpair : s₀ <<< 18 ||| s₁ <<< 12 = (s₀ * 64 + s₁) <<< 12 := by
    rw [or_eq_add hlow₁, Nat.shiftLeft_eq, Nat.shiftLeft_eq]
    omega
  have htriple : (s₀ * 64 + s₁) <<< 12 ||| s₂ <<< 6 = ((s₀ * 64 + s₁) * 64 + s₂) <<< 6 := by
    rw [or_eq_add hlow₂, Nat.shiftLeft_eq, Nat.shiftLeft_eq]
    omega
  rw [hpair, htriple, or_eq_add h₃]
  omega

/-- Fewer bytes and symbols, in the same places. -/
theorem bytes_eq_add_two (h₁ : b₁ < 256) : b₀ <<< 16 ||| b₁ <<< 8 = b₀ * 65536 + b₁ * 256 := by
  have h := @bytes_eq_add b₀ b₁ 0 h₁ (by decide)
  rwa [Nat.or_zero, Nat.add_zero] at h

theorem symbols_eq_add_three (h₁ : s₁ < 64) (h₂ : s₂ < 64) :
    s₀ <<< 18 ||| s₁ <<< 12 ||| s₂ <<< 6 = s₀ * 262144 + s₁ * 4096 + s₂ * 64 := by
  have h := @symbols_eq_add s₀ s₁ s₂ 0 h₁ h₂ (by decide)
  rwa [Nat.or_zero, Nat.add_zero] at h

theorem symbols_eq_add_two (h₁ : s₁ < 64) : s₀ <<< 18 ||| s₁ <<< 12 = s₀ * 262144 + s₁ * 4096 := by
  have h := @symbols_eq_add_three s₀ s₁ 0 h₁ (by decide)
  rwa [Nat.zero_shiftLeft, Nat.or_zero, Nat.zero_mul, Nat.add_zero] at h

/-- The symbols of a byte string. -/
def sextets : ByteString → List Nat
  | b₀ :: b₁ :: b₂ :: rest =>
    let b := b₀.toNat <<< 16 ||| b₁.toNat <<< 8 ||| b₂.toNat
    (b >>> 18 &&& 0x3f) :: (b >>> 12 &&& 0x3f) :: (b >>> 6 &&& 0x3f) :: (b &&& 0x3f) :: sextets rest
  | [b₀, b₁] =>
    let b := b₀.toNat <<< 16 ||| b₁.toNat <<< 8
    [b >>> 18 &&& 0x3f, b >>> 12 &&& 0x3f, b >>> 6 &&& 0x3f]
  | [b₀] =>
    let b := b₀.toNat <<< 16
    [b >>> 18 &&& 0x3f, b >>> 12 &&& 0x3f]
  | [] => []

/-- The padding that completes the last group. -/
def padOf : ByteString → Nat
  | _ :: _ :: _ :: rest => padOf rest
  | [_, _] => 1
  | [_] => 2
  | [] => 0

theorem encodeLoop_eq (alphabet b : ByteString) :
    encodeLoop alphabet b = (sextets b).map (symbol alphabet) ++ List.replicate (padOf b) '=' := by
  induction b using sextets.induct with
  | case1 b₀ b₁ b₂ rest ih =>
    rw [encodeLoop, ih]
    rfl
  | case2 b₀ b₁ => rfl
  | case3 b₀ => rfl
  | case4 => rfl

theorem sextets_lt (b : ByteString) : ∀ s ∈ sextets b, s < 64 := by
  have hlt : ∀ n : Nat, n &&& 0x3f < 64 := fun n => Nat.and_lt_two_pow n (n := 6) (by decide)
  induction b using sextets.induct with
  | case1 b₀ b₁ b₂ rest ih =>
    rw [sextets]
    simp only [List.forall_mem_cons]
    exact ⟨hlt _, hlt _, hlt _, hlt _, ih⟩
  | case2 b₀ b₁ =>
    rw [sextets]
    simp only [List.forall_mem_cons]
    exact ⟨hlt _, hlt _, hlt _, fun _ h => absurd h List.not_mem_nil⟩
  | case3 b₀ =>
    rw [sextets]
    simp only [List.forall_mem_cons]
    exact ⟨hlt _, hlt _, fun _ h => absurd h List.not_mem_nil⟩
  | case4 => exact fun _ h => absurd h List.not_mem_nil

/-- How many symbols there are, and how much padding. -/
theorem length_sextets (b : ByteString) : ∃ k, (sextets b).length + padOf b = 4 * k ∧ padOf b ≤ 2 := by
  induction b using sextets.induct with
  | case1 b₀ b₁ b₂ rest ih =>
    obtain ⟨k, hlen, hpad⟩ := ih
    refine ⟨k + 1, ?_, hpad⟩
    rw [sextets, padOf]
    simp only [List.length_cons]
    omega
  | case2 b₀ b₁ => exact ⟨1, rfl, Nat.le_succ 1⟩
  | case3 b₀ => exact ⟨1, rfl, Nat.le_refl 2⟩
  | case4 => exact ⟨0, rfl, Nat.zero_le _⟩

theorem ofNat_eq {b : UInt8} {n : Nat} (h : n % 256 = b.toNat) : UInt8.ofNat n = b := by
  rw [← UInt8.toNat_inj, UInt8.toNat_ofNat']
  exact h

/-- **The bytes come back from their symbols.** -/
theorem decodeLoop_sextets (b : ByteString) : decodeLoop (sextets b) = b := by
  induction b using sextets.induct with
  | case1 b₀ b₁ b₂ rest ih =>
    have h₀ := b₀.toNat_lt
    have h₁ := b₁.toNat_lt
    have h₂ := b₂.toNat_lt
    rw [sextets, decodeLoop, ih]
    rw [bytes_eq_add h₁ h₂]
    simp only [and_eq_mod]
    rw [symbols_eq_add (Nat.mod_lt _ (by decide)) (Nat.mod_lt _ (by decide)) (Nat.mod_lt _ (by decide))]
    simp only [Nat.shiftRight_eq_div_pow]
    rw [ofNat_eq (b := b₀) (by omega), ofNat_eq (b := b₁) (by omega), ofNat_eq (b := b₂) (by omega)]
  | case2 b₀ b₁ =>
    have h₀ := b₀.toNat_lt
    have h₁ := b₁.toNat_lt
    rw [sextets, decodeLoop]
    rw [bytes_eq_add_two h₁]
    simp only [and_eq_mod]
    rw [symbols_eq_add_three (Nat.mod_lt _ (by decide)) (Nat.mod_lt _ (by decide))]
    simp only [Nat.shiftRight_eq_div_pow]
    rw [ofNat_eq (b := b₀) (by omega), ofNat_eq (b := b₁) (by omega)]
  | case3 b₀ =>
    have h₀ := b₀.toNat_lt
    rw [sextets, decodeLoop]
    simp only [and_eq_mod]
    rw [symbols_eq_add_two (Nat.mod_lt _ (by decide))]
    simp only [Nat.shiftLeft_eq, Nat.shiftRight_eq_div_pow]
    rw [ofNat_eq (b := b₀) (by omega)]
  | case4 => rfl

/-! ## Layouts -/

/-- The white space that is skipped, as characters. -/
def spaces : List Char := [' ', '\t', '\r', '\n']

/-- White space inserted at any positions. -/
inductive Inserted : List Char → List Char → Prop
  | nil : Inserted [] []
  | keep (c : Char) {s t : List Char} : Inserted s t → Inserted (c :: s) (c :: t)
  | space {c : Char} {s t : List Char} : c ∈ spaces → Inserted s t → Inserted s (c :: t)

theorem Inserted.refl (s : List Char) : Inserted s s := by
  induction s with
  | nil => exact .nil
  | cons c s ih => exact .keep c ih

/-- A text of single bytes. -/
def Ascii (s : List Char) : Prop := ∀ c ∈ s, c.toNat < 128

/-- White space is one byte, and skipped. -/
theorem isSpace_of_mem {c : Char} (h : c ∈ spaces) : c.toNat < 128 ∧ isSpace (ascii c) = true := by
  have hall : ∀ c ∈ spaces, c.toNat < 128 ∧ isSpace (ascii c) = true := by
    simp only [spaces, List.forall_mem_cons]
    exact ⟨by decide, by decide, by decide, by decide, fun _ hc => absurd hc List.not_mem_nil⟩
  exact hall c h

/-- **White space changes nothing**, by induction on where it was inserted. -/
theorem collect_inserted {s t : List Char} (h : Inserted s t) (hs : Ascii s) (symbols : List Nat)
    (pad : Nat) :
    collect alphabet (encode t) symbols pad = collect alphabet (encode s) symbols pad := by
  induction h generalizing symbols pad with
  | nil => rfl
  | @keep c s t _ ih =>
    have hc := hs c List.mem_cons_self
    have ih := fun symbols pad => ih (fun c hmem => hs c (List.mem_cons_of_mem _ hmem)) symbols pad
    rw [encode_cons_ascii hc, encode_cons_ascii hc, collect, collect]
    simp only [ih]
  | space hc _ ih =>
    obtain ⟨hascii, hspace⟩ := isSpace_of_mem hc
    rw [encode_cons_ascii hascii, collect, if_pos hspace]
    exact ih hs symbols pad

/-- What the decoder relies on: the symbols are bytes of their own, and found again. -/
def Readable (alphabet : ByteString) : Prop :=
  ∀ n < 64, (symbol alphabet n).toNat < 128 ∧ isSpace (ascii (symbol alphabet n)) = false ∧
    ascii (symbol alphabet n) ≠ ascii '=' ∧ base64Value (ascii (symbol alphabet n)) alphabet = some n

instance (alphabet : ByteString) : Decidable (Readable alphabet) := inferInstanceAs (Decidable (∀ n < 64, _))

theorem readable_stdAlphabet : Readable stdAlphabet := by decide +kernel

theorem readable_urlAlphabet : Readable urlAlphabet := by decide +kernel

section Alphabet

variable {alphabet : ByteString}

/-- Symbols are read one by one. -/
theorem collect_symbols (h : Readable alphabet) (ns : List Nat) (hns : ∀ n ∈ ns, n < 64) (rest : ByteString)
    (symbols : List Nat) :
    collect alphabet (encode (ns.map (symbol alphabet)) ++ rest) symbols 0 =
      collect alphabet rest (symbols ++ ns) 0 := by
  induction ns generalizing symbols with
  | nil => rw [List.append_nil]; rfl
  | cons n ns ih =>
    obtain ⟨hascii, hspace, hpad, hvalue⟩ := h n (hns n List.mem_cons_self)
    rw [List.map_cons, encode_cons_ascii hascii, List.cons_append, collect, hspace, if_neg Bool.false_ne_true,
      if_neg hpad, if_neg (not_not_intro rfl), hvalue]
    dsimp only
    rw [ih (fun n hmem => hns n (List.mem_cons_of_mem _ hmem)), List.append_assoc, List.singleton_append]

/-- Padding is counted. -/
theorem collect_pad (symbols : List Nat) (k pad : Nat) :
    collect alphabet (encode (List.replicate k '=')) symbols pad = .ok (symbols, pad + k) := by
  induction k generalizing pad with
  | zero => rfl
  | succ k ih =>
    rw [List.replicate_succ, encode_cons_ascii (by decide), collect, if_neg (by decide), if_pos rfl, ih,
      Nat.add_right_comm]
    rfl

variable {k : Nat}

/-- A text of symbols and padding, laid out in any way. -/
theorem collect_layout (h : Readable alphabet) {ns : List Nat} (hns : ∀ n ∈ ns, n < 64)
    {t : List Char} (ht : Inserted (ns.map (symbol alphabet) ++ List.replicate k '=') t) :
    collect alphabet (encode t) [] 0 = .ok (ns, k) := by
  have hascii : Ascii (ns.map (symbol alphabet) ++ List.replicate k '=') := by
    rintro c hc
    rcases List.mem_append.mp hc with hc | hc
    · obtain ⟨n, hn, rfl⟩ := List.mem_map.mp hc
      exact (h n (hns n hn)).1
    · rw [List.eq_of_mem_replicate hc]
      decide
  rw [collect_inserted ht hascii, encode_append, collect_symbols h ns hns, collect_pad, List.nil_append, Nat.zero_add]

/-- **Any layout of a text is decoded**, with the padding it needs or, where that is allowed, with none. -/
theorem decodeWith_layout (h : Readable alphabet) (b : ByteString) {requirePadding : Bool}
    (hk : k = padOf b ∨ requirePadding = false ∧ k = 0) {t : String}
    (ht : Inserted ((sextets b).map (symbol alphabet) ++ List.replicate k '=') t.toList) :
    base64DecodeWith t alphabet requirePadding = .ok b := by
  have hcollect := collect_layout h (sextets_lt b) ht
  obtain ⟨groups, hlen, hpad⟩ := length_sextets b
  have hcheck : checkLength requirePadding (sextets b).length k = .ok () := by
    rw [checkLength]
    rcases hk with rfl | ⟨rfl, rfl⟩
    · rw [if_neg (by omega), if_neg (by rintro ⟨-, h⟩; omega), if_neg (by rintro ⟨-, -, h⟩; omega),
        if_neg (by omega), if_neg (by rintro ⟨-, -, h⟩; omega)]
    · rw [if_neg (by decide), if_neg (by rintro ⟨h, -⟩; cases h), if_neg (by rintro ⟨-, h, -⟩; exact h rfl),
        if_neg (by omega), if_neg (by rintro ⟨h, -⟩; cases h)]
  rw [base64DecodeWith, utf8_eq_encode, hcollect]
  show (checkLength requirePadding (sextets b).length k >>= fun _ => .ok (decodeLoop (sextets b))) = _
  rw [hcheck, decodeLoop_sextets]
  rfl

end Alphabet

/-- `s` without the padding at its end. -/
def unpadded (s : String) : String := String.ofList (s.toList.rdropWhile (· = '='))

theorem unpadded_encodeWith (h : Readable alphabet) (b : ByteString) :
    (unpadded (base64EncodeWith b alphabet)).toList = (sextets b).map (symbol alphabet) := by
  rw [unpadded, base64EncodeWith, String.toList_ofList, String.toList_ofList, encodeLoop_eq]
  induction padOf b with
  | zero =>
    rw [List.replicate_zero, List.append_nil, List.rdropWhile_eq_self_iff]
    intro hne heq
    -- a symbol is not the padding
    obtain ⟨n, hn, hlast⟩ := List.mem_map.mp (List.getLast_mem hne)
    obtain ⟨-, -, hpad, -⟩ := h n (sextets_lt b n hn)
    rw [hlast, of_decide_eq_true heq] at hpad
    exact hpad rfl
  | succ k ih =>
    rw [List.replicate_succ', ← List.append_assoc, List.rdropWhile_concat_pos _ _ _ (by decide)]
    exact ih

/-- **Decoding undoes encoding in every layout.** -/
theorem base64_roundTrip (b : ByteString) :
    (∀ t : String, Inserted (base64Encode b).toList t.toList → base64Decode t = .ok b) ∧
      base64urlDecode (base64urlEncode b) = .ok b ∧ base64urlDecode (unpadded (base64urlEncode b)) = .ok b := by
  refine ⟨fun t ht => ?_, ?_, ?_⟩
  · rw [base64Encode, base64EncodeWith, String.toList_ofList, encodeLoop_eq] at ht
    exact decodeWith_layout readable_stdAlphabet b (.inl rfl) ht
  · refine decodeWith_layout readable_urlAlphabet b (.inl rfl) ?_
    rw [base64urlEncode, base64EncodeWith, String.toList_ofList, encodeLoop_eq]
    exact .refl _
  · refine decodeWith_layout readable_urlAlphabet b (.inr ⟨rfl, rfl⟩) ?_
    rw [base64urlEncode, unpadded_encodeWith readable_urlAlphabet, List.replicate_zero, List.append_nil]
    exact .refl _

/-- A text wrapped after two characters. -/
theorem base64_roundTrip_wrapped : base64Decode "TW\r\nE=" = .ok (utf8 "Ma") := by
  have hencode : (base64Encode (utf8 "Ma")).toList = ['T', 'W', 'E', '='] := by decide
  refine (base64_roundTrip (utf8 "Ma")).1 _ ?_
  rw [hencode]
  exact .keep _ (.keep _ (.space (by decide) (.space (by decide) (.keep _ (.keep _ .nil)))))

end AthenaOS.Encode
