import AthenaOS.Json.Grammar

/-!
# Whitespace, strings and numbers

What the leaves of the parser read, against the grammar, both ways: what is read is derived, and
what is derived is read.
-/

namespace AthenaOS.Json

open Lib Lib.Wire Lib.Decoder

/-! ## Single bytes -/

variable {c : Char} {cs h e body decoded ds int : List Char} {u : Unit} {data rest bs : ByteString}
variable {b : UInt8} {d v : Nat} {out out' : String} {l : Lexeme}

theorem ensure_of {c : Bool} (h : c = true) (e : JsonError) (data : ByteString) :
    ensure c e data = .ok ((), data) := by
  rw [h]
  rfl

theorem okOr_eq_ok {α : Type} {o : Option α} {a : α} {e : JsonError}
    (h : okOr o e data = .ok (a, rest)) : o = some a ∧ rest = data := by
  cases o with
  | none => exact nomatch h
  | some b =>
    obtain ⟨rfl, rfl⟩ := pure_eq_ok h
    exact ⟨rfl, rfl⟩

/-- The first byte is that of an ASCII character only if the first character is. -/
theorem head?_encode (hc : c.toNat < 128) (cs : List Char) :
    (encode cs).head? = some (ascii c) ↔ cs.head? = some c := by
  constructor
  · intro h
    cases hdata : encode cs with
    | nil =>
      rw [hdata] at h
      exact nomatch h
    | cons b rest =>
      rw [hdata] at h
      obtain rfl := Option.some.inj h
      obtain ⟨cs', rfl, -⟩ := encode_eq_ascii_cons hc hdata
      rfl
  · intro h
    cases cs with
    | nil => exact nomatch h
    | cons d cs =>
      obtain rfl := Option.some.inj h
      rw [encode_cons_ascii hc]
      rfl

theorem expectByte_cons (hc : c.toNat < 128) (e : JsonError) (cs : List Char) :
    expectByte (ascii c) e (encode (c :: cs)) = .ok ((), encode cs) := by
  rw [encode_cons_ascii hc]
  exact (bind_ok (m := bump) rfl).trans (ensure_of (decide_eq_true rfl) e _)

/-! ## Whitespace -/

/-- Not whitespace at the front. -/
def NoWs (cs : List Char) : Prop := ∀ c, cs.head? = some c → ¬ IsWs [c]

theorem isWs_nil : IsWs [] := fun _ h => nomatch h

theorem isWs_singleton : IsWs [c] ↔ c = ' ' ∨ c = '\t' ∨ c = '\n' ∨ c = '\r' := by
  constructor
  · intro h
    exact h c List.mem_cons_self
  · intro h d hd
    rw [List.mem_singleton.mp hd]
    exact h

theorem IsWs.cons (hc : IsWs [c]) (hcs : IsWs cs) : IsWs (c :: cs) := by
  intro d hd
  rcases List.mem_cons.mp hd with rfl | hd
  · exact hc d List.mem_cons_self
  · exact hcs d hd

theorem IsWs.tail (h : IsWs (c :: cs)) : IsWs [c] ∧ IsWs cs := by
  refine ⟨fun d hd => ?_, fun d hd => h d (List.mem_cons_of_mem c hd)⟩
  rw [List.mem_singleton.mp hd]
  exact h c List.mem_cons_self

theorem isWs_ascii (hc : c.toNat < 128) : isWs (ascii c) = true ↔ IsWs [c] := by
  rw [isWs_singleton, isWs, Bool.or_eq_true, Bool.or_eq_true, Bool.or_eq_true, beq_iff_eq, beq_iff_eq,
    beq_iff_eq, beq_iff_eq]
  constructor
  · rintro (((h | h) | h) | h)
    · exact .inl (ascii_inj hc (by decide) h)
    · exact .inr (.inl (ascii_inj hc (by decide) h))
    · exact .inr (.inr (.inl (ascii_inj hc (by decide) h)))
    · exact .inr (.inr (.inr (ascii_inj hc (by decide) h)))
  · rintro (rfl | rfl | rfl | rfl)
    · exact .inl (.inl (.inl rfl))
    · exact .inl (.inl (.inr rfl))
    · exact .inl (.inr rfl)
    · exact .inr rfl

theorem isWs_lt (h : IsWs [c]) : c.toNat < 128 := by
  rcases isWs_singleton.mp h with rfl | rfl | rfl | rfl
  · decide
  · decide
  · decide
  · decide

/-- Whitespace up to the first other character is skipped. -/
theorem skipWs_append {w : List Char} (hw : IsWs w) (hcs : NoWs cs) :
    skipWs (encode (w ++ cs)) = .ok ((), encode cs) := by
  rw [skipWs]
  refine congrArg (fun data => Except.ok ((), data)) ?_
  induction w with
  | nil =>
    rw [List.nil_append]
    cases hdata : encode cs with
    | nil => rfl
    | cons b rest =>
      obtain ⟨c, cs', rfl, ⟨hc, rfl, -⟩ | ⟨-, hb, -⟩⟩ := encode_eq_cons hdata
      · refine List.dropWhile_cons_of_neg fun h => ?_
        exact hcs c rfl ((isWs_ascii hc).mp h)
      · refine List.dropWhile_cons_of_neg fun h => ?_
        simp only [isWs, Bool.or_eq_true, beq_iff_eq] at h
        rcases h with ((rfl | rfl) | rfl) | rfl
        · exact absurd hb (by decide)
        · exact absurd hb (by decide)
        · exact absurd hb (by decide)
        · exact absurd hb (by decide)
  | cons c w ih =>
    obtain ⟨hc, hw'⟩ := hw.tail
    rw [List.cons_append, encode_cons_ascii (isWs_lt hc),
      List.dropWhile_cons_of_pos ((isWs_ascii (isWs_lt hc)).mpr hc), ih hw']

theorem hexVal_ascii (hc : c.toNat < 128) : hexVal (ascii c) = hexDigitVal c := by
  have hle : ∀ d : Char, d.toNat < 128 → (ascii d ≤ ascii c ↔ d.toNat ≤ c.toNat) := by
    intro d hd
    rw [UInt8.le_iff_toNat_le, toNat_ascii hd, toNat_ascii hc]
  have hge : ∀ d : Char, d.toNat < 128 → (ascii c ≤ ascii d ↔ c.toNat ≤ d.toNat) := by
    intro d hd
    rw [UInt8.le_iff_toNat_le, toNat_ascii hd, toNat_ascii hc]
  rw [hexVal, hexDigitVal]
  simp only [hle '0' (by decide), hge '9' (by decide), hle 'a' (by decide), hge 'f' (by decide),
    hle 'A' (by decide), hge 'F' (by decide), toNat_ascii hc]

theorem hexDigitVal_lt (h : hexDigitVal c = some d) : c.toNat < 128 ∧ d < 16 := by
  rw [hexDigitVal] at h
  split at h
  · obtain rfl := Option.some.inj h
    have h9 : '9'.toNat = 57 := rfl
    have h0 : '0'.toNat = 48 := rfl
    omega
  split at h
  · obtain rfl := Option.some.inj h
    have hf : 'f'.toNat = 102 := rfl
    have ha : 'a'.toNat = 97 := rfl
    omega
  split at h
  · obtain rfl := Option.some.inj h
    have hf : 'F'.toNat = 70 := rfl
    have ha : 'A'.toNat = 65 := rfl
    omega
  · exact nomatch h

theorem readHex_cons (hd : hexDigitVal c = some d) (cs : List Char) :
    readHex v (encode (c :: cs)) = .ok (v * 16 + d, encode cs) := by
  have hc := (hexDigitVal_lt hd).1
  rw [encode_cons_ascii hc]
  have hval : okOr (hexVal (ascii c)) .badEscape (encode cs) = .ok (d, encode cs) := by
    rw [hexVal_ascii hc, hd]
    rfl
  exact (bind_ok (m := next .badEscape) rfl).trans (bind_ok hval)

theorem readHex4_append (hv : Hex4 h v) (cs : List Char) :
    readHex4 (encode (h ++ cs)) = .ok (v, encode cs) := by
  cases hv with
  | mk hd₁ hd₂ hd₃ hd₄ =>
    refine (bind_ok (readHex_cons hd₁ _)).trans ((bind_ok (readHex_cons hd₂ _)).trans ?_)
    refine (bind_ok (readHex_cons hd₃ _)).trans ((readHex_cons hd₄ _).trans ?_)
    rw [Nat.zero_mul, Nat.zero_add]
    rfl

theorem Hex4.lt (hv : Hex4 h v) : v < 65536 := by
  cases hv with
  | mk hd₁ hd₂ hd₃ hd₄ =>
    have h₁ := (hexDigitVal_lt hd₁).2
    have h₂ := (hexDigitVal_lt hd₂).2
    have h₃ := (hexDigitVal_lt hd₃).2
    have h₄ := (hexDigitVal_lt hd₄).2
    omega

/-! ## Strings -/

theorem charFromU32_of_valid {n : Nat} (h : n < 0xD800 ∨ 0xDFFF < n ∧ n < 0x110000) :
    charFromU32 n = some (Char.ofNat n) := if_pos h

/-- The escapes of one character. -/
theorem simpleEscape_ascii {e : Char} (h : Escape e c) :
    e.toNat < 128 ∧ e ≠ 'u' ∧ simpleEscape (ascii e) = some c := by
  cases h with
  | quote => decide
  | backslash => decide
  | slash => decide
  | backspace => decide
  | formFeed => decide
  | lineFeed => decide
  | carriageReturn => decide
  | tab => decide

/-- The lead byte tells how many bytes a character has. -/
theorem utf8Len_of_cons (hc : 128 ≤ c.toNat) (h : String.utf8EncodeChar c = b :: bs) :
    utf8Len b = bs.length + 1 := by
  have hgt : ¬ c.val.toNat ≤ 0x7f := Nat.not_le_of_lt hc
  have htwo : ∀ k, k < 32 → utf8Len (UInt8.ofNat (k + 0xC0)) = 2 := by decide
  have hthree : ∀ k, k < 16 → utf8Len (UInt8.ofNat (k + 0xE0)) = 3 := by decide
  have hfour : ∀ k, k < 8 → utf8Len (UInt8.ofNat (k + 0xF0)) = 4 := by decide
  rw [String.utf8EncodeChar, if_neg hgt] at h
  split at h
  · obtain ⟨rfl, rfl⟩ := List.cons.inj h
    exact htwo _ (Nat.mod_lt _ (by decide))
  split at h
  · obtain ⟨rfl, rfl⟩ := List.cons.inj h
    exact hthree _ (Nat.mod_lt _ (by decide))
  · obtain ⟨rfl, rfl⟩ := List.cons.inj h
    exact hfour _ (Nat.mod_lt _ (by decide))

/-- A character that is not ASCII is taken over. -/
theorem copySequence_encode (hc : 128 ≤ c.toNat)
    (h : b :: data = String.utf8EncodeChar c ++ encode cs) (out : String) :
    copySequence b out data = .ok (out.push c, encode cs) := by
  cases hbytes : String.utf8EncodeChar c with
  | nil => exact absurd hbytes String.utf8EncodeChar_ne_nil
  | cons b' bs =>
    rw [hbytes, List.cons_append] at h
    obtain ⟨rfl, rfl⟩ := List.cons.inj h
    have hlen := utf8Len_of_cons hc hbytes
    have hsub : utf8Len b - 1 = bs.length := by omega
    have hchar : ofUtf8? (b :: bs) = some (String.singleton c) := by
      rw [ofUtf8?_eq_some, String.singleton_eq_ofList, utf8_ofList, encode_cons, hbytes, encode_nil,
        List.append_nil]
    rw [copySequence, if_neg (by rw [hsub, List.length_append]; omega), hsub, List.take_left, hchar,
      List.drop_left, String.push_eq_append]

theorem parseUnicodeEscape_append (h : Element ('\\' :: 'u' :: e) c) (cs : List Char) :
    parseUnicodeEscape out (encode (e ++ cs)) = .ok (out.push c, encode cs) := by
  generalize hchars : '\\' :: 'u' :: e = chars at h
  cases h with
  | plain _ _ hne =>
    obtain ⟨rfl, -⟩ := List.cons.inj hchars
    exact absurd rfl hne
  | escape hesc =>
    obtain ⟨rfl, -⟩ := List.cons.inj (List.cons.inj hchars).2
    exact absurd rfl (simpleEscape_ascii hesc).2.1
  | @unicode h u hu hrange =>
    obtain ⟨-, rfl⟩ := List.cons.inj (List.cons.inj hchars).2
    refine (bind_ok (readHex4_append hu cs)).trans ?_
    have hvalid := charFromU32_of_valid (n := u) (by have := hu.lt; omega)
    rw [if_neg (by omega), if_neg (by omega), hvalid]
    rfl
  | @pair h l hi lo hhi hrange hlo hrange' =>
    obtain ⟨-, rfl⟩ := List.cons.inj (List.cons.inj hchars).2
    rw [List.append_assoc]
    refine (bind_ok (readHex4_append hhi _)).trans ?_
    rw [if_pos hrange]
    refine (bind_ok (expectByte_cons (by decide) _ _)).trans ?_
    refine (bind_ok (expectByte_cons (by decide) _ _)).trans ?_
    refine (bind_ok (readHex4_append hlo cs)).trans ?_
    refine (bind_ok (ensure_of (decide_eq_true hrange') _ _)).trans ?_
    rw [charFromU32_of_valid (by omega)]
    rfl

/-- An element is a character that stands for itself, or an escape. -/
theorem Element.plain_or_backslash (h : Element e c) :
    (e = [c] ∧ 0x20 ≤ c.toNat ∧ c ≠ '"' ∧ c ≠ '\\') ∨ ∃ e', e = '\\' :: e' := by
  cases h with
  | plain hctl hquote hbackslash => exact .inl ⟨rfl, hctl, hquote, hbackslash⟩
  | escape _ => exact .inr ⟨_, rfl⟩
  | unicode _ _ => exact .inr ⟨_, rfl⟩
  | pair _ _ _ _ => exact .inr ⟨_, rfl⟩

theorem Element.length_pos (h : Element e c) : 0 < e.length := by
  rcases h.plain_or_backslash with ⟨rfl, -⟩ | ⟨e', rfl⟩
  · exact Nat.one_pos
  · exact Nat.succ_pos _

theorem parseEscape_append (h : Element ('\\' :: e) c) (cs : List Char) :
    parseEscape out (encode (e ++ cs)) = .ok (out.push c, encode cs) := by
  cases h with
  | plain _ _ hne => exact absurd rfl hne
  | @escape e c hesc =>
    obtain ⟨he, hne, hc⟩ := simpleEscape_ascii hesc
    rw [List.singleton_append, encode_cons_ascii he]
    refine (bind_ok (m := next .unterminated) rfl).trans ?_
    rw [if_neg fun h => hne (ascii_inj he (by decide) h), hc]
    rfl
  | unicode hu hrange =>
    rw [List.cons_append, encode_cons_ascii (by decide)]
    refine (bind_ok (m := next .unterminated) rfl).trans ?_
    rw [if_pos rfl]
    exact parseUnicodeEscape_append (.unicode hu hrange) cs
  | pair hhi hrange hlo hrange' =>
    rw [List.cons_append, encode_cons_ascii (by decide)]
    refine (bind_ok (m := next .unterminated) rfl).trans ?_
    rw [if_pos rfl]
    exact parseUnicodeEscape_append (.pair hhi hrange hlo hrange') cs

/-- An element is taken in one round. -/
theorem stringRound_append (h : Element e c) (cs : List Char) :
    stringRound out (encode (e ++ cs)) = .ok (.inl (out.push c), encode cs) := by
  rcases Element.plain_or_backslash h with ⟨rfl, hctl, hquote, hbackslash⟩ | ⟨e', rfl⟩
  · by_cases hc : c.toNat < 128
    · have hctl' : ¬ ascii c < 0x20 := by
        rw [UInt8.lt_iff_toNat_lt, toNat_ascii hc]
        exact Nat.not_lt_of_le hctl
      have hlt : ascii c < 0x80 := by
        rw [UInt8.lt_iff_toNat_lt, toNat_ascii hc]
        exact hc
      rw [List.singleton_append, encode_cons_ascii hc]
      refine (bind_ok (m := next .unterminated) rfl).trans ?_
      rw [if_neg fun h => hquote (ascii_inj hc (by decide) h),
        if_neg fun h => hbackslash (ascii_inj hc (by decide) h), if_neg hctl', if_pos hlt,
        toNat_ascii hc, Char.ofNat_toNat]
      rfl
    · have hc' : 128 ≤ c.toNat := Nat.le_of_not_lt hc
      cases hbytes : String.utf8EncodeChar c with
      | nil => exact absurd hbytes String.utf8EncodeChar_ne_nil
      | cons b bs =>
        have hb := le_of_mem_utf8EncodeChar hc' (hbytes ▸ List.mem_cons_self)
        have hne : ∀ d : Char, d.toNat < 128 → ¬ b = ascii d := by
          rintro d hd rfl
          rw [toNat_ascii hd] at hb
          omega
        have hge : ∀ m : UInt8, m.toNat ≤ 128 → ¬ b < m := by
          intro m hm hlt
          rw [UInt8.lt_iff_toNat_lt] at hlt
          omega
        have hcopy : copySequence b out (bs ++ encode cs) = .ok (out.push c, encode cs) :=
          copySequence_encode hc' (by rw [hbytes]; rfl) out
        rw [List.singleton_append, encode_cons, hbytes]
        refine (bind_ok (m := next .unterminated) rfl).trans ?_
        rw [if_neg (hne '"' (by decide)), if_neg (hne '\\' (by decide)), if_neg (hge 0x20 (by decide)),
          if_neg (hge 0x80 (by decide))]
        exact bind_ok hcopy
  · rw [List.cons_append, encode_cons_ascii (by decide)]
    refine (bind_ok (m := next .unterminated) rfl).trans ?_
    rw [if_neg (by decide), if_pos rfl]
    exact bind_ok (parseEscape_append h cs)

theorem stringRound_quote (out : String) (cs : List Char) :
    stringRound out (encode ('"' :: cs)) = .ok (.inr out, encode cs) := by
  rw [encode_cons_ascii (by decide)]
  rfl

theorem push_append_ofList (out : String) (c : Char) (cs : List Char) :
    out.push c ++ String.ofList cs = out ++ String.ofList (c :: cs) := by
  refine String.toList_inj.mp ?_
  rw [String.toList_append, String.toList_append, String.toList_push, String.toList_ofList,
    String.toList_ofList, List.append_assoc]
  rfl

theorem stringLoop_append (h : Body body decoded) (cs : List Char) :
    loop List.length stringRound progresses_stringRound out (encode (body ++ '"' :: cs)) =
      .ok (out ++ String.ofList decoded, encode cs) := by
  induction h generalizing out with
  | nil =>
    rw [List.nil_append, loop_break (stringRound_quote out cs)]
    exact congrArg (fun s => Except.ok (s, encode cs)) String.append_empty.symm
  | @cons e body decoded c helem hbody ih =>
    rw [List.append_assoc, loop_continue (stringRound_append helem _), ih, push_append_ofList]

theorem parseString_append (h : Body body decoded) (cs : List Char) :
    parseString (encode ('"' :: (body ++ '"' :: cs))) = .ok (String.ofList decoded, encode cs) := by
  refine (bind_ok (expectByte_cons (by decide) _ _)).trans ((stringLoop_append h cs).trans ?_)
  rw [String.empty_append]

/-! ## Digits -/

/-- Not a digit at the front. -/
def NoDigit (cs : List Char) : Prop := ∀ c, cs.head? = some c → ¬ Digit c

theorem Digit.lt (h : Digit c) : c.toNat < 128 := Nat.lt_of_le_of_lt h.2 (by decide)

theorem isDigit_ascii (hc : c.toNat < 128) : isDigit (ascii c) = true ↔ Digit c := by
  rw [isDigit, Bool.and_eq_true, decide_eq_true_eq, decide_eq_true_eq, UInt8.le_iff_toNat_le,
    UInt8.le_iff_toNat_le, toNat_ascii hc]
  exact Iff.rfl

theorem isDigit_of_le (hb : 128 ≤ b.toNat) : isDigit b = false := by
  have hgt : ¬ b ≤ ascii '9' := by
    rw [UInt8.le_iff_toNat_le]
    exact Nat.not_le_of_lt (Nat.lt_of_lt_of_le (by decide) hb)
  rw [isDigit, decide_eq_false hgt, Bool.and_false]

theorem noDigit_cons (h : ¬ Digit c) : NoDigit (c :: cs) := by
  intro d hd
  obtain rfl := Option.some.inj hd
  exact h

/-- The first byte is a digit if the first character is. -/
theorem head?_any_isDigit (cs : List Char) : (encode cs).head?.any isDigit = true ↔ ¬ NoDigit cs := by
  cases hdata : encode cs with
  | nil =>
    cases cs with
    | nil => exact ⟨fun h => (nomatch h), fun h => absurd (fun c hc => by cases hc) h⟩
    | cons c cs =>
      rw [encode_cons] at hdata
      exact absurd (List.append_eq_nil_iff.mp hdata).1 String.utf8EncodeChar_ne_nil
  | cons b rest =>
    obtain ⟨c, cs', rfl, ⟨hc, rfl, -⟩ | ⟨hc, hb, -⟩⟩ := encode_eq_cons hdata
    · show isDigit (ascii c) = true ↔ _
      rw [isDigit_ascii hc]
      exact ⟨fun hd hno => hno c rfl hd, fun hno => by_contra fun hd => hno (noDigit_cons hd)⟩
    · show isDigit b = true ↔ _
      rw [isDigit_of_le hb]
      refine ⟨fun h => (nomatch h), fun hno => absurd (noDigit_cons fun hd => ?_) hno⟩
      exact Nat.not_lt_of_le hc hd.lt

/-- The digits up to the first other character. -/
theorem digits_append (hds : ∀ d ∈ ds, Digit d) (hcs : NoDigit cs) :
    digits (encode (ds ++ cs)) = .ok (encode ds, encode cs) := by
  have hsplit : (encode (ds ++ cs)).takeWhile isDigit = encode ds ∧
      (encode (ds ++ cs)).dropWhile isDigit = encode cs := by
    induction ds with
    | nil =>
      rw [List.nil_append]
      have hhead := mt (head?_any_isDigit cs).mp (not_not_intro hcs)
      cases hdata : encode cs with
      | nil => exact ⟨rfl, rfl⟩
      | cons b rest =>
        rw [hdata] at hhead
        exact ⟨List.takeWhile_cons_of_neg hhead, List.dropWhile_cons_of_neg hhead⟩
    | cons d ds ih =>
      have hd := hds d List.mem_cons_self
      have hbyte := (isDigit_ascii hd.lt).mpr hd
      obtain ⟨htake, hdrop⟩ := ih fun d' hd' => hds d' (List.mem_cons_of_mem d hd')
      rw [List.cons_append, encode_cons_ascii hd.lt, encode_cons_ascii hd.lt,
        List.takeWhile_cons_of_pos hbyte, List.dropWhile_cons_of_pos hbyte, htake, hdrop]
      exact ⟨rfl, rfl⟩
  rw [digits, hsplit.1, hsplit.2]

theorem someDigits_append (hds : Lexeme.IsDigits ds) (hcs : NoDigit cs) :
    someDigits (encode (ds ++ cs)) = .ok (encode ds, encode cs) := by
  have hfirst : (encode (ds ++ cs)).head?.any isDigit = true := by
    refine (head?_any_isDigit _).mpr fun hno => ?_
    cases ds with
    | nil => exact hds.1 rfl
    | cons d ds => exact hno d rfl (hds.2 d List.mem_cons_self)
  refine (bind_ok (m := peek) rfl).trans ((bind_ok (ensure_of hfirst _ _)).trans ?_)
  exact digits_append hds.2 hcs

/-! ## Numbers -/

open Lexeme

theorem parseIntPart_append (hint : IsInt int) (hcs : NoDigit cs) :
    parseIntPart (encode (int ++ cs)) = .ok (encode int, encode cs) := by
  cases hint with
  | zero =>
    have hnot : (!(encode cs).head?.any isDigit) = true := by
      rw [Bool.not_eq_true', Bool.eq_false_iff]
      exact mt (head?_any_isDigit cs).mp (not_not_intro hcs)
    rw [List.singleton_append, encode_cons_ascii (by decide)]
    refine (bind_ok (m := next .badNumber) rfl).trans ?_
    rw [if_pos rfl]
    exact (bind_ok (m := peek) rfl).trans (bind_ok (ensure_of hnot _ _))
  | @digits c ds hc hne hds =>
    rw [List.cons_append, encode_cons_ascii hc.lt, encode_cons_ascii hc.lt]
    refine (bind_ok (m := next .badNumber) rfl).trans ?_
    rw [if_neg fun h => hne (ascii_inj hc.lt (by decide) h)]
    refine (bind_ok (ensure_of ((isDigit_ascii hc.lt).mpr hc) _ _)).trans ?_
    exact bind_ok (digits_append hds hcs)

/-- The byte at the front is that of `c` if the character is. -/
theorem peek_encode (hc : c.toNat < 128) (h : cs.head? ≠ some c) :
    ¬ (encode cs).head? = some (ascii c) := mt (head?_encode hc cs).mp h

theorem advance_cons (hc : c.toNat < 128) (cs : List Char) :
    advance 1 (encode (c :: cs)) = .ok ((), encode cs) := by
  rw [encode_cons_ascii hc]
  rfl

theorem parseFraction_append {frac : Option (List Char)}
    (hfrac : ∀ ds, frac = some ds → IsDigits ds) (hdigit : NoDigit cs)
    (hpoint : cs.head? ≠ some '.') :
    parseFraction (encode (fracChars frac ++ cs)) = .ok (encode (frac.getD []), encode cs) := by
  refine (bind_ok (m := peek) rfl).trans ?_
  cases frac with
  | none => rw [fracChars, List.nil_append, if_neg (peek_encode (by decide) hpoint)]; rfl
  | some ds =>
    rw [fracChars, List.cons_append, if_pos ((head?_encode (by decide) _).mpr rfl),
      bind_ok (advance_cons (by decide) _)]
    exact someDigits_append (hfrac ds rfl) hdigit

theorem parseExponentSign_append {sign : Option Char}
    (hsign : sign = none ∨ sign = some '+' ∨ sign = some '-') (hds : IsDigits ds) :
    parseExponentSign (encode (sign.toList ++ (ds ++ cs))) =
      .ok (decide (sign = some '-'), encode (ds ++ cs)) := by
  refine (bind_ok (m := peek) rfl).trans ?_
  rcases hsign with rfl | rfl | rfl
  · have hne : ∀ c : Char, ¬ Digit c → (ds ++ cs).head? ≠ some c := by
      intro c hc hhead
      cases ds with
      | nil => exact hds.1 rfl
      | cons d ds =>
        obtain rfl := Option.some.inj hhead
        exact hc (hds.2 _ List.mem_cons_self)
    rw [Option.toList_none, List.nil_append, if_neg (peek_encode (by decide) (hne '+' (by decide))),
      if_neg (peek_encode (by decide) (hne '-' (by decide)))]
    rfl
  · rw [Option.toList_some, List.singleton_append, if_pos ((head?_encode (by decide) _).mpr rfl)]
    exact bind_ok (advance_cons (by decide) _)
  · have hne : ('-' :: (ds ++ cs)).head? ≠ some '+' := fun h => absurd (Option.some.inj h) (by decide)
    rw [Option.toList_some, List.singleton_append, if_neg (peek_encode (by decide) hne),
      if_pos ((head?_encode (by decide) _).mpr rfl)]
    exact bind_ok (advance_cons (by decide) _)

theorem parseExponent_append {exp : Option (Char × Option Char × List Char)}
    (hexp : ∀ mark sign ds, exp = some (mark, sign, ds) → (mark = 'e' ∨ mark = 'E') ∧
      (sign = none ∨ sign = some '+' ∨ sign = some '-') ∧ IsDigits ds) (hdigit : NoDigit cs)
    (hmark : cs.head? ≠ some 'e' ∧ cs.head? ≠ some 'E') :
    parseExponent (encode (expChars exp ++ cs)) = .ok (exponent exp, encode cs) := by
  refine (bind_ok (m := peek) rfl).trans ?_
  rcases exp with _ | ⟨mark, sign, ds⟩
  · rw [expChars, List.nil_append, if_neg]
    · rfl
    · rintro (h | h)
      · exact peek_encode (by decide) hmark.1 h
      · exact peek_encode (by decide) hmark.2 h
  · obtain ⟨hmark', hsign, hds⟩ := hexp mark sign ds rfl
    have hlt : mark.toNat < 128 := by
      rcases hmark' with rfl | rfl
      · decide
      · decide
    have hpeek : (encode (expChars (some (mark, sign, ds)) ++ cs)).head? = some (ascii 'e') ∨
        (encode (expChars (some (mark, sign, ds)) ++ cs)).head? = some (ascii 'E') := by
      rcases hmark' with rfl | rfl
      · exact .inl ((head?_encode (by decide) _).mpr rfl)
      · exact .inr ((head?_encode (by decide) _).mpr rfl)
    rw [if_pos hpeek, expChars, List.cons_append, bind_ok (advance_cons hlt _), List.append_assoc,
      bind_ok (parseExponentSign_append hsign hds), bind_ok (someDigits_append hds hdigit), exponent]
    simp only [decide_eq_true_eq]
    rfl

/-- What may follow a number: nothing that could be part of it. -/
def Follow (cs : List Char) : Prop :=
  ∀ c, cs.head? = some c → ¬ Digit c ∧ c ≠ '.' ∧ c ≠ 'e' ∧ c ≠ 'E'

variable {F : Type}

/-- After the integer part comes the fraction or the exponent, if there is one. -/
theorem follow_expChars (hl : l.Valid) (hcs : Follow cs) :
    NoDigit (expChars l.exp ++ cs) ∧ (expChars l.exp ++ cs).head? ≠ some '.' := by
  rcases hexp : l.exp with _ | ⟨mark, sign, ds⟩
  · exact ⟨fun c hc => (hcs c hc).1, fun h => (hcs _ h).2.1 rfl⟩
  · obtain ⟨rfl | rfl, -⟩ := hl.exp mark sign ds hexp
    · exact ⟨noDigit_cons (by decide), fun h => absurd (Option.some.inj h) (by decide)⟩
    · exact ⟨noDigit_cons (by decide), fun h => absurd (Option.some.inj h) (by decide)⟩

theorem noDigit_fracChars (hl : l.Valid) (hcs : Follow cs) :
    NoDigit (fracChars l.frac ++ (expChars l.exp ++ cs)) := by
  cases l.frac with
  | none => exact (follow_expChars hl hcs).1
  | some ds => exact noDigit_cons (by decide)

theorem IsInt.head_digit (h : IsInt int) : ∃ c ds, int = c :: ds ∧ Digit c := by
  cases h with
  | zero => exact ⟨'0', [], rfl, by decide⟩
  | digits hc _ _ => exact ⟨_, _, rfl, hc⟩

/-- The first character of a number. -/
theorem Lexeme.Valid.head (hl : l.Valid) : ∃ c cs, l.chars = c :: cs ∧ (c = '-' ∨ Digit c) := by
  obtain ⟨c, ds, hint, hc⟩ := IsInt.head_digit hl.int
  cases hneg : l.neg with
  | true =>
    refine ⟨'-', l.int ++ (fracChars l.frac ++ expChars l.exp), ?_, .inl rfl⟩
    rw [Lexeme.chars, hneg]
    rfl
  | false =>
    refine ⟨c, ds ++ (fracChars l.frac ++ expChars l.exp), ?_, .inr hc⟩
    rw [Lexeme.chars, hneg, hint]
    rfl

theorem parseSign_append (neg : Bool) (hint : IsInt int) (cs : List Char) :
    parseSign (encode ((if neg then ['-'] else []) ++ (int ++ cs))) =
      .ok (neg, encode (int ++ cs)) := by
  refine (bind_ok (m := peek) rfl).trans ?_
  cases neg with
  | true =>
    rw [if_pos ((head?_encode (by decide) _).mpr rfl)]
    exact bind_ok (advance_cons (by decide) _)
  | false =>
    obtain ⟨c, ds, rfl, hc⟩ := IsInt.head_digit hint
    have hne : (c :: ds ++ cs).head? ≠ some '-' := by
      intro h
      obtain rfl := Option.some.inj h
      exact absurd hc (by decide)
    rw [if_neg Bool.false_ne_true, List.nil_append, if_neg (peek_encode (by decide) hne)]
    rfl

/-- A number of the grammar is read to its end. -/
theorem parseNumber_chars (D : Doubles F) (hl : l.Valid) (hcs : Follow cs) :
    parseNumber D (encode (l.chars ++ cs)) = .ok (.number (l.value D), encode cs) := by
  have hdigit : NoDigit cs := fun c hc => (hcs c hc).1
  have hmark : cs.head? ≠ some 'e' ∧ cs.head? ≠ some 'E' :=
    ⟨fun h => (hcs _ h).2.2.1 rfl, fun h => (hcs _ h).2.2.2 rfl⟩
  obtain ⟨hexpDigit, hexpPoint⟩ := follow_expChars hl hcs
  rw [Lexeme.chars, List.append_assoc, List.append_assoc, List.append_assoc]
  refine (bind_ok (parseSign_append l.neg hl.int _)).trans ?_
  refine (bind_ok (parseIntPart_append hl.int (noDigit_fracChars hl hcs))).trans ?_
  refine (bind_ok (parseFraction_append hl.frac hexpDigit hexpPoint)).trans ?_
  exact bind_ok (parseExponent_append hl.exp hdigit hmark)

end AthenaOS.Json
