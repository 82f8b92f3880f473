import AthenaOS.Lib.Wire

/-!
# Strings on the wire

A string is its UTF-8 bytes; a reader takes bytes as a string when they are valid.
-/

namespace AthenaOS.Lib.Wire

/-- The UTF-8 bytes of a string. -/
def utf8 (s : String) : ByteString := s.toByteArray.data.toList

/-- The string with these bytes, if they are valid. -/
def ofUtf8? (data : ByteString) : Option String := String.fromUTF8? ⟨data.toArray⟩

theorem byteArray_utf8 (s : String) : (⟨(utf8 s).toArray⟩ : ByteArray) = s.toByteArray := by
  rw [utf8, Array.toArray_toList]

@[simp] theorem ofUtf8?_utf8 (s : String) : ofUtf8? (utf8 s) = some s := by
  rw [ofUtf8?, byteArray_utf8, String.fromUTF8?, dif_pos s.isValidUTF8]
  rfl

theorem ofUtf8?_eq_some {data : ByteString} {s : String} : ofUtf8? data = some s ↔ data = utf8 s := by
  constructor
  · intro h
    rw [ofUtf8?, String.fromUTF8?] at h
    split at h
    · obtain rfl := Option.some.inj h
      show data = data.toArray.toList
      rw [List.toList_toArray]
    · exact nomatch h
  · rintro rfl
    exact ofUtf8?_utf8 s

/-! ## Characters -/

theorem utf8_append (s t : String) : utf8 (s ++ t) = utf8 s ++ utf8 t := by
  rw [utf8, String.toByteArray_append, ByteArray.data_append, Array.toList_append, utf8, utf8]

/-- The bytes of a list of characters. -/
def encode (cs : List Char) : ByteString := cs.flatMap String.utf8EncodeChar

@[simp] theorem encode_nil : encode [] = [] := rfl

theorem encode_cons (c : Char) (cs : List Char) : encode (c :: cs) = String.utf8EncodeChar c ++ encode cs := rfl

theorem encode_append (cs ds : List Char) : encode (cs ++ ds) = encode cs ++ encode ds := List.flatMap_append

variable {cs : List Char} {c d : Char} {b : UInt8} {rest : ByteString}

theorem encode_eq_nil (h : encode cs = []) : cs = [] := by
  cases cs with
  | nil => rfl
  | cons c cs =>
    rw [encode_cons, List.append_eq_nil_iff] at h
    exact absurd h.1 String.utf8EncodeChar_ne_nil

/-- Every character has a byte. -/
theorem length_le_encode (cs : List Char) : cs.length ≤ (encode cs).length := by
  induction cs with
  | nil => exact Nat.le_refl _
  | cons c cs ih =>
    have hpos : 0 < (String.utf8EncodeChar c).length := by
      rw [String.length_utf8EncodeChar]
      exact Char.utf8Size_pos c
    rw [encode_cons, List.length_append, List.length_cons]
    omega

theorem utf8_ofList (cs : List Char) : utf8 (String.ofList cs) = encode cs := by
  rw [utf8, String.toByteArray_ofList, List.utf8Encode, List.data_toByteArray, List.toList_toArray]
  rfl

theorem utf8_eq_encode (s : String) : utf8 s = encode s.toList := by
  rw [← utf8_ofList, String.ofList_toList]

/-- An ASCII character is one byte. -/
theorem utf8EncodeChar_ascii (h : c.toNat < 128) :
    String.utf8EncodeChar c = [UInt8.ofNat c.toNat] := by
  have hle : c.val.toNat ≤ 0x7f := Nat.le_of_lt_succ h
  rw [String.utf8EncodeChar, if_pos hle]
  rfl

/-- The bytes of any other character are not ASCII. -/
theorem le_of_mem_utf8EncodeChar (h : 128 ≤ c.toNat) (hb : b ∈ String.utf8EncodeChar c) :
    128 ≤ b.toNat := by
  have hgt : ¬ c.val.toNat ≤ 0x7f := Nat.not_le_of_lt h
  rw [String.utf8EncodeChar, if_neg hgt] at hb
  split at hb
  · simp only [List.mem_cons, List.not_mem_nil, or_false] at hb
    rcases hb with rfl | rfl
    · rw [UInt8.toNat_ofNat']; omega
    · rw [UInt8.toNat_ofNat']; omega
  · split at hb
    · simp only [List.mem_cons, List.not_mem_nil, or_false] at hb
      rcases hb with rfl | rfl | rfl
      · rw [UInt8.toNat_ofNat']; omega
      · rw [UInt8.toNat_ofNat']; omega
      · rw [UInt8.toNat_ofNat']; omega
    · simp only [List.mem_cons, List.not_mem_nil, or_false] at hb
      rcases hb with rfl | rfl | rfl | rfl
      · rw [UInt8.toNat_ofNat']; omega
      · rw [UInt8.toNat_ofNat']; omega
      · rw [UInt8.toNat_ofNat']; omega
      · rw [UInt8.toNat_ofNat']; omega

/-! ## ASCII -/

/-- The byte of an ASCII character. -/
def ascii (c : Char) : UInt8 := UInt8.ofNat c.toNat

theorem toNat_ascii (h : c.toNat < 128) : (ascii c).toNat = c.toNat := by
  rw [ascii, UInt8.toNat_ofNat', Nat.mod_eq_of_lt (Nat.lt_trans h (by decide))]

theorem ascii_inj (hc : c.toNat < 128) (hd : d.toNat < 128) (h : ascii c = ascii d) : c = d := by
  have hnat := congrArg UInt8.toNat h
  rw [toNat_ascii hc, toNat_ascii hd] at hnat
  exact Char.toNat_inj.mp hnat

theorem encode_cons_ascii (h : c.toNat < 128) (cs : List Char) :
    encode (c :: cs) = ascii c :: encode cs := by
  rw [encode_cons, utf8EncodeChar_ascii h]
  rfl

/-- The first byte tells whether the first character is ASCII. -/
theorem encode_eq_cons (h : encode cs = b :: rest) :
    ∃ c cs', cs = c :: cs' ∧ (c.toNat < 128 ∧ b = ascii c ∧ rest = encode cs' ∨
      128 ≤ c.toNat ∧ 128 ≤ b.toNat ∧ b :: rest = String.utf8EncodeChar c ++ encode cs') := by
  cases cs with
  | nil => exact nomatch h
  | cons c cs' =>
    refine ⟨c, cs', rfl, ?_⟩
    by_cases hc : c.toNat < 128
    · rw [encode_cons_ascii hc] at h
      obtain ⟨rfl, rfl⟩ := List.cons.inj h
      exact .inl ⟨hc, rfl, rfl⟩
    · have hc' : 128 ≤ c.toNat := Nat.le_of_not_lt hc
      refine .inr ⟨hc', ?_, h.symm.trans (encode_cons c cs')⟩
      rw [encode_cons] at h
      cases hbytes : String.utf8EncodeChar c with
      | nil => exact absurd hbytes String.utf8EncodeChar_ne_nil
      | cons b' bs =>
        rw [hbytes] at h
        obtain ⟨rfl, -⟩ := List.cons.inj h
        exact le_of_mem_utf8EncodeChar hc' (hbytes ▸ List.mem_cons_self)

/-- Where a byte is that of an ASCII character, so is the character. -/
theorem encode_eq_ascii_cons (hc : c.toNat < 128) (h : encode cs = ascii c :: rest) :
    ∃ cs', cs = c :: cs' ∧ rest = encode cs' := by
  obtain ⟨d, cs', rfl, ⟨hd, hb, hrest⟩ | ⟨-, hb, -⟩⟩ := encode_eq_cons h
  · obtain rfl := ascii_inj hc hd hb
    exact ⟨cs', rfl, hrest⟩
  · rw [toNat_ascii hc] at hb
    omega

/-- The byte of an ASCII character splits the characters where it splits the bytes. -/
theorem encode_eq_append_ascii (hc : c.toNat < 128) {post : ByteString} :
    ∀ {cs : List Char} {pre : ByteString}, encode cs = pre ++ ascii c :: post →
      ∃ cs₁ cs₂, cs = cs₁ ++ c :: cs₂ ∧ pre = encode cs₁ ∧ post = encode cs₂ := by
  intro cs
  induction cs with
  | nil =>
    intro pre h
    exact nomatch (List.append_eq_nil_iff.mp h.symm).2
  | cons d cs ih =>
    intro pre h
    rw [encode_cons, List.append_eq_append_iff] at h
    rcases h with ⟨pre', rfl, hrest⟩ | ⟨mid, hchar, hmid⟩
    · obtain ⟨cs₁, cs₂, rfl, rfl, rfl⟩ := ih hrest
      exact ⟨d :: cs₁, cs₂, rfl, rfl, rfl⟩
    cases mid with
    | nil =>
      obtain ⟨cs₁, cs₂, rfl, hcs₁, rfl⟩ := ih (hmid.symm.trans (List.nil_append _).symm)
      refine ⟨d :: cs₁, cs₂, rfl, ?_, rfl⟩
      rw [List.append_nil] at hchar
      rw [encode_cons, ← hcs₁, List.append_nil, hchar]
    | cons b mid =>
      obtain ⟨rfl, rfl⟩ := List.cons.inj hmid
      by_cases hd : d.toNat < 128
      · rw [utf8EncodeChar_ascii hd, List.singleton_eq_append_iff] at hchar
        rcases hchar with ⟨rfl, hchar⟩ | ⟨-, hchar⟩
        · obtain ⟨hb, rfl⟩ := List.cons.inj hchar
          obtain rfl := ascii_inj hc hd hb
          exact ⟨[], cs, rfl, rfl, rfl⟩
        · exact nomatch hchar
      · have hb := le_of_mem_utf8EncodeChar (Nat.le_of_not_lt hd)
          (hchar ▸ List.mem_append_right pre List.mem_cons_self)
        rw [toNat_ascii hc] at hb
        omega

/-! ## Splitting -/

theorem splitOn_append_of_notMem {α : Type} [DecidableEq α] {d : α} {xs : List α} (h : d ∉ xs) (ys : List α) :
    (xs ++ ys).splitOn d = (ys.splitOn d).modifyHead (xs ++ ·) := by
  induction xs with
  | nil =>
    cases hparts : ys.splitOn d with
    | nil => exact absurd hparts (List.splitOn_ne_nil d ys)
    | cons part parts => rw [List.nil_append, hparts, List.modifyHead_cons, List.nil_append]
  | cons x xs ih =>
    rw [List.mem_cons, not_or] at h
    obtain ⟨hx, hxs⟩ := h
    rw [List.cons_append, List.splitOn_cons_eq_if_modifyHead, if_neg (by rw [beq_iff_eq]; exact Ne.symm hx), ih hxs,
      List.modifyHead_modifyHead]
    rfl

/-- **Splitting at an ASCII character** is splitting at its byte. -/
theorem splitOn_encode (hd : d.toNat < 128) (cs : List Char) :
    (encode cs).splitOn (ascii d) = (cs.splitOn d).map encode := by
  induction cs with
  | nil => rfl
  | cons c cs ih =>
    rw [List.splitOn_cons_eq_if_modifyHead, encode_cons]
    by_cases hc : c = d
    · subst hc
      rw [← encode_cons, encode_cons_ascii hd, List.splitOn_cons_eq_if_modifyHead, if_pos (beq_self_eq_true (ascii c)), ih,
        if_pos (beq_self_eq_true c)]
      rfl
    · have hbyte : ascii d ∉ String.utf8EncodeChar c := fun hmem => by
        by_cases hascii : c.toNat < 128
        · rw [utf8EncodeChar_ascii hascii, List.mem_singleton] at hmem
          exact hc (ascii_inj hascii hd hmem.symm)
        · have hle := le_of_mem_utf8EncodeChar (Nat.le_of_not_lt hascii) hmem
          rw [toNat_ascii hd] at hle
          omega
      rw [splitOn_append_of_notMem hbyte, if_neg (by rw [beq_iff_eq]; exact hc), ih]
      cases hparts : cs.splitOn d with
      | nil => exact absurd hparts (List.splitOn_ne_nil d cs)
      | cons part parts => rfl

end AthenaOS.Lib.Wire
