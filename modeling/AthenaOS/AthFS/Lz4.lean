import Mathlib

/-!
# The LZ4-style block compressor

`lz4_compress` and `lz4_decompress` of `kernel/src/athfs.rs`: LZ77 sequences of
a token byte, literals, a two-byte offset and extension bytes for lengths of 15
and more.

- `lz4Decompress`: the decoder, with every early `return` and `break` of the
  source. The unread input `input[ipos..]` is a list argument; `none` stands for
  an index panic in the match copy.
-/

namespace AthenaOS

/-- `LZ4_MIN_MATCH`. -/
def lz4MinMatch : Nat := 4

/-- `LZ4_WINDOW_SIZE`. -/
def lz4WindowSize : Nat := 65536

/-! ## The compressor -/

/-- `lz4_hash`: a multiplicative hash of the first four bytes, in `0..4096`. -/
def lz4Hash (data : List UInt8) : Nat :=
  let v := (data.getD 0 0).toUInt32 ||| (data.getD 1 0).toUInt32 <<< 8 |||
    (data.getD 2 0).toUInt32 <<< 16 ||| (data.getD 3 0).toUInt32 <<< 24
  ((v * 2654435761) >>> 20).toNat &&& 0xFFF

/-- The extension bytes of a length: `while remaining >= 255 { push(255) }`, then
the rest. -/
def lz4ExtBytes (remaining : Nat) : List UInt8 :=
  if 255 ≤ remaining then 255 :: lz4ExtBytes (remaining - 255)
  else [UInt8.ofNat remaining]
termination_by remaining
decreasing_by omega

/-- The extension bytes of a length, none below 15. -/
def lz4LenBytes (len : Nat) : List UInt8 :=
  if 15 ≤ len then lz4ExtBytes (len - 15) else []

/-- One sequence: token, literals, offset (`as u16`, little endian), match length. -/
def lz4SequenceBytes (literals : List UInt8) (offset matchLen : Nat) : List UInt8 :=
  let litToken := UInt8.ofNat (min literals.length 15)
  let matchToken := UInt8.ofNat (min (matchLen - lz4MinMatch) 15)
  let offset := UInt16.ofNat offset
  (litToken <<< 4 ||| matchToken) ::
    (lz4LenBytes literals.length ++ literals ++ [offset.toUInt8, (offset >>> 8).toUInt8] ++
      lz4LenBytes (matchLen - lz4MinMatch))

/-- The last sequence: literals only, nothing when there are none. -/
def lz4TailBytes (literals : List UInt8) : List UInt8 :=
  if 0 < literals.length then
    (UInt8.ofNat (min literals.length 15) <<< 4) :: (lz4LenBytes literals.length ++ literals)
  else []

/-- The match test at `pos`: the candidate is inside the window and before `pos`,
and the next four bytes agree. -/
def lz4IsMatch (input : List UInt8) (candidate pos : Nat) : Bool :=
  let maxBack := if pos > lz4WindowSize then pos - lz4WindowSize else 0
  maxBack ≤ candidate && candidate < pos && pos + lz4MinMatch ≤ input.length &&
    (input.drop candidate).take 4 == (input.drop pos).take 4

/-- `Extend match forward`: never past the end, never past `pos` in the source. -/
def lz4Extend (input : List UInt8) (candidate pos matchLen : Nat) : Nat :=
  if pos + matchLen < input.length ∧ candidate + matchLen < pos ∧
      input[candidate + matchLen]? = input[pos + matchLen]? then
    lz4Extend input candidate pos (matchLen + 1)
  else matchLen
termination_by input.length - (pos + matchLen)

/-- The extension loop never shortens the match. -/
theorem le_lz4Extend (input : List UInt8) (candidate pos matchLen : Nat) :
    matchLen ≤ lz4Extend input candidate pos matchLen := by
  induction matchLen using lz4Extend.induct input candidate pos with
  | case1 n h ih =>
    rw [lz4Extend, if_pos h]
    omega
  | case2 n h =>
    rw [lz4Extend, if_neg h]

/-- The main loop of `lz4_compress`; gives the final `anchor` and the output. -/
def lz4CompressLoop (input : List UInt8) (pos anchor : Nat) (hashTable : Nat → Nat)
    (output : List UInt8) : Nat × List UInt8 :=
  if pos + lz4MinMatch ≤ input.length then
    let h := lz4Hash (input.drop pos)
    let candidate := hashTable h
    let hashTable := Function.update hashTable h (pos % 2 ^ 32)
    if lz4IsMatch input candidate pos then
      let matchLen := lz4Extend input candidate pos 4
      let literals := (input.drop anchor).take (pos - anchor)
      lz4CompressLoop input (pos + matchLen) (pos + matchLen) hashTable
        (output ++ lz4SequenceBytes literals (pos - candidate) matchLen)
    else lz4CompressLoop input (pos + 1) anchor hashTable output
  else (anchor, output)
termination_by input.length - pos
decreasing_by
  · rename_i hpos _
    have := le_lz4Extend input candidate pos 4
    rw [lz4MinMatch] at hpos
    show input.length - (pos + lz4Extend input candidate pos 4) < input.length - pos
    omega
  · rename_i hpos _
    rw [lz4MinMatch] at hpos
    omega

/-- The offsets of the matches that loop takes, in order. -/
def lz4Offsets (input : List UInt8) (pos : Nat) (hashTable : Nat → Nat) : List Nat :=
  if pos + lz4MinMatch ≤ input.length then
    let h := lz4Hash (input.drop pos)
    let candidate := hashTable h
    let hashTable := Function.update hashTable h (pos % 2 ^ 32)
    if lz4IsMatch input candidate pos then
      (pos - candidate) :: lz4Offsets input (pos + lz4Extend input candidate pos 4) hashTable
    else lz4Offsets input (pos + 1) hashTable
  else []
termination_by input.length - pos
decreasing_by
  · rename_i hpos _
    have := le_lz4Extend input candidate pos 4
    rw [lz4MinMatch] at hpos
    show input.length - (pos + lz4Extend input candidate pos 4) < input.length - pos
    omega
  · rename_i hpos _
    rw [lz4MinMatch] at hpos
    omega

/-- `lz4_compress`. -/
def lz4Compress (input : List UInt8) : List UInt8 :=
  if input.isEmpty then []
  else
    let (anchor, output) := lz4CompressLoop input 0 0 (fun _ => 0) []
    output ++ lz4TailBytes (input.drop anchor)

/-! ## The decoder -/

/-- The extension loop of a length: adds bytes up to the first one below 255.
`false` when the input ends first. -/
def lz4ReadExt : List UInt8 → Nat → Bool × Nat × List UInt8
  | [], len => (false, len, [])
  | extra :: input, len =>
    if extra.toNat < 255 then (true, len + extra.toNat, input)
    else lz4ReadExt input (len + extra.toNat)

/-- A length from its nibble: 15 announces extension bytes. -/
def lz4ReadLen (nibble base : Nat) (input : List UInt8) : Bool × Nat × List UInt8 :=
  if nibble = 15 then lz4ReadExt input (nibble + base) else (true, nibble + base, input)

/-- `for i in 0..match_len`: copy byte by byte, so a match may overlap its own
output. `none` would be an index panic. -/
def lz4CopyMatch (maxOutput matchStart : Nat) : Nat → Nat → List UInt8 → Option (List UInt8)
  | 0, _, output => some output
  | n + 1, i, output =>
    if maxOutput ≤ output.length then some output
    else do
      let byte ← output[matchStart + i]?
      lz4CopyMatch maxOutput matchStart n (i + 1) (output ++ [byte])

/-- What one sequence leads to: the decoder returns, or goes on with the rest. -/
inductive Lz4Step where
  | done (output : List UInt8)
  | next (input output : List UInt8)

/-- One round of the decoder loop, after the token byte is read. -/
def lz4Sequence (maxOutput : Nat) (token : UInt8) (input output : List UInt8) :
    Option Lz4Step :=
  match lz4ReadLen (token >>> 4 &&& 0x0F).toNat 0 input with
  | (false, _, _) => some (.done output)
  | (true, literalLen, input) =>
    -- `ipos + literal_len > input.len()`: keep what is there
    if input.length < literalLen then some (.done (output ++ input))
    else
      let output := output ++ input.take literalLen
      match input.drop literalLen with
      | [] => some (.done output)
      | [_] => some (.done output)
      | lo :: hi :: input =>
        let offset := lo.toNat ||| hi.toNat <<< 8
        if offset = 0 ∨ output.length < offset then some (.done output)
        else
          -- an exhausted input only ends the length here, it does not return
          let ext := lz4ReadLen (token &&& 0x0F).toNat lz4MinMatch input
          (lz4CopyMatch maxOutput (output.length - offset) ext.2.1 0 output).map (.next ext.2.2)

/-- Reading extension bytes only consumes input. -/
theorem lz4ReadExt_length (input : List UInt8) (len : Nat) :
    (lz4ReadExt input len).2.2.length ≤ input.length := by
  induction input generalizing len with
  | nil => simp [lz4ReadExt]
  | cons extra input ih =>
    rw [lz4ReadExt]
    split
    · simp
    · exact (ih _).trans (by simp)

/-- Reading a length only consumes input. -/
theorem lz4ReadLen_length (nibble base : Nat) (input : List UInt8) :
    (lz4ReadLen nibble base input).2.2.length ≤ input.length := by
  rw [lz4ReadLen]
  split
  · exact lz4ReadExt_length input _
  · exact le_rfl

variable {maxOutput offset pos matchLen anchor candidate : Nat} {token : UInt8}
variable {input output rest out literals : List UInt8}

/-- A round only consumes input: with its token byte, it strictly does. -/
theorem lz4Sequence_length (h : lz4Sequence maxOutput token input output = some (.next rest out)) :
    rest.length ≤ input.length := by
  have hlit := lz4ReadLen_length (token >>> 4 &&& 0x0F).toNat 0 input
  rw [lz4Sequence] at h
  split at h
  · cases h
  · rename_i lits input' heq
    rw [heq] at hlit
    split at h
    · cases h
    · simp only at h
      split at h
      · cases h
      · cases h
      · rename_i lo hi input'' hdrop
        have hlen := congrArg List.length hdrop
        simp only [List.length_drop, List.length_cons] at hlen hlit
        have hmat := lz4ReadLen_length (token &&& 0x0F).toNat lz4MinMatch input''
        split at h
        · cases h
        · simp only [Option.map_eq_some_iff] at h
          obtain ⟨o, -, ho⟩ := h
          cases ho
          omega

/-- The decoder loop: `while ipos < input.len() && output.len() < max_output`. -/
def lz4DecompressLoop (maxOutput : Nat) : List UInt8 → List UInt8 → Option (List UInt8)
  | [], output => some output
  | token :: input, output =>
    if output.length < maxOutput then
      match h : lz4Sequence maxOutput token input output with
      | none => none
      | some (.done output) => some output
      | some (.next rest output) =>
        have : rest.length < input.length + 1 := Nat.lt_succ_of_le (lz4Sequence_length h)
        lz4DecompressLoop maxOutput rest output
    else some output
termination_by input => input.length

/-- `lz4_decompress`. `Vec::with_capacity(max_output)` panics past `isize::MAX` bytes. -/
def lz4Decompress (input : List UInt8) (maxOutput : Nat) : Option (List UInt8) :=
  if maxOutput < 2 ^ 63 then lz4DecompressLoop maxOutput input [] else none

theorem lz4Decompress_reserved (h : maxOutput < 2 ^ 63) :
    lz4Decompress input maxOutput = lz4DecompressLoop maxOutput input [] := if_pos h

theorem lz4Decompress_unreserved (h : ¬ maxOutput < 2 ^ 63) :
    lz4Decompress input maxOutput = none := if_neg h

/-- A round that goes on. -/
theorem lz4DecompressLoop_next (hlt : output.length < maxOutput)
    (h : lz4Sequence maxOutput token input output = some (.next rest out)) :
    lz4DecompressLoop maxOutput (token :: input) output = lz4DecompressLoop maxOutput rest out := by
  rw [lz4DecompressLoop, if_pos hlt]
  split <;> simp_all

/-- A round that ends the decoder. -/
theorem lz4DecompressLoop_done (hlt : output.length < maxOutput)
    (h : lz4Sequence maxOutput token input output = some (.done out)) :
    lz4DecompressLoop maxOutput (token :: input) output = some out := by
  rw [lz4DecompressLoop, if_pos hlt]
  split <;> simp_all

/-! ## Lengths, tokens and offsets read back -/

/-- The extension bytes of a length add up to it. -/
theorem lz4ReadExt_lz4ExtBytes (remaining len : Nat) (rest : List UInt8) :
    lz4ReadExt (lz4ExtBytes remaining ++ rest) len = (true, len + remaining, rest) := by
  induction remaining using lz4ExtBytes.induct generalizing len with
  | case1 r h ih =>
    rw [lz4ExtBytes, if_pos h, List.cons_append, lz4ReadExt, if_neg (by decide), ih]
    rw [show ((255 : UInt8).toNat) = 255 from rfl]
    simp only [Prod.mk.injEq, true_and, and_true]
    omega
  | case2 r h =>
    have hr : (UInt8.ofNat r).toNat = r := by
      rw [UInt8.toNat_ofNat']
      exact Nat.mod_eq_of_lt (by omega)
    rw [lz4ExtBytes, if_neg h, List.singleton_append, lz4ReadExt, if_pos (by omega), hr]

/-- A length is read back from its nibble and its extension bytes. -/
theorem lz4ReadLen_lz4LenBytes (len base : Nat) (rest : List UInt8) :
    lz4ReadLen (min len 15) base (lz4LenBytes len ++ rest) = (true, len + base, rest) := by
  by_cases h : 15 ≤ len
  · rw [lz4ReadLen, lz4LenBytes, if_pos h, if_pos (Nat.min_eq_right h), lz4ReadExt_lz4ExtBytes,
      Nat.min_eq_right h]
    simp only [Prod.mk.injEq, true_and, and_true]
    omega
  · rw [lz4ReadLen, lz4LenBytes, if_neg h, if_neg (by omega), Nat.min_eq_left (by omega),
      List.nil_append]

/-- Both nibbles of a token, for lengths already cut at 15. -/
theorem nibbles_of_fin : ∀ a b : Fin 16,
    (((UInt8.ofNat a <<< 4 ||| UInt8.ofNat b) >>> 4 &&& 0x0F).toNat = a ∧
      ((UInt8.ofNat a <<< 4 ||| UInt8.ofNat b) &&& 0x0F).toNat = b) := by
  decide

/-- The literal length is the high nibble of the token. -/
theorem lz4Token_high (a b : Nat) :
    ((UInt8.ofNat (min a 15) <<< 4 ||| UInt8.ofNat (min b 15)) >>> 4 &&& 0x0F).toNat
      = min a 15 :=
  (nibbles_of_fin ⟨min a 15, by omega⟩ ⟨min b 15, by omega⟩).1

/-- The match length is the low nibble of the token. -/
theorem lz4Token_low (a b : Nat) :
    ((UInt8.ofNat (min a 15) <<< 4 ||| UInt8.ofNat (min b 15)) &&& 0x0F).toNat = min b 15 :=
  (nibbles_of_fin ⟨min a 15, by omega⟩ ⟨min b 15, by omega⟩).2

/-- The token of the last sequence: no match nibble. -/
theorem lz4Token_tail (a : Nat) :
    (UInt8.ofNat (min a 15) <<< 4 >>> 4 &&& 0x0F).toNat = min a 15 := by
  have h := lz4Token_high a 0
  rwa [Nat.zero_min, show UInt8.ofNat 0 = 0 from rfl, UInt8.or_zero] at h

/-- An offset below 65536 is read back from its two bytes. -/
theorem lz4Offset_bytes (h : offset < 65536) :
    (UInt16.ofNat offset).toUInt8.toNat ||| (UInt16.ofNat offset >>> 8).toUInt8.toNat <<< 8
      = offset := by
  have hof : (UInt16.ofNat offset).toNat = offset := by
    rw [UInt16.toNat_ofNat']
    exact Nat.mod_eq_of_lt h
  have hlo : (UInt16.ofNat offset).toUInt8.toNat = offset % 256 := by
    rw [UInt16.toNat_toUInt8, hof]
  have hhi : (UInt16.ofNat offset >>> 8).toUInt8.toNat = offset / 256 := by
    rw [UInt16.toNat_toUInt8, UInt16.toNat_shiftRight, hof]
    show offset >>> 8 % 256 = offset / 256
    rw [Nat.shiftRight_eq_div_pow]
    omega
  rw [hlo, hhi, Nat.lor_comm, ← Nat.shiftLeft_add_eq_or_of_lt (by omega), Nat.shiftLeft_eq]
  omega

/-! ## One sequence -/

/-- A match of `input` against itself: `offset` back from `pos`, `matchLen` long. -/
structure Lz4Match (input : List UInt8) (pos offset matchLen : Nat) : Prop where
  offset_pos : 0 < offset
  offset_le : offset ≤ pos
  min_le : lz4MinMatch ≤ matchLen
  end_le : pos + matchLen ≤ input.length
  agree : ∀ k < matchLen, input[pos - offset + k]? = input[pos + k]?

/-- Copying a match extends a decoded prefix to a longer prefix. The induction is
on the bytes still to copy; the output already holds the ones before. -/
theorem lz4CopyMatch_take (hm : Lz4Match input pos offset matchLen)
    (hmax : input.length ≤ maxOutput) :
    ∀ n i, i + n = matchLen →
      lz4CopyMatch maxOutput (pos - offset) n i (input.take (pos + i))
        = some (input.take (pos + matchLen))
  | 0, i, hi => by
    rw [lz4CopyMatch, show pos + i = pos + matchLen by omega]
  | n + 1, i, hi => by
    have hend := hm.end_le
    have hoff := hm.offset_pos
    have hle := hm.offset_le
    have hlt : pos + i < input.length := by omega
    have hlen : (input.take (pos + i)).length = pos + i := by
      rw [List.length_take]
      omega
    have hbyte : (input.take (pos + i))[pos - offset + i]? = some input[pos + i] := by
      rw [List.getElem?_take_of_lt (by omega), hm.agree i (by omega),
        List.getElem?_eq_getElem hlt]
    have hext : input.take (pos + i) ++ [input[pos + i]] = input.take (pos + (i + 1)) := by
      rw [← Nat.add_assoc, List.take_add_one, List.getElem?_eq_getElem hlt, Option.toList_some]
    rw [lz4CopyMatch, if_neg (by omega), hbyte]
    show lz4CopyMatch maxOutput (pos - offset) n (i + 1) (input.take (pos + i) ++ [input[pos + i]])
      = _
    rw [hext]
    exact lz4CopyMatch_take hm hmax n (i + 1) (by omega)

/-- Two consecutive pieces of a list. -/
theorem take_append_slice {α : Type} (l : List α) {i j : Nat} (h : i ≤ j) :
    l.take i ++ (l.drop i).take (j - i) = l.take j := by
  rw [← List.take_add, show i + (j - i) = j by omega]

/-- The round on an emitted sequence, from its literals and its match. -/
theorem lz4Sequence_bytes (hm : Lz4Match input pos offset matchLen)
    (hlits : input.take anchor ++ literals = input.take pos) (hoff : offset < 65536)
    (hmax : input.length ≤ maxOutput) (rest : List UInt8) :
    lz4Sequence maxOutput
        (UInt8.ofNat (min literals.length 15) <<< 4 |||
          UInt8.ofNat (min (matchLen - lz4MinMatch) 15))
        (lz4LenBytes literals.length ++ (literals ++
          ((UInt16.ofNat offset).toUInt8 :: (UInt16.ofNat offset >>> 8).toUInt8 ::
            (lz4LenBytes (matchLen - lz4MinMatch) ++ rest))))
        (input.take anchor)
      = some (.next rest (input.take (pos + matchLen))) := by
  have hend := hm.end_le
  have hpos := hm.offset_pos
  have hle := hm.offset_le
  have hpre : (input.take pos).length = pos := by
    rw [List.length_take]
    omega
  have hcopy : lz4CopyMatch maxOutput (pos - offset) matchLen 0 (input.take pos)
      = some (input.take (pos + matchLen)) :=
    lz4CopyMatch_take hm hmax matchLen 0 (Nat.zero_add _)
  have hlen : ¬ (literals ++
      ((UInt16.ofNat offset).toUInt8 :: (UInt16.ofNat offset >>> 8).toUInt8 ::
        (lz4LenBytes (matchLen - lz4MinMatch) ++ rest))).length < literals.length := by
    rw [List.length_append]
    omega
  rw [lz4Sequence, lz4Token_high, lz4ReadLen_lz4LenBytes]
  simp only [Nat.add_zero]
  rw [if_neg hlen, List.take_left, List.drop_left, hlits]
  simp only [lz4Offset_bytes hoff]
  rw [if_neg (by omega), lz4Token_low, lz4ReadLen_lz4LenBytes]
  simp only [hpre, Nat.sub_add_cancel hm.min_le, hcopy, Option.map_some]

/-- **One emitted sequence decodes to its input**: from the prefix up to `anchor`,
the decoder reaches the prefix up to the end of the match and the rest of the
stream. -/
theorem lz4DecompressLoop_sequence (hm : Lz4Match input pos offset matchLen)
    (hanchor : anchor ≤ pos) (hoff : offset < 65536) (hmax : input.length ≤ maxOutput)
    (rest : List UInt8) :
    lz4DecompressLoop maxOutput
        (lz4SequenceBytes ((input.drop anchor).take (pos - anchor)) offset matchLen ++ rest)
        (input.take anchor)
      = lz4DecompressLoop maxOutput rest (input.take (pos + matchLen)) := by
  have hend := hm.end_le
  have hmin := hm.min_le
  have hanc : (input.take anchor).length < maxOutput := by
    rw [lz4MinMatch] at hmin
    rw [List.length_take]
    omega
  have hlits := take_append_slice input hanchor
  have hstep := lz4Sequence_bytes hm hlits hoff hmax rest
  simp only [lz4SequenceBytes, List.append_assoc, List.cons_append, List.nil_append]
  exact lz4DecompressLoop_next hanc hstep

/-- **The last sequence decodes to the rest of the input.** -/
theorem lz4DecompressLoop_tail (hmax : input.length ≤ maxOutput) :
    lz4DecompressLoop maxOutput (lz4TailBytes (input.drop anchor)) (input.take anchor)
      = some input := by
  rw [lz4TailBytes]
  split
  case isFalse h =>
    have hnil : input.drop anchor = [] := List.length_eq_zero_iff.mp (by omega)
    have hall := List.take_append_drop anchor input
    rw [hnil, List.append_nil] at hall
    rw [hall, lz4DecompressLoop]
  case isTrue h =>
    rw [List.length_drop] at h
    refine lz4DecompressLoop_done ?_ ?_
    · rw [List.length_take]
      omega
    · have hread := lz4ReadLen_lz4LenBytes (input.drop anchor).length 0 (input.drop anchor)
      rw [lz4Sequence, lz4Token_tail, hread]
      simp only [Nat.add_zero]
      rw [if_neg (by omega), List.take_length, List.take_append_drop, List.drop_length]

/-! ## The matcher -/

/-- What the match test and the extension loop found agrees byte by byte. -/
theorem lz4Extend_agree (hend : pos + matchLen ≤ input.length)
    (hag : ∀ k < matchLen, input[candidate + k]? = input[pos + k]?) :
    pos + lz4Extend input candidate pos matchLen ≤ input.length ∧
      ∀ k < lz4Extend input candidate pos matchLen,
        input[candidate + k]? = input[pos + k]? := by
  induction matchLen using lz4Extend.induct input candidate pos with
  | case1 n h ih =>
    rw [lz4Extend, if_pos h]
    refine ih (by omega) fun k hk => ?_
    rcases Nat.lt_succ_iff_lt_or_eq.mp hk with hlt | rfl
    · exact hag k hlt
    · exact h.2.2
  | case2 n h =>
    rw [lz4Extend, if_neg h]
    exact ⟨hend, hag⟩

/-- A candidate that passes the test gives a match. -/
theorem lz4Match_of_isMatch (h : lz4IsMatch input candidate pos = true) :
    Lz4Match input pos (pos - candidate) (lz4Extend input candidate pos 4) := by
  simp only [lz4IsMatch, Bool.and_eq_true, decide_eq_true_eq, beq_iff_eq] at h
  obtain ⟨⟨⟨-, hlt⟩, hend⟩, hfour⟩ := h
  have hag : ∀ k < 4, input[candidate + k]? = input[pos + k]? := by
    intro k hk
    have hk' := congrArg (·[k]?) hfour
    simpa only [List.getElem?_take_of_lt hk, List.getElem?_drop] using hk'
  obtain ⟨hle, hext⟩ := lz4Extend_agree hend hag
  exact
    { offset_pos := by omega
      offset_le := by omega
      min_le := le_lz4Extend input candidate pos 4
      end_le := hle
      agree := fun k hk => by
        rw [show pos - (pos - candidate) + k = candidate + k by omega]
        exact hext k hk }

/-- No match reaches back past the window. -/
theorem lz4IsMatch_window (h : lz4IsMatch input candidate pos = true) :
    pos - candidate ≤ lz4WindowSize := by
  simp only [lz4IsMatch, Bool.and_eq_true, decide_eq_true_eq] at h
  have hback := h.1.1.1
  split at hback <;> omega

/-- An offset the stream cannot hold stops the decoder after the literals. -/
theorem lz4Sequence_lost (matchLen maxOutput : Nat)
    (hlits : input.take anchor ++ literals = input.take pos) (rest : List UInt8) :
    lz4Sequence maxOutput
        (UInt8.ofNat (min literals.length 15) <<< 4 |||
          UInt8.ofNat (min (matchLen - lz4MinMatch) 15))
        (lz4LenBytes literals.length ++ (literals ++
          ((UInt16.ofNat lz4WindowSize).toUInt8 :: (UInt16.ofNat lz4WindowSize >>> 8).toUInt8 ::
            (lz4LenBytes (matchLen - lz4MinMatch) ++ rest))))
        (input.take anchor)
      = some (.done (input.take pos)) := by
  have hlen : ¬ (literals ++
      ((UInt16.ofNat lz4WindowSize).toUInt8 :: (UInt16.ofNat lz4WindowSize >>> 8).toUInt8 ::
        (lz4LenBytes (matchLen - lz4MinMatch) ++ rest))).length < literals.length := by
    rw [List.length_append]
    omega
  rw [lz4Sequence, lz4Token_high, lz4ReadLen_lz4LenBytes]
  simp only [Nat.add_zero]
  rw [if_neg hlen, List.take_left, List.drop_left, hlits]
  exact if_pos (.inl (by decide))

/-- **What the compressor loop appends to the output.** Without a lost offset it takes
the decoder from the prefix up to the old anchor to the prefix up to the new one; with
one the decoder stops at a shorter prefix of the input. By induction along the loop. -/
theorem lz4CompressLoop_decodes (hmax : input.length ≤ maxOutput) (pos anchor : Nat)
    (hashTable : Nat → Nat) (output : List UInt8) (hanchor : anchor ≤ pos) :
    ∃ bytes, (lz4CompressLoop input pos anchor hashTable output).2 = output ++ bytes ∧
      (lz4WindowSize ∉ lz4Offsets input pos hashTable → ∀ rest,
      lz4DecompressLoop maxOutput (bytes ++ rest) (input.take anchor) =
      lz4DecompressLoop maxOutput rest
      (input.take (lz4CompressLoop input pos anchor hashTable output).1)) ∧
      (lz4WindowSize ∈ lz4Offsets input pos hashTable → ∀ rest, ∃ p < input.length,
      lz4DecompressLoop maxOutput (bytes ++ rest) (input.take anchor) = some (input.take p)) := by
  induction pos, anchor, hashTable, output using lz4CompressLoop.induct input with
  | case1 pos anchor table output hpos h candidate table' hmatch matchLen literals ih =>
    obtain ⟨bytes, hout, hdec, hlost⟩ := ih le_rfl
    have hm : Lz4Match input pos (pos - candidate) matchLen := lz4Match_of_isMatch hmatch
    have hwindow : pos - candidate ≤ lz4WindowSize := lz4IsMatch_window hmatch
    have hoffsets : lz4Offsets input pos table =
        (pos - candidate) :: lz4Offsets input (pos + matchLen) table' := by
      rw [lz4Offsets, if_pos hpos, if_pos hmatch]
    have hloop : lz4CompressLoop input pos anchor table output =
        lz4CompressLoop input (pos + matchLen) (pos + matchLen) table'
          (output ++ lz4SequenceBytes literals (pos - candidate) matchLen) := by
      rw [lz4CompressLoop, if_pos hpos, if_pos hmatch]
    refine ⟨lz4SequenceBytes literals (pos - candidate) matchLen ++ bytes, ?_, ?_, ?_⟩
    · rw [hloop, ← List.append_assoc]
      exact hout
    · intro hnot rest
      rw [hoffsets, List.mem_cons, not_or] at hnot
      have hoff : pos - candidate < 65536 := Nat.lt_of_le_of_ne hwindow (Ne.symm hnot.1)
      rw [List.append_assoc, lz4DecompressLoop_sequence hm hanchor hoff hmax, hloop]
      exact hdec hnot.2 rest
    · intro hmem rest
      rcases Nat.lt_or_eq_of_le hwindow with hoff | hfull
      · rw [List.append_assoc, lz4DecompressLoop_sequence hm hanchor hoff hmax]
        refine hlost ?_ rest
        rw [hoffsets] at hmem
        exact (List.mem_cons.mp hmem).resolve_left (Nat.ne_of_gt hoff)
      · have hend := hm.end_le
        have hmin := hm.min_le
        rw [lz4MinMatch] at hmin
        refine ⟨pos, by omega, ?_⟩
        have hstep := lz4Sequence_lost matchLen maxOutput (take_append_slice input hanchor)
          (bytes ++ rest)
        rw [hfull]
        simp only [lz4SequenceBytes, List.append_assoc, List.cons_append, List.nil_append]
        refine lz4DecompressLoop_done ?_ hstep
        rw [List.length_take]
        omega
  | case2 pos anchor table output hpos h candidate table' hmatch ih =>
    have hoffsets : lz4Offsets input pos table = lz4Offsets input (pos + 1) table' := by
      rw [lz4Offsets, if_pos hpos, if_neg hmatch]
    rw [lz4CompressLoop, if_pos hpos, if_neg hmatch, hoffsets]
    exact ih (by omega)
  | case3 pos anchor table output hpos =>
    have hnone : lz4WindowSize ∉ lz4Offsets input pos table := by
      rw [lz4Offsets, if_neg hpos]
      exact List.not_mem_nil
    rw [lz4CompressLoop, if_neg hpos]
    exact ⟨[], by simp, fun _ rest => by simp, fun hmem => absurd hmem hnone⟩

/-- In an input of less than 65540 bytes no match is 65536 bytes away. -/
theorem lz4Offsets_short (hlen : input.length < 65540) (pos : Nat) (hashTable : Nat → Nat) :
    lz4WindowSize ∉ lz4Offsets input pos hashTable := by
  induction pos, hashTable using lz4Offsets.induct input with
  | case1 pos table hpos h candidate table' hmatch ih =>
    rw [lz4Offsets, if_pos hpos, if_pos hmatch, List.mem_cons, not_or]
    refine ⟨?_, ih⟩
    rw [lz4MinMatch] at hpos
    show 65536 ≠ pos - candidate
    omega
  | case2 pos table hpos h candidate table' hmatch ih =>
    rw [lz4Offsets, if_pos hpos, if_neg hmatch]
    exact ih
  | case3 pos table hpos =>
    rw [lz4Offsets, if_neg hpos]
    exact List.not_mem_nil

section RoundTrip

variable {input : List UInt8} {maxOutput : Nat}

/-- The loop and the last sequence together. -/
theorem lz4Compress_eq (h : input.isEmpty = false) :
    lz4Compress input = (lz4CompressLoop input 0 0 (fun _ => 0) []).2 ++
      lz4TailBytes (input.drop (lz4CompressLoop input 0 0 (fun _ => 0) []).1) := by
  rw [lz4Compress, if_neg (by rw [h]; decide)]

/-- **Round trip**: without a lost offset, decoding what `lz4_compress` produced gives
the input back, for every output limit the input fits in. -/
theorem lz4Decompress_of_kept (hmax : input.length ≤ maxOutput) (hcap : maxOutput < 2 ^ 63)
    (hkept : lz4WindowSize ∉ lz4Offsets input 0 fun _ => 0) :
    lz4Decompress (lz4Compress input) maxOutput = some input := by
  cases hempty : input.isEmpty with
  | true =>
    rw [List.isEmpty_iff.mp hempty, lz4Decompress_reserved hcap, lz4Compress,
      if_pos List.isEmpty_nil, lz4DecompressLoop]
  | false =>
    obtain ⟨bytes, hout, hdec, -⟩ := lz4CompressLoop_decodes hmax 0 0 (fun _ => 0) [] le_rfl
    rw [List.nil_append] at hout
    rw [List.take_zero] at hdec
    rw [lz4Decompress_reserved hcap, lz4Compress_eq hempty, hout, hdec hkept]
    exact lz4DecompressLoop_tail hmax

/-- With one, the decoder gives a shorter prefix of the input. -/
theorem lz4Decompress_of_lost (hmax : input.length ≤ maxOutput) (hcap : maxOutput < 2 ^ 63)
    (hlost : lz4WindowSize ∈ lz4Offsets input 0 fun _ => 0) :
    ∃ p < input.length, lz4Decompress (lz4Compress input) maxOutput = some (input.take p) := by
  cases hempty : input.isEmpty with
  | true =>
    rw [List.isEmpty_iff.mp hempty] at hlost
    exact absurd hlost (lz4Offsets_short (by decide) 0 _)
  | false =>
    obtain ⟨bytes, hout, -, hdec⟩ := lz4CompressLoop_decodes hmax 0 0 (fun _ => 0) [] le_rfl
    rw [List.nil_append] at hout
    rw [List.take_zero] at hdec
    rw [lz4Decompress_reserved hcap, lz4Compress_eq hempty, hout]
    exact hdec hlost _

/-- Up to 65539 bytes no offset is lost. -/
theorem lz4Decompress_lz4Compress (hlen : input.length < 65540) (hmax : input.length ≤ maxOutput)
    (hcap : maxOutput < 2 ^ 63) : lz4Decompress (lz4Compress input) maxOutput = some input :=
  lz4Decompress_of_kept hmax hcap (lz4Offsets_short hlen 0 _)

end RoundTrip

end AthenaOS
