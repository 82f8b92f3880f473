import AthenaOS.Lib.BitString
import AthenaOS.Lib.Decoder
import AthenaOS.Lib.Wire

/-!
# Inflate

The DEFLATE decoder of `ath_deflate`. `ath_zip` and `ath_tar` carry copies of it that
differ in the error values and in the cap on the output, so the cap is a parameter here.

Every loop of the source is a `Decoder.loop`: a round reads at least one bit.
-/

namespace AthenaOS.Deflate

open Lib Lib.Wire

/-- `InflateError`. -/
inductive InflateError where
  | truncated
  | corrupt
  | badStored
  | tooLarge
  | badHeader
  | badChecksum
  deriving DecidableEq, Repr

/-! ## The bit reader -/

/-- `BitReader`. `bit_pos` is less than 8. -/
structure BitReader where
  data : ByteString
  bytePos : Nat
  bitPos : Fin 8

abbrev Reader (α : Type) : Type := Decoder BitReader InflateError α

namespace BitReader

/-- `BitReader::new`. -/
def new (data : ByteString) : BitReader := ⟨data, 0, 0⟩

/-- How many bits are left. -/
def left (br : BitReader) : Nat := 8 * br.data.length - (8 * br.bytePos + br.bitPos)

/-- `bit`. -/
def bit : Reader Nat := fun br =>
  match br.data[br.bytePos]? with
  | none => .error .truncated
  | some byte => .ok ((byte.toNat >>> br.bitPos.val) % 2,
      if br.bitPos = 7 then { br with bytePos := br.bytePos + 1, bitPos := 0 }
      else { br with bitPos := br.bitPos + 1 })

/-- `bits`: the `n` bits of a number, the lowest first. -/
def bits : Nat → Reader Nat
  | 0 => pure 0
  | n + 1 => do
    let v ← bits n
    let b ← bit
    pure (v ||| b <<< n)

/-- `align_to_byte`. -/
def alignToByte : Reader PUnit := fun br =>
  .ok (⟨⟩, if br.bitPos ≠ 0 then { br with bytePos := br.bytePos + 1, bitPos := 0 } else br)

/-- `read_byte`. -/
def readByte : Reader UInt8 := fun br =>
  match br.data[br.bytePos]? with
  | none => .error .truncated
  | some byte => .ok (byte, { br with bytePos := br.bytePos + 1 })

theorem bit_consumes : Decoder.Consumes left 1 bit := by
  intro br b br' h
  rw [bit] at h
  split at h
  · exact nomatch h
  · rename_i byte hbyte
    obtain ⟨-, rfl⟩ := Prod.mk.inj (Except.ok.inj h)
    have hlt := (List.getElem?_eq_some_iff.mp hbyte).1
    have hpos := br.bitPos.isLt
    split
    · rename_i hlast
      simp only [left, hlast]
      show 8 * br.data.length - (8 * (br.bytePos + 1) + 0) + 1 ≤ 8 * br.data.length - (8 * br.bytePos + 7)
      omega
    · rename_i hlast
      have hval : (br.bitPos + 1).val = br.bitPos.val + 1 := by
        have : br.bitPos.val ≠ 7 := fun hc => hlast (Fin.ext hc)
        rw [Fin.val_add_one_of_lt' (by omega)]
      simp only [left, hval]
      omega

theorem alignToByte_consumes : Decoder.Consumes left 0 alignToByte := by
  intro br a br' h
  obtain ⟨-, rfl⟩ := Prod.mk.inj (Except.ok.inj h)
  have hpos := br.bitPos.isLt
  split
  · show 8 * br.data.length - (8 * (br.bytePos + 1) + 0) + 0 ≤ 8 * br.data.length - (8 * br.bytePos + br.bitPos)
    omega
  · exact Nat.le_refl _

theorem readByte_consumes : Decoder.Consumes left 0 readByte := by
  intro br a br' h
  rw [readByte] at h
  split at h
  · exact nomatch h
  · obtain ⟨-, rfl⟩ := Prod.mk.inj (Except.ok.inj h)
    show 8 * br.data.length - (8 * (br.bytePos + 1) + br.bitPos) + 0 ≤
      8 * br.data.length - (8 * br.bytePos + br.bitPos)
    omega

theorem bits_consumes (n : Nat) : Decoder.Consumes left n (bits n) := by
  induction n with
  | zero => exact .pure 0
  | succ n ih =>
    rw [bits]
    exact ih.bind fun v => bit_consumes.bind fun b => .pure _

end BitReader

open BitReader

/-! ## Huffman codes -/

/-- `Huffman`: how many codes there are of each length from 1 to 15, and the symbols in
the order of their codes. -/
structure Huffman where
  counts : List Nat
  symbols : List Nat
  deriving DecidableEq

namespace Huffman

/-- The first symbol index of each length. -/
def offsetsFrom (sum : Nat) : List Nat → List Nat
  | [] => []
  | count :: counts => sum :: offsetsFrom (sum + count) counts

/-- The loop that puts each symbol at the next place of its length; `sum` is the length
of `symbols`. -/
def placeSymbols (sum : Nat) : List Nat → Nat → List Nat → List Nat → Except InflateError (List Nat)
  | [], _, _, symbols => .ok symbols
  | l :: lengths, sym, offsets, symbols =>
    if l ≠ 0 then
      let idx := offsets.getD l 0
      if sum ≤ idx then .error .corrupt
      else placeSymbols sum lengths (sym + 1) (offsets.modify l (· + 1)) (symbols.set idx sym)
    else placeSymbols sum lengths (sym + 1) offsets symbols

/-- `from_lengths`. The counts stay far below `u16::MAX`: there are at most 316 lengths. -/
def fromLengths (lengths : List Nat) : Except InflateError Huffman :=
  if lengths.any (15 < ·) then .error .corrupt
  else
    let counts := (lengths.foldl (fun counts l => counts.modify l (· + 1)) (List.replicate 16 0)).set 0 0
    let offsets := 0 :: offsetsFrom 0 counts.tail
    (placeSymbols counts.sum lengths 0 offsets (List.replicate counts.sum 0)).map fun symbols =>
      ⟨counts, symbols⟩

/-- `symbols.get(sym_idx)`: a negative index wraps to one past every table. -/
def symbolAt (symbols : List Nat) (i : Int) : Except InflateError Nat :=
  if i < 0 then .error .corrupt
  else
    match symbols[i.toNat]? with
    | none => .error .corrupt
    | some sym => .ok sym

/-- The loop of `decode` over the code lengths. -/
def decodeFrom (symbols : List Nat) : List Nat → Nat → Nat → Nat → Reader Nat
  | [], _, _, _ => throw .corrupt
  | count :: counts, code, first, index => do
    let b ← bit
    let code := code ||| b
    if (code : Int) - first < count then
      Decoder.ofExcept (symbolAt symbols (index + ((code : Int) - first)))
    else decodeFrom symbols counts (code <<< 1) ((first + count) <<< 1) (index + count)

/-- `decode`. -/
def decode (h : Huffman) : Reader Nat := decodeFrom h.symbols h.counts.tail 0 0 0

theorem decodeFrom_consumes (symbols counts : List Nat) (code first index : Nat) :
    Decoder.Consumes left 1 (decodeFrom symbols counts code first index) := by
  induction counts generalizing code first index with
  | nil => exact .throw _ _
  | cons count counts ih =>
    rw [decodeFrom]
    refine bit_consumes.bind_left fun b => ?_
    exact .ite (.ofExcept _) ((ih _ _ _).mono (Nat.zero_le _))

theorem decode_consumes (h : Huffman) : Decoder.Consumes left 1 h.decode :=
  decodeFrom_consumes _ _ _ _ _

end Huffman

/-! ## Blocks -/

/-- `LENGTH_BASE`. -/
def lengthBase : List Nat :=
  [3, 4, 5, 6, 7, 8, 9, 10, 11, 13, 15, 17, 19, 23, 27, 31, 35, 43, 51, 59, 67, 83, 99, 115, 131,
    163, 195, 227, 258]

/-- `LENGTH_EXTRA`. -/
def lengthExtra : List Nat :=
  [0, 0, 0, 0, 0, 0, 0, 0, 1, 1, 1, 1, 2, 2, 2, 2, 3, 3, 3, 3, 4, 4, 4, 4, 5, 5, 5, 5, 0]

/-- `DIST_BASE`. -/
def distBase : List Nat :=
  [1, 2, 3, 4, 5, 7, 9, 13, 17, 25, 33, 49, 65, 97, 129, 193, 257, 385, 513, 769, 1025, 1537,
    2049, 3073, 4097, 6145, 8193, 12289, 16385, 24577]

/-- `DIST_EXTRA`. -/
def distExtra : List Nat :=
  [0, 0, 0, 0, 1, 1, 2, 2, 3, 3, 4, 4, 5, 5, 6, 6, 7, 7, 8, 8, 9, 9, 10, 10, 11, 11, 12, 12, 13,
    13]

/-- `for _ in 0..len { out.push(br.read_byte()?) }`. -/
def pushBytes : Nat → ByteString → Reader ByteString
  | 0, out => pure out
  | n + 1, out => do
    let b ← readByte
    pushBytes n (out ++ [b])

/-- `inflate_stored`. -/
def inflateStored (cap : Nat) (out : ByteString) : Reader ByteString := do
  alignToByte
  let len₀ ← readByte
  let len₁ ← readByte
  let nlen₀ ← readByte
  let nlen₁ ← readByte
  let len := leNat [len₀, len₁]
  let nlen := leNat [nlen₀, nlen₁]
  if len ≠ 0xFFFF - nlen then throw .badStored
  else if cap < out.length + len then throw .tooLarge
  else pushBytes len out

/-- `fixed_litlen`. -/
def fixedLitlen : Except InflateError Huffman :=
  Huffman.fromLengths (List.replicate 144 8 ++ List.replicate 112 9 ++ List.replicate 24 7 ++
    List.replicate 8 8)

/-- `fixed_dist`. -/
def fixedDist : Except InflateError Huffman := Huffman.fromLengths (List.replicate 30 5)

theorem pushBytes_consumes (n : Nat) (out : ByteString) :
    Decoder.Consumes left 0 (pushBytes n out) := by
  induction n generalizing out with
  | zero => exact .pure _
  | succ n ih => exact readByte_consumes.bind_left fun b => ih _

theorem inflateStored_consumes (cap : Nat) (out : ByteString) :
    Decoder.Consumes left 0 (inflateStored cap out) := by
  refine alignToByte_consumes.bind_left fun _ => ?_
  refine readByte_consumes.bind_left fun len₀ => readByte_consumes.bind_left fun len₁ => ?_
  refine readByte_consumes.bind_left fun nlen₀ => readByte_consumes.bind_left fun nlen₁ => ?_
  exact .ite (.throw _ _) (.ite (.throw _ _) (pushBytes_consumes _ _))

/-- The order of the code-length codes. -/
def codeLengthOrder : List Nat :=
  [16, 17, 18, 0, 8, 7, 9, 6, 10, 5, 11, 4, 12, 3, 13, 2, 14, 1, 15]

/-- `for i in 0..hclen { cl_lengths[ORDER[i]] = br.bits(3)? }`. -/
def readCodeLengths : List Nat → List Nat → Reader (List Nat)
  | [], lengths => pure lengths
  | i :: order, lengths => do
    let l ← bits 3
    readCodeLengths order (lengths.set i l)

/-- `for _ in 0..repeat`: one length several times, not past the end. -/
def repeatLength (total value times : Nat) (lengths : List Nat) : Reader (List Nat ⊕ List Nat) :=
  if total < lengths.length + times then throw .corrupt
  else pure (.inl (lengths ++ List.replicate times value))

/-- One round of the loop that reads the code lengths; `lengths` are those before `i`. -/
def lengthsRound (codes : Huffman) (total : Nat) (lengths : List Nat) :
    Reader (List Nat ⊕ List Nat) :=
  if total ≤ lengths.length then pure (.inr lengths)
  else do
    let sym ← codes.decode
    if sym ≤ 15 then pure (.inl (lengths ++ [sym]))
    else if sym = 16 then
      match lengths.getLast? with
      | none => throw .corrupt
      | some prev => do
        let times ← bits 2
        repeatLength total prev (times + 3) lengths
    else if sym = 17 then do
      let times ← bits 3
      repeatLength total 0 (times + 3) lengths
    else if sym = 18 then do
      let times ← bits 7
      repeatLength total 0 (times + 11) lengths
    else throw .corrupt

theorem repeatLength_consumes (total value times : Nat) (lengths : List Nat) :
    Decoder.Consumes left 0 (repeatLength total value times lengths) := by
  rw [repeatLength]
  exact .ite (.throw _ _) (.pure _)

/-- A round consumes something while lengths are missing. -/
theorem lengthsRound_consumes (codes : Huffman) {total : Nat} {lengths : List Nat}
    (h : ¬ total ≤ lengths.length) : Decoder.Consumes left 1 (lengthsRound codes total lengths) := by
  rw [lengthsRound, if_neg h]
  refine codes.decode_consumes.bind_left fun sym => ?_
  have hrepeat : ∀ n value k, Decoder.Consumes left 0 (do
      let times ← bits n
      repeatLength total value (times + k) lengths) := fun n value k =>
    (bits_consumes n).bind_right fun times => repeatLength_consumes _ _ _ _
  refine .ite (.pure _) (.ite ?_ (.ite (hrepeat _ _ _) (.ite (hrepeat _ _ _) (.throw _ _))))
  split
  · exact .throw _ _
  · exact hrepeat _ _ _

theorem lengthsRound_progresses (codes : Huffman) (total : Nat) :
    Decoder.Progresses left (lengthsRound codes total) := by
  intro lengths br lengths' br' hround
  by_cases hdone : total ≤ lengths.length
  · rw [lengthsRound, if_pos hdone] at hround
    exact nomatch (Decoder.pure_eq_ok hround).1
  · exact lengthsRound_consumes codes hdone br _ br' hround

/-- `while i < total { .. }`. -/
def readLengths (codes : Huffman) (total : Nat) : Reader (List Nat) :=
  Decoder.loop left (lengthsRound codes total) (lengthsRound_progresses codes total) []

theorem readLengths_consumes (codes : Huffman) (total : Nat) :
    Decoder.Consumes left 0 (readLengths codes total) := by
  refine .loop (fun lengths => ?_) _
  by_cases hdone : total ≤ lengths.length
  · rw [lengthsRound, if_pos hdone]
    exact .pure _
  · exact (lengthsRound_consumes codes hdone).mono (Nat.zero_le _)

theorem readCodeLengths_consumes (order lengths : List Nat) :
    Decoder.Consumes left 0 (readCodeLengths order lengths) := by
  induction order generalizing lengths with
  | nil => exact .pure _
  | cons i order ih => exact (bits_consumes 3).bind_right fun l => ih _

/-- `read_dynamic_tables`. -/
def readDynamicTables : Reader (Huffman × Huffman) := do
  let hlit ← bits 5
  let hdist ← bits 5
  let hclen ← bits 4
  if 286 < hlit + 257 ∨ 30 < hdist + 1 then throw .corrupt
  else do
    let codeLengths ← readCodeLengths (codeLengthOrder.take (hclen + 4)) (List.replicate 19 0)
    let codes ← Decoder.ofExcept (Huffman.fromLengths codeLengths)
    let lengths ← readLengths codes (hlit + 257 + (hdist + 1))
    let litlen ← Decoder.ofExcept (Huffman.fromLengths (lengths.take (hlit + 257)))
    let dist ← Decoder.ofExcept (Huffman.fromLengths (lengths.drop (hlit + 257)))
    pure (litlen, dist)

theorem readDynamicTables_consumes : Decoder.Consumes left 0 readDynamicTables := by
  refine (bits_consumes 5).bind_right fun hlit => ?_
  refine (bits_consumes 5).bind_right fun hdist => ?_
  refine (bits_consumes 4).bind_right fun hclen => ?_
  refine .ite (.throw _ _) ((readCodeLengths_consumes _ _).bind_left fun codeLengths => ?_)
  refine (Decoder.Consumes.ofExcept _).bind_left fun codes => (readLengths_consumes _ _).bind_left fun lengths => ?_
  exact (Decoder.Consumes.ofExcept _).bind_left fun litlen =>
    (Decoder.Consumes.ofExcept _).bind_left fun dist => .pure _

/-- `for k in 0..length { out.push(out[start + k]) }`: the copy may overlap what it
writes. `start` is at least one below the length of `out`, so the index is in range. -/
def copyMatch (start : Nat) : Nat → ByteString → ByteString
  | 0, out => out
  | k + 1, out =>
    let out := copyMatch start k out
    out ++ [out.getD (start + k) 0]

/-- The check at the end of a round. -/
def withinCap (cap : Nat) (out : ByteString) : Reader (ByteString ⊕ ByteString) :=
  if cap < out.length then throw .tooLarge else pure (.inl out)

/-- One round of `inflate_block`. -/
def blockRound (litlen dist : Huffman) (cap : Nat) (out : ByteString) :
    Reader (ByteString ⊕ ByteString) := do
  let sym ← litlen.decode
  if sym = 256 then pure (.inr out)
  else if sym < 256 then
    if cap < out.length + 1 then throw .tooLarge
    else withinCap cap (out ++ [UInt8.ofNat sym])
  else if lengthBase.length ≤ sym - 257 then throw .corrupt
  else do
    let lextra ← bits (lengthExtra.getD (sym - 257) 0)
    let length := lengthBase.getD (sym - 257) 0 + lextra
    let dsym ← dist.decode
    if distBase.length ≤ dsym then throw .corrupt
    else do
      let dextra ← bits (distExtra.getD dsym 0)
      let distance := distBase.getD dsym 0 + dextra
      if distance = 0 ∨ out.length < distance then throw .corrupt
      else if cap < out.length + length then throw .tooLarge
      else withinCap cap (copyMatch (out.length - distance) length out)

theorem withinCap_consumes (cap : Nat) (out : ByteString) :
    Decoder.Consumes left 0 (withinCap cap out) := by
  rw [withinCap]
  exact .ite (.throw _ _) (.pure _)

theorem blockRound_consumes (litlen dist : Huffman) (cap : Nat) (out : ByteString) :
    Decoder.Consumes left 1 (blockRound litlen dist cap out) := by
  refine litlen.decode_consumes.bind_left fun sym => ?_
  refine .ite (.pure _) (.ite (.ite (.throw _ _) (withinCap_consumes _ _)) (.ite (.throw _ _) ?_))
  refine (bits_consumes _).bind_right fun lextra => ?_
  refine dist.decode_consumes.bind_right fun dsym => ?_
  refine .ite (.throw _ _) ((bits_consumes _).bind_right fun dextra => ?_)
  exact .ite (.throw _ _) (.ite (.throw _ _) (withinCap_consumes _ _))

/-- `inflate_block`. -/
def inflateBlock (litlen dist : Huffman) (cap : Nat) (out : ByteString) : Reader ByteString :=
  Decoder.loop left (blockRound litlen dist cap)
    (.of_consumes (blockRound_consumes litlen dist cap)) out

/-- The block of a type. Type 3 is reserved. -/
def inflateType (cap btype : Nat) (out : ByteString) : Reader ByteString :=
  match btype with
  | 0 => inflateStored cap out
  | 1 => do
    let litlen ← Decoder.ofExcept fixedLitlen
    let dist ← Decoder.ofExcept fixedDist
    inflateBlock litlen dist cap out
  | 2 => do
    let (litlen, dist) ← readDynamicTables
    inflateBlock litlen dist cap out
  | _ => throw .corrupt

/-- One round of `inflate`. -/
def inflateRound (cap : Nat) (out : ByteString) : Reader (ByteString ⊕ ByteString) := do
  let bfinal ← bit
  let btype ← bits 2
  let out ← inflateType cap btype out
  if bfinal = 1 then pure (.inr out) else withinCap cap out

theorem inflateBlock_consumes (litlen dist : Huffman) (cap : Nat) (out : ByteString) :
    Decoder.Consumes left 0 (inflateBlock litlen dist cap out) :=
  .loop (fun out => (blockRound_consumes litlen dist cap out).mono (Nat.zero_le _)) out

theorem inflateType_consumes (cap btype : Nat) (out : ByteString) :
    Decoder.Consumes left 0 (inflateType cap btype out) := by
  unfold inflateType
  split
  · exact inflateStored_consumes cap out
  · exact (Decoder.Consumes.ofExcept _).bind_left fun litlen =>
      (Decoder.Consumes.ofExcept _).bind_left fun dist => inflateBlock_consumes _ _ _ _
  · exact readDynamicTables_consumes.bind_left fun _ => inflateBlock_consumes _ _ _ _
  · exact .throw _ _

theorem inflateRound_consumes (cap : Nat) (out : ByteString) :
    Decoder.Consumes left 1 (inflateRound cap out) := by
  refine bit_consumes.bind_left fun bfinal => ?_
  refine (bits_consumes 2).bind_right fun btype => ?_
  exact (inflateType_consumes _ _ _).bind_left fun out => .ite (.pure _) (withinCap_consumes _ _)

/-- The decoder with an output of at most `cap` bytes. -/
def inflateCapped (cap : Nat) (data : ByteString) : Except InflateError ByteString :=
  (Decoder.loop left (inflateRound cap) (.of_consumes (inflateRound_consumes cap)) []
    (BitReader.new data)).map Prod.fst

/-- `MAX_OUTPUT`. -/
def maxOutput : Nat := 512 * 1024 * 1024

/-- `inflate`. -/
def inflate (data : ByteString) : Except InflateError ByteString := inflateCapped maxOutput data

/-- A stored block, then a fixed one that copies from it. -/
example : inflate [0x00, 0x03, 0x00, 0xFC, 0xFF, 1, 2, 3, 0x03, 0x22, 0x00] =
    .ok [1, 2, 3, 1, 2, 3] := by decide +kernel

end AthenaOS.Deflate
