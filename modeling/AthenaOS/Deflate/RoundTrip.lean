import AthenaOS.Deflate.FixedCodes

/-!
# Inflate undoes deflate

The writer's bits make the decoder apply the tokens, one round each, under every cap the data fits.
-/

namespace AthenaOS.Deflate

open Lib Lib.Wire BitReader BitWriter

/-! ## Tokens -/

/-- The bits of a token under the fixed codes. -/
def tokenBits : Token → List Bool
  | .literal b => codeBits (fixedLitlenCode b.toNat)
  | .match length distance =>
    codeBits (fixedLitlenCode (lengthToSymbol length).1) ++
      (lsbBits (lengthToSymbol length).2.1 (lengthToSymbol length).2.2 ++
        (codeBits (fixedDistCode (distanceToSymbol distance).1) ++
          lsbBits (distanceToSymbol distance).2.1 (distanceToSymbol distance).2.2))

variable {bw : BitWriter} {out out' data chunk : ByteString} {tokens : List Token}

/-- Extra bits are written where there are some. -/
theorem pushExtra_spec (h : bw.Sound) (value : Nat) {n : Nat} (hn : n ≤ 24) :
    (if 0 < n then bw.pushBits value n else bw).Sound ∧
      (if 0 < n then bw.pushBits value n else bw).bits = bw.bits ++ lsbBits n value := by
  split
  · exact pushBits_spec h value hn
  · rename_i hzero
    obtain rfl : n = 0 := by omega
    exact ⟨h, (List.append_nil _).symm⟩

theorem emitFixedToken_spec (h : bw.Sound) (token : Token) :
    (emitFixedToken bw token).Sound ∧ (emitFixedToken bw token).bits = bw.bits ++ tokenBits token :=
      by
  cases token with
  | literal b => exact pushCode_spec h _ (fixedLitlenCode_le _)
  | «match» length distance =>
    rw [emitFixedToken, tokenBits]
    obtain ⟨h₁, hbits₁⟩ := pushCode_spec h _ (fixedLitlenCode_le (lengthToSymbol length).1)
    obtain ⟨h₂, hbits₂⟩ := pushExtra_spec h₁ (lengthToSymbol length).2.2
      (n := (lengthToSymbol length).2.1) (extraBits_le _).1
    obtain ⟨h₃, hbits₃⟩ := pushCode_spec h₂ (fixedDistCode (distanceToSymbol distance).1)
      (by decide : 5 ≤ 24)
    obtain ⟨h₄, hbits₄⟩ := pushExtra_spec h₃ (distanceToSymbol distance).2.2
      (n := (distanceToSymbol distance).2.1) (extraBits_le _).2
    refine ⟨h₄, hbits₄.trans ?_⟩
    rw [hbits₃, hbits₂, hbits₁]
    simp only [List.append_assoc]

theorem emitFixedTokens_spec (h : bw.Sound) (tokens : List Token) :
    (emitFixedTokens bw tokens).Sound ∧
      (emitFixedTokens bw tokens).bits = bw.bits ++ tokens.flatMap tokenBits := by
  induction tokens generalizing bw with
  | nil => exact ⟨h, (List.append_nil _).symm⟩
  | cons token tokens ih =>
    obtain ⟨h₁, hbits₁⟩ := emitFixedToken_spec h token
    obtain ⟨h₂, hbits₂⟩ := ih h₁
    refine ⟨h₂, hbits₂.trans ?_⟩
    rw [hbits₁, List.flatMap_cons, List.append_assoc]

/-! ## One block under the fixed codes -/

variable {cap : Nat}

theorem length_copyMatch (start length : Nat) (out : ByteString) :
    (copyMatch start length out).length = out.length + length := by
  induction length with
  | zero => rfl
  | succ length ih => rw [copyMatch, List.length_append, ih, List.length_singleton, Nat.add_assoc]

theorem Reads.withinCap (h : out.length ≤ cap) :
    Reads (Deflate.withinCap cap out) [] (.inl out) := by
  rw [Deflate.withinCap, if_neg (by omega)]
  exact .pure _

/-- **One token**: in front of its bits the decoder applies it. -/
theorem blockRound_token {token : Token} (hvalid : token.Valid out)
    (hcap : (token.apply out).length ≤ cap) :
    Reads (blockRound litlenTable distTable cap out) (tokenBits token) (.inl (token.apply out)) :=
      by
  cases token with
  | literal b =>
    have hb : b.toNat < 256 := b.toNat_lt
    have hlen : out.length + 1 ≤ cap := by
      rwa [Token.apply, List.length_append] at hcap
    refine (litlen_reads (by omega)).bind_last ?_
    rw [if_neg (by omega), if_pos hb, if_neg (by omega), UInt8.ofNat_toNat]
    exact .withinCap hcap
  | «match» length distance =>
    obtain ⟨hmin, hmax, hpos, hwindow, hback⟩ := hvalid
    obtain ⟨hlo, hhi, hlbits, hlval, hlen⟩ := lengthToSymbol_spec hmin hmax
    obtain ⟨hdhi, hdbits, hdval, hdist⟩ := distanceToSymbol_spec hpos hwindow
    rw [Token.apply, length_copyMatch] at hcap
    have hlread := Reads.bits (lengthToSymbol length).2.1 (lengthToSymbol length).2.2
    have hdread := Reads.bits (distanceToSymbol distance).2.1 (distanceToSymbol distance).2.2
    rw [Nat.mod_eq_of_lt hlval] at hlread
    rw [Nat.mod_eq_of_lt hdval] at hdread
    rw [tokenBits]
    refine (litlen_reads hhi).bind ?_
    have hsym : lengthBase.length = 29 := rfl
    rw [if_neg (by omega), if_neg (by omega), if_neg (by omega), ← hlbits]
    refine hlread.bind ((dist_reads hdhi).bind ?_)
    have hdsym : distBase.length = 30 := rfl
    rw [if_neg (by omega), ← hdbits]
    refine hdread.bind_last ?_
    rw [hlen, hdist, if_neg (by omega), if_neg (by omega)]
    exact .withinCap (by rwa [length_copyMatch])

theorem Token.length_le_apply (out : ByteString) (token : Token) :
    out.length ≤ (token.apply out).length := by
  cases token with
  | literal b =>
    rw [Token.apply, List.length_append]
    exact Nat.le_add_right _ _
  | «match» length distance =>
    rw [Token.apply, length_copyMatch]
    exact Nat.le_add_right _ _

/-- Output only grows. -/
theorem Expands.length_le (h : Expands out tokens out') : out.length ≤ out'.length := by
  induction h with
  | nil out => exact Nat.le_refl _
  | cons _ _ ih => exact Nat.le_trans (Token.length_le_apply _ _) ih

/-- The end-of-block code. -/
theorem blockRound_end (out : ByteString) :
    Reads (blockRound litlenTable distTable cap out) (codeBits (fixedLitlenCode 256)) (.inr out) :=
  (litlen_reads (by decide)).bind_last (.pure _)

/-- **A token stream** in front of the decoder expands. -/
theorem inflateBlock_tokens (h : Expands out tokens out') (hcap : out'.length ≤ cap) :
    Reads (inflateBlock litlenTable distTable cap out)
      (tokens.flatMap tokenBits ++ codeBits (fixedLitlenCode 256)) out' := by
  induction h with
  | nil out => exact .loop_break (blockRound_end out)
  | cons hvalid hrest ih =>
    rw [List.flatMap_cons, List.append_assoc]
    exact .loop_continue (blockRound_token hvalid (Nat.le_trans hrest.length_le hcap)) (ih hcap)

/-- The bits of a fixed block. -/
theorem bitsOf_fixedBlock (tokens : List Token) :
    ∃ pad, bitsOf (fixedBlock tokens) = lsbBits 1 1 ++ (lsbBits 2 1 ++
      (tokens.flatMap tokenBits ++ codeBits (fixedLitlenCode 256))) ++ pad := by
  obtain ⟨h₁, hbits₁⟩ := pushBits_spec sound_new 1 (n := 1) (by decide)
  obtain ⟨h₂, hbits₂⟩ := pushBits_spec h₁ 1 (n := 2) (by decide)
  obtain ⟨h₃, hbits₃⟩ := emitFixedTokens_spec h₂ tokens
  obtain ⟨h₄, hbits₄⟩ := pushCode_spec h₃ _ (fixedLitlenCode_le 256)
  obtain ⟨pad, hpad⟩ := bits_finish h₄
  refine ⟨pad, hpad.trans ?_⟩
  rw [hbits₄, hbits₃, hbits₂, hbits₁, bits_new]
  simp only [List.append_assoc, List.nil_append]

/-- **A fixed block is read back.** -/
theorem inflateCapped_fixedBlock (h : Expands [] tokens data) (hcap : data.length ≤ cap) :
    inflateCapped cap (fixedBlock tokens) = .ok data := by
  have hround : Reads (inflateRound cap []) (lsbBits 1 1 ++ (lsbBits 2 1 ++
      (tokens.flatMap tokenBits ++ codeBits (fixedLitlenCode 256)))) (.inr data) := by
    refine (Reads.bit true).bind ((Reads.bits 2 1).bind (Reads.bind_last (a := data) ?_ (.pure _)))
    exact (Reads.ofExcept fixedLitlen_eq).bind_nil
      ((Reads.ofExcept fixedDist_eq).bind_nil (inflateBlock_tokens h hcap))
  obtain ⟨pad, hbits⟩ := bitsOf_fixedBlock tokens
  rw [inflateCapped, Reads.loop_break hround (BitReader.new (fixedBlock tokens)) pad (by rw [rest_new, hbits])]
  rfl

/-! ## Stored blocks -/

/-- The bytes of a stored block. -/
def storedBlock (chunk : ByteString) (finalBlock : Bool) : ByteString :=
  UInt8.ofNat finalBlock.toNat :: (leBytes 2 chunk.length ++ (leBytes 2 (0xFFFF - chunk.length) ++ chunk))

theorem flush_of_lt (h : bw.bitCnt < 8) : bw.flush = bw := by
  rw [BitWriter.flush, if_neg (by omega)]

/-- A stored block starts and ends at a byte boundary. -/
theorem writeStoredBlock_eq (out chunk : ByteString) (finalBlock : Bool) (hlen : chunk.length ≤ 65535) :
    writeStoredBlock ⟨out, 0, 0⟩ chunk finalBlock = ⟨out ++ storedBlock chunk finalBlock, 0, 0⟩ := by
  have hheader : (((BitWriter.mk out 0 0).pushBits (if finalBlock then 1 else 0) 1).pushBits 0 2).alignToByte =
      ⟨out ++ [UInt8.ofNat finalBlock.toNat], 0, 0⟩ := by
    have hfirst : (BitWriter.mk out 0 0).pushBits (if finalBlock then 1 else 0) 1 =
        ⟨out, finalBlock.toNat, 1⟩ := by
      rw [pushBits, flush_of_lt (by decide : 0 + 1 < 8)]
      cases finalBlock <;> simp
    have hsecond : (BitWriter.mk out finalBlock.toNat 1).pushBits 0 2 = ⟨out, finalBlock.toNat, 3⟩ := by
      rw [pushBits, flush_of_lt (by decide : 1 + 2 < 8)]
      cases finalBlock <;> simp
    rw [hfirst, hsecond, BitWriter.alignToByte, if_pos (by decide : 0 < 3)]
  rw [writeStoredBlock, hheader, Nat.mod_eq_of_lt (by omega), storedBlock]
  simp only [List.append_assoc, List.singleton_append]

/-- The blocks of the chunks. -/
def storedBlocks : List ByteString → ByteString
  | [] => []
  | [chunk] => storedBlock chunk true
  | chunk :: chunks => storedBlock chunk false ++ storedBlocks chunks

theorem writeStoredBlocks_eq (chunks : List ByteString) (out : ByteString)
    (hlen : ∀ chunk ∈ chunks, chunk.length ≤ 65535) :
    writeStoredBlocks ⟨out, 0, 0⟩ chunks = ⟨out ++ storedBlocks chunks, 0, 0⟩ := by
  induction chunks generalizing out with
  | nil => rw [writeStoredBlocks, storedBlocks, List.append_nil]
  | cons chunk chunks ih =>
    have hchunk := hlen chunk List.mem_cons_self
    cases chunks with
    | nil => rw [writeStoredBlocks, storedBlocks, writeStoredBlock_eq out chunk true hchunk]
    | cons next chunks =>
      rw [writeStoredBlocks, storedBlocks, writeStoredBlock_eq out chunk false hchunk,
        ih _ fun c hc => hlen c (List.mem_cons_of_mem _ hc), List.append_assoc]
      · exact fun hc => nomatch hc
      · exact fun hc => nomatch hc

/-- The chunks are the data, and each fits a block. -/
theorem chunks_spec (data : ByteString) :
    (chunks data).flatten = data ∧ ∀ chunk ∈ chunks data, chunk.length ≤ 65535 := by
  induction hn : data.length using Nat.strong_induction_on generalizing data with
  | _ n ih =>
    rw [chunks]
    split
    · obtain ⟨hflat, hlen⟩ := ih (data.drop storedChunk).length (by
        rw [List.length_drop, storedChunk]
        omega) _ rfl
      refine ⟨by rw [List.flatten_cons, hflat, List.take_append_drop], fun chunk hchunk => ?_⟩
      rcases List.mem_cons.mp hchunk with rfl | hchunk
      · rw [List.length_take, storedChunk]
        exact Nat.min_le_left _ _
      · exact hlen chunk hchunk
    · rename_i hempty
      refine ⟨(List.eq_nil_of_length_eq_zero (by omega)).symm, fun chunk hchunk => ?_⟩
      exact absurd hchunk List.not_mem_nil

theorem getElem?_length_append (pre : ByteString) (b : UInt8) (suf : ByteString) :
    (pre ++ b :: suf)[pre.length]? = some b := by
  rw [List.getElem?_append_right (Nat.le_refl _), Nat.sub_self]
  rfl

/-- Reading a byte at a boundary. -/
theorem readByte_at {q : Nat} {b : UInt8} (h : data[q]? = some b) :
    readByte ⟨data, q, 0⟩ = .ok (b, ⟨data, q + 1, 0⟩) := by
  rw [readByte]
  dsimp only
  rw [h]

theorem pushBytes_at (chunk pre suf out : ByteString) :
    pushBytes chunk.length out ⟨pre ++ (chunk ++ suf), pre.length, 0⟩ =
      .ok (out ++ chunk, ⟨pre ++ (chunk ++ suf), pre.length + chunk.length, 0⟩) := by
  induction chunk generalizing pre out with
  | nil =>
    rw [List.append_nil]
    rfl
  | cons b chunk ih =>
    rw [List.cons_append, List.length_cons, pushBytes,
      Decoder.bind_ok (readByte_at (getElem?_length_append pre b _))]
    have hrest := ih (pre ++ [b]) (out ++ [b])
    rw [List.append_assoc, List.append_assoc, List.length_append, List.length_singleton] at hrest
    rw [Nat.add_comm chunk.length 1, ← Nat.add_assoc]
    exact hrest

theorem leBytes_two (n : Nat) : leBytes 2 n = [UInt8.ofNat n, UInt8.ofNat (n / 256)] := rfl

/-- `inflate_stored` from just behind the block's three header bits. -/
theorem inflateStored_at (pre suf : ByteString) (hdr : UInt8) (hlen : chunk.length ≤ 65535)
    (hcap : out.length + chunk.length ≤ cap) :
    let data := pre ++ hdr :: (leBytes 2 chunk.length ++ (leBytes 2 (0xFFFF - chunk.length) ++
      (chunk ++ suf)))
    inflateStored cap out ⟨data, pre.length, 3⟩ =
      .ok (out ++ chunk, ⟨data, pre.length + 5 + chunk.length, 0⟩) := by
  intro data
  have hround : leNat (leBytes 2 chunk.length) = chunk.length := leNat_leBytes_of_lt (by omega)
  have hround' : leNat (leBytes 2 (0xFFFF - chunk.length)) = 0xFFFF - chunk.length :=
    leNat_leBytes_of_lt (by omega)
  rw [leBytes_two] at hround hround'
  have hbyte : ∀ (k : Nat) b, (hdr :: (leBytes 2 chunk.length ++ (leBytes 2 (0xFFFF - chunk.length) ++
      (chunk ++ suf))))[k]? = some b → data[pre.length + k]? = some b := by
    intro k b hb
    rw [List.getElem?_append_right (Nat.le_add_right _ _), Nat.add_sub_cancel_left]
    exact hb
  have halign : BitReader.alignToByte ⟨data, pre.length, 3⟩ = .ok (⟨⟩, ⟨data, pre.length + 1, 0⟩) := rfl
  rw [inflateStored, Decoder.bind_ok halign, Decoder.bind_ok (readByte_at (hbyte 1 _ rfl)),
    Decoder.bind_ok (readByte_at (hbyte 2 _ rfl)), Decoder.bind_ok (readByte_at (hbyte 3 _ rfl)),
    Decoder.bind_ok (readByte_at (hbyte 4 _ rfl)), hround, hround', if_neg (by omega),
    if_neg (by omega)]
  have hbody := pushBytes_at chunk (pre ++ [hdr] ++ leBytes 2 chunk.length ++
    leBytes 2 (0xFFFF - chunk.length)) suf out
  simp only [List.length_append, length_leBytes, List.append_assoc,
    List.singleton_append] at hbody
  exact hbody

theorem length_storedBlock (chunk : ByteString) (finalBlock : Bool) :
    (storedBlock chunk finalBlock).length = 5 + chunk.length := by
  rw [storedBlock, List.length_cons, List.length_append, List.length_append, length_leBytes,
    length_leBytes]
  omega

/-- **One stored block** is read back. -/
theorem inflateRound_stored (pre suf : ByteString) (finalBlock : Bool) (hlen : chunk.length ≤ 65535)
    (hcap : out.length + chunk.length ≤ cap) :
    inflateRound cap out ⟨pre ++ (storedBlock chunk finalBlock ++ suf), pre.length, 0⟩ =
      .ok (if finalBlock then .inr (out ++ chunk) else .inl (out ++ chunk),
        ⟨pre ++ (storedBlock chunk finalBlock ++ suf), pre.length + 5 + chunk.length, 0⟩) := by
  -- the header byte: the final flag, block type 0 and five bits of padding
  have hheader : lsbBits 8 (UInt8.ofNat finalBlock.toNat).toNat =
      [finalBlock] ++ (lsbBits 2 0 ++ lsbBits 5 0) := by
    cases finalBlock <;> rfl
  have hrest : (BitReader.mk (pre ++ (storedBlock chunk finalBlock ++ suf)) pre.length 0).rest =
      [finalBlock] ++ (lsbBits 2 0 ++ (lsbBits 5 0 ++ bitsOf (leBytes 2 chunk.length ++
        (leBytes 2 (0xFFFF - chunk.length) ++ (chunk ++ suf))))) := by
    rw [rest_eq]
    dsimp only
    rw [List.drop_left, storedBlock, List.cons_append, bitsOf_cons, hheader]
    simp only [List.append_assoc, Fin.coe_ofNat_eq_mod, Nat.zero_mod, List.drop_zero]
  have hbit := Reads.bit finalBlock _ _ hrest
  have htype := Reads.bits 2 0 _ _ (rest_advance hrest)
  have hpos : ((BitReader.mk (pre ++ (storedBlock chunk finalBlock ++ suf)) pre.length 0).advance
      [finalBlock].length).advance (lsbBits 2 0).length =
      ⟨pre ++ (storedBlock chunk finalBlock ++ suf), pre.length, 3⟩ := by
    rw [advance_advance]
    exact BitReader.ext rfl (position_advance _ _)
  rw [hpos] at htype
  have hdata : pre ++ (storedBlock chunk finalBlock ++ suf) = pre ++ UInt8.ofNat finalBlock.toNat ::
      (leBytes 2 chunk.length ++ (leBytes 2 (0xFFFF - chunk.length) ++ (chunk ++ suf))) := by
    rw [storedBlock, List.cons_append]
    simp only [List.append_assoc]
  have hstored : inflateType cap (0 % 2 ^ 2) out
      ⟨pre ++ (storedBlock chunk finalBlock ++ suf), pre.length, 3⟩ = .ok (out ++ chunk,
        ⟨pre ++ (storedBlock chunk finalBlock ++ suf), pre.length + 5 + chunk.length, 0⟩) := by
    rw [hdata]
    exact inflateStored_at pre suf (UInt8.ofNat finalBlock.toNat) hlen hcap
  rw [inflateRound, Decoder.bind_ok hbit, Decoder.bind_ok htype, Decoder.bind_ok hstored]
  cases finalBlock with
  | true => rfl
  | false =>
    rw [if_neg (by decide), withinCap, if_neg (by rw [List.length_append]; omega)]
    rfl

/-- **Stored blocks** are read back. -/
theorem inflate_storedBlocks (chunks : List ByteString) (pre out : ByteString) (hne : chunks ≠ [])
    (hlen : ∀ chunk ∈ chunks, chunk.length ≤ 65535)
    (hcap : out.length + chunks.flatten.length ≤ cap) :
    ∃ br, Decoder.loop left (inflateRound cap) (.of_consumes (inflateRound_consumes cap)) out
      ⟨pre ++ storedBlocks chunks, pre.length, 0⟩ = .ok (out ++ chunks.flatten, br) := by
  induction chunks generalizing pre out with
  | nil => exact absurd rfl hne
  | cons chunk chunks ih =>
    have hchunk := hlen chunk List.mem_cons_self
    rw [List.flatten_cons, List.length_append] at hcap
    cases chunks with
    | nil =>
      have hround := inflateRound_stored pre [] true hchunk (show out.length + chunk.length ≤ cap by omega)
      rw [List.append_nil] at hround
      rw [storedBlocks, List.flatten_cons, List.flatten_nil, List.append_nil]
      exact ⟨_, Decoder.loop_break hround⟩
    | cons next chunks =>
      rw [storedBlocks]
      · have hround := inflateRound_stored pre (storedBlocks (next :: chunks)) false hchunk
          (show out.length + chunk.length ≤ cap by omega)
        rw [Decoder.loop_continue hround]
        obtain ⟨br, hrun⟩ := ih (pre ++ storedBlock chunk false) (out ++ chunk) (by simp)
          (fun c hc => hlen c (List.mem_cons_of_mem _ hc)) (by rw [List.length_append]; omega)
        rw [List.length_append, length_storedBlock, ← Nat.add_assoc, List.append_assoc,
          List.append_assoc] at hrun
        exact ⟨br, hrun⟩
      · exact fun hc => nomatch hc

/-! ## The round trip -/

/-- **Under every cap the data fits, the decoder undoes `deflate`.** -/
theorem inflateCapped_deflate (hcap : data.length ≤ cap) :
    inflateCapped cap (deflate data) = .ok data := by
  rw [deflate]
  split
  · rename_i hempty
    rw [hempty]
    exact inflateCapped_fixedBlock (.nil []) (Nat.zero_le _)
  · rename_i hne
    dsimp only
    split
    · exact inflateCapped_fixedBlock (lz77Tokens_expands data) hcap
    · obtain ⟨hflat, hlen⟩ := chunks_spec data
      have hchunks : chunks data ≠ [] := by
        intro hc
        rw [hc] at hflat
        exact hne hflat.symm
      have hfits : ([] : ByteString).length + (chunks data).flatten.length ≤ cap := by
        rwa [hflat, List.length_nil, Nat.zero_add]
      obtain ⟨br, hrun⟩ := inflate_storedBlocks (chunks data) [] [] hchunks hlen hfits
      rw [hflat, List.nil_append, List.nil_append, List.length_nil] at hrun
      have hwrite : (writeStoredBlocks BitWriter.new (chunks data)).finish = storedBlocks (chunks data) := by
        rw [BitWriter.new, writeStoredBlocks_eq (chunks data) [] hlen]
        rfl
      rw [hwrite, inflateCapped, BitReader.new, hrun]
      rfl

/-- **DEFLATE round trip**: `inflate` undoes `deflate` on every input up to `MAX_OUTPUT`. -/
theorem inflate_deflate (data : ByteString) (h : data.length ≤ maxOutput) :
    inflate (deflate data) = .ok data :=
  inflateCapped_deflate h

/-- Three literals and a match that overlaps itself. -/
theorem inflate_deflate_repeats :
    lz77Tokens [1, 2, 3, 1, 2, 3, 1, 2, 3, 1, 2, 3] = [.literal 1, .literal 2, .literal 3, .match 9 3] ∧
      inflate (deflate [1, 2, 3, 1, 2, 3, 1, 2, 3, 1, 2, 3]) =
        .ok [1, 2, 3, 1, 2, 3, 1, 2, 3, 1, 2, 3] :=
  ⟨by decide +kernel, inflate_deflate _ (by decide)⟩

end AthenaOS.Deflate
