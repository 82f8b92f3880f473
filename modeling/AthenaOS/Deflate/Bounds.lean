import AthenaOS.Deflate.RoundTrip

/-!
# How much a stream can expand

Every round of the decoder reads bits, and 129 bytes for a bit is the most it writes: a
match of 258 bytes takes a length and a distance code of one bit each.
-/

namespace AthenaOS.Deflate

open Lib Lib.Wire BitReader

/-- From `out` to `out'` while the reader went from `br` to `br'`. -/
structure Grew (out : ByteString) (br : BitReader) (out' : ByteString) (br' : BitReader) : Prop where
  length_le : out.length ≤ out'.length
  ratio : out'.length + 129 * br'.left ≤ out.length + 129 * br.left

variable {out : ByteString} {br br' : BitReader}

theorem Grew.trans {out₁ out' : ByteString} {br₁ : BitReader} (h : Grew out br out₁ br₁)
    (h' : Grew out₁ br₁ out' br') : Grew out br out' br' :=
  ⟨Nat.le_trans h.length_le h'.length_le, Nat.le_trans h'.ratio h.ratio⟩

/-- Bits read without output. -/
theorem Grew.of_left (h : br'.left ≤ br.left) : Grew out br out br' :=
  ⟨Nat.le_refl _, Nat.add_le_add_left (Nat.mul_le_mul_left _ h) _⟩

theorem bit_lt {b : Nat} (h : bit br = .ok (b, br')) : b < 2 := by
  rw [bit] at h
  split at h
  · cases h
  · obtain ⟨rfl, -⟩ := Prod.mk.inj (Except.ok.inj h)
    exact Nat.mod_lt _ (by decide)

theorem bits_lt {n v : Nat} (h : bits n br = .ok (v, br')) : v < 2 ^ n := by
  induction n generalizing v br' with
  | zero =>
    obtain ⟨rfl, -⟩ := Decoder.pure_eq_ok h
    exact Nat.one_pos
  | succ n ih =>
    rw [bits] at h
    obtain ⟨v₁, br₁, hlow, h⟩ := Decoder.bind_eq_ok h
    obtain ⟨b, br₂, hbit, h⟩ := Decoder.bind_eq_ok h
    obtain ⟨rfl, -⟩ := Decoder.pure_eq_ok h
    refine Nat.or_lt_two_pow ?_ ?_
    · exact Nat.lt_of_lt_of_le (ih hlow) (Nat.pow_le_pow_right (by decide) (Nat.le_succ n))
    · rw [Nat.shiftLeft_eq, Nat.pow_succ']
      exact Nat.mul_lt_mul_of_pos_right (bit_lt hbit) (Nat.two_pow_pos n)

/-- No length symbol stands for more than 258 bytes. -/
theorem length_le_maxMatch {i extra : Nat} (hi : i < lengthBase.length)
    (hextra : extra < 2 ^ lengthExtra.getD i 0) : lengthBase.getD i 0 + extra ≤ 258 := by
  have hall : ∀ i < lengthBase.length, lengthBase.getD i 0 + 2 ^ lengthExtra.getD i 0 ≤ 259 := by
    decide
  have := hall i hi
  omega

section Rounds

variable {cap : Nat} {out out' : ByteString} {br br' : BitReader}

variable {r : ByteString ⊕ ByteString} {litlen dist : Huffman}

theorem withinCap_ok (h : withinCap cap out br = .ok (r, br')) :
    r = .inl out ∧ br' = br ∧ out.length ≤ cap := by
  rw [withinCap] at h
  split at h
  · cases h
  · rename_i hle
    obtain ⟨rfl, rfl⟩ := Decoder.pure_eq_ok h
    exact ⟨rfl, rfl, by omega⟩

theorem withinCap_of_le (h : out.length ≤ cap) : withinCap cap out br = .ok (.inl out, br) := by
  rw [withinCap, if_neg (by omega)]
  rfl

/-- What one round of a block did: it ended the block, or it wrote up to 129 bytes a bit,
which it does under every cap that admits the result. -/
theorem blockRound_ok (h : blockRound litlen dist cap out br = .ok (r, br')) :
    (r = .inr out ∧ br'.left ≤ br.left ∧ ∀ cap', blockRound litlen dist cap' out br = .ok (r, br'))
      ∨ ∃ out', r = .inl out' ∧ Grew out br out' br' ∧ out'.length ≤ cap ∧ ∀ cap',
      out'.length ≤ cap' → blockRound litlen dist cap' out br = .ok (r, br') := by
  have hread := blockRound_consumes litlen dist cap out br r br' h
  rw [blockRound] at h
  obtain ⟨sym, br₁, hsym, h⟩ := Decoder.bind_eq_ok h
  have hleft₁ := litlen.decode_consumes br sym br₁ hsym
  split at h
  · rename_i hend
    obtain ⟨rfl, rfl⟩ := Decoder.pure_eq_ok h
    refine .inl ⟨rfl, by omega, fun cap' => ?_⟩
    rw [blockRound, Decoder.bind_ok hsym, if_pos hend]
    rfl
  · rename_i hend
    right
    split at h
    · -- a literal
      rename_i hlit
      split at h
      · exact nomatch h
      · obtain ⟨rfl, rfl, hcap⟩ := withinCap_ok h
        have hlen : (out ++ [UInt8.ofNat sym]).length = out.length + 1 := List.length_append
        refine ⟨_, rfl, ⟨by omega, by omega⟩, hcap, fun cap' hcap' => ?_⟩
        rw [blockRound, Decoder.bind_ok hsym, if_neg hend, if_pos hlit, if_neg (by omega),
          withinCap_of_le hcap']
    · rename_i hlit
      split at h
      · exact nomatch h
      · -- a match
        rename_i hli
        obtain ⟨lextra, br₂, hlextra, h⟩ := Decoder.bind_eq_ok h
        dsimp only at h
        obtain ⟨dsym, br₃, hdsym, h⟩ := Decoder.bind_eq_ok h
        split at h
        · exact nomatch h
        · rename_i hdsymlt
          obtain ⟨dextra, br₄, hdextra, h⟩ := Decoder.bind_eq_ok h
          split at h
          · exact nomatch h
          · rename_i hdist
            split at h
            · exact nomatch h
            · obtain ⟨rfl, rfl, hcap⟩ := withinCap_ok h
              have hleft₂ := bits_consumes _ br₁ lextra br₂ hlextra
              have hleft₃ := dist.decode_consumes br₂ dsym br₃ hdsym
              have hleft₄ := bits_consumes _ br₃ dextra br' hdextra
              have hlen := length_le_maxMatch (Nat.lt_of_not_le hli) (bits_lt hlextra)
              have hout := length_copyMatch (out.length - (distBase.getD dsym 0 + dextra))
                (lengthBase.getD (sym - 257) 0 + lextra) out
              refine ⟨_, rfl, ⟨by omega, by omega⟩, hcap, fun cap' hcap' => ?_⟩
              rw [blockRound, Decoder.bind_ok hsym, if_neg hend, if_neg hlit, if_neg hli,
                Decoder.bind_ok hlextra, Decoder.bind_ok hdsym, if_neg hdsymlt,
                Decoder.bind_ok hdextra, if_neg hdist, if_neg (by omega), withinCap_of_le hcap']

/-- A whole block. -/
theorem inflateBlock_ok (h : inflateBlock litlen dist cap out br = .ok (out', br')) :
    Grew out br out' br' ∧ (out.length ≤ cap → out'.length ≤ cap) ∧
      ∀ cap', out'.length ≤ cap' → inflateBlock litlen dist cap' out br = .ok (out', br') := by
  have hinv : Grew out br out' br' ∧ (out.length ≤ cap → out'.length ≤ cap) := by
    refine Decoder.loop_invariant (I := fun o b => Grew out br o b ∧ (out.length ≤ cap → o.length ≤ cap))
      (Q := fun o b => Grew out br o b ∧ (out.length ≤ cap → o.length ≤ cap)) ?_ ?_
      ⟨.of_left (Nat.le_refl _), id⟩ h
    · intro o b o' b' hI hround
      obtain ⟨hc, -⟩ | ⟨o₁, ho₁, hgrew, hcap, -⟩ := blockRound_ok hround
      · exact nomatch hc
      · obtain rfl := Sum.inl.inj ho₁
        exact ⟨hI.1.trans hgrew, fun _ => hcap⟩
    · intro o b o' b' hI hround
      obtain ⟨ho, hleft, -⟩ | ⟨o₁, hc, -⟩ := blockRound_ok hround
      · obtain rfl := Sum.inr.inj ho
        exact ⟨hI.1.trans (.of_left hleft), hI.2⟩
      · exact nomatch hc
  refine ⟨hinv.1, hinv.2, fun cap' hcap' => ?_⟩
  refine (Decoder.loop_transfer (B := fun o => o.length ≤ cap') (C := fun o => o.length ≤ cap')
    ?_ ?_ h hcap').2
  · intro o b o' b' hround hcap
    obtain ⟨hc, -⟩ | ⟨o₁, ho₁, hgrew, -, hagain⟩ := blockRound_ok hround
    · exact nomatch hc
    · obtain rfl := Sum.inl.inj ho₁
      exact ⟨Nat.le_trans hgrew.length_le hcap, hagain cap' hcap⟩
  · intro o b o' b' hround hcap
    obtain ⟨ho, -, hagain⟩ | ⟨o₁, hc, -⟩ := blockRound_ok hround
    · obtain rfl := Sum.inr.inj ho
      exact ⟨hcap, hagain cap'⟩
    · exact nomatch hc

/-- Bytes read at a boundary. -/
theorem readByte_ok {b : UInt8} (h : readByte br = .ok (b, br')) (hpos : br.bitPos = 0) :
    br'.bitPos = 0 ∧ br'.left + 8 ≤ br.left := by
  rw [readByte] at h
  split at h
  · cases h
  · rename_i byte hbyte
    obtain ⟨-, rfl⟩ := Prod.mk.inj (Except.ok.inj h)
    have hlt := (List.getElem?_eq_some_iff.mp hbyte).1
    refine ⟨hpos, ?_⟩
    show 8 * br.data.length - (8 * (br.bytePos + 1) + br.bitPos) + 8 ≤
      8 * br.data.length - (8 * br.bytePos + br.bitPos)
    rw [hpos]
    show 8 * br.data.length - (8 * (br.bytePos + 1) + 0) + 8 ≤ 8 * br.data.length - (8 * br.bytePos + 0)
    omega

theorem pushBytes_ok {n : Nat} (h : pushBytes n out br = .ok (out', br')) (hpos : br.bitPos = 0) :
    out'.length = out.length + n ∧ br'.left + 8 * n ≤ br.left := by
  induction n generalizing out br with
  | zero =>
    obtain ⟨rfl, rfl⟩ := Decoder.pure_eq_ok h
    exact ⟨rfl, Nat.le_refl _⟩
  | succ n ih =>
    rw [pushBytes] at h
    obtain ⟨b, br₁, hbyte, h⟩ := Decoder.bind_eq_ok h
    obtain ⟨hpos₁, hleft₁⟩ := readByte_ok hbyte hpos
    obtain ⟨hlen, hleft⟩ := ih h hpos₁
    rw [List.length_append, List.length_singleton] at hlen
    omega

/-- A stored block. -/
theorem inflateStored_ok (h : inflateStored cap out br = .ok (out', br')) :
    Grew out br out' br' ∧ out'.length ≤ cap ∧
      ∀ cap', out'.length ≤ cap' → inflateStored cap' out br = .ok (out', br') := by
  rw [inflateStored] at h
  obtain ⟨⟨⟩, br₀, halign, h⟩ := Decoder.bind_eq_ok h
  obtain ⟨len₀, br₁, hlen₀, h⟩ := Decoder.bind_eq_ok h
  obtain ⟨len₁, br₂, hlen₁, h⟩ := Decoder.bind_eq_ok h
  obtain ⟨nlen₀, br₃, hnlen₀, h⟩ := Decoder.bind_eq_ok h
  obtain ⟨nlen₁, br₄, hnlen₁, h⟩ := Decoder.bind_eq_ok h
  dsimp only at h
  split at h
  · cases h
  · rename_i hcheck
    split at h
    · cases h
    · have hpos : br₀.bitPos = 0 := by
        obtain ⟨-, rfl⟩ := Prod.mk.inj (Except.ok.inj halign)
        split
        · rfl
        · rename_i hzero
          exact Decidable.not_not.mp hzero
      have hleft₀ := alignToByte_consumes br _ br₀ halign
      obtain ⟨hpos₁, hleft₁⟩ := readByte_ok hlen₀ hpos
      obtain ⟨hpos₂, hleft₂⟩ := readByte_ok hlen₁ hpos₁
      obtain ⟨hpos₃, hleft₃⟩ := readByte_ok hnlen₀ hpos₂
      obtain ⟨hpos₄, hleft₄⟩ := readByte_ok hnlen₁ hpos₃
      obtain ⟨hlen, hleft⟩ := pushBytes_ok h hpos₄
      refine ⟨⟨by omega, by omega⟩, by omega, fun cap' hcap' => ?_⟩
      rw [inflateStored, Decoder.bind_ok halign, Decoder.bind_ok hlen₀, Decoder.bind_ok hlen₁,
        Decoder.bind_ok hnlen₀, Decoder.bind_ok hnlen₁, if_neg hcheck, if_neg (by omega)]
      exact h

/-- A block of any type. -/
theorem inflateType_ok {btype : Nat} (h : inflateType cap btype out br = .ok (out', br')) :
    Grew out br out' br' ∧ (out.length ≤ cap → out'.length ≤ cap) ∧
      ∀ cap', out'.length ≤ cap' → inflateType cap' btype out br = .ok (out', br') := by
  unfold inflateType at h
  split at h
  · obtain ⟨hgrew, hcap, hagain⟩ := inflateStored_ok h
    exact ⟨hgrew, fun _ => hcap, hagain⟩
  · obtain ⟨litlen, br₁, hlit, hrest⟩ := Decoder.bind_eq_ok h
    obtain ⟨dist, br₂, hdist, hblock⟩ := Decoder.bind_eq_ok hrest
    have hbr₁ := (Decoder.ofExcept_eq_ok hlit).2
    have hbr₂ := (Decoder.ofExcept_eq_ok hdist).2
    subst hbr₁ hbr₂
    obtain ⟨hgrew, hcap, hagain⟩ := inflateBlock_ok hblock
    refine ⟨hgrew, hcap, fun cap' hcap' => ?_⟩
    show (Decoder.ofExcept fixedLitlen >>= fun litlen => Decoder.ofExcept fixedDist >>= fun dist =>
      inflateBlock litlen dist cap' out : Reader ByteString) _ = _
    rw [Decoder.bind_ok hlit, Decoder.bind_ok hdist]
    exact hagain cap' hcap'
  · obtain ⟨⟨litlen, dist⟩, br₁, htables, h⟩ := Decoder.bind_eq_ok h
    obtain ⟨hgrew, hcap, hagain⟩ := inflateBlock_ok h
    have hleft := readDynamicTables_consumes br _ br₁ htables
    refine ⟨Grew.trans (.of_left hleft) hgrew, hcap, fun cap' hcap' => ?_⟩
    show (readDynamicTables >>= fun tables => inflateBlock tables.1 tables.2 cap' out :
      Reader ByteString) _ = _
    rw [Decoder.bind_ok htables]
    exact hagain cap' hcap'
  · exact nomatch h

/-- One round of the loop over the blocks. -/
theorem inflateRound_ok (h : inflateRound cap out br = .ok (r, br')) :
    ∃ out', (r = .inl out' ∨ r = .inr out') ∧ Grew out br out' br' ∧
      (out.length ≤ cap → out'.length ≤ cap) ∧
      ∀ cap', out'.length ≤ cap' → inflateRound cap' out br = .ok (r, br') := by
  rw [inflateRound] at h
  obtain ⟨bfinal, br₁, hbit, h⟩ := Decoder.bind_eq_ok h
  obtain ⟨btype, br₂, htype, h⟩ := Decoder.bind_eq_ok h
  obtain ⟨out₁, br₃, hblock, h⟩ := Decoder.bind_eq_ok h
  have hleft₁ := bit_consumes br _ br₁ hbit
  have hleft₂ := bits_consumes 2 br₁ _ br₂ htype
  obtain ⟨hgrew, hcap, hagain⟩ := inflateType_ok hblock
  have hgrew' : Grew out br out₁ br₃ := Grew.trans (.of_left (by omega)) hgrew
  split at h
  · rename_i hfinal
    obtain ⟨rfl, rfl⟩ := Decoder.pure_eq_ok h
    refine ⟨out₁, .inr rfl, hgrew', hcap, fun cap' hcap' => ?_⟩
    rw [inflateRound, Decoder.bind_ok hbit, Decoder.bind_ok htype, Decoder.bind_ok (hagain cap' hcap'),
      if_pos hfinal]
    rfl
  · rename_i hmore
    obtain ⟨rfl, rfl, -⟩ := withinCap_ok h
    refine ⟨out₁, .inl rfl, hgrew', hcap, fun cap' hcap' => ?_⟩
    rw [inflateRound, Decoder.bind_ok hbit, Decoder.bind_ok htype, Decoder.bind_ok (hagain cap' hcap'),
      if_neg hmore, withinCap_of_le hcap']

end Rounds

/-- What a stream that decodes gives: within the cap, at most 1032 bytes for each byte, and
the same under every cap that admits it. -/
theorem inflateCapped_ok {cap : Nat} {data : ByteString} (h : inflateCapped cap data = .ok out) :
    out.length ≤ cap ∧ out.length ≤ 1032 * data.length ∧
      ∀ cap', out.length ≤ cap' → inflateCapped cap' data = .ok out := by
  rw [inflateCapped] at h
  obtain ⟨⟨out', br'⟩, hrun, rfl⟩ : ∃ p, Decoder.loop left (inflateRound cap)
      (.of_consumes (inflateRound_consumes cap)) [] (BitReader.new data) = .ok p ∧ p.1 = out := by
    cases hloop : Decoder.loop left (inflateRound cap) (.of_consumes (inflateRound_consumes cap)) []
        (BitReader.new data) with
    | error e =>
      rw [hloop] at h
      cases h
    | ok p =>
      rw [hloop] at h
      exact ⟨p, rfl, Except.ok.inj h⟩
  have hinv : Grew [] (BitReader.new data) out' br' ∧ out'.length ≤ cap := by
    refine Decoder.loop_invariant (I := fun o b => Grew [] (BitReader.new data) o b ∧ o.length ≤ cap)
      (Q := fun o b => Grew [] (BitReader.new data) o b ∧ o.length ≤ cap) ?_ ?_
      ⟨.of_left (Nat.le_refl _), Nat.zero_le _⟩ hrun
    all_goals
      intro o b o' b' hI hround
      obtain ⟨o₁, ho₁, hgrew, hcap, -⟩ := inflateRound_ok hround
      obtain rfl : o' = o₁ := by simpa using ho₁
      exact ⟨hI.1.trans hgrew, hcap hI.2⟩
  refine ⟨hinv.2, ?_, fun cap' hcap' => ?_⟩
  · have hratio := hinv.1.ratio
    have hstart : (BitReader.new data).left = 8 * data.length := rfl
    rw [hstart, List.length_nil] at hratio
    show out'.length ≤ _
    omega
  · have hrun' : Decoder.loop left (inflateRound cap') (.of_consumes (inflateRound_consumes cap')) []
        (BitReader.new data) = .ok (out', br') := by
      refine (Decoder.loop_transfer (B := fun o => o.length ≤ cap') (C := fun o => o.length ≤ cap')
        ?_ ?_ hrun hcap').2
      all_goals
        intro o b o' b' hround hcap
        obtain ⟨o₁, ho₁, hgrew, -, hagain⟩ := inflateRound_ok hround
        obtain rfl : o' = o₁ := by simpa using ho₁
        exact ⟨Nat.le_trans hgrew.length_le hcap, hagain cap' hcap⟩
    rw [inflateCapped, hrun']
    rfl

end AthenaOS.Deflate
