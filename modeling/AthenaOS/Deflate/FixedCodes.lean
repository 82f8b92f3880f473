import AthenaOS.Deflate.Bitstream

/-!
# The fixed codes

Every fixed code decodes to its symbol; a length and a distance come back from their symbol and
their extra bits.
-/

namespace AthenaOS.Deflate

open Lib Lib.Wire BitReader

/-! ## The fixed codes -/

/-- `decodeFrom` on a bit string that is exactly one code. -/
def decodeBits (symbols : List Nat) : List Nat → Nat → Nat → Nat → List Bool → Option Nat
  | count :: counts, code, first, index, b :: w =>
    let code := code ||| b.toNat
    if (code : Int) - first < count then
      if w = [] then (Huffman.symbolAt symbols (index + ((code : Int) - first))).toOption else none
    else decodeBits symbols counts (code <<< 1) ((first + count) <<< 1) (index + count) w
  | _, _, _, _, _ => none

theorem Reads.decodeFrom {symbols counts : List Nat} {code first index sym : Nat} {w : List Bool}
    (h : decodeBits symbols counts code first index w = some sym) :
    Reads (Huffman.decodeFrom symbols counts code first index) w sym := by
  induction counts generalizing code first index w with
  | nil =>
    rw [decodeBits] at h
    · cases h
    · exact fun _ _ _ _ hc => by cases hc
  | cons count counts ih =>
    cases w with
    | nil =>
      rw [decodeBits] at h
      · cases h
      · exact fun _ _ _ _ _ hc => by cases hc
    | cons b w =>
      rw [decodeBits] at h
      rw [Huffman.decodeFrom]
      refine Reads.bind (w := [b]) (Reads.bit b) ?_
      dsimp only at h ⊢
      split
      · rename_i hlt
        rw [if_pos hlt] at h
        split at h
        · rename_i hw
          rw [hw]
          refine .ofExcept ?_
          cases hsym : Huffman.symbolAt symbols (index + (((code ||| b.toNat : Nat) : Int) - first)) with
          | error e =>
            rw [hsym] at h
            cases h
          | ok sym' =>
            rw [hsym] at h
            rw [Option.some.inj h]
        · cases h
      · rename_i hge
        rw [if_neg hge] at h
        exact ih h

/-- The code of a table that `fixedLitlen` computes. -/
def litlenTable : Huffman where
  counts := [0, 0, 0, 0, 0, 0, 0, 24, 152, 112, 0, 0, 0, 0, 0, 0]
  symbols := List.range' 256 24 ++ List.range' 0 144 ++ List.range' 280 8 ++ List.range' 144 112

/-- What `fixedDist` computes. -/
def distTable : Huffman where
  counts := [0, 0, 0, 0, 0, 30, 0, 0, 0, 0, 0, 0, 0, 0, 0, 0]
  symbols := List.range 30

/-- A run of equal lengths puts a run of symbols from the first place of its length on. -/
theorem Huffman.placeSymbols_replicate {sum l n sym : Nat} {offsets as bs rest : List Nat} (hl : l ≠ 0)
    (hoffset : offsets[l]? = some as.length) (hn : n ≤ bs.length) (hsum : as.length + n ≤ sum) :
    placeSymbols sum (List.replicate n l ++ rest) sym offsets (as ++ bs) =
      placeSymbols sum rest (sym + n) (offsets.modify l (· + n)) (as ++ (List.range' sym n ++ bs.drop n)) := by
  induction n generalizing sym offsets as bs with
  | zero => exact congrArg (placeSymbols sum rest sym · (as ++ bs)) (List.modify_id ..).symm
  | succ n ih =>
    cases bs with
    | nil => exact absurd hn (Nat.not_succ_le_zero n)
    | cons b bs =>
      have hnext : (offsets.modify l (· + 1))[l]? = some (as ++ [sym]).length := by
        rw [List.getElem?_modify_eq, hoffset, List.length_append]
        rfl
      have hsum' : (as ++ [sym]).length + n ≤ sum := by
        rw [List.length_append, List.length_singleton]
        omega
      have hrest := @ih (sym + 1) _ _ _ hnext (Nat.le_of_succ_le_succ hn) hsum'
      have hfun : (fun x => x + n) ∘ (· + 1) = (· + (n + 1)) := funext fun x => (by simp; omega)
      rw [List.replicate_succ, List.cons_append, placeSymbols, if_pos hl]
      dsimp only
      rw [List.getD_eq_getElem?_getD, hoffset, Option.getD_some, if_neg (by omega),
        List.set_append_right _ _ (Nat.le_refl _), Nat.sub_self, List.set_cons_zero,
        List.append_cons, hrest, List.modify_modify_eq, hfun, List.append_assoc, List.range'_succ,
        Nat.add_right_comm]
      rfl

theorem fixedLitlen_eq : fixedLitlen = .ok litlenTable := by
  have hcounts : ((List.replicate 144 8 ++ List.replicate 112 9 ++ List.replicate 24 7 ++ List.replicate 8 8).foldl
      (fun (counts : List Nat) l => counts.modify l (· + 1)) (List.replicate 16 0)).set 0 0 = litlenTable.counts := by decide +kernel
  have hplaced : Huffman.placeSymbols 288
      (List.replicate 144 8 ++ (List.replicate 112 9 ++ (List.replicate 24 7 ++ (List.replicate 8 8 ++ [])))) 0
      (0 :: Huffman.offsetsFrom 0 litlenTable.counts.tail) (List.replicate 288 0) = .ok litlenTable.symbols := by
    rw [show List.replicate 288 0 = List.replicate 24 0 ++ List.replicate 264 0 by decide +kernel,
      Huffman.placeSymbols_replicate (by decide) rfl (by decide +kernel) (by decide +kernel),
      show List.replicate 24 0 ++ (List.range' 0 144 ++ (List.replicate 264 0).drop 144) =
        (List.replicate 24 0 ++ (List.range' 0 144 ++ List.replicate 8 0)) ++ List.replicate 112 0 by decide +kernel,
      Huffman.placeSymbols_replicate (by decide) rfl (by decide +kernel) (by decide +kernel),
      show List.replicate 24 0 ++ (List.range' 0 144 ++ List.replicate 8 0) ++
          (List.range' (0 + 144) 112 ++ (List.replicate 112 0).drop 112) =
        [] ++ (List.replicate 24 0 ++ (List.range' 0 144 ++ List.replicate 8 0 ++ List.range' 144 112)) by decide +kernel,
      Huffman.placeSymbols_replicate (by decide) rfl (by decide +kernel) (by decide +kernel),
      List.nil_append, show List.range' (0 + 144 + 112) 24 ++
          List.drop 24 (List.replicate 24 0 ++ (List.range' 0 144 ++ List.replicate 8 0 ++ List.range' 144 112)) =
        (List.range' 256 24 ++ List.range' 0 144) ++ (List.replicate 8 0 ++ List.range' 144 112) by decide +kernel,
      Huffman.placeSymbols_replicate (by decide) rfl (by decide +kernel) (by decide +kernel)]
    exact congrArg Except.ok (by decide +kernel)
  rw [fixedLitlen, Huffman.fromLengths, if_neg (by decide +kernel), hcounts]
  rw [List.append_nil, ← List.append_assoc, ← List.append_assoc] at hplaced
  exact congrArg (Except.map _) hplaced

theorem fixedDist_eq : fixedDist = .ok distTable := by decide

theorem litlen_decodeBits : ∀ sym < 286, decodeBits litlenTable.symbols litlenTable.counts.tail 0 0 0
    (BitWriter.codeBits (fixedLitlenCode sym)) = some sym := by decide +kernel

theorem dist_decodeBits : ∀ sym < 30, decodeBits distTable.symbols distTable.counts.tail 0 0 0
    (BitWriter.codeBits (fixedDistCode sym)) = some sym := by decide

theorem litlen_reads {sym : Nat} (h : sym < 286) :
    Reads litlenTable.decode (BitWriter.codeBits (fixedLitlenCode sym)) sym :=
  .decodeFrom (litlen_decodeBits sym h)

theorem dist_reads {sym : Nat} (h : sym < 30) :
    Reads distTable.decode (BitWriter.codeBits (fixedDistCode sym)) sym :=
  .decodeFrom (dist_decodeBits sym h)

theorem fixedLitlenCode_le (sym : Nat) : (fixedLitlenCode sym).2 ≤ 24 := by
  unfold fixedLitlenCode
  split_ifs
  · exact (by decide : 8 ≤ 24)
  · exact (by decide : 9 ≤ 24)
  · exact (by decide : 7 ≤ 24)
  · exact (by decide : 8 ≤ 24)

/-! ## Symbols for lengths and distances -/

variable {value b limit : Nat} {base extra : List Nat}

/-- The search finds the last base that is not above the value. -/
theorem baseIndex_spec (h : b ≤ value) :
    baseIndex value (b :: base) ≤ base.length ∧
      (b :: base).getD (baseIndex value (b :: base)) 0 ≤ value ∧
      ∀ b', (b :: base)[baseIndex value (b :: base) + 1]? = some b' → value < b' := by
  induction base generalizing b with
  | nil =>
    rw [baseIndex]
    · exact ⟨Nat.le_refl _, h, fun _ hc => (nomatch hc)⟩
    · exact fun _ _ _ hc => (nomatch hc)
  | cons b₁ base ih =>
    rw [baseIndex]
    split
    · rename_i hlt
      refine ⟨Nat.zero_le _, h, fun b' hb' => ?_⟩
      obtain rfl : b₁ = b' := Option.some.inj hb'
      exact hlt
    · rename_i hge
      obtain ⟨hle, hbase, hnext⟩ := ih (b := b₁) (Nat.le_of_not_lt hge)
      exact ⟨Nat.succ_le_succ hle, hbase, hnext⟩

/-- A table of bases and extra bits without gaps, up to `limit`. -/
def Covers (base extra : List Nat) (limit : Nat) : Prop :=
  ∀ i < base.length, base[i + 1]?.getD limit ≤ base.getD i 0 + 2 ^ extra.getD i 0

instance (base extra : List Nat) (limit : Nat) : Decidable (Covers base extra limit) :=
  inferInstanceAs (Decidable (∀ i < base.length, _))

/-- The rest above the base fits the extra bits. -/
theorem extra_lt (hcov : Covers (b :: base) extra limit)
    (h : b ≤ value) (hlimit : value < limit) :
    baseIndex value (b :: base) < (b :: base).length ∧
      (b :: base).getD (baseIndex value (b :: base)) 0 ≤ value ∧
      value - (b :: base).getD (baseIndex value (b :: base)) 0 <
        2 ^ extra.getD (baseIndex value (b :: base)) 0 := by
  obtain ⟨hle, hbase, hnext⟩ := baseIndex_spec h
  have hidx : baseIndex value (b :: base) < (b :: base).length := Nat.lt_succ_of_le hle
  have hgap := hcov _ hidx
  refine ⟨hidx, hbase, ?_⟩
  have hlt : value < (b :: base)[baseIndex value (b :: base) + 1]?.getD limit := by
    cases hb' : (b :: base)[baseIndex value (b :: base) + 1]? with
    | none => exact hlimit
    | some b' => exact hnext b' hb'
  omega

theorem lengthToSymbol_spec {len : Nat} (hmin : 3 ≤ len) (hmax : len ≤ 258) :
    257 ≤ (lengthToSymbol len).1 ∧ (lengthToSymbol len).1 < 286 ∧
      (lengthToSymbol len).2.1 = lengthExtra.getD ((lengthToSymbol len).1 - 257) 0 ∧
      (lengthToSymbol len).2.2 < 2 ^ (lengthToSymbol len).2.1 ∧
      lengthBase.getD ((lengthToSymbol len).1 - 257) 0 + (lengthToSymbol len).2.2 = len := by
  have hmod : len % 2 ^ 16 = len := Nat.mod_eq_of_lt (by omega)
  have hcov : Covers lengthBase lengthExtra 259 := by decide
  obtain ⟨hidx, hbase, hextra⟩ := extra_lt hcov hmin (by omega)
  change baseIndex len lengthBase < 29 at hidx
  change lengthBase.getD (baseIndex len lengthBase) 0 ≤ len at hbase
  rw [lengthToSymbol]
  dsimp only
  rw [hmod, Nat.add_sub_cancel_left]
  exact ⟨by omega, by omega, rfl, hextra, by omega⟩

theorem distanceToSymbol_spec {dist : Nat} (hmin : 1 ≤ dist) (hmax : dist ≤ 32768) :
    (distanceToSymbol dist).1 < 30 ∧
      (distanceToSymbol dist).2.1 = distExtra.getD (distanceToSymbol dist).1 0 ∧
      (distanceToSymbol dist).2.2 < 2 ^ (distanceToSymbol dist).2.1 ∧
      distBase.getD (distanceToSymbol dist).1 0 + (distanceToSymbol dist).2.2 = dist := by
  have hmod : dist % 2 ^ 16 = dist := Nat.mod_eq_of_lt (by omega)
  have hcov : Covers distBase distExtra 32769 := by decide
  obtain ⟨hidx, hbase, hextra⟩ := extra_lt hcov hmin (by omega)
  change baseIndex dist distBase < 30 at hidx
  change distBase.getD (baseIndex dist distBase) 0 ≤ dist at hbase
  rw [distanceToSymbol]
  dsimp only
  rw [hmod]
  exact ⟨hidx, rfl, hextra, by omega⟩

/-- No symbol has more than 13 extra bits. -/
theorem extraBits_le (i : Nat) : lengthExtra.getD i 0 ≤ 24 ∧ distExtra.getD i 0 ≤ 24 := by
  have hall : ∀ l : List Nat, (∀ x ∈ l, x ≤ 24) → l.getD i 0 ≤ 24 := by
    intro l hl
    by_cases hi : i < l.length
    · rw [List.getD_eq_getElem _ _ hi]
      exact hl _ (List.getElem_mem hi)
    · rw [List.getD_eq_default _ _ (Nat.le_of_not_lt hi)]
      exact Nat.zero_le _
  exact ⟨hall _ (by decide), hall _ (by decide)⟩

end AthenaOS.Deflate
