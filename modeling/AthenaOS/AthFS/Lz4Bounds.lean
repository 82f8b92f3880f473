import AthenaOS.AthFS.Lz4

/-!
# What the codec does with any input

`Lz4` shows the round trip for the blocks the volume stores. Here both functions get
input of any length, and the decoder input nobody compressed.
-/

namespace AthenaOS

open Function (update update_of_ne update_self)

/-! ## Matches a full window away -/

/-- **The round trip holds exactly when no match of the compressor is 65536 bytes
away** and the decoder can reserve the limit. -/
theorem lz4_roundTrip_iff {input : List UInt8} {maxOutput : Nat} (hmax : input.length ≤ maxOutput) :
    lz4Decompress (lz4Compress input) maxOutput = some input ↔
      maxOutput < 2 ^ 63 ∧ lz4WindowSize ∉ lz4Offsets input 0 fun _ => 0 := by
  by_cases hcap : maxOutput < 2 ^ 63
  · rw [and_iff_right hcap]
    refine ⟨fun hround hlost => ?_, lz4Decompress_of_kept hmax hcap⟩
    obtain ⟨p, hp, hpre⟩ := lz4Decompress_of_lost hmax hcap hlost
    rw [hpre, Option.some.injEq] at hround
    have hlength := congrArg List.length hround
    rw [List.length_take] at hlength
    omega
  · rw [lz4Decompress_unreserved hcap]
    exact iff_of_false nofun fun h => hcap h.1

/-- Eight bytes, the second four a match of the first. -/
theorem lz4_roundTrip_iff_repeat :
    lz4Decompress (lz4Compress [1, 2, 3, 4, 1, 2, 3, 4]) 8 = some [1, 2, 3, 4, 1, 2, 3, 4] :=
  (lz4_roundTrip_iff (by decide)).mpr ⟨by decide, lz4Offsets_short (by decide) 0 _⟩

/-- Three bytes, zeros up to `4 * (k + 1)`, then the first four bytes again. -/
def farRepeat (k : Nat) : List UInt8 := [1, 2, 3] ++ (List.replicate (4 * k + 1) 0 ++ [1, 2, 3, 0])

section FarRepeat

variable {k : Nat}

theorem length_farRepeat (k : Nat) : (farRepeat k).length = 4 * (k + 1) + 4 := by
  simp only [farRepeat, List.length_append, List.length_replicate, List.length_cons,
    List.length_nil]
  omega

/-- In the middle only zeros are read. -/
theorem drop_farRepeat {p : Nat} (hlow : 3 ≤ p) (hhigh : p + 4 ≤ 4 * (k + 1)) :
    ∃ rest, (farRepeat k).drop p = 0 :: 0 :: 0 :: 0 :: rest := by
  have hzeros : (List.replicate (4 * k + 1) (0 : UInt8)).drop (p - 3) =
      List.replicate (4 * k + 1 - (p - 3) - 4 + 4) 0 := by
    rw [List.drop_replicate]
    congr 1
    omega
  refine ⟨List.replicate (4 * k + 1 - (p - 3) - 4) 0 ++ [1, 2, 3, 0], ?_⟩
  rw [farRepeat, List.drop_append, List.drop_of_length_le (by simpa using hlow), List.nil_append,
    List.drop_append_of_le_length (by simp; omega)]
  exact congrArg (· ++ [1, 2, 3, 0]) hzeros

/-- At the end the first four bytes come again. -/
theorem drop_farRepeat_end : (farRepeat k).drop (4 * (k + 1)) = [1, 2, 3, 0] := by
  have hskip : 4 * (k + 1) - ([1, 2, 3] : List UInt8).length =
      (List.replicate (4 * k + 1) (0 : UInt8)).length := by
    rw [List.length_replicate]
    show 4 * (k + 1) - 3 = 4 * k + 1
    omega
  rw [farRepeat, List.drop_append, List.drop_of_length_le (by simp; omega), List.nil_append, hskip,
    List.drop_left]

theorem take_farRepeat : (farRepeat k).take 4 = [1, 2, 3, 0] := by
  rw [farRepeat, List.replicate_succ]
  rfl

theorem lz4Hash_zeros (rest : List UInt8) : lz4Hash (0 :: 0 :: 0 :: 0 :: rest) = 0 := by
  show lz4Hash [0, 0, 0, 0] = 0
  decide

/-- The first four bytes are hashed elsewhere. -/
theorem lz4Hash_farRepeat (rest : List UInt8) : lz4Hash (1 :: 2 :: 3 :: 0 :: rest) ≠ 0 := by
  show lz4Hash [1, 2, 3, 0] ≠ 0
  decide

/-- **The zeros are matched four at a time**, each with the four before, so that the
entry of the first four bytes is still there at the end. The induction is on the
matches to go. -/
theorem lz4Offsets_farRepeat (hk : 4 * (k + 1) ≤ lz4WindowSize) :
    ∀ n j, j + n = k → ∀ table : Nat → Nat, 3 ≤ table 0 → table 0 < 4 * (j + 1) →
      4 * (j + 1) ≤ table 0 + 4 → table (lz4Hash [1, 2, 3, 0]) = 0 →
        4 * (k + 1) ∈ lz4Offsets (farRepeat k) (4 * (j + 1)) table
  | 0, j, hj, table, _, _, _, hfirst => by
    obtain rfl : j = k := by omega
    have hmatch : lz4IsMatch (farRepeat j) (table (lz4Hash ((farRepeat j).drop (4 * (j + 1)))))
        (4 * (j + 1)) = true := by
      rw [drop_farRepeat_end, hfirst, lz4IsMatch, if_neg (by omega), length_farRepeat,
        drop_farRepeat_end, List.drop_zero, take_farRepeat]
      simp [lz4MinMatch]
    rw [lz4Offsets, if_pos (by rw [length_farRepeat, lz4MinMatch]), if_pos hmatch]
    refine List.mem_cons.mpr (.inl ?_)
    rw [drop_farRepeat_end, hfirst, Nat.sub_zero]
  | n + 1, j, hj, table, hlow, hlt, hle, hfirst => by
    obtain ⟨rest, hdrop⟩ := drop_farRepeat (k := k) (p := 4 * (j + 1)) (by omega) (by omega)
    obtain ⟨rest', hdrop'⟩ := drop_farRepeat (k := k) (p := table 0) hlow (by omega)
    have hhash : lz4Hash ((farRepeat k).drop (4 * (j + 1))) = 0 := by
      rw [hdrop, lz4Hash_zeros]
    have hmatch : lz4IsMatch (farRepeat k) (table 0) (4 * (j + 1)) = true := by
      rw [lz4IsMatch, if_neg (by omega), length_farRepeat, hdrop, hdrop']
      simp [lz4MinMatch, hlt]
      omega
    have hextend : lz4Extend (farRepeat k) (table 0) (4 * (j + 1)) 4 = 4 := by
      rw [lz4Extend, if_neg (by omega)]
    rw [lz4Offsets, if_pos (by rw [length_farRepeat, lz4MinMatch]; omega)]
    simp only [hhash]
    rw [if_pos hmatch, hextend]
    refine List.mem_cons_of_mem _ ?_
    refine lz4Offsets_farRepeat hk n (j + 1) (by omega) _ ?_ ?_ ?_ ?_
    all_goals
      have hpos : 4 * (j + 1) % 2 ^ 32 = 4 * (j + 1) :=
        Nat.mod_eq_of_lt (by rw [lz4WindowSize] at hk; omega)
    · rw [update_self, hpos]
      omega
    · rw [update_self, hpos]
      omega
    · rw [update_self, hpos]
      omega
    · rw [update_of_ne (lz4Hash_farRepeat []), hfirst]

/-- A position without a match. -/
theorem lz4Offsets_skip {input : List UInt8} {pos : Nat} {table : Nat → Nat}
    (hpos : pos + lz4MinMatch ≤ input.length)
    (hmiss : lz4IsMatch input (table (lz4Hash (input.drop pos))) pos = false) :
    lz4Offsets input pos table = lz4Offsets input (pos + 1)
      (update table (lz4Hash (input.drop pos)) (pos % 2 ^ 32)) := by
  rw [lz4Offsets, if_pos hpos]
  exact if_neg (by rw [hmiss]; decide)

/-- The first four positions find nothing: no candidate is there yet, or it is position
0, where the bytes are others. -/
theorem lz4Offsets_farRepeat_start (hk : 0 < k) :
    ∃ table : Nat → Nat, table 0 = 3 ∧ table (lz4Hash [1, 2, 3, 0]) = 0 ∧
      lz4Offsets (farRepeat k) 0 (fun _ => 0) = lz4Offsets (farRepeat k) (4 * (0 + 1)) table := by
  obtain ⟨k, rfl⟩ : ∃ m, k = m + 1 := ⟨k - 1, by omega⟩
  have hinput : farRepeat (k + 1) =
      1 :: 2 :: 3 :: 0 :: 0 :: 0 :: 0 :: 0 :: (List.replicate (4 * k) 0 ++ [1, 2, 3, 0]) := by
    rw [farRepeat, show 4 * (k + 1) + 1 = 4 * k + 1 + 1 + 1 + 1 + 1 by omega]
    simp only [List.replicate_succ, List.cons_append, List.nil_append]
  rw [hinput]
  generalize List.replicate (4 * k) (0 : UInt8) ++ [1, 2, 3, 0] = rest
  have hfirst : ∀ l : List UInt8, lz4Hash (1 :: 2 :: 3 :: 0 :: l) = lz4Hash [1, 2, 3, 0] :=
    fun _ => rfl
  have hsecond : ∀ l : List UInt8, lz4Hash (2 :: 3 :: 0 :: 0 :: l) = lz4Hash [2, 3, 0, 0] :=
    fun _ => rfl
  have hthird : ∀ l : List UInt8, lz4Hash (3 :: 0 :: 0 :: 0 :: l) = lz4Hash [3, 0, 0, 0] :=
    fun _ => rfl
  have h12 : lz4Hash [1, 2, 3, 0] ≠ lz4Hash [2, 3, 0, 0] := by decide
  have h13 : lz4Hash [1, 2, 3, 0] ≠ lz4Hash [3, 0, 0, 0] := by decide
  have h23 : lz4Hash [2, 3, 0, 0] ≠ lz4Hash [3, 0, 0, 0] := by decide
  have h20 : lz4Hash [2, 3, 0, 0] ≠ 0 := by decide
  have h30 : lz4Hash [3, 0, 0, 0] ≠ 0 := by decide
  rw [lz4Offsets_skip (by simp [lz4MinMatch]) (by simp [lz4IsMatch]),
    lz4Offsets_skip (by simp [lz4MinMatch]) ?second, lz4Offsets_skip (by simp [lz4MinMatch]) ?third,
    lz4Offsets_skip (by simp [lz4MinMatch]) ?fourth]
  · simp only [List.drop_zero, List.drop_succ_cons, Nat.zero_add, Nat.reduceAdd, hfirst, hsecond,
      hthird, lz4Hash_zeros]
    refine ⟨_, ?_, ?_, rfl⟩
    · rw [update_self]
      rfl
    · rw [update_of_ne (lz4Hash_farRepeat []), update_of_ne h13,
        update_of_ne h12, update_self, Nat.zero_mod]
  case second =>
    simp only [List.drop_zero, List.drop_succ_cons, Nat.zero_add, hfirst, hsecond]
    rw [update_of_ne h12.symm]
    simp [lz4IsMatch]
  case third =>
    simp only [List.drop_zero, List.drop_succ_cons, Nat.zero_add, Nat.reduceAdd, hfirst, hsecond,
      hthird]
    rw [update_of_ne h23.symm, update_of_ne h13.symm]
    simp [lz4IsMatch]
  case fourth =>
    simp only [List.drop_zero, List.drop_succ_cons, Nat.zero_add, Nat.reduceAdd, hfirst, hsecond,
      hthird, lz4Hash_zeros]
    rw [update_of_ne h30.symm, update_of_ne h20.symm,
      update_of_ne (lz4Hash_farRepeat []).symm]
    simp [lz4IsMatch]

end FarRepeat

/-- **The round trip loses the second copy** when it begins 65536 bytes after the first
one: its offset is stored as 0, and the decoder takes that for an invalid one. -/
theorem lz4_roundTrip_farRepeat :
    ¬ ∀ (input : List UInt8) (maxOutput : Nat), input.length ≤ maxOutput →
      lz4Decompress (lz4Compress input) maxOutput = some input := by
  intro h
  obtain ⟨table, hzero, hfirst, hstart⟩ := lz4Offsets_farRepeat_start (k := 16383) (by decide)
  have hlost : lz4WindowSize ∈ lz4Offsets (farRepeat 16383) 0 fun _ => 0 := by
    rw [hstart]
    exact lz4Offsets_farRepeat (k := 16383) (by decide) 16383 0 (by decide) table (by omega)
      (by omega) (by omega) hfirst
  have hcap : (farRepeat 16383).length < 2 ^ 63 := by
    rw [length_farRepeat]
    decide
  obtain ⟨p, hp, hpre⟩ := lz4Decompress_of_lost le_rfl hcap hlost
  rw [h _ _ le_rfl, Option.some.injEq] at hpre
  have hlength := congrArg List.length hpre
  rw [List.length_take] at hlength
  omega

/-! ## The decoder on any input -/

/-- The literals one sequence copies, after its token byte: all of the input if it ends
before them. -/
def lz4Literals (token : UInt8) (input : List UInt8) : List UInt8 :=
  match lz4ReadLen (token >>> 4 &&& 0x0F).toNat 0 input with
  | (false, _, _) => []
  | (true, literalLen, input) => input.take literalLen

/-- The decoder loop on `input` gets to `rest` with `output` written. -/
inductive Lz4Reaches (maxOutput : Nat) (input : List UInt8) : List UInt8 → List UInt8 → Prop
  | start : Lz4Reaches maxOutput input input []
  | next {token : UInt8} {rest rest' output output' : List UInt8} :
    Lz4Reaches maxOutput input (token :: rest) output → output.length < maxOutput →
      lz4Sequence maxOutput token rest output = some (.next rest' output') →
        Lz4Reaches maxOutput input rest' output'

/-- Every run of literals the decoder copies ends within `maxOutput` bytes. -/
def Lz4LiteralsFit (maxOutput : Nat) (input : List UInt8) : Prop :=
  ∀ token rest output, Lz4Reaches maxOutput input (token :: rest) output →
    output.length < maxOutput → output.length + (lz4Literals token rest).length ≤ maxOutput

section Decoder

variable {maxOutput : Nat}

/-- Copying a match never reads past the output: it grows as fast as the source moves.
It stops at `maxOutput`. -/
theorem lz4CopyMatch_spec (matchStart : Nat) :
    ∀ n i (output : List UInt8), matchStart + i < output.length →
      ∃ out, lz4CopyMatch maxOutput matchStart n i output = some out ∧
        output.length ≤ out.length ∧ out.length ≤ max maxOutput output.length
  | 0, i, output, _ => ⟨output, rfl, le_rfl, Nat.le_max_right _ _⟩
  | n + 1, i, output, hi => by
    rw [lz4CopyMatch]
    split
    · exact ⟨output, rfl, le_rfl, Nat.le_max_right _ _⟩
    · rename_i hroom
      rw [List.getElem?_eq_getElem hi]
      obtain ⟨out, hout, hge, hle⟩ := lz4CopyMatch_spec matchStart n (i + 1)
        (output ++ [output[matchStart + i]])
        (by rw [List.length_append, List.length_singleton]; omega)
      rw [List.length_append, List.length_singleton] at hge hle
      exact ⟨out, hout, by omega, by omega⟩

/-- What a round does: it writes the literals, then at most a match that stays within
`maxOutput`. -/
theorem lz4Sequence_spec (maxOutput : Nat) (token : UInt8) (input output : List UInt8) :
    (lz4Sequence maxOutput token input output =
        some (.done (output ++ lz4Literals token input))) ∨
      ∃ rest out, lz4Sequence maxOutput token input output = some (.next rest out) ∧
        (output ++ lz4Literals token input).length ≤ out.length ∧
        out.length ≤ max maxOutput (output ++ lz4Literals token input).length := by
  rw [lz4Sequence, lz4Literals]
  rcases lz4ReadLen (token >>> 4 &&& 0x0F).toNat 0 input with ⟨_ | _, literalLen, input⟩
  · left
    rw [List.append_nil]
  dsimp only
  split
  · rename_i hshort
    left
    rw [List.take_of_length_le (by omega)]
  split
  · exact .inl rfl
  · exact .inl rfl
  · rename_i lo hi rest _
    generalize output ++ input.take literalLen = output
    split
    · exact .inl rfl
    · rename_i hoffset
      rw [not_or] at hoffset
      right
      have hstart : output.length - (lo.toNat ||| hi.toNat <<< 8) + 0 < output.length := by omega
      obtain ⟨out, hout, hge, hle⟩ : ∃ out, lz4CopyMatch maxOutput
          (output.length - (lo.toNat ||| hi.toNat <<< 8))
          (lz4ReadLen (token &&& 0x0F).toNat lz4MinMatch rest).2.1 0 output = some out ∧ _ :=
        lz4CopyMatch_spec _ _ 0 output hstart
      rw [hout]
      exact ⟨_, out, rfl, hge, hle⟩

/-- The loop always returns, with what is written so far in place. -/
theorem lz4DecompressLoop_some (maxOutput : Nat) :
    ∀ n (input output : List UInt8), input.length = n →
      ∃ out, lz4DecompressLoop maxOutput input output = some out ∧ output.length ≤ out.length ∧
        (∀ token rest, input = token :: rest → output.length < maxOutput →
          output.length + (lz4Literals token rest).length ≤ out.length) := by
  intro n
  induction n using Nat.strong_induction_on with
  | _ n ih =>
    rintro (_ | ⟨token, rest⟩) output rfl
    · exact ⟨output, by rw [lz4DecompressLoop], le_rfl, fun _ _ h => nomatch h⟩
    · by_cases hroom : output.length < maxOutput
      swap
      · refine ⟨output, by rw [lz4DecompressLoop, if_neg hroom], le_rfl, fun _ _ _ h => ?_⟩
        exact absurd h hroom
      rcases lz4Sequence_spec maxOutput token rest output with
        hdone | ⟨rest', output', hnext, hge, -⟩
      · refine ⟨_, lz4DecompressLoop_done hroom hdone, by simp, fun _ _ h _ => ?_⟩
        obtain ⟨rfl, rfl⟩ := List.cons.inj h
        rw [List.length_append]
      · have hshorter : rest'.length < (token :: rest).length :=
          Nat.lt_succ_of_le (lz4Sequence_length hnext)
        obtain ⟨out, hout, hmono, -⟩ := ih _ hshorter rest' output' rfl
        rw [List.length_append] at hge
        refine ⟨out, (lz4DecompressLoop_next hroom hnext).trans hout, by omega, fun _ _ h _ => ?_⟩
        obtain ⟨rfl, rfl⟩ := List.cons.inj h
        omega

/-- From a state it reaches, the loop goes on to the same result. -/
theorem Lz4Reaches.result {input rest output : List UInt8}
    (h : Lz4Reaches maxOutput input rest output) :
    lz4DecompressLoop maxOutput input [] = lz4DecompressLoop maxOutput rest output := by
  induction h with
  | start => rfl
  | next _ hroom hnext ih => exact ih.trans (lz4DecompressLoop_next hroom hnext)

/-- While the literals fit, so does the output. By induction on the input left. -/
theorem lz4DecompressLoop_le {input : List UInt8} (hfit : Lz4LiteralsFit maxOutput input) :
    ∀ n (rest output : List UInt8), rest.length = n → Lz4Reaches maxOutput input rest output →
      output.length ≤ maxOutput →
        ∀ out, lz4DecompressLoop maxOutput rest output = some out → out.length ≤ maxOutput := by
  intro n
  induction n using Nat.strong_induction_on with
  | _ n ih =>
    rintro (_ | ⟨token, rest⟩) output rfl hreach hle out hout
    · rw [lz4DecompressLoop, Option.some.injEq] at hout
      exact hout ▸ hle
    · by_cases hroom : output.length < maxOutput
      swap
      · rw [lz4DecompressLoop, if_neg hroom, Option.some.injEq] at hout
        exact hout ▸ hle
      have hlits := hfit token rest output hreach hroom
      rcases lz4Sequence_spec maxOutput token rest output with
        hdone | ⟨rest', output', hnext, -, hle'⟩
      · rw [lz4DecompressLoop_done hroom hdone, Option.some.injEq] at hout
        rw [← hout, List.length_append]
        exact hlits
      · have hshorter : rest'.length < (token :: rest).length :=
          Nat.lt_succ_of_le (lz4Sequence_length hnext)
        rw [lz4DecompressLoop_next hroom hnext] at hout
        rw [List.length_append] at hle'
        exact ih _ hshorter rest' output' rfl (.next hreach hroom hnext) (by omega) out hout

/-- **The decoder returns on every input**, for every limit it can reserve, and stays
within the limit exactly when every run of literals does. -/
theorem lz4Decompress_total (input : List UInt8) (maxOutput : Nat) :
    (maxOutput < 2 ^ 63 → ∃ out, lz4Decompress input maxOutput = some out) ∧
    ((∃ out, lz4Decompress input maxOutput = some out ∧ out.length ≤ maxOutput) ↔
      maxOutput < 2 ^ 63 ∧ Lz4LiteralsFit maxOutput input) := by
  rw [lz4Decompress]
  split
  swap
  · rename_i hcap
    exact ⟨fun h => absurd h hcap, iff_of_false (fun ⟨_, h, _⟩ => nomatch h) fun h => hcap h.1⟩
  · rename_i hcap
    rw [and_iff_right hcap]
    obtain ⟨out, hresult, -⟩ := lz4DecompressLoop_some maxOutput _ input [] rfl
    refine ⟨fun _ => ⟨out, hresult⟩, ?_⟩
    constructor
    · rintro ⟨out, hout, hle⟩ token rest output hreach hroom
      rw [hreach.result] at hout
      obtain ⟨out', hout', -, hlits⟩ := lz4DecompressLoop_some maxOutput _ (token :: rest) output rfl
      obtain rfl : out' = out := Option.some.inj (hout'.symm.trans hout)
      exact (hlits token rest rfl hroom).trans hle
    · intro hfit
      exact ⟨out, hresult,
        lz4DecompressLoop_le hfit _ input [] rfl .start (Nat.zero_le _) out hresult⟩

/-- **Literals ignore the limit**: two of them come out of a decoder asked for one byte. -/
theorem lz4Decompress_overshoots :
    lz4Decompress [0x20, 7, 7] 1 = some [7, 7] ∧
      ¬ ∃ out, lz4Decompress [0x20, 7, 7] 1 = some out ∧ out.length ≤ 1 := by
  have hrun : lz4Decompress [0x20, 7, 7] 1 = some [7, 7] := by
    rw [lz4Decompress_reserved (by decide)]
    exact lz4DecompressLoop_done (by decide) rfl
  refine ⟨hrun, ?_⟩
  rintro ⟨out, hout, hle⟩
  rw [hrun, Option.some.injEq] at hout
  subst hout
  exact absurd hle (by decide)

end Decoder

end AthenaOS
