import AthenaOS.Deflate.Gzip

/-!
# gzip in the tar reader

`decode_gzip` of `ath_tar`, written separately from `ath_deflate`'s `gzip_decompress`,
with a larger cap on the output and a guard on the ratio the trailer claims.
-/

namespace AthenaOS.Tar

open Lib Lib.Wire Deflate

/-- `TarError`. -/
inductive TarError where
  | notTar
  | truncated
  | badChecksum
  | badOctal
  | badUtf8
  | unsupported
  | tooLarge
  | notGzip
  | inflateError
  | badCrc
  | badIsize
  deriving DecidableEq, Repr

/-- `MAX_TOTAL_SIZE`. -/
def maxTotalSize : Nat := 2 * 1024 * 1024 * 1024

/-- `MAX_RATIO`. -/
def maxRatio : Nat := 4000

/-- `inflate`: the decoder of `ath_deflate` with its own cap and one error. -/
def inflate (data : ByteString) : Except TarError ByteString :=
  (inflateCapped maxTotalSize data).mapError fun _ => .inflateError

/-- `skip_cstr`: the position of the first NUL from `pos` on. -/
def skipCstr (data : ByteString) (pos : Nat) : Except TarError Nat :=
  if data.length < pos then .error .truncated
  else
    match (data.drop pos).findIdx? (· = 0) with
    | none => .error .truncated
    | some rel => .ok (pos + (rel + 1))

/-- The header's end. -/
def gzipHeader (data : ByteString) : Except TarError Nat := do
  let flg := data.getD 3 0
  let pos ← whenFlag flg 0x04 (fun pos => do
    let lo ← byteAt .truncated data pos
    let hi ← byteAt .truncated data (pos + 1)
    pure (pos + (2 + leNat [lo, hi]))) 10
  let pos ← whenFlag flg 0x08 (skipCstr data) pos
  let pos ← whenFlag flg 0x10 (skipCstr data) pos
  whenFlag flg 0x02 (fun pos => pure (pos + 2)) pos

/-- The guard on the claimed size. -/
def exceedsRatio (body : ByteString) (claimed : Nat) : Bool :=
  body ≠ [] && (maxRatio < claimed / body.length && 64 * 1024 < claimed)

/-- `decode_gzip`. -/
def decodeGzip (data : ByteString) : Except TarError ByteString :=
  if data.length < 18 then .error .notGzip
  else if data.getD 0 0 ≠ 0x1F ∨ data.getD 1 0 ≠ 0x8B then .error .notGzip
  else if data.getD 2 0 ≠ 0x08 then .error .unsupported
  else do
    let pos ← gzipHeader data
    if data.length < pos + 8 then .error .truncated
    else
      let body := slice data pos (data.length - 8 - pos)
      let wantCrc := leNat (slice data (data.length - 8) 4)
      let wantIsize := leNat (slice data (data.length - 4) 4)
      if exceedsRatio body wantIsize then .error .tooLarge
      else do
        let out ← inflate body
        if (crc32 out).toNat ≠ wantCrc then .error .badCrc
        else if out.length % 2 ^ 32 ≠ wantIsize then .error .badIsize
        else .ok out

/-! ## Two decoders, the same results -/

/-- Two fallible computations with the same results; their errors may differ. -/
def Agree {ε ε' α : Type} (r : Except ε α) (r' : Except ε' α) : Prop := ∀ a, r = .ok a ↔ r' = .ok a

namespace Agree

variable {ε ε' α β : Type}

theorem ok (a : α) : Agree (.ok a : Except ε α) (.ok a : Except ε' α) :=
  fun _ => ⟨fun h => congrArg _ (Except.ok.inj h), fun h => congrArg _ (Except.ok.inj h)⟩

theorem error (e : ε) (e' : ε') : Agree (.error e : Except ε α) (.error e') :=
  fun _ => ⟨fun h => (nomatch h), fun h => (nomatch h)⟩

theorem bind {r : Except ε α} {r' : Except ε' α} {f : α → Except ε β} {f' : α → Except ε' β}
    (h : Agree r r') (hf : ∀ a, Agree (f a) (f' a)) : Agree (r >>= f) (r' >>= f') := by
  cases r with
  | ok a =>
    obtain rfl := (h a).mp rfl
    exact hf a
  | error e =>
    cases r' with
    | ok a => exact nomatch (h a).mpr rfl
    | error e' => exact error e e'

theorem whenFlag {skip : Nat → Except ε Nat} {skip' : Nat → Except ε' Nat} (flg mask : UInt8)
    (h : ∀ pos, Agree (skip pos) (skip' pos)) (pos : Nat) :
    Agree (Deflate.whenFlag flg mask skip pos) (Deflate.whenFlag flg mask skip' pos) := by
  rw [Deflate.whenFlag, Deflate.whenFlag]
  split
  · exact h pos
  · exact ok pos

theorem byteAt (e : ε) (e' : ε') (data : ByteString) (pos : Nat) :
    Agree (Deflate.byteAt e data pos) (Deflate.byteAt e' data pos) := by
  rw [Deflate.byteAt, Deflate.byteAt]
  split
  · exact error e e'
  · exact ok _

/-- A loop over the bytes and a search find the same NUL. -/
theorem skipCstr (data : ByteString) (pos : Nat) :
    Agree (Deflate.skipCstr data pos) (Tar.skipCstr data pos) := by
  induction hn : data.length - pos using Nat.strong_induction_on generalizing pos with
  | _ n ih =>
    rw [Deflate.skipCstr, Tar.skipCstr]
    split
    · rename_i hlt
      rw [if_neg (show ¬ data.length < pos by omega), List.drop_eq_getElem_cons hlt,
        List.findIdx?_cons, List.get_eq_getElem]
      by_cases hzero : data[pos] = 0
      · rw [if_pos hzero, if_pos (by simpa using hzero)]
        exact ok _
      · rw [if_neg hzero, if_neg (by simpa using hzero)]
        have hrest := ih (data.length - (pos + 1)) (by omega) (pos + 1) rfl
        rw [Tar.skipCstr, if_neg (by omega)] at hrest
        cases hfind : (data.drop (pos + 1)).findIdx? (· = 0) with
        | none =>
          rw [hfind] at hrest
          exact hrest
        | some rel =>
          rw [hfind] at hrest
          have hpos : pos + (rel + 1 + 1) = pos + 1 + (rel + 1) := by omega
          simp only [Option.map_some, hpos]
          exact hrest
    · rename_i hend
      split
      · exact error _ _
      · have hnil : data.drop pos = [] := List.drop_eq_nil_of_le (by omega)
        rw [hnil]
        exact error _ _

theorem gzipHeader (data : ByteString) : Agree (Deflate.gzipHeader data) (Tar.gzipHeader data) := by
  refine (whenFlag _ _ (fun pos => ?_) _).bind fun pos => ?_
  · exact (byteAt _ _ data pos).bind fun lo => (byteAt _ _ data _).bind fun hi => ok _
  · refine (whenFlag _ _ (skipCstr data) pos).bind fun pos => ?_
    refine (whenFlag _ _ (skipCstr data) pos).bind fun pos => ?_
    exact whenFlag _ _ (fun pos => ok _) pos

end Agree

theorem inflate_eq_ok {data out : ByteString} :
    inflate data = .ok out ↔ inflateCapped maxTotalSize data = .ok out := by
  rw [inflate]
  cases inflateCapped maxTotalSize data with
  | ok a => exact ⟨fun h => congrArg _ (Except.ok.inj h), fun h => congrArg _ (Except.ok.inj h)⟩
  | error e => exact ⟨fun h => (nomatch h), fun h => (nomatch h)⟩

/-- **The ratio guard is harmless**: DEFLATE expands 1032 to 1 at most. -/
theorem exceedsRatio_inflate {cap : Nat} {body out : ByteString} (h : inflateCapped cap body = .ok out) :
    exceedsRatio body (out.length % 2 ^ 32) = false := by
  have hratio := (inflateCapped_ok h).2.1
  have hdiv : out.length % 2 ^ 32 / body.length ≤ 1032 := by
    refine Nat.div_le_of_le_mul ?_
    rw [Nat.mul_comm]
    exact Nat.le_trans (Nat.mod_le _ _) hratio
  have hguard : ¬ maxRatio < out.length % 2 ^ 32 / body.length := by
    rw [maxRatio]
    omega
  rw [exceedsRatio, decide_eq_false hguard, Bool.false_and, Bool.and_false]

theorem decodeGzip_ok {data out : ByteString} :
    decodeGzip data = .ok out ↔
      ∃ pos, gzipHeader data = .ok pos ∧ GzipStream maxTotalSize pos data out := by
  constructor
  · intro h
    rw [decodeGzip] at h
    split at h
    · exact nomatch h
    · split at h
      · exact nomatch h
      · split at h
        · exact nomatch h
        · rename_i hlen hmagic hmethod
          simp only [not_or, Decidable.not_not] at hmagic hmethod
          obtain ⟨pos, hpos, h⟩ := except_bind_ok h
          dsimp only at h
          split at h
          · exact nomatch h
          · rename_i htrailer
            split at h
            · exact nomatch h
            · obtain ⟨out', hbody, h⟩ := except_bind_ok h
              split at h
              · exact nomatch h
              · rename_i hcrc
                split at h
                · exact nomatch h
                · rename_i hsize
                  obtain rfl := Except.ok.inj h
                  exact ⟨pos, hpos, by omega, ⟨hmagic.1, hmagic.2, hmethod⟩, by omega,
                    inflate_eq_ok.mp hbody, Decidable.not_not.mp hcrc, Decidable.not_not.mp hsize⟩
  · rintro ⟨pos, hpos, h⟩
    obtain ⟨hlen, ⟨hm₀, hm₁, hm₂⟩, htrailer, hbody, hcrc, hsize⟩ := h
    -- the guard is asked about the true size
    have hguard := exceedsRatio_inflate hbody
    rw [decodeGzip, if_neg (by omega), if_neg (by rw [hm₀, hm₁]; decide), if_neg (by rw [hm₂]; decide),
      hpos]
    show (if data.length < pos + 8 then _ else
      if exceedsRatio (slice data pos (data.length - 8 - pos)) _ = true then _ else _) = _
    rw [if_neg (by omega), ← hsize, hguard, if_neg (by decide), inflate_eq_ok.mpr hbody]
    show (if (crc32 out).toNat ≠ _ then _ else if out.length % 2 ^ 32 ≠ _ then _ else _) = _
    rw [hcrc, if_neg (fun hc => hc rfl), if_neg (fun hc => hc rfl)]

/-- **The two gzip decoders agree.** What `gzip_decompress` accepts, `decode_gzip` accepts
with the same bytes; what `decode_gzip` accepts up to 512 MiB, `gzip_decompress` accepts;
and the ratio guard never fires on a body that inflates to the size the trailer claims. -/
theorem gzip_decoders_agree (data out : ByteString) :
    (gzipDecompress data = .ok out → decodeGzip data = .ok out) ∧
      (decodeGzip data = .ok out → out.length ≤ 512 * 1024 * 1024 → gzipDecompress data = .ok out) ∧
      ∀ body, inflate body = .ok out → exceedsRatio body (out.length % 2 ^ 32) = false := by
  have hheader := Agree.gzipHeader data
  refine ⟨fun h => ?_, fun h hsize => ?_, fun body h => exceedsRatio_inflate (inflate_eq_ok.mp h)⟩
  · obtain ⟨pos, hpos, hstream⟩ := gzipDecompress_ok.mp h
    obtain ⟨hcap, -, hagain⟩ := inflateCapped_ok hstream.body
    have hle : out.length ≤ maxTotalSize := Nat.le_trans hcap (by decide)
    exact decodeGzip_ok.mpr ⟨pos, (hheader pos).mp hpos, { hstream with body := hagain _ hle }⟩
  · obtain ⟨pos, hpos, hstream⟩ := decodeGzip_ok.mp h
    obtain ⟨-, -, hagain⟩ := inflateCapped_ok hstream.body
    exact gzipDecompress_ok.mpr ⟨pos, (hheader pos).mpr hpos, { hstream with body := hagain _ hsize }⟩

/-- A stream of one block, with three literals and a match. -/
theorem gzip_decoders_agree_repeats :
    decodeGzip [0x1F, 0x8B, 8, 0, 0, 0, 0, 0, 0, 0xFF, 99, 100, 98, 134, 35, 0, 69, 247, 73, 62, 12, 0, 0, 0] =
      .ok [1, 2, 3, 1, 2, 3, 1, 2, 3, 1, 2, 3] :=
  (gzip_decoders_agree _ _).1 (by decide +kernel)

/-- **Both gzip decoders undo `gzip_compress`**, each up to its own cap. -/
theorem gzip_roundTrip (data : ByteString) :
    (data.length ≤ maxOutput → gzipDecompress (gzipCompress data) = .ok data) ∧
      (data.length ≤ maxTotalSize → decodeGzip (gzipCompress data) = .ok data) := by
  constructor
  · intro h
    exact gzipDecompress_ok.mpr ⟨10, by simp [Deflate.gzipHeader, gzipCompress, whenFlag, Except.bind, bind],
      gzipStream_gzipCompress h⟩
  · intro h
    exact decodeGzip_ok.mpr ⟨10, by simp [gzipHeader, gzipCompress, whenFlag, Except.bind, bind],
      gzipStream_gzipCompress h⟩

/-- What `gzip_compress` writes has a match. -/
theorem gzip_roundTrip_repeats :
    gzipDecompress (gzipCompress [1, 2, 3, 1, 2, 3, 1, 2, 3, 1, 2, 3]) = .ok [1, 2, 3, 1, 2, 3, 1, 2, 3, 1, 2, 3] ∧
      decodeGzip (gzipCompress [1, 2, 3, 1, 2, 3, 1, 2, 3, 1, 2, 3]) = .ok [1, 2, 3, 1, 2, 3, 1, 2, 3, 1, 2, 3] :=
  ⟨(gzip_roundTrip _).1 (by decide), (gzip_roundTrip _).2 (by decide)⟩

end AthenaOS.Tar
