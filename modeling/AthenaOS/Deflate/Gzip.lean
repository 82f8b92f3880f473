import AthenaOS.Deflate.Bounds

/-!
# gzip

`gzip_decompress` of `ath_deflate`: the header with its optional fields, the DEFLATE body,
and the trailer with CRC-32 and size.
-/

namespace AthenaOS.Deflate

open Lib Lib.Wire

/-- A step of a header taken only when its flag is set: `if flg & mask != 0 { .. }`. -/
def whenFlag {ε : Type} (flg : UInt8) (mask : UInt8) (skip : Nat → Except ε Nat) (pos : Nat) :
    Except ε Nat :=
  if flg &&& mask ≠ 0 then skip pos else .ok pos

/-- `*data.get(pos).ok_or(e)?`. -/
def byteAt {ε : Type} (e : ε) (data : ByteString) (pos : Nat) : Except ε UInt8 :=
  match data[pos]? with
  | none => .error e
  | some b => .ok b

/-- `skip_cstr`: one byte after the other up to the NUL. -/
def skipCstr (data : ByteString) (pos : Nat) : Except InflateError Nat :=
  if h : pos < data.length then
    if data.get ⟨pos, h⟩ = 0 then .ok (pos + 1) else skipCstr data (pos + 1)
  else .error .truncated
termination_by data.length - pos

/-- The header's end: FEXTRA, FNAME, FCOMMENT and FHCRC in order. -/
def gzipHeader (data : ByteString) : Except InflateError Nat := do
  let flg := data.getD 3 0
  let pos ← whenFlag flg 0x04 (fun pos => do
    let lo ← byteAt .truncated data pos
    let hi ← byteAt .truncated data (pos + 1)
    pure (pos + (2 + leNat [lo, hi]))) 10
  let pos ← whenFlag flg 0x08 (skipCstr data) pos
  let pos ← whenFlag flg 0x10 (skipCstr data) pos
  whenFlag flg 0x02 (fun pos => pure (pos + 2)) pos

/-- `gzip_decompress`. -/
def gzipDecompress (data : ByteString) : Except InflateError ByteString :=
  if data.length < 18 then .error .truncated
  else if data.getD 0 0 ≠ 0x1F ∨ data.getD 1 0 ≠ 0x8B ∨ data.getD 2 0 ≠ 0x08 then .error .badHeader
  else do
    let pos ← gzipHeader data
    if data.length < pos + 8 then .error .truncated
    else do
      let out ← inflate (slice data pos (data.length - 8 - pos))
      let wantCrc := leNat (slice data (data.length - 8) 4)
      let wantSize := leNat (slice data (data.length - 4) 4)
      if (crc32 out).toNat ≠ wantCrc ∨ out.length % 2 ^ 32 ≠ wantSize then .error .badChecksum
      else .ok out

/-- A gzip stream whose header ends at `pos` and whose body inflates to `out`. -/
structure GzipStream (cap pos : Nat) (data out : ByteString) : Prop where
  length : 18 ≤ data.length
  magic : data.getD 0 0 = 0x1F ∧ data.getD 1 0 = 0x8B ∧ data.getD 2 0 = 0x08
  trailer : pos + 8 ≤ data.length
  body : inflateCapped cap (slice data pos (data.length - 8 - pos)) = .ok out
  crc : (crc32 out).toNat = leNat (slice data (data.length - 8) 4)
  size : out.length % 2 ^ 32 = leNat (slice data (data.length - 4) 4)

/-- An `Except` computation that succeeds succeeded at every step. -/
theorem except_bind_ok {ε α β : Type} {r : Except ε α} {f : α → Except ε β} {b : β}
    (h : (r >>= f) = .ok b) : ∃ a, r = .ok a ∧ f a = .ok b := by
  cases r with
  | error e => exact nomatch h
  | ok a => exact ⟨a, rfl, h⟩

theorem gzipDecompress_ok {data out : ByteString} :
    gzipDecompress data = .ok out ↔
      ∃ pos, gzipHeader data = .ok pos ∧ GzipStream maxOutput pos data out := by
  constructor
  · intro h
    rw [gzipDecompress] at h
    split at h
    · exact nomatch h
    · split at h
      · exact nomatch h
      · rename_i hlen hmagic
        simp only [not_or, Decidable.not_not] at hmagic
        obtain ⟨pos, hpos, h⟩ := except_bind_ok h
        split at h
        · exact nomatch h
        · rename_i htrailer
          obtain ⟨out', hbody, h⟩ := except_bind_ok h
          dsimp only at h
          split at h
          · exact nomatch h
          · rename_i hsum
            simp only [not_or, Decidable.not_not] at hsum
            obtain rfl := Except.ok.inj h
            exact ⟨pos, hpos, by omega, hmagic, by omega, hbody, hsum.1, hsum.2⟩
  · rintro ⟨pos, hpos, h⟩
    obtain ⟨hlen, ⟨hm₀, hm₁, hm₂⟩, htrailer, hbody, hcrc, hsize⟩ := h
    have hbody : inflate (slice data pos (data.length - 8 - pos)) = .ok out := hbody
    rw [gzipDecompress, if_neg (by omega), if_neg (by rw [hm₀, hm₁, hm₂]; decide), hpos]
    show (if data.length < pos + 8 then _ else _) = _
    rw [if_neg (by omega), hbody]
    show (if (crc32 out).toNat ≠ _ ∨ out.length % 2 ^ 32 ≠ _ then _ else _) = _
    rw [if_neg (by rw [hcrc, hsize]; simp)]

/-! ## Compressing -/

theorem slice_end {pre suf : ByteString} {n : Nat} (h : n ≤ suf.length) (w : Nat) :
    slice (pre ++ suf) ((pre ++ suf).length - n) w = slice suf (suf.length - n) w := by
  rw [List.length_append, Nat.add_sub_assoc h, slice_append_right _ _ (Nat.le_add_right _ _), Nat.add_sub_cancel_left]

/-- `gzip_compress`. -/
def gzipCompress (data : ByteString) : ByteString :=
  [0x1F, 0x8B, 0x08, 0x00, 0, 0, 0, 0, 0x00, 0xFF] ++
    (deflate data ++ (leBytes 4 (crc32 data).toNat ++ leBytes 4 data.length))

theorem gzipStream_gzipCompress {data : ByteString} {cap : Nat} (h : data.length ≤ cap) :
    GzipStream cap 10 (gzipCompress data) data := by
  have hlen : (gzipCompress data).length = 10 + ((deflate data).length + 8) := by
    simp [gzipCompress]
    omega
  have hcrc : (crc32 data).toNat < 256 ^ 4 := UInt32.toNat_lt _
  constructor
  · omega
  · exact ⟨rfl, rfl, rfl⟩
  · omega
  · have hbody : slice (gzipCompress data) 10 ((gzipCompress data).length - 8 - 10) = deflate data :=
      slice_append_mid _ _ _ rfl (by omega)
    rw [hbody, inflateCapped_deflate h]
  · rw [gzipCompress, slice_end (by simp), slice_end (by simp)]
    exact (leNat_leBytes_of_lt hcrc).symm
  · rw [gzipCompress, slice_end (by simp), slice_end (by simp)]
    exact (leNat_leBytes 4 data.length).symm

end AthenaOS.Deflate
