import AthenaOS.Tar.Header

/-!
# Numeric fields

What a numeric field of a header denotes, and when `read_octal` gives that.
-/

namespace AthenaOS.Tar

open Lib Lib.Wire

/-! ## What a field denotes -/

/-- The top bit of the first byte marks the binary form. -/
def binary (field : ByteString) : Prop := ∃ b ∈ field.head?, b &&& 0x80 ≠ 0

instance (field : ByteString) : Decidable (binary field) :=
  match field with
  | [] => .isFalse fun ⟨_, h, _⟩ => nomatch h
  | b :: _ => decidable_of_iff (b &&& 0x80 ≠ 0)
    ⟨fun h => ⟨b, rfl, h⟩, fun ⟨_, hb, h⟩ => Option.some.inj hb ▸ h⟩

/-- The big-endian number below the top bit. -/
def magnitude : ByteString → Nat
  | [] => 0
  | b :: rest => rest.foldl (fun n b => n * 256 + b.toNat) (b &&& 0x7F).toNat

/-- Spaces and NULs around the digits. -/
def isPad (b : UInt8) : Bool := b = ascii ' ' || b = 0

/-- An octal digit. -/
def isOctal (b : UInt8) : Bool := ascii '0' ≤ b && b ≤ ascii '7'

/-- The number that octal digits stand for, after those that came before. -/
def octalValue (digits : ByteString) (val : Nat) : Nat :=
  digits.foldl (fun n d => n * 8 + (d - ascii '0').toNat) val

/-- The number a field denotes: its magnitude, or its first run of octal digits after the
padding. -/
def denoted (field : ByteString) : Nat :=
  if binary field then magnitude field
  else octalValue ((field.dropWhile isPad).takeWhile isOctal) 0

/-! ## Reading -/

/-- A digit is no padding. -/
theorem isPad_of_isOctal {b : UInt8} (h : isOctal b = true) : isPad b = false := by
  obtain ⟨hlo, -⟩ : ascii '0' ≤ b ∧ b ≤ ascii '7' := by simpa [isOctal] using h
  rw [isPad, Bool.or_eq_false_iff]
  constructor
  · refine decide_eq_false ?_
    rintro rfl
    exact absurd hlo (by decide)
  · refine decide_eq_false ?_
    rintro rfl
    exact absurd hlo (by decide)

variable {field block : ByteString} {v off len : Nat}

/-- After the first digit, the run is read to its end. -/
theorem octalLoop_seen {val : Nat} (h : octalLoop field true val = .ok v) :
    v = octalValue (field.takeWhile isOctal) val := by
  induction field generalizing val with
  | nil => exact (Except.ok.inj h).symm
  | cons b field ih =>
    rw [octalLoop] at h
    by_cases hdigit : ascii '0' ≤ b ∧ b ≤ ascii '7'
    · have hb : isOctal b = true := by simpa [isOctal] using hdigit
      rw [if_pos hdigit] at h
      split at h
      · rw [List.takeWhile_cons_of_pos hb]
        exact ih h
      · cases h
    · have hb : ¬ isOctal b = true := by simpa [isOctal] using hdigit
      rw [if_neg hdigit] at h
      rw [List.takeWhile_cons_of_neg hb]
      split at h
      · exact (Except.ok.inj h).symm
      · cases h

/-- **An octal field** is read as its first run of digits. -/
theorem octalLoop_eq_ok (h : octalLoop field false 0 = .ok v) :
    v = octalValue ((field.dropWhile isPad).takeWhile isOctal) 0 := by
  induction field with
  | nil => exact (Except.ok.inj h).symm
  | cons b field ih =>
    rw [octalLoop] at h
    by_cases hdigit : ascii '0' ≤ b ∧ b ≤ ascii '7'
    · have hb : isOctal b = true := by simpa [isOctal] using hdigit
      rw [if_pos hdigit] at h
      rw [List.dropWhile_cons_of_neg (by rw [isPad_of_isOctal hb]; decide),
        List.takeWhile_cons_of_pos hb]
      split at h
      · exact octalLoop_seen h
      · cases h
    · rw [if_neg hdigit] at h
      split at h
      · next hpad =>
        rw [List.dropWhile_cons_of_pos (by simpa [isPad] using hpad)]
        exact ih h
      · cases h

/-- **A binary field** is read modulo 2^64: what the shift pushes out is lost. -/
theorem foldl_binary (rest : ByteString) (n : Nat) :
    rest.foldl (fun val b => val * 256 % 2 ^ 64 + b.toNat) (n % 2 ^ 64) =
      rest.foldl (fun n b => n * 256 + b.toNat) n % 2 ^ 64 := by
  induction rest generalizing n with
  | nil => rfl
  | cons b rest ih =>
    have hb := b.toNat_lt
    have hstep : n % 2 ^ 64 * 256 % 2 ^ 64 + b.toNat = (n * 256 + b.toNat) % 2 ^ 64 := by omega
    rw [List.foldl_cons, List.foldl_cons, hstep, ih]

theorem readOctal_binary (hfits : off + len ≤ block.length) (h : binary (slice block off len)) :
    readOctal block off len = .ok (magnitude (slice block off len) % 2 ^ 64) := by
  obtain ⟨b, hhead, hbit⟩ := h
  rw [readOctal, require, if_pos (decide_eq_true hfits)]
  dsimp only [bind, Except.bind]
  cases hfield : slice block off len with
  | nil =>
    rw [hfield] at hhead
    cases hhead
  | cons b' rest =>
    rw [hfield] at hhead
    obtain rfl : b' = b := Option.some.inj hhead
    have hfirst : (b' &&& 0x7F).toNat % 2 ^ 64 = (b' &&& 0x7F).toNat :=
      Nat.mod_eq_of_lt (Nat.lt_trans (UInt8.toNat_lt _) (by decide))
    dsimp only
    rw [if_pos hbit, magnitude, ← foldl_binary, hfirst]

theorem readOctal_octal (h : ¬ binary (slice block off len))
    (hread : readOctal block off len = .ok v) : v = denoted (slice block off len) := by
  obtain ⟨u, -, hread⟩ := bind_eq_ok hread
  rw [denoted, if_neg h]
  cases hfield : slice block off len with
  | nil =>
    rw [hfield] at hread
    exact (Except.ok.inj hread).symm
  | cons b rest =>
    rw [hfield] at h hread
    have hbit : ¬ b &&& 0x80 ≠ 0 := fun hbit => h ⟨b, rfl, hbit⟩
    dsimp only at hread
    rw [if_neg hbit] at hread
    exact octalLoop_eq_ok hread

/-! ## Exactness -/

/-- A field is read exactly or refused, and refused as too large if it is binary and has
more than 64 bits. -/
def ReadExactly (block : ByteString) (off len : Nat) : Prop :=
  (∀ v, readOctal block off len = .ok v → v = denoted (slice block off len)) ∧
    (binary (slice block off len) → 2 ^ 64 ≤ denoted (slice block off len) →
      readOctal block off len = .error .tooLarge)

/-- A field beyond the end of the header is refused as truncated. -/
theorem readOctal_truncated (h : ¬ off + len ≤ block.length) :
    readOctal block off len = .error .truncated := by
  rw [readOctal, require, if_neg (by simpa using h)]
  rfl

/-- **A field is read exactly** unless it is a binary one of more than 64 bits. -/
theorem readOctal_exact_iff (block : ByteString) (off len : Nat) :
    ReadExactly block off len ↔
      ¬ (binary (slice block off len) ∧ 2 ^ 64 ≤ denoted (slice block off len)) := by
  constructor
  · rintro ⟨-, hlarge⟩ ⟨hbinary, hsize⟩
    have hread := hlarge hbinary hsize
    by_cases hfits : off + len ≤ block.length
    · rw [readOctal_binary hfits hbinary] at hread
      cases hread
    · rw [readOctal_truncated hfits] at hread
      cases hread
  · intro h
    refine ⟨fun v hread => ?_, fun hbinary hsize => absurd ⟨hbinary, hsize⟩ h⟩
    by_cases hbinary : binary (slice block off len)
    · have hsmall : denoted (slice block off len) < 2 ^ 64 :=
        Nat.not_le.mp fun hsize => h ⟨hbinary, hsize⟩
      have hfits : off + len ≤ block.length := by
        by_contra hout
        rw [readOctal_truncated hout] at hread
        cases hread
      rw [readOctal_binary hfits hbinary] at hread
      rw [denoted, if_pos hbinary] at hsmall ⊢
      rw [← Except.ok.inj hread, Nat.mod_eq_of_lt hsmall]
    · exact readOctal_octal hbinary hread

/-- **A size of 2^88 reads as 0.** -/
theorem readOctal_loses_bits : ¬ ReadExactly (0x81 :: List.replicate 11 0) 0 12 :=
  fun h => (readOctal_exact_iff _ _ _).mp h (by decide)

end AthenaOS.Tar
