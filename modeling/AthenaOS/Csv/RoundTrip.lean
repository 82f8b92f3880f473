import AthenaOS.Csv.Format

/-!
# A table that is written is read back

The loop of the reader over what the writer writes, from the field to the table.
-/

namespace AthenaOS.Csv

open Lib.Wire

/-! ## One round -/

variable {field field' data rest rest' : ByteString} {b delim : UInt8} {r r' : Reader} {t : Csv}
variable {delimiter d : Char}

theorem pushByte_eq_ok (h : pushByte field b = .ok field') :
    field' = field ++ [b] ∧ field.length < maxCellBytes := by
  rw [pushByte] at h
  split at h
  · exact nomatch h
  · exact ⟨(Except.ok.inj h).symm, by omega⟩

theorem pushByte_of_lt (b : UInt8) (h : field.length < maxCellBytes) :
    pushByte field b = .ok (field ++ [b]) := by
  rw [pushByte, if_neg (by omega)]

/-- A quoted field up to its end: no byte is given back, and the field stays within the limit. -/
theorem quoted_eq_ok (h : quoted data field = .ok (rest, field')) :
    rest.length ≤ data.length ∧ (field.length ≤ maxCellBytes → field'.length ≤ maxCellBytes) := by
  fun_induction quoted data field with
  | case1 field =>
    obtain ⟨rfl, rfl⟩ := Prod.mk.inj (Except.ok.inj h)
    exact ⟨Nat.le_refl _, id⟩
  | case2 field =>
    obtain ⟨rfl, rfl⟩ := Prod.mk.inj (Except.ok.inj h)
    exact ⟨Nat.zero_le _, id⟩
  | case3 c field hc e he => exact nomatch h
  | case4 c field hc field₁ hpush =>
    obtain ⟨rfl, rfl⟩ := Prod.mk.inj (Except.ok.inj h)
    obtain ⟨rfl, hlt⟩ := pushByte_eq_ok hpush
    exact ⟨Nat.zero_le _, fun _ => by rw [List.length_append]; exact hlt⟩
  | case5 rest' field e he => exact nomatch h
  | case6 rest' field field₁ hpush ih =>
    obtain ⟨rfl, hlt⟩ := pushByte_eq_ok hpush
    obtain ⟨hrest, hout⟩ := ih h
    have hfield₁ := hout (by rw [List.length_append]; exact hlt)
    simp only [List.length_cons]
    exact ⟨by omega, fun _ => hfield₁⟩
  | case7 c' rest' field hc' =>
    obtain ⟨rfl, rfl⟩ := Prod.mk.inj (Except.ok.inj h)
    exact ⟨Nat.le_succ _, id⟩
  | case8 c c' rest' field hc e he => exact nomatch h
  | case9 c c' rest' field hc field₁ hpush ih =>
    obtain ⟨rfl, hlt⟩ := pushByte_eq_ok hpush
    obtain ⟨hrest, hout⟩ := ih h
    have hfield₁ := hout (by rw [List.length_append]; exact hlt)
    exact ⟨Nat.le_succ_of_le hrest, fun _ => hfield₁⟩

/-- The same for what follows the closing quote. -/
theorem trailing_eq_ok (h : trailing delim data field = .ok (rest, field')) :
    rest.length ≤ data.length ∧ (field.length ≤ maxCellBytes → field'.length ≤ maxCellBytes) := by
  induction data generalizing field with
  | nil =>
    obtain ⟨rfl, rfl⟩ := Prod.mk.inj (Except.ok.inj h)
    exact ⟨Nat.le_refl _, id⟩
  | cons b data ih =>
    rw [trailing] at h
    split at h
    · rcases hpush : pushByte field b with e | field₁
      · rw [hpush] at h
        exact nomatch h
      · rw [hpush] at h
        obtain ⟨rfl, hlt⟩ := pushByte_eq_ok hpush
        obtain ⟨hrest, hout⟩ := ih h
        have hfield₁ := hout (by rw [List.length_append]; exact hlt)
        exact ⟨Nat.le_succ_of_le hrest, fun _ => hfield₁⟩
    · obtain ⟨rfl, rfl⟩ := Prod.mk.inj (Except.ok.inj h)
      exact ⟨Nat.le_refl _, id⟩

theorem length_skipLf_le (b : UInt8) (rest : ByteString) : (skipLf b rest).length ≤ rest.length := by
  cases rest with
  | nil => exact Nat.le_refl _
  | cons c rest =>
    rw [skipLf]
    split
    · exact Nat.le_succ _
    · exact Nat.le_refl _

/-- A field that is closed becomes a cell. -/
theorem pushField_eq_ok (h : r.pushField = .ok r') :
    r.fieldBytes.length ≤ maxCellBytes ∧ r.record.length < maxCols ∧ r' = { r with
      record := r.record ++ [(ofUtf8? r.fieldBytes).getD ""]
      fieldBytes := [] } := by
  rw [Reader.pushField] at h
  split at h
  · exact nomatch h
  · split at h
    · exact nomatch h
    · exact ⟨by omega, by omega, (Except.ok.inj h).symm⟩

/-- **What a round can do**: read a quoted field, close a field, close a record, or take a byte. -/
theorem step_cases (h : step delim b rest r = .ok (rest', r')) :
    (∃ rest₁ field₁ field₂, quoted rest r.fieldBytes = .ok (rest₁, field₁) ∧
      trailing delim rest₁ field₁ = .ok (rest', field₂) ∧
      r' = { r with recordStarted := true, fieldInProgress := true, fieldBytes := field₂ }) ∨
    (∃ r₁, Reader.pushField { r with recordStarted := true } = .ok r₁ ∧ rest' = rest ∧
      r' = { r₁ with fieldInProgress := false }) ∨
    (∃ r₁, r.pushField = .ok r₁ ∧ r₁.rows.length < maxRows ∧ rest' = skipLf b rest ∧ r' = { r₁ with
      rows := r₁.rows ++ [r₁.record]
      record := []
      recordStarted := false
      fieldInProgress := false }) ∨
    ∃ field, pushByte r.fieldBytes b = .ok field ∧ rest' = rest ∧
      r' = { r with recordStarted := true, fieldInProgress := true, fieldBytes := field } := by
  rw [step] at h
  split at h
  · refine .inl ?_
    rcases hquoted : quoted rest r.fieldBytes with _ | ⟨rest₁, field₁⟩
    · rw [hquoted] at h
      exact nomatch h
    rw [hquoted] at h
    rcases htrailing : trailing delim rest₁ field₁ with _ | ⟨rest₂, field₂⟩
    · simp only [bind, Except.bind, htrailing] at h
      exact nomatch h
    simp only [bind, Except.bind, htrailing] at h
    obtain ⟨rfl, rfl⟩ := Prod.mk.inj (Except.ok.inj h)
    exact ⟨rest₁, field₁, field₂, rfl, htrailing, rfl⟩
  split at h
  · refine .inr (.inl ?_)
    rcases hpush : Reader.pushField { r with recordStarted := true } with _ | r₁
    · rw [hpush] at h
      exact nomatch h
    rw [hpush] at h
    obtain ⟨rfl, rfl⟩ := Prod.mk.inj (Except.ok.inj h)
    exact ⟨r₁, rfl, rfl, rfl⟩
  split at h
  · refine .inr (.inr (.inl ?_))
    rcases hpush : r.pushField with _ | r₁
    · rw [hpush] at h
      exact nomatch h
    rw [hpush] at h
    simp only [bind, Except.bind] at h
    split at h
    · exact nomatch h
    · obtain ⟨rfl, rfl⟩ := Prod.mk.inj (Except.ok.inj h)
      exact ⟨r₁, rfl, by omega, rfl, rfl⟩
  · refine .inr (.inr (.inr ?_))
    rcases hpush : pushByte r.fieldBytes b with _ | field
    · rw [hpush] at h
      exact nomatch h
    rw [hpush] at h
    obtain ⟨rfl, rfl⟩ := Prod.mk.inj (Except.ok.inj h)
    exact ⟨field, rfl, rfl, rfl⟩

theorem consuming_step (delim : UInt8) : Consuming (step delim) := by
  intro b rest r rest' r' h
  rcases step_cases h with ⟨rest₁, field₁, field₂, hquoted, htrailing, -⟩ | ⟨r₁, -, rfl, -⟩ |
    ⟨r₁, -, -, rfl, -⟩ | ⟨field, -, rfl, -⟩
  · exact Nat.le_trans (trailing_eq_ok htrailing).1 (quoted_eq_ok hquoted).1
  · exact Nat.le_refl _
  · exact length_skipLf_le b rest
  · exact Nat.le_refl _

/-! ## The limits -/

/-- A row within the limits. -/
structure RowFits (row : List String) : Prop where
  cols : row.length ≤ maxCols
  cells : ∀ cell ∈ row, (utf8 cell).length ≤ maxCellBytes

/-- A table within the limits, with at least one cell in each row. -/
structure TableFits (t : Csv) : Prop where
  rows : t.rows.length ≤ maxRows
  row : ∀ row ∈ t.rows, RowFits row ∧ row ≠ []

/-- The reader keeps within the limits. -/
structure Reader.Fits (r : Reader) : Prop where
  table : TableFits ⟨r.rows⟩
  record : RowFits r.record
  field : r.fieldBytes.length ≤ maxCellBytes

theorem length_cell_le (h : field.length ≤ maxCellBytes) :
    (utf8 ((ofUtf8? field).getD "")).length ≤ maxCellBytes := by
  cases hs : ofUtf8? field with
  | none => exact Nat.zero_le _
  | some s =>
    rw [Option.getD_some, ← ofUtf8?_eq_some.mp hs]
    exact h

/-- A field that is closed makes a record that is not empty. -/
theorem Reader.Fits.pushField (hr : r.Fits) (h : r.pushField = .ok r') :
    r'.Fits ∧ r'.record ≠ [] := by
  obtain ⟨hfield, hcols, rfl⟩ := pushField_eq_ok h
  refine ⟨⟨hr.table, ⟨?_, ?_⟩, Nat.zero_le _⟩, List.concat_ne_nil _ _⟩
  · show (r.record ++ [_]).length ≤ maxCols
    rw [List.length_append]
    exact hcols
  · intro cell hcell
    rcases List.mem_append.mp hcell with hold | hnew
    · exact hr.record.cells cell hold
    · rw [List.mem_singleton.mp hnew]
      exact length_cell_le hfield

/-- A record that is closed becomes a row. -/
theorem Reader.Fits.pushRecord (hr : r.Fits) (hne : r.record ≠ [])
    (hrows : r.rows.length < maxRows) : TableFits ⟨r.rows ++ [r.record]⟩ := by
  constructor
  · show (r.rows ++ [r.record]).length ≤ maxRows
    rw [List.length_append]
    exact hrows
  · intro row hrow
    rcases List.mem_append.mp hrow with hold | hnew
    · exact hr.table.row row hold
    · rw [List.mem_singleton.mp hnew]
      exact ⟨hr.record, hne⟩

theorem rowFits_nil : RowFits [] := ⟨Nat.zero_le _, fun _ hcell => nomatch hcell⟩

theorem fits_step (hr : r.Fits) (h : step delim b rest r = .ok (rest', r')) : r'.Fits := by
  rcases step_cases h with ⟨rest₁, field₁, field₂, hquoted, htrailing, rfl⟩ | ⟨r₁, hpush, -, rfl⟩ |
    ⟨r₁, hpush, hrows, -, rfl⟩ | ⟨field, hpush, -, rfl⟩
  · have hfield₁ := (quoted_eq_ok hquoted).2 hr.field
    exact ⟨hr.table, hr.record, (trailing_eq_ok htrailing).2 hfield₁⟩
  · have hstarted : Reader.Fits { r with recordStarted := true } := ⟨hr.table, hr.record, hr.field⟩
    obtain ⟨hr₁, -⟩ := hstarted.pushField hpush
    exact ⟨hr₁.table, hr₁.record, hr₁.field⟩
  · obtain ⟨hr₁, hne⟩ := hr.pushField hpush
    exact ⟨hr₁.pushRecord hne hrows, rowFits_nil, hr₁.field⟩
  · obtain ⟨rfl, hlt⟩ := pushByte_eq_ok hpush
    refine ⟨hr.table, hr.record, ?_⟩
    show (r.fieldBytes ++ [b]).length ≤ maxCellBytes
    rw [List.length_append]
    exact hlt

theorem fits_finish (hr : r.Fits) (h : r.finish = .ok t) : TableFits t := by
  rw [Reader.finish] at h
  split at h
  · rcases hpush : r.pushField with _ | r₁
    · rw [hpush] at h
      exact nomatch h
    rw [hpush] at h
    simp only [bind, Except.bind] at h
    split at h
    · exact nomatch h
    · obtain rfl := Except.ok.inj h
      obtain ⟨hr₁, hne⟩ := hr.pushField hpush
      exact hr₁.pushRecord hne (by omega)
  · obtain rfl := Except.ok.inj h
    exact hr.table

theorem fits_start : (Reader.start []).Fits :=
  ⟨⟨Nat.zero_le _, fun _ hrow => nomatch hrow⟩, rowFits_nil, Nat.zero_le _⟩

theorem parseWith_eq_scan (hd : isDelimiter delimiter = true) (input : String) :
    parseWith input delimiter =
      (scan (step (delimByte delimiter)) (utf8 input) (.start []) >>= Reader.finish) := by
  rw [parseWith, hd]
  rfl

/-- **Every table that is read is within the limits.** -/
theorem parseWith_fits (hd : isDelimiter delimiter = true) {input : String}
    (h : parseWith input delimiter = .ok t) : TableFits t := by
  rw [parseWith_eq_scan hd] at h
  rcases hscan : scan (step (delimByte delimiter)) (utf8 input) (.start []) with _ | r
  · rw [hscan] at h
    exact nomatch h
  · rw [hscan] at h
    have hr := scan_invariant (fun _ _ _ _ _ hr hstep => fits_step hr hstep) fits_start hscan
    exact fits_finish hr h

/-! ## What is written -/

/-- A quote is doubled. -/
def double (b : UInt8) : ByteString := if b = quote then [quote, quote] else [b]

theorem utf8EncodeChar_double (c : Char) :
    (if c = '"' then ['"', '"'] else [c]).flatMap String.utf8EncodeChar =
      (String.utf8EncodeChar c).flatMap double := by
  split
  · next h =>
    subst h
    decide
  · next h =>
    -- the quote's byte occurs in no other character
    have hbytes : ∀ b ∈ String.utf8EncodeChar c, double b = [b] := by
      intro b hb
      refine if_neg fun hquote => ?_
      subst hquote
      by_cases hc : c.toNat < 128
      · rw [utf8EncodeChar_ascii hc, List.mem_singleton] at hb
        have hnat := congrArg UInt8.toNat hb
        rw [UInt8.toNat_ofNat'] at hnat
        refine h (Char.toNat_inj.mp ?_)
        have hq : quote.toNat = '"'.toNat := rfl
        omega
      · exact absurd (le_of_mem_utf8EncodeChar (by omega) hb) (by decide)
    rw [List.flatMap_singleton, List.flatMap_congr hbytes, List.flatMap_singleton']

/-- The bytes of a field. -/
theorem utf8_writeField (field : String) (delim : Char) :
    utf8 (writeField field delim) =
      if (utf8 field).any fun b => b == quote || b == cr || b == lf || b == delimByte delim then
        quote :: ((utf8 field).flatMap double ++ [quote])
      else utf8 field := by
  rw [writeField]
  cases hneeds : (utf8 field).any fun b => b == quote || b == cr || b == lf || b == delimByte delim with
  | false => rfl
  | true =>
    have hquote : utf8 "\"" = [quote] := by decide
    have hbody : utf8 (String.ofList (field.toList.flatMap fun c => if c = '"' then ['"', '"'] else [c])) =
        (utf8 field).flatMap double := by
      rw [utf8_ofList, encode, List.flatMap_assoc, List.flatMap_congr fun c _ => utf8EncodeChar_double c,
        utf8_eq_encode field, encode, List.flatMap_assoc]
    show utf8 ("\"" ++ _ ++ "\"") = _
    rw [utf8_append, utf8_append, hbody, hquote]
    rfl

theorem utf8_singleton_delim (hd : isDelimiter d = true) :
    utf8 (String.singleton d) = [delimByte d] := by
  simp only [isDelimiter, Bool.and_eq_true, decide_eq_true_eq] at hd
  rw [String.singleton_eq_ofList, utf8_ofList, encode_cons_ascii hd.1.1.1]
  rfl

theorem utf8_writeRow_true (d : Char) (cell : String) (row : List String) :
    utf8 (writeRow d true (cell :: row)) = utf8 (writeField cell d) ++ utf8 (writeRow d false row) := by
  rw [writeRow, utf8_append, utf8_append]
  rfl

theorem utf8_writeRow_false (hd : isDelimiter d = true) (cell : String) (row : List String) :
    utf8 (writeRow d false (cell :: row)) = delimByte d :: utf8 (writeRow d true (cell :: row)) :=
      by
  rw [utf8_writeRow_true, writeRow, utf8_append, utf8_append]
  show utf8 (String.singleton d) ++ _ ++ _ = _
  rw [utf8_singleton_delim hd]
  rfl

/-! ## Reading it back -/

section Read

variable {delim : UInt8} {r : Reader} {field rest : ByteString}

theorem quoted_cons_of_ne {c : UInt8} (hc : c ≠ quote) (hlen : field.length < maxCellBytes) :
    quoted (c :: rest) field = quoted rest (field ++ [c]) := by
  cases rest with
  | nil => simp only [quoted, if_neg hc, pushByte_of_lt c hlen]
  | cons c' rest => rw [quoted, if_neg hc, pushByte_of_lt c hlen]

theorem quoted_double (hlen : field.length < maxCellBytes) :
    quoted (quote :: quote :: rest) field = quoted rest (field ++ [quote]) := by
  rw [quoted, if_pos rfl, if_pos rfl, pushByte_of_lt quote hlen]

variable {x : UInt8} {d : Char} {cell : String}

/-- The bytes of a quoted field come back, up to the closing quote. -/
theorem quoted_flatMap_double (hx : x ≠ quote) (bytes : ByteString) (field : ByteString)
    (hlen : field.length + bytes.length ≤ maxCellBytes) :
    quoted (bytes.flatMap double ++ quote :: x :: rest) field = .ok (x :: rest, field ++ bytes) :=
      by
  induction bytes generalizing field with
  | nil =>
    rw [List.append_nil]
    exact (if_pos rfl).trans (if_neg hx)
  | cons b bytes ih =>
    rw [List.length_cons] at hlen
    have hrest := ih (field ++ [b]) (by rw [List.length_append, List.length_singleton]; omega)
    rw [List.append_assoc] at hrest
    rw [List.flatMap_cons, List.append_assoc, double]
    split
    · next hb =>
      subst hb
      exact (quoted_double (by omega)).trans hrest
    · next hb => exact (quoted_cons_of_ne hb (by omega)).trans hrest

theorem step_plain {b : UInt8} (hquote : b ≠ quote) (hdelim : b ≠ delim) (hcr : b ≠ cr) (hlf : b ≠ lf)
    (hlen : r.fieldBytes.length < maxCellBytes) :
    step delim b rest r = .ok (rest, { r with
      recordStarted := true, fieldInProgress := true, fieldBytes := r.fieldBytes ++ [b] }) := by
  rw [step, if_neg fun h => hquote h.1, if_neg hdelim, if_neg fun h => h.elim hcr hlf,
    pushByte_of_lt b hlen]
  rfl

/-- The delimiter is none of the other special bytes. -/
theorem delimByte_ne (hd : isDelimiter d = true) :
    delimByte d ≠ quote ∧ delimByte d ≠ cr ∧ delimByte d ≠ lf := by
  simp only [isDelimiter, Bool.and_eq_true, decide_eq_true_eq, bne_iff_ne, ne_eq] at hd
  obtain ⟨⟨⟨hascii, hquote⟩, hcr⟩, hlf⟩ := hd
  have hbyte : ∀ c : Char, ¬ d = c → delimByte d ≠ UInt8.ofNat c.toNat ∨ 128 ≤ c.toNat := by
    intro c hne
    by_contra hcon
    rw [not_or, ne_eq, not_not] at hcon
    have hnat := congrArg UInt8.toNat hcon.1
    rw [delimByte, UInt8.toNat_ofNat', UInt8.toNat_ofNat'] at hnat
    exact hne (Char.toNat_inj.mp (by omega))
  refine ⟨?_, ?_, ?_⟩
  · exact (hbyte '"' hquote).resolve_right (by decide)
  · exact (hbyte '\r' hcr).resolve_right (by decide)
  · exact (hbyte '\n' hlf).resolve_right (by decide)

/-- Bytes that need no quotes. -/
theorem scan_plain (bytes rest : ByteString)
    (hplain : ∀ b ∈ bytes, b ≠ quote ∧ b ≠ delim ∧ b ≠ cr ∧ b ≠ lf) (r : Reader)
    (hlen : r.fieldBytes.length + bytes.length ≤ maxCellBytes) :
    ∃ p q, scan (step delim) (bytes ++ rest) r = scan (step delim) rest { r with
      fieldBytes := r.fieldBytes ++ bytes, fieldInProgress := p, recordStarted := q } := by
  induction bytes generalizing r with
  | nil =>
    refine ⟨r.fieldInProgress, r.recordStarted, ?_⟩
    rw [List.append_nil]
    rfl
  | cons b bytes ih =>
    rw [List.length_cons] at hlen
    obtain ⟨hquote, hdelim, hcr, hlf⟩ := hplain b List.mem_cons_self
    obtain ⟨p, q, hrest⟩ := ih (fun b' hb' => hplain b' (List.mem_cons_of_mem b hb')) { r with
      recordStarted := true, fieldInProgress := true, fieldBytes := r.fieldBytes ++ [b] } (by
        show (r.fieldBytes ++ [b]).length + bytes.length ≤ maxCellBytes
        rw [List.length_append, List.length_singleton]
        omega)
    refine ⟨p, q, ?_⟩
    rw [List.cons_append, scan_cons (consuming_step delim) (step_plain hquote hdelim hcr hlf (by omega)),
      hrest]
    dsimp only
    rw [List.append_assoc]
    rfl

/-- **A field that was written is read**, whatever ends it. -/
theorem scan_writeField (hd : isDelimiter d = true) (r : Reader) (rest : ByteString)
    (hcell : (utf8 cell).length ≤ maxCellBytes) (hx : x = delimByte d ∨ x = lf)
    (hfield : r.fieldBytes = []) (hstart : r.fieldInProgress = false) :
    ∃ p q, scan (step (delimByte d)) (utf8 (writeField cell d) ++ x :: rest) r =
      scan (step (delimByte d)) (x :: rest) { r with
        fieldBytes := utf8 cell, fieldInProgress := p, recordStarted := q } := by
  have hx' : x ≠ quote := by
    rcases hx with rfl | rfl
    · exact (delimByte_ne hd).1
    · decide
  rw [utf8_writeField]
  split
  · refine ⟨true, true, ?_⟩
    have hquoted : quoted ((utf8 cell).flatMap double ++ [quote] ++ x :: rest) r.fieldBytes =
        .ok (x :: rest, utf8 cell) := by
      rw [hfield, List.append_assoc]
      exact quoted_flatMap_double hx' (utf8 cell) [] (by simpa using hcell)
    have htrailing : trailing (delimByte d) (x :: rest) (utf8 cell) = .ok (x :: rest, utf8 cell) := by
      rw [trailing, if_neg]
      rintro ⟨hne, -, hlf⟩
      exact hx.elim hne hlf
    rw [List.cons_append]
    refine scan_cons (consuming_step _) ?_
    rw [step, if_pos ⟨rfl, hstart⟩, hquoted]
    simp only [bind, Except.bind, htrailing]
    rfl
  · next hany =>
    have hplain : ∀ b ∈ utf8 cell, b ≠ quote ∧ b ≠ delimByte d ∧ b ≠ cr ∧ b ≠ lf := by
      intro b hb
      rw [Bool.not_eq_true, List.any_eq_false] at hany
      have hb' := hany b hb
      simp only [Bool.or_eq_true, beq_iff_eq, not_or] at hb'
      exact ⟨hb'.1.1.1, hb'.2, hb'.1.1.2, hb'.1.2⟩
    obtain ⟨p, q, hscan⟩ := scan_plain (utf8 cell) (x :: rest) hplain r (by simpa [hfield] using hcell)
    refine ⟨p, q, hscan.trans ?_⟩
    rw [hfield]
    rfl

/-- The cell that a delimiter ends. -/
theorem step_delim (hd : isDelimiter d = true) (hfield : r.fieldBytes = utf8 cell)
    (hcell : (utf8 cell).length ≤ maxCellBytes) (hcols : r.record.length < maxCols) :
    step (delimByte d) (delimByte d) rest r =
      .ok (rest, ⟨r.rows, r.record ++ [cell], [], false, true⟩) := by
  rw [step, if_neg fun h => (delimByte_ne hd).1 h.1, if_pos rfl, Reader.pushField,
    if_neg (by rw [hfield]; omega), if_neg (by show ¬ r.record.length ≥ maxCols; omega), hfield,
    ofUtf8?_utf8]
  rfl

/-- The cell and the row that a line feed ends. -/
theorem step_lf (hd : isDelimiter d = true) (hfield : r.fieldBytes = utf8 cell)
    (hcell : (utf8 cell).length ≤ maxCellBytes) (hcols : r.record.length < maxCols)
    (hrows : r.rows.length < maxRows) :
    step (delimByte d) lf rest r = .ok (rest, .start (r.rows ++ [r.record ++ [cell]])) := by
  have hskip : skipLf lf rest = rest := by
    cases rest with
    | nil => rfl
    | cons c rest => rw [skipLf, if_neg fun h => absurd h.1 (by decide)]
  have hpush : r.pushField = .ok { r with record := r.record ++ [cell], fieldBytes := [] } := by
    rw [Reader.pushField, if_neg (by rw [hfield]; omega), if_neg (by omega), hfield, ofUtf8?_utf8]
    rfl
  rw [step, if_neg fun h => absurd h.1 (by decide), if_neg fun h => (delimByte_ne hd).2.2 h.symm,
    if_pos (.inr rfl), hpush, hskip]
  simp only [bind, Except.bind]
  rw [if_neg (by omega)]
  rfl

/-- **A row that was written is read**, after the cells `r` has of it already. -/
theorem scan_writeRow (hd : isDelimiter d = true) {rows : List (List String)}
    (hrows : rows.length < maxRows) :
    ∀ (row done : List String) (started : Bool), row ≠ [] →
      (∀ cell ∈ row, (utf8 cell).length ≤ maxCellBytes) → done.length + row.length ≤ maxCols →
      scan (step (delimByte d)) (utf8 (writeRow d true row) ++ lf :: rest) ⟨rows, done, [], false,
      started⟩ = scan (step (delimByte d)) rest (.start (rows ++ [done ++ row])) := by
  intro row
  induction row with
  | nil =>
    intro done started hne
    exact absurd rfl hne
  | cons cell row ih =>
    intro done started _ hcells hlen
    have hcell := hcells cell List.mem_cons_self
    rw [List.length_cons] at hlen
    rw [utf8_writeRow_true, List.append_assoc]
    cases row with
    | nil =>
      obtain ⟨p, q, hfield⟩ := scan_writeField hd ⟨rows, done, [], false, started⟩ rest hcell (.inr rfl)
        rfl rfl
      exact hfield.trans (scan_cons (consuming_step _) (step_lf hd rfl hcell (by dsimp only; omega) hrows))
    | cons next row =>
      rw [utf8_writeRow_false hd, List.cons_append]
      obtain ⟨p, q, hfield⟩ := scan_writeField hd ⟨rows, done, [], false, started⟩ _ hcell (.inl rfl)
        rfl rfl
      rw [hfield, scan_cons (consuming_step _) (step_delim hd rfl hcell (by dsimp only; omega))]
      have hrest := ih (done ++ [cell]) true (List.cons_ne_nil _ _)
        (fun c hc => hcells c (List.mem_cons_of_mem _ hc)) (by
          rw [List.length_append, List.length_singleton]
          omega)
      rw [hrest, List.append_assoc]
      rfl

/-- **A table that was written is read**, after the rows there are already. -/
theorem scan_writeRows (hd : isDelimiter d = true) :
    ∀ (rows done : List (List String)), done.length + rows.length ≤ maxRows →
      (∀ row ∈ rows, RowFits row ∧ row ≠ []) →
      scan (step (delimByte d)) (utf8 (writeRows d rows)) (.start done) =
      .ok (.start (done ++ rows)) := by
  intro rows
  induction rows with
  | nil =>
    intro done _ _
    rw [List.append_nil]
    rfl
  | cons row rows ih =>
    intro done hlen hfits
    rw [List.length_cons] at hlen
    obtain ⟨hrow, hne⟩ := hfits row List.mem_cons_self
    have hlf : utf8 "\n" = [lf] := by decide
    rw [writeRows, utf8_append, utf8_append, hlf, List.append_assoc, Reader.start]
    refine (scan_writeRow hd (by omega) _ _ _ hne hrow.cells (by simpa using hrow.cols)).trans ?_
    have hrest := ih (done ++ [row]) (by rw [List.length_append, List.length_singleton]; omega)
      fun row' hrow' => hfits row' (List.mem_cons_of_mem _ hrow')
    rw [List.append_assoc] at hrest
    exact hrest

end Read

/-- What is written is read back. -/
theorem parseWith_toStringWith (hd : isDelimiter d = true) (ht : TableFits t) :
    parseWith (toStringWith t d) d = .ok t := by
  have hscan := scan_writeRows hd t.rows [] (by simpa using ht.rows) ht.row
  rw [parseWith_eq_scan hd, toStringWith, hd]
  show (scan _ (utf8 (writeRows d t.rows)) _ >>= _) = _
  rw [hscan]
  rfl

/-- **Round trip.** A table within the limits, whatever text is in its cells, comes back from
what is written for it; so does every table that was ever read. -/
theorem csv_roundTrip (d : Char) (hd : isDelimiter d = true) :
    (∀ t : Csv, TableFits t → parseWith (toStringWith t d) d = .ok t) ∧
    ∀ (input : String) (t : Csv), parseWith input d = .ok t → parseWith (toStringWith t d) d = .ok t := by
  constructor
  · intro t ht
    exact parseWith_toStringWith hd ht
  · intro input t hparse
    exact parseWith_toStringWith hd (parseWith_fits hd hparse)

/-- A table of one cell, with a quote, the delimiter and a line end in it. -/
theorem quotes_roundTrip : isDelimiter ';' = true ∧
    parseWith (toStringWith ⟨[["\";\r\n"]]⟩ ';') ';' = .ok ⟨[["\";\r\n"]]⟩ := by
  refine ⟨by decide, (csv_roundTrip ';' (by decide)).1 _ ⟨by decide, ?_⟩⟩
  intro row hrow
  rw [List.mem_singleton.mp hrow]
  refine ⟨⟨by decide, ?_⟩, by decide⟩
  intro cell hcell
  rw [List.mem_singleton.mp hcell]
  decide

end AthenaOS.Csv
