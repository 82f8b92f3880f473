import AthenaOS.Deflate.Gzip
import AthenaOS.Zip.Archive

/-!
# Archives read back

An archive is its local part and its directory. The writer's output reads back record by record,
unless it has exactly 65535 entries: the reader takes that count for the ZIP64 sentinel.
-/

namespace AthenaOS.Zip

open Lib Lib.Wire Deflate

/-! ## What the writer writes -/

/-- The entry `add_file` stages for a call. -/
def pending (call : String × ByteString × Method) : PendingEntry where
  name := call.1
  method := (resolveBody call.2.1 call.2.2).1
  crc := (crc32 call.2.1).toNat
  uncompressedSize := call.2.1.length % 2 ^ 32
  body := (resolveBody call.2.1 call.2.2).2

/-- A call that returns `Ok`. -/
theorem addFile_ok {w w' : ZipWriter} {name : String} {data : ByteString} {method : Method} {u : Unit}
    (h : w.addFile name data method = (.ok u, w')) :
    w.poisoned = none ∧ w.entries.length < maxWriteEntries ∧ (utf8 name).length ≤ 0xFFFF ∧
      w' = { w with
        localBytes := w.localBytes + (localFixedLen + (utf8 name).length + (pending (name, data, method)).body.length)
        entries := w.entries ++ [pending (name, data, method)] } := by
  rw [ZipWriter.addFile] at h
  split at h
  · exact nomatch h
  · rename_i hclean
    split at h
    · exact nomatch h
    · rename_i hcount
      split at h
      · exact nomatch h
      · dsimp only at h
        split at h
        · exact nomatch h
        · rename_i hname
          split at h
          · exact nomatch h
          · obtain ⟨-, rfl⟩ := Prod.mk.inj h
            exact ⟨hclean, by omega, by omega, rfl⟩

/-- The calls' entries, in order. -/
theorem addFiles_ok {calls : List (String × ByteString × Method)} {w w' : ZipWriter}
    (h : addFiles calls w = some w') (hclean : w.poisoned = none)
    (hcount : w.entries.length ≤ maxWriteEntries) :
    w'.poisoned = none ∧ w'.entries = w.entries ++ calls.map pending ∧
      w'.entries.length ≤ maxWriteEntries ∧ ∀ call ∈ calls, (utf8 call.1).length ≤ 0xFFFF := by
  induction calls generalizing w with
  | nil =>
    obtain rfl := Option.some.inj h
    exact ⟨hclean, (List.append_nil _).symm, hcount, fun _ hc => absurd hc List.not_mem_nil⟩
  | cons call calls ih =>
    obtain ⟨name, data, method⟩ := call
    rw [addFiles] at h
    split at h
    · rename_i u w₁ hadd
      obtain ⟨-, hroom, hname, rfl⟩ := addFile_ok hadd
      obtain ⟨hclean', hentries, hcount', hnames⟩ := ih h hclean (by
        rw [List.length_append, List.length_singleton]
        exact hroom)
      refine ⟨hclean', ?_, hcount', fun call hcall => ?_⟩
      · rw [hentries, List.map_cons, List.append_assoc]
        rfl
      · rcases List.mem_cons.mp hcall with rfl | hcall
        · exact hname
        · exact hnames call hcall
    · exact nomatch h

/-- The local part of an archive. -/
def locals (entries : List PendingEntry) : ByteString :=
  entries.flatMap fun e => localHeader e ++ e.body

/-- Where each entry's local header starts. -/
def offsetsFrom (start : Nat) : List PendingEntry → List Nat
  | [] => []
  | e :: es => start :: offsetsFrom (start + (localHeader e ++ e.body).length) es

/-- The central directory of an archive. -/
def directory (entries : List PendingEntry) : ByteString :=
  centralDirectory entries (offsetsFrom 0 entries)

variable {es : List PendingEntry} {k cdEnd : Nat} {e : PendingEntry} {data : ByteString}

theorem writeLocals_fst {out out' : ByteString} {offsets offsets' : List Nat}
    (h : writeLocals es out offsets = .ok (out', offsets')) : out' = out ++ locals es := by
  induction es generalizing out offsets with
  | nil =>
    obtain ⟨rfl, -⟩ := Prod.mk.inj (Except.ok.inj h)
    exact (List.append_nil _).symm
  | cons e es ih =>
    rw [writeLocals] at h
    split at h
    · exact nomatch h
    · rw [ih h, locals, locals, List.flatMap_cons, List.append_assoc]

theorem writeLocals_eq (es : List PendingEntry) (out : ByteString) (offsets : List Nat)
    (h : out.length + (locals es).length ≤ maxArchiveSize) :
    writeLocals es out offsets = .ok (out ++ locals es, offsets ++ offsetsFrom out.length es) := by
  induction es generalizing out offsets with
  | nil => rw [writeLocals, locals, List.flatMap_nil, List.append_nil, offsetsFrom, List.append_nil]
  | cons e es ih =>
    have hlen : (locals (e :: es)).length = (localHeader e ++ e.body).length + (locals es).length := by
      rw [locals, List.flatMap_cons, List.length_append]
      rfl
    have hmod : out.length % 2 ^ 32 = out.length := by
      rw [maxArchiveSize] at h
      exact Nat.mod_eq_of_lt (by omega)
    rw [writeLocals, if_neg (by omega), ih _ _ (by rw [List.length_append]; omega), hmod, offsetsFrom,
      List.length_append, locals, locals, List.flatMap_cons, List.append_assoc, List.append_assoc,
      List.append_assoc]
    rfl

/-- **What `finish` writes**, and when. -/
theorem finish_ok {w : ZipWriter} (hclean : w.poisoned = none)
    (hcount : w.entries.length ≤ maxWriteEntries) {bytes : ByteString} :
    w.finish = .ok bytes ↔
      (locals w.entries).length + (directory w.entries).length ≤ maxArchiveSize ∧
        bytes = locals w.entries ++ (directory w.entries ++ endRecord w.entries.length
          (directory w.entries).length (locals w.entries).length) := by
  have hfinish : (locals w.entries).length ≤ maxArchiveSize → w.finish =
      if maxArchiveSize < (locals w.entries).length + (directory w.entries).length ∨
          maxArchiveSize < (directory w.entries).length then .error .tooLarge
      else .ok (locals w.entries ++ (directory w.entries ++ endRecord w.entries.length
        (directory w.entries).length (locals w.entries).length)) := by
    intro hlocals
    rw [ZipWriter.finish, hclean]
    dsimp only
    rw [if_neg (by omega), writeLocals_eq w.entries [] [] (by rw [List.length_nil]; omega)]
    show (if maxArchiveSize < (locals w.entries).length then _ else _) = _
    rw [if_neg (by omega)]
    rfl
  constructor
  · intro h
    have hlocals : (locals w.entries).length ≤ maxArchiveSize := by
      rw [ZipWriter.finish, hclean] at h
      dsimp only at h
      rw [if_neg (by omega)] at h
      obtain ⟨⟨out, offsets⟩, hwrite, h⟩ := except_bind_ok h
      have hout := writeLocals_fst hwrite
      rw [List.nil_append] at hout
      dsimp only at h
      split at h
      · exact nomatch h
      · rw [← hout]
        omega
    rw [hfinish hlocals] at h
    split at h
    · exact nomatch h
    · exact ⟨by omega, (Except.ok.inj h).symm⟩
  · rintro ⟨hsize, rfl⟩
    rw [hfinish (by omega), if_neg (by omega)]

/-! ## Reading fields -/

/-- A field inside a part of the data. -/
theorem rdLe_mid {pre mid suf : ByteString} {w : Nat} (h : k + w ≤ mid.length) :
    rdLe w (pre ++ (mid ++ suf)) (pre.length + k) = some (leNat (slice mid k w)) := by
  rw [rdLe, if_pos (by simp only [List.length_append]; omega),
    slice_append_right _ _ (Nat.le_add_right _ _), Nat.add_sub_cancel_left, slice_append_left _ _ h]

/-- A field of a record that holds a number that fits it. -/
theorem rdLe_field (pre mid suf : ByteString) {w n : Nat} (h : k + w ≤ mid.length)
    (hfield : slice mid k w = leBytes w n) (hn : n < 256 ^ w) :
    rdLe w (pre ++ (mid ++ suf)) (pre.length + k) = some n := by
  rw [rdLe_mid h, hfield, leNat_leBytes_of_lt hn]

theorem length_localHeader (e : PendingEntry) : (localHeader e).length = 30 + (utf8 e.name).length := by
  simp only [localHeader, List.length_append, length_leBytes]
  omega

theorem length_centralRecord (e : PendingEntry) (off : Nat) :
    (centralRecord e off).length = 46 + (utf8 e.name).length := by
  simp only [centralRecord, List.length_append, length_leBytes]
  omega

theorem length_endRecord (count cdSize cdOffset : Nat) : (endRecord count cdSize cdOffset).length = 22 := by
  simp only [endRecord, List.length_append, length_leBytes]

theorem orErr_bind {α β : Type} {e : ZipError} {a : α} {f : α → Except ZipError β} :
    (orErr e (some a) >>= f) = f a := rfl

/-- An entry whose numbers fit their fields. -/
structure Fits (e : PendingEntry) : Prop where
  name : (utf8 e.name).length < 256 ^ 2
  method : e.method < 256 ^ 2
  crc : e.crc < 256 ^ 4
  body : e.body.length < 256 ^ 4
  size : e.uncompressedSize < 256 ^ 4

/-- The directory entry of a staged entry. -/
def entryOf (e : PendingEntry) (off : Nat) : ZipEntry where
  name := e.name
  size := e.uncompressedSize
  compressedSize := e.body.length
  method := e.method
  crc32 := e.crc
  isDir := endsWithSeparator e.name
  flags := 0
  localHeaderOffset := off

/-- **One record of the central directory** is read back. -/
theorem readCentral_at (hfits : Fits e) {off : Nat} (hoff : off < 256 ^ 4) (pre suf : ByteString)
    (hend : pre.length + (centralRecord e off).length ≤ cdEnd) :
    readCentral (pre ++ (centralRecord e off ++ suf)) cdEnd pre.length =
      .ok (entryOf e off, pre.length + (centralRecord e off).length) := by
  have hlen := length_centralRecord e off
  rw [hlen] at hend
  have hsig : rdLe 4 (pre ++ (centralRecord e off ++ suf)) pre.length = some sigCentral :=
    rdLe_field _ _ _ (k := 0) (by omega) rfl (by decide)
  have hflags : rdLe 2 (pre ++ (centralRecord e off ++ suf)) (pre.length + 8) = some 0 :=
    rdLe_field _ _ _ (by omega) rfl (by decide)
  have hmethod : rdLe 2 (pre ++ (centralRecord e off ++ suf)) (pre.length + 10) = some e.method :=
    rdLe_field _ _ _ (by omega) rfl hfits.method
  have hcrc : rdLe 4 (pre ++ (centralRecord e off ++ suf)) (pre.length + 16) = some e.crc :=
    rdLe_field _ _ _ (by omega) rfl hfits.crc
  have hcomp : rdLe 4 (pre ++ (centralRecord e off ++ suf)) (pre.length + 20) = some e.body.length :=
    rdLe_field _ _ _ (by omega) rfl hfits.body
  have hsize : rdLe 4 (pre ++ (centralRecord e off ++ suf)) (pre.length + 24) = some e.uncompressedSize :=
    rdLe_field _ _ _ (by omega) rfl hfits.size
  have hname : rdLe 2 (pre ++ (centralRecord e off ++ suf)) (pre.length + 28) =
      some (utf8 e.name).length := rdLe_field _ _ _ (by omega) rfl hfits.name
  have hextra : rdLe 2 (pre ++ (centralRecord e off ++ suf)) (pre.length + 30) = some 0 :=
    rdLe_field _ _ _ (by omega) rfl (by decide)
  have hcomment : rdLe 2 (pre ++ (centralRecord e off ++ suf)) (pre.length + 32) = some 0 :=
    rdLe_field _ _ _ (by omega) rfl (by decide)
  have hlho : rdLe 4 (pre ++ (centralRecord e off ++ suf)) (pre.length + 42) = some off :=
    rdLe_field _ _ _ (by omega) rfl hoff
  have hbytes : slice (pre ++ (centralRecord e off ++ suf)) (pre.length + 46) (utf8 e.name).length =
      utf8 e.name := by
    rw [slice_append_right _ _ (Nat.le_add_right _ _), Nat.add_sub_cancel_left,
      slice_append_left _ _ (by omega)]
    show (utf8 e.name).take (utf8 e.name).length = _
    exact List.take_length
  rw [readCentral, if_neg (by rw [centralFixedLen]; omega), hsig, orErr_bind,
    if_neg (fun hc => hc rfl), hflags, orErr_bind, hmethod, orErr_bind, hcrc, orErr_bind, hcomp,
    orErr_bind, hsize, orErr_bind, hname, orErr_bind, hextra, orErr_bind, hcomment, orErr_bind, hlho,
    orErr_bind, centralFixedLen, if_neg (by omega), hbytes, ofUtf8?_utf8, orErr_bind]
  dsimp only
  rw [if_neg (by omega), hlen]
  rfl

/-- The directory reads back as the staged entries, each with its offset. -/
def entriesFrom (start : Nat) : List PendingEntry → List ZipEntry
  | [] => []
  | e :: es => entryOf e start :: entriesFrom (start + (localHeader e ++ e.body).length) es

/-- The directory of entries whose local parts start at `start`. -/
def directoryFrom (start : Nat) (entries : List PendingEntry) : ByteString :=
  centralDirectory entries (offsetsFrom start entries)

theorem directoryFrom_cons (start : Nat) (e : PendingEntry) (es : List PendingEntry) :
    directoryFrom start (e :: es) =
      centralRecord e start ++ directoryFrom (start + (localHeader e ++ e.body).length) es := by
  rw [directoryFrom, offsetsFrom, centralDirectory, List.zip_cons_cons, List.flatMap_cons]
  rfl

/-- **The central directory** is read back. -/
theorem readCentrals_at (es : List PendingEntry) (hfits : ∀ e ∈ es, Fits e) (start : Nat)
    (hstart : start + (locals es).length < 256 ^ 4) (pre suf : ByteString)
    (hend : pre.length + (directoryFrom start es).length ≤ cdEnd) :
    readCentrals (pre ++ (directoryFrom start es ++ suf)) cdEnd es.length pre.length =
      .ok (entriesFrom start es) := by
  induction es generalizing start pre with
  | nil => rfl
  | cons e es ih =>
    have hlocals : (locals (e :: es)).length = (localHeader e ++ e.body).length + (locals es).length := by
      rw [locals, List.flatMap_cons, List.length_append]
      rfl
    rw [directoryFrom_cons, List.length_append] at hend
    rw [directoryFrom_cons, List.append_assoc, List.length_cons, readCentrals,
      readCentral_at (hfits e List.mem_cons_self) (by omega) pre _ (by omega)]
    have hrest := ih (fun e' he' => hfits e' (List.mem_cons_of_mem _ he'))
      (start + (localHeader e ++ e.body).length) (by omega) (pre ++ centralRecord e start)
      (by rw [List.length_append]; omega)
    have hpre : (pre ++ centralRecord e start).length = pre.length + (centralRecord e start).length :=
      List.length_append
    rw [List.append_assoc, hpre] at hrest
    show (readCentrals _ cdEnd es.length (pre.length + (centralRecord e start).length) >>= fun entries =>
      pure (entryOf e start :: entries)) = _
    rw [hrest]
    rfl

/-- **The whole archive opens**, unless its count is the ZIP64 sentinel. -/
theorem open_archive (hfits : ∀ e ∈ es, Fits e) (hcount : es.length ≤ maxWriteEntries)
    (hsize : (locals es).length + (directory es).length ≤ maxArchiveSize) :
    Archive.open (locals es ++ (directory es ++
      endRecord es.length (directory es).length (locals es).length)) = if es.length =
      0xFFFF then .error .unsupported else .ok
      ⟨locals es ++ (directory es ++ endRecord es.length (directory es).length (locals es).length),
      entriesFrom 0 es⟩ := by
  rw [maxWriteEntries] at hcount
  rw [maxArchiveSize] at hsize
  generalize hbytes : locals es ++ (directory es ++ endRecord es.length (directory es).length
    (locals es).length) = bytes
  have hsplit : bytes = (locals es ++ directory es) ++ (endRecord es.length (directory es).length
      (locals es).length ++ []) := by
    rw [← hbytes, List.append_nil, List.append_assoc]
  have hlen : bytes.length = (locals es ++ directory es).length + 22 := by
    rw [hsplit, List.append_nil, List.length_append, length_endRecord]
  have hpre : (locals es ++ directory es).length = (locals es).length + (directory es).length :=
    List.length_append
  have hrec := length_endRecord es.length (directory es).length (locals es).length
  -- the end record is found at once
  have hfind : findEocd bytes = some (locals es ++ directory es).length := by
    have hsig : rdLe 4 bytes (locals es ++ directory es).length = some sigEocd := by
      rw [hsplit]
      exact rdLe_field _ _ _ (k := 0) (by omega) rfl (by decide)
    have hcomment : rdLe 2 bytes ((locals es ++ directory es).length + 20) = some 0 := by
      rw [hsplit]
      exact rdLe_field _ _ _ (by omega) rfl (by decide)
    have hhere : isEocd bytes (locals es ++ directory es).length = true := by
      rw [isEocd, hsig, hcomment, eocdMinLen]
      simp only [decide_true, Bool.true_and, decide_eq_true_eq]
      omega
    rw [findEocd, eocdMinLen, if_neg (by omega), hlen, Nat.add_sub_cancel]
    cases hi : (locals es ++ directory es).length with
    | zero =>
      rw [hi] at hhere
      rw [scanEocd, if_pos hhere]
    | succ i =>
      rw [hi] at hhere
      rw [scanEocd, if_pos hhere]
  have hfield : ∀ (w k n : Nat), k + w ≤ 22 → slice (endRecord es.length (directory es).length
      (locals es).length) k w = leBytes w n → n < 256 ^ w →
      rdLe w (bytes.drop (locals es ++ directory es).length) k = some n := by
    intro w k n hk hmid hn
    have h := rdLe_field [] (endRecord es.length (directory es).length (locals es).length) []
      (by omega : k + w ≤ _) hmid hn
    rw [List.nil_append, List.length_nil, Nat.zero_add] at h
    rw [hsplit, List.drop_left]
    exact h
  have hempty : es = [] → (locals es).length = 0 ∧ (directory es).length = 0 := by
    rintro rfl
    exact ⟨rfl, rfl⟩
  have hnonempty : es ≠ [] → 0 < (locals es).length ∧ 0 < (directory es).length := by
    intro hne
    obtain ⟨e, es', rfl⟩ := List.exists_cons_of_ne_nil hne
    have hd : directory (e :: es') = directoryFrom 0 (e :: es') := rfl
    rw [hd, directoryFrom_cons, locals, List.flatMap_cons, List.length_append, List.length_append,
      List.length_append, length_localHeader, length_centralRecord]
    omega
  rw [Archive.open, eocdMinLen, if_neg (by omega), hfind, orErr_bind]
  dsimp only
  rw [hfield 2 10 es.length (by decide) rfl (by omega), orErr_bind,
    hfield 4 12 (directory es).length (by decide) rfl (by omega), orErr_bind,
    hfield 4 16 (locals es).length (by decide) rfl (by omega), orErr_bind]
  by_cases hsentinel : es.length = 0xFFFF
  · rw [if_pos (.inl hsentinel), if_pos hsentinel]
  · have hother : ¬ (es.length = 0xFFFF ∨ (directory es).length = 0xFFFFFFFF ∨
        (locals es).length = 0xFFFFFFFF) := by
      by_cases hes : es = []
      · have := hempty hes
        omega
      · have := hnonempty hes
        omega
    rw [if_neg hother, if_neg (by rw [maxEntries]; omega), if_neg (by omega), if_neg hsentinel]
    have hread := readCentrals_at es hfits 0 (by omega) (locals es)
      (endRecord es.length (directory es).length (locals es).length) (Nat.le_refl _)
    have hdir : directoryFrom 0 es = directory es := rfl
    rw [hdir, hbytes] at hread
    rw [hread]
    rfl

/-! ## Reading entries -/

/-- An entry that `add_file` can stage for `data`, small enough for the reader. -/
structure Stages (e : PendingEntry) (data : ByteString) : Prop where
  fits : Fits e
  small : data.length ≤ maxEntrySize
  crc : e.crc = (crc32 data).toNat
  size : e.uncompressedSize = data.length
  body : e.method = 0 ∧ e.body = data ∨ e.method = 8 ∧ e.body = Deflate.deflate data

/-- **One entry's body** is found through its local header. -/
theorem compressed_at (hfits : Fits e) (pre suf : ByteString) (entries : List ZipEntry) :
    Archive.compressed ⟨pre ++ ((localHeader e ++ e.body) ++ suf), entries⟩ (entryOf e pre.length) =
      .ok e.body := by
  have hlen := length_localHeader e
  have hassoc : pre ++ ((localHeader e ++ e.body) ++ suf) = pre ++ (localHeader e ++ (e.body ++ suf)) := by
    rw [List.append_assoc]
  rw [hassoc]
  have htotal : (pre ++ (localHeader e ++ (e.body ++ suf))).length =
      pre.length + (30 + (utf8 e.name).length + (e.body.length + suf.length)) := by
    rw [List.length_append, List.length_append, List.length_append, hlen]
  have hsig : rdLe 4 (pre ++ (localHeader e ++ (e.body ++ suf))) pre.length = some sigLocal :=
    rdLe_field _ _ _ (k := 0) (by omega) rfl (by decide)
  have hmethod : rdLe 2 (pre ++ (localHeader e ++ (e.body ++ suf))) (pre.length + 8) = some e.method :=
    rdLe_field _ _ _ (by omega) rfl hfits.method
  have hname : rdLe 2 (pre ++ (localHeader e ++ (e.body ++ suf))) (pre.length + 26) =
      some (utf8 e.name).length := rdLe_field _ _ _ (by omega) rfl hfits.name
  have hextra : rdLe 2 (pre ++ (localHeader e ++ (e.body ++ suf))) (pre.length + 28) = some 0 :=
    rdLe_field _ _ _ (by omega) rfl (by decide)
  have hbody : slice (pre ++ (localHeader e ++ (e.body ++ suf)))
      (pre.length + 30 + (utf8 e.name).length + 0) e.body.length = e.body := by
    rw [← List.append_assoc]
    exact slice_append_mid _ _ _ (by rw [List.length_append, hlen]; omega) rfl
  rw [Archive.compressed, entryOf, localFixedLen]
  dsimp only
  rw [htotal, if_neg (by omega), hsig, orErr_bind, if_neg (fun hc => hc rfl), hmethod, orErr_bind, hname,
    orErr_bind, hextra, orErr_bind, if_neg (fun hc => hc rfl), if_neg (by omega), hbody]

/-- The body expands to the data it was made from. -/
theorem expand_body (h : Stages e data) (off : Nat) : (entryOf e off).expand e.body = .ok data := by
  rw [ZipEntry.expand, entryOf]
  dsimp only
  rcases h.body with ⟨hmethod, hbody⟩ | ⟨hmethod, hbody⟩
  · rw [if_pos hmethod, if_neg (by rw [hbody, h.size]; exact fun hc => hc rfl), hbody]
  · have hcap : data.length ≤ min data.length maxEntrySize := Nat.le_min.mpr ⟨Nat.le_refl _, h.small⟩
    rw [if_neg (by omega), if_pos hmethod, inflate, h.size, hbody, inflateCapped_deflate hcap]
    rfl

/-- The ratio guard admits what the writer compressed: DEFLATE expands at most 1032-fold. -/
theorem ratio_deflate (h : Stages e data) (hmethod : e.method = 8) :
    e.uncompressedSize / max e.body.length 1 ≤ maxRatio := by
  have hbody : e.body = Deflate.deflate data := by
    rcases h.body with ⟨hstored, -⟩ | ⟨-, hbody⟩
    · omega
    · exact hbody
  obtain ⟨-, hratio, -⟩ := inflateCapped_ok (inflateCapped_deflate (Nat.le_refl data.length))
  rw [h.size, hbody, maxRatio]
  refine Nat.div_le_of_le_mul ?_
  have hmax : (Deflate.deflate data).length ≤ max (Deflate.deflate data).length 1 := Nat.le_max_left _ _
  omega

/-- **One entry is read back** where it lies. -/
theorem readEntry_at (h : Stages e data) (hfile : endsWithSeparator e.name = false)
    (pre suf : ByteString) (entries : List ZipEntry) :
    Archive.readEntry ⟨pre ++ ((localHeader e ++ e.body) ++ suf), entries⟩ (entryOf e pre.length) =
      .ok data := by
  have hratio : ¬ (e.method = 8 ∧ 0 < e.body.length ∧ maxRatio < e.uncompressedSize / max e.body.length 1) := by
    rintro ⟨hmethod, -, hlt⟩
    have := ratio_deflate h hmethod
    omega
  rw [Archive.readEntry, compressed_at h.fits]
  show (if false = true then _ else if endsWithSeparator e.name = true then _ else
    if maxEntrySize < e.uncompressedSize then _ else if e.method = 8 ∧ 0 < e.body.length ∧
      maxRatio < e.uncompressedSize / max e.body.length 1 then _ else
        ((entryOf e pre.length).expand e.body >>= fun out => _)) = _
  rw [if_neg (by decide), if_neg (by rw [hfile]; decide), if_neg (by rw [h.size]; have := h.small; omega),
    if_neg hratio, expand_body h]
  show (if data.length ≠ e.uncompressedSize then _ else if (crc32 data).toNat ≠ e.crc then _ else _) = _
  rw [if_neg (fun hc => hc h.size.symm), if_neg (fun hc => hc h.crc.symm)]

/-- The `i`-th entry of the directory, and where its local part lies. -/
theorem entriesFrom_getElem? {start i : Nat} {entry : ZipEntry}
    (h : (entriesFrom start es)[i]? = some entry) :
    ∃ e pre suf, es[i]? = some e ∧ locals es = pre ++ ((localHeader e ++ e.body) ++ suf) ∧
      entry = entryOf e (start + pre.length) := by
  induction es generalizing start i with
  | nil => exact nomatch h
  | cons e es ih =>
    have hcons : locals (e :: es) = (localHeader e ++ e.body) ++ locals es := by
      rw [locals, List.flatMap_cons]
      rfl
    cases i with
    | zero =>
      refine ⟨e, [], locals es, rfl, hcons, ?_⟩
      exact (Option.some.inj h).symm
    | succ i =>
      have htail : (entriesFrom (start + (localHeader e ++ e.body).length) es)[i]? = some entry := h
      obtain ⟨e', pre, suf, he', hlocals, rfl⟩ := ih htail
      refine ⟨e', (localHeader e ++ e.body) ++ pre, suf, he', ?_, ?_⟩
      · rw [hcons, hlocals, List.append_assoc (localHeader e ++ e.body)]
      · rw [List.length_append, List.length_append, List.length_append, Nat.add_assoc]

theorem map_name_entriesFrom (start : Nat) (es : List PendingEntry) :
    (entriesFrom start es).map (·.name) = es.map (·.name) := by
  induction es generalizing start with
  | nil => rfl
  | cons e es ih =>
    rw [entriesFrom, List.map_cons, List.map_cons, ih]
    rfl

/-! ## The round trip -/

/-- A staged entry is no longer than the local part it is written to. -/
theorem length_body_le (he : e ∈ es) : e.body.length ≤ (locals es).length := by
  obtain ⟨before, after, rfl⟩ := List.append_of_mem he
  rw [locals, List.flatMap_append, List.flatMap_cons, List.length_append, List.length_append,
    List.length_append]
  omega

/-- What `add_file` stages. -/
theorem stages_pending {call : String × ByteString × Method} (hname : (utf8 call.1).length ≤ 0xFFFF)
    (hsmall : call.2.1.length ≤ maxEntrySize) (hbody : (pending call).body.length ≤ maxArchiveSize) :
    Stages (pending call) call.2.1 := by
  obtain ⟨name, data, method⟩ := call
  dsimp only at hname hsmall ⊢
  have hmod : data.length % 2 ^ 32 = data.length := by
    rw [maxEntrySize] at hsmall
    exact Nat.mod_eq_of_lt (by omega)
  have hresolve : (resolveBody data method).1 = 0 ∧ (resolveBody data method).2 = data ∨
      (resolveBody data method).1 = 8 ∧ (resolveBody data method).2 = Deflate.deflate data := by
    cases method with
    | stored => exact .inl ⟨rfl, rfl⟩
    | deflate =>
      rw [resolveBody]
      split
      · exact .inr ⟨rfl, rfl⟩
      · exact .inl ⟨rfl, rfl⟩
  rw [maxArchiveSize] at hbody
  rw [maxEntrySize] at hsmall
  refine ⟨⟨?_, ?_, ?_, ?_, ?_⟩, ?_, rfl, hmod, hresolve⟩
  · exact Nat.lt_succ_of_le hname
  · show (resolveBody data method).1 < _
    rcases hresolve with ⟨h, -⟩ | ⟨h, -⟩ <;> omega
  · exact (crc32 data).toNat_lt
  · omega
  · exact Nat.mod_lt _ (by decide)
  · rw [maxEntrySize]
    exact hsmall

/-- The archive reads back as the calls that made it: the names in order, and every entry's
data. -/
def RoundTrips (calls : List (String × ByteString × Method)) (bytes : ByteString) : Prop :=
  ∃ a, Archive.open bytes = .ok a ∧ a.entries.map (·.name) = calls.map (·.1) ∧
    ∀ (i : Nat) entry call, a.entries[i]? = some entry → calls[i]? = some call →
      a.readEntry entry = .ok call.2.1

/-- **An archive the writer finishes reads back exactly when it has not 65535 entries.** -/
theorem zip_roundTrips_iff {calls : List (String × ByteString × Method)} {w : ZipWriter}
    {bytes : ByteString} (hfiles : ∀ call ∈ calls, endsWithSeparator call.1 = false)
    (hsmall : ∀ call ∈ calls, call.2.1.length ≤ maxEntrySize) (hadd : addFiles calls .new = some w)
    (hfinish : w.finish = .ok bytes) : RoundTrips calls bytes ↔ calls.length ≠ 0xFFFF := by
  obtain ⟨hclean, hentries, hcount, hnames⟩ := addFiles_ok hadd rfl (Nat.zero_le _)
  have hes : w.entries = calls.map pending := hentries
  obtain ⟨hsize, rfl⟩ := (finish_ok hclean hcount).mp hfinish
  rw [hes] at hsize hcount ⊢
  have hstages : ∀ call ∈ calls, Stages (pending call) call.2.1 := fun call hcall =>
    stages_pending (hnames call hcall) (hsmall call hcall)
      (by have := length_body_le (List.mem_map_of_mem (f := pending) hcall); omega)
  have hfits : ∀ e ∈ calls.map pending, Fits e := by
    intro e he
    obtain ⟨call, hcall, rfl⟩ := List.mem_map.mp he
    exact (hstages call hcall).fits
  have hopen := open_archive hfits hcount hsize
  have hlength : (calls.map pending).length = calls.length := List.length_map _
  constructor
  · rintro ⟨a, ha, -⟩ hsentinel
    rw [hopen, if_pos (hlength.trans hsentinel)] at ha
    exact nomatch ha
  · intro hne
    refine ⟨_, hopen.trans (if_neg (fun hc => hne (hlength.symm.trans hc))), ?_, ?_⟩
    · rw [map_name_entriesFrom, List.map_map]
      rfl
    · intro i entry call hentry hcall
      obtain ⟨e, pre, suf, he, hlocals, rfl⟩ := entriesFrom_getElem? hentry
      obtain rfl : pending call = e := by
        rw [List.getElem?_map, hcall] at he
        exact Option.some.inj he
      have hmem := List.mem_of_getElem? hcall
      rw [Nat.zero_add]
      have h := readEntry_at (hstages call hmem) (hfiles call hmem) pre
        (suf ++ (directory (calls.map pending) ++ endRecord (calls.map pending).length
          (directory (calls.map pending)).length (locals (calls.map pending)).length))
        (entriesFrom 0 (calls.map pending))
      rw [← List.append_assoc _ suf, ← List.append_assoc pre, ← hlocals] at h
      exact h

/-- A file that DEFLATE makes smaller, an empty one, and one that is stored. -/
def threeFiles : List (String × ByteString × Method) :=
  [("a", [1, 2, 3, 1, 2, 3, 1, 2, 3, 1, 2, 3], .deflate), ("b", [], .deflate), ("é", [1, 2], .stored)]

theorem zip_roundTrips_three : ∃ w bytes, addFiles threeFiles .new = some w ∧
    w.entries.map (·.method) = [8, 0, 0] ∧ w.finish = .ok bytes ∧ RoundTrips threeFiles bytes := by
  have heval : (addFiles threeFiles .new).any
      (fun w => w.entries.map (·.method) = [8, 0, 0] && w.finish.isOk) = true := by
    decide +kernel
  obtain ⟨w, hw, hfacts⟩ := (Option.any_eq_true _ _).mp heval
  rw [Bool.and_eq_true, decide_eq_true_eq] at hfacts
  obtain ⟨hmethods, hok⟩ := hfacts
  cases hfinish : w.finish with
  | error e =>
    rw [hfinish] at hok
    exact nomatch hok
  | ok bytes =>
    exact ⟨w, bytes, hw, hmethods, hfinish,
      (zip_roundTrips_iff (by decide +kernel) (by decide +kernel) hw hfinish).mpr (by decide)⟩

/-- `n` empty files of the same name. -/
def emptyFiles (n : Nat) : List (String × ByteString × Method) := List.replicate n ("a", [], .stored)

theorem addFiles_emptyFiles (n : Nat) (w : ZipWriter) (hclean : w.poisoned = none)
    (hcount : w.entries.length + n ≤ maxWriteEntries) (hbytes : w.localBytes + 31 * n ≤ maxArchiveSize) :
    ∃ w', addFiles (emptyFiles n) w = some w' := by
  induction n generalizing w with
  | zero => exact ⟨w, rfl⟩
  | succ n ih =>
    have hadd : w.addFile "a" [] .stored = (.ok (), { w with
        localBytes := w.localBytes + 31, entries := w.entries ++ [pending ("a", [], .stored)] }) := by
      have hlocal : localFixedLen + (utf8 "a").length + ([] : ByteString).length = 31 := by decide
      rw [ZipWriter.addFile, hclean]
      dsimp only [resolveBody]
      rw [if_neg (by omega), if_neg (by decide), if_neg (by decide), hlocal, if_neg (by omega)]
      rfl
    obtain ⟨w', hw'⟩ := ih { w with
        localBytes := w.localBytes + 31, entries := w.entries ++ [pending ("a", [], .stored)] } hclean
      (by rw [List.length_append, List.length_singleton]; omega) (by dsimp only; omega)
    refine ⟨w', ?_⟩
    rw [emptyFiles, List.replicate_succ, addFiles, hadd]
    exact hw'

theorem length_locals_emptyFiles (n : Nat) : (locals ((emptyFiles n).map pending)).length = 31 * n := by
  induction n with
  | zero => rfl
  | succ n ih =>
    have hone : (localHeader (pending ("a", [], .stored)) ++ (pending ("a", [], .stored)).body).length = 31 := by
      decide
    rw [emptyFiles, List.replicate_succ, List.map_cons, locals, List.flatMap_cons, List.length_append, hone]
    rw [emptyFiles, locals] at ih
    omega

theorem length_directoryFrom_emptyFiles (n start : Nat) :
    (directoryFrom start ((emptyFiles n).map pending)).length = 47 * n := by
  induction n generalizing start with
  | zero => rfl
  | succ n ih =>
    have hname : (utf8 (pending ("a", [], .stored)).name).length = 1 := by decide
    rw [emptyFiles, List.replicate_succ, List.map_cons, directoryFrom_cons, List.length_append,
      length_centralRecord, hname]
    have := ih (start + (localHeader (pending ("a", [], .stored)) ++ (pending ("a", [], .stored)).body).length)
    rw [emptyFiles] at this
    omega

/-- **65535 empty files**: every call and `finish` return `Ok`, and the archive does not open. -/
theorem emptyFiles_not_roundTrips : ∃ w bytes, addFiles (emptyFiles 65535) .new = some w ∧
    w.finish = .ok bytes ∧ Archive.open bytes = .error .unsupported ∧
      ¬ RoundTrips (emptyFiles 65535) bytes := by
  obtain ⟨w, hadd⟩ := addFiles_emptyFiles 65535 .new rfl (by decide) (by decide)
  obtain ⟨hclean, hentries, hcount, -⟩ := addFiles_ok hadd rfl (Nat.zero_le _)
  have hes : w.entries = (emptyFiles 65535).map pending := hentries
  have hsize : (locals w.entries).length + (directory w.entries).length ≤ maxArchiveSize := by
    have hdir : (directory ((emptyFiles 65535).map pending)).length = 47 * 65535 :=
      length_directoryFrom_emptyFiles 65535 0
    rw [hes, length_locals_emptyFiles, hdir]
    decide
  have hlength : w.entries.length = 0xFFFF := by
    rw [hes, List.length_map, emptyFiles, List.length_replicate]
  have hfits : ∀ e ∈ w.entries, Fits e := by
    intro e he
    rw [hes] at he
    obtain ⟨call, hcall, rfl⟩ := List.mem_map.mp he
    obtain rfl := List.eq_of_mem_replicate hcall
    exact (stages_pending (by decide) (by decide) (by decide)).fits
  have hopen := open_archive hfits hcount hsize
  rw [if_pos hlength] at hopen
  refine ⟨w, _, hadd, (finish_ok hclean hcount).mpr ⟨hsize, rfl⟩, hopen, ?_⟩
  rintro ⟨a, ha, -⟩
  rw [hopen] at ha
  exact nomatch ha

end AthenaOS.Zip
