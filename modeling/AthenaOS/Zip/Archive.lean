import AthenaOS.Lib.Utf8
import AthenaOS.Deflate.Bounds

/-!
# ZIP archives

`ath_zip`: the reader `Archive` and the writer `ZipWriter`, written separately around the
32-bit format.
-/

namespace AthenaOS.Zip

open Lib Lib.Wire Deflate

/-- `ZipError`. -/
inductive ZipError where
  | notZip
  | truncated
  | badOffset
  | badLocalHeader
  | unsupported
  | tooLarge
  | inflateError
  | sizeMismatch
  | badCrc
  deriving DecidableEq, Repr

/-- `MAX_ENTRY_SIZE`. -/
def maxEntrySize : Nat := 512 * 1024 * 1024

/-- `MAX_RATIO`. -/
def maxRatio : Nat := 2000

/-- `MAX_ENTRIES`. -/
def maxEntries : Nat := 2 ^ 20

/-- `SIG_EOCD`, `SIG_CENTRAL`, `SIG_LOCAL`. -/
def sigEocd : Nat := 0x06054b50
def sigCentral : Nat := 0x02014b50
def sigLocal : Nat := 0x04034b50

/-- `EOCD_MIN_LEN`, `CENTRAL_FIXED_LEN`, `LOCAL_FIXED_LEN`. -/
def eocdMinLen : Nat := 22
def centralFixedLen : Nat := 46
def localFixedLen : Nat := 30

/-! ## Reading -/

/-- `rd_u16` and `rd_u32`: a little-endian field of `w` bytes. -/
def rdLe (w : Nat) (buf : ByteString) (off : Nat) : Option Nat :=
  if off + w ≤ buf.length then some (leNat (slice buf off w)) else none

/-- `ok_or(e)?`. -/
def orErr {α : Type} (e : ZipError) : Option α → Except ZipError α
  | some a => .ok a
  | none => .error e

/-- `ZipEntry`. -/
structure ZipEntry where
  name : String
  size : Nat
  compressedSize : Nat
  method : Nat
  crc32 : Nat
  isDir : Bool
  flags : Nat
  localHeaderOffset : Nat
  deriving DecidableEq

/-- `is_encrypted`. -/
def ZipEntry.isEncrypted (e : ZipEntry) : Bool := e.flags % 2 ≠ 0

/-- `Archive`. -/
structure Archive where
  data : ByteString
  entries : List ZipEntry

/-- The test of one position in `find_eocd`. -/
def isEocd (data : ByteString) (i : Nat) : Bool :=
  rdLe 4 data i = some sigEocd &&
    match rdLe 2 data (i + 20) with
    | some commentLen => i + eocdMinLen + commentLen ≤ data.length
    | none => false

/-- The backwards scan of `find_eocd`. -/
def scanEocd (data : ByteString) (start : Nat) : Nat → Option Nat
  | 0 => if isEocd data 0 then some 0 else none
  | i + 1 =>
    if isEocd data (i + 1) then some (i + 1)
    else if i + 1 = start then none
    else scanEocd data start i

/-- `find_eocd`. -/
def findEocd (data : ByteString) : Option Nat :=
  if data.length < eocdMinLen then none
  else scanEocd data (data.length - (22 + 0xFFFF)) (data.length - eocdMinLen)

/-- `name.ends_with('/') || name.ends_with('\\')`. -/
def endsWithSeparator (name : String) : Bool :=
  name.toList.getLast? = some '/' || name.toList.getLast? = some '\\'

/-- One record of the central directory: the entry and where the next record starts. -/
def readCentral (data : ByteString) (cdEnd pos : Nat) : Except ZipError (ZipEntry × Nat) := do
  if cdEnd < pos + centralFixedLen then .error .truncated
  else do
    let sig ← orErr .truncated (rdLe 4 data pos)
    if sig ≠ sigCentral then .error .badOffset
    else do
      let flags ← orErr .truncated (rdLe 2 data (pos + 8))
      let method ← orErr .truncated (rdLe 2 data (pos + 10))
      let crc ← orErr .truncated (rdLe 4 data (pos + 16))
      let compSize ← orErr .truncated (rdLe 4 data (pos + 20))
      let uncompSize ← orErr .truncated (rdLe 4 data (pos + 24))
      let nameLen ← orErr .truncated (rdLe 2 data (pos + 28))
      let extraLen ← orErr .truncated (rdLe 2 data (pos + 30))
      let commentLen ← orErr .truncated (rdLe 2 data (pos + 32))
      let lho ← orErr .truncated (rdLe 4 data (pos + 42))
      if cdEnd < pos + centralFixedLen + nameLen then .error .truncated
      else do
        let name ← orErr .badOffset (ofUtf8? (slice data (pos + centralFixedLen) nameLen))
        let next := pos + (centralFixedLen + nameLen + extraLen + commentLen)
        if cdEnd < next then .error .truncated
        else .ok (⟨name, uncompSize, compSize, method, crc, endsWithSeparator name, flags, lho⟩, next)

/-- `while entries.len() < total_entries { .. }`. -/
def readCentrals (data : ByteString) (cdEnd : Nat) : Nat → Nat → Except ZipError (List ZipEntry)
  | 0, _ => .ok []
  | count + 1, pos => do
    let (entry, next) ← readCentral data cdEnd pos
    let entries ← readCentrals data cdEnd count next
    pure (entry :: entries)

/-- `Archive::open`. -/
def Archive.open (data : ByteString) : Except ZipError Archive :=
  if data.length < eocdMinLen then .error .notZip
  else do
    let eocdOff ← orErr .notZip (findEocd data)
    let e := data.drop eocdOff
    let totalEntries ← orErr .truncated (rdLe 2 e 10)
    let cdSize ← orErr .truncated (rdLe 4 e 12)
    let cdOffset ← orErr .truncated (rdLe 4 e 16)
    if totalEntries = 0xFFFF ∨ cdSize = 0xFFFFFFFF ∨ cdOffset = 0xFFFFFFFF then .error .unsupported
    else if maxEntries < totalEntries then .error .tooLarge
    else if data.length < cdOffset + cdSize ∨ eocdOff < cdOffset then .error .badOffset
    else do
      let entries ← readCentrals data (cdOffset + cdSize) totalEntries cdOffset
      pure ⟨data, entries⟩

/-- `inflate`: the decoder of `ath_deflate`, capped at the declared size. -/
def inflate (data : ByteString) (expected : Nat) : Except ZipError ByteString :=
  (inflateCapped (min expected maxEntrySize) data).mapError fun _ => .inflateError

/-- The compressed bytes of an entry, found through its local header. -/
def Archive.compressed (a : Archive) (entry : ZipEntry) : Except ZipError ByteString :=
  let lho := entry.localHeaderOffset
  if a.data.length < lho + localFixedLen then .error .badOffset
  else do
    let sig ← orErr .truncated (rdLe 4 a.data lho)
    if sig ≠ sigLocal then .error .badLocalHeader
    else do
      let lhMethod ← orErr .truncated (rdLe 2 a.data (lho + 8))
      let nameLen ← orErr .truncated (rdLe 2 a.data (lho + 26))
      let extraLen ← orErr .truncated (rdLe 2 a.data (lho + 28))
      if lhMethod ≠ entry.method then .error .badLocalHeader
      else
        let dataStart := lho + localFixedLen + nameLen + extraLen
        if a.data.length < dataStart + entry.compressedSize then .error .truncated
        else .ok (slice a.data dataStart entry.compressedSize)

/-- The body of an entry, by its method. -/
def ZipEntry.expand (entry : ZipEntry) (compressed : ByteString) : Except ZipError ByteString :=
  if entry.method = 0 then
    if entry.compressedSize ≠ entry.size then .error .sizeMismatch else .ok compressed
  else if entry.method = 8 then inflate compressed entry.size
  else .error .unsupported

/-- `Archive::read_entry`. -/
def Archive.readEntry (a : Archive) (entry : ZipEntry) : Except ZipError ByteString :=
  if entry.isEncrypted then .error .unsupported
  else if entry.isDir then .ok []
  else if maxEntrySize < entry.size then .error .tooLarge
  else if entry.method = 8 ∧ 0 < entry.compressedSize ∧
      maxRatio < entry.size / max entry.compressedSize 1 then .error .tooLarge
  else do
    let compressed ← a.compressed entry
    let out ← entry.expand compressed
    if out.length ≠ entry.size then .error .sizeMismatch
    else if (crc32 out).toNat ≠ entry.crc32 then .error .badCrc
    else .ok out

/-! ## Writing -/

/-- `MAX_WRITE_ENTRY_SIZE`. -/
def maxWriteEntrySize : Nat := 0xFFFFFFFF

/-- `MAX_WRITE_ENTRIES`. -/
def maxWriteEntries : Nat := 0xFFFF

/-- `MAX_ARCHIVE_SIZE`. -/
def maxArchiveSize : Nat := 0xFFFFFFFF

/-- `Method`. -/
inductive Method where
  | stored
  | deflate

/-- `PendingEntry`. -/
structure PendingEntry where
  name : String
  method : Nat
  crc : Nat
  uncompressedSize : Nat
  body : ByteString

/-- `ZipWriter`. -/
structure ZipWriter where
  entries : List PendingEntry
  localBytes : Nat
  poisoned : Option ZipError

/-- `ZipWriter::new`. -/
def ZipWriter.new : ZipWriter := ⟨[], 0, none⟩

/-- The final method and body: DEFLATE only where it is smaller. -/
def resolveBody (data : ByteString) : Method → Nat × ByteString
  | .stored => (0, data)
  | .deflate => if (Deflate.deflate data).length < data.length then (8, Deflate.deflate data) else (0, data)

/-- `poison`: the first failure is sticky. -/
def ZipWriter.poison (w : ZipWriter) (e : ZipError) : Except ZipError Unit × ZipWriter :=
  (.error e, { w with poisoned := w.poisoned.or (some e) })

/-- `add_file`. -/
def ZipWriter.addFile (w : ZipWriter) (name : String) (data : ByteString) (method : Method) :
    Except ZipError Unit × ZipWriter :=
  match w.poisoned with
  | some e => (.error e, w)
  | none =>
    if maxWriteEntries ≤ w.entries.length then w.poison .tooLarge
    else if maxWriteEntrySize < data.length then w.poison .tooLarge
    else
      let (finalMethod, body) := resolveBody data method
      if 0xFFFF < (utf8 name).length then w.poison .tooLarge
      else
        let newLocal := w.localBytes + (localFixedLen + (utf8 name).length + body.length)
        if maxArchiveSize < newLocal then w.poison .tooLarge
        else (.ok (), { w with
          localBytes := newLocal
          entries := w.entries ++ [⟨name, finalMethod, (crc32 data).toNat, data.length % 2 ^ 32, body⟩] })

/-- `write_local_header`. -/
def localHeader (e : PendingEntry) : ByteString :=
  leBytes 4 sigLocal ++ (leBytes 2 20 ++ (leBytes 2 0 ++ (leBytes 2 e.method ++ (leBytes 2 0 ++
    (leBytes 2 33 ++ (leBytes 4 e.crc ++ (leBytes 4 e.body.length ++ (leBytes 4 e.uncompressedSize ++
      (leBytes 2 (utf8 e.name).length ++ (leBytes 2 0 ++ utf8 e.name))))))))))

/-- `write_central_record`. -/
def centralRecord (e : PendingEntry) (localOffset : Nat) : ByteString :=
  leBytes 4 sigCentral ++ (leBytes 2 20 ++ (leBytes 2 20 ++ (leBytes 2 0 ++ (leBytes 2 e.method ++
    (leBytes 2 0 ++ (leBytes 2 33 ++ (leBytes 4 e.crc ++ (leBytes 4 e.body.length ++
      (leBytes 4 e.uncompressedSize ++ (leBytes 2 (utf8 e.name).length ++ (leBytes 2 0 ++ (leBytes 2 0 ++
        (leBytes 2 0 ++ (leBytes 2 0 ++ (leBytes 4 0 ++ (leBytes 4 localOffset ++
          utf8 e.name))))))))))))))))

/-- The first loop of `finish`: local headers and bodies, with the offset of each. -/
def writeLocals : List PendingEntry → ByteString → List Nat → Except ZipError (ByteString × List Nat)
  | [], out, offsets => .ok (out, offsets)
  | e :: es, out, offsets =>
    if maxArchiveSize < out.length then .error .tooLarge
    else writeLocals es (out ++ (localHeader e ++ e.body)) (offsets ++ [out.length % 2 ^ 32])

/-- The second loop: the central directory. -/
def centralDirectory (entries : List PendingEntry) (offsets : List Nat) : ByteString :=
  (entries.zip offsets).flatMap fun p => centralRecord p.1 p.2

/-- The end of central directory record. -/
def endRecord (count cdSize cdOffset : Nat) : ByteString :=
  leBytes 4 sigEocd ++ (leBytes 2 0 ++ (leBytes 2 0 ++ (leBytes 2 count ++ (leBytes 2 count ++
    (leBytes 4 cdSize ++ (leBytes 4 cdOffset ++ leBytes 2 0))))))

/-- `finish`. -/
def ZipWriter.finish (w : ZipWriter) : Except ZipError ByteString :=
  match w.poisoned with
  | some e => .error e
  | none =>
    if maxWriteEntries < w.entries.length then .error .tooLarge
    else do
      let (locals, offsets) ← writeLocals w.entries [] []
      if maxArchiveSize < locals.length then .error .tooLarge
      else
        let directory := centralDirectory w.entries offsets
        let cdEnd := locals.length + directory.length
        if maxArchiveSize < cdEnd ∨ maxArchiveSize < directory.length then .error .tooLarge
        else .ok (locals ++ (directory ++ endRecord w.entries.length directory.length locals.length))

/-- A sequence of `add_file` calls that all return `Ok`. -/
def addFiles : List (String × ByteString × Method) → ZipWriter → Option ZipWriter
  | [], w => some w
  | (name, data, method) :: calls, w =>
    match w.addFile name data method with
    | (.ok _, w) => addFiles calls w
    | (.error _, _) => none

end AthenaOS.Zip
