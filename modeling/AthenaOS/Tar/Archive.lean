import AthenaOS.Lib.Bytes
import AthenaOS.Lib.Checked
import AthenaOS.Lib.Utf8
import AthenaOS.Tar.Gzip

/-!
# Tar archives

`read_tar` and `TarWriter` of `components/ath_tar/src/lib.rs`. A `usize` has 64 bits.
-/

namespace AthenaOS.Tar

open Lib Lib.Wire

/-- `MAX_ENTRY_SIZE`. -/
def maxEntrySize : Nat := 1024 * 1024 * 1024

/-- `MAX_ENTRIES`. -/
def maxEntries : Nat := 2 ^ 20

/-- `BLOCK`. -/
def blockLen : Nat := 512

/-- `TarKind`. -/
inductive TarKind where
  | file
  | dir
  | symlink
  | hardlink
  | other (typeflag : UInt8)
  deriving DecidableEq, Repr

/-- `TarEntry`. -/
structure TarEntry where
  name : String
  size : Nat
  kind : TarKind
  mode : Nat
  mtime : Nat
  linkTarget : String
  data : ByteString
  deriving DecidableEq

/-! ## Fields -/

/-- `ok_or(e)?`. -/
def okOr {α : Type} (o : Option α) (e : TarError) : Except TarError α :=
  match o with
  | some a => .ok a
  | none => .error e

/-- Return an error unless `c` holds. -/
def require (c : Bool) (e : TarError) : Except TarError Unit := if c then .ok () else .error e

def checkedAdd (a b : Nat) : Option Nat := if a + b < 2 ^ 64 then some (a + b) else none

/-- `str::from_utf8`. -/
def fromUtf8 (data : ByteString) : Except TarError String := okOr (ofUtf8? data) .badUtf8

/-- `read_str`: up to the first NUL. -/
def readStr (block : ByteString) (off len : Nat) : Except TarError String := do
  require (off + len ≤ block.length) .truncated
  fromUtf8 ((slice block off len).takeWhile (· ≠ 0))

/-- The digits of an octal field, and the padding around them. -/
def octalLoop : ByteString → Bool → Nat → Except TarError Nat
  | [], _, val => .ok val
  | b :: rest, seen, val =>
    if ascii '0' ≤ b ∧ b ≤ ascii '7' then
      if val * 8 + (b - ascii '0').toNat < 2 ^ 64 then octalLoop rest true (val * 8 + (b - ascii '0').toNat)
      else .error .tooLarge
    else if b = ascii ' ' ∨ b = 0 then if seen then .ok val else octalLoop rest seen val
    else .error .badOctal

/-- `read_octal`. The shift of the binary form drops what leaves 64 bits. -/
def readOctal (block : ByteString) (off len : Nat) : Except TarError Nat := do
  require (off + len ≤ block.length) .truncated
  match slice block off len with
  | [] => .ok 0
  | b :: rest =>
    if b &&& 0x80 ≠ 0 then
      .ok (rest.foldl (fun val b => val * 256 % 2 ^ 64 + b.toNat) (b &&& 0x7F).toNat)
    else octalLoop (b :: rest) false 0

/-- The block with its checksum field blank. -/
def blanked (block : ByteString) : ByteString :=
  block.mapIdx fun i b => if 148 ≤ i ∧ i < 156 then ascii ' ' else b

/-- `stored as i64`. -/
def asI64 (n : Nat) : Int := if n < 2 ^ 63 then n else n - 2 ^ 64

/-- `checksum_ok`. -/
def checksumOk (block : ByteString) : Except TarError Bool := do
  require (blockLen ≤ block.length) .truncated
  let stored ← readOctal block 148 8
  let bytes := blanked (block.take blockLen)
  let unsigned := (bytes.map UInt8.toNat).sum
  let signed := (bytes.map fun b => b.toInt8.toInt).sum
  return stored = unsigned ∨ asI64 stored = signed

/-- `round_up`. -/
def roundUp (n : Nat) : Option Nat := (checkedAdd n (blockLen - 1)).map fun v => v / blockLen * blockLen

/-- `is_zero_block`. -/
def isZeroBlock (block : ByteString) : Bool := blockLen ≤ block.length && (block.take blockLen).all (· = 0)

/-- `nul_trim_utf8`. -/
def nulTrimUtf8 (body : ByteString) : Except TarError String := fromUtf8 (body.takeWhile (· ≠ 0))

/-! ## Extended headers -/

/-- `Pending`. -/
structure Pending where
  name : Option String
  link : Option String
  size : Option Nat
  deriving DecidableEq

/-- `Pending::default`. -/
def Pending.default : Pending := ⟨none, none, none⟩

/-- The digits of a number below 2^64. -/
def decimalLoop : ByteString → Nat → Option Nat
  | [], val => some val
  | b :: rest, val =>
    if ascii '0' ≤ b ∧ b ≤ ascii '9' ∧ val * 10 + (b - ascii '0').toNat < 2 ^ 64 then
      decimalLoop rest (val * 10 + (b - ascii '0').toNat)
    else none

/-- `str::parse` at `u64` and `usize`: a plus sign may come first. -/
def parseDecimal (s : ByteString) : Option Nat :=
  let digits := if s.head? = some (ascii '+') then s.tail else s
  if digits = [] then none else decimalLoop digits 0

/-- What one record says. -/
def applyPax (key value : ByteString) (pending : Pending) : Except TarError Pending :=
  if key = utf8 "path" then do
    return { pending with name := some (← fromUtf8 value) }
  else if key = utf8 "linkpath" then do
    return { pending with link := some (← fromUtf8 value) }
  else if key = utf8 "size" then do
    let _ ← fromUtf8 value
    return { pending with size := some (← okOr (parseDecimal value) .badOctal) }
  else return pending

/-- The content of a record, less a newline at its end. -/
def dropNewline (content : ByteString) : ByteString :=
  if content.getLast? = some (ascii '\n') then content.dropLast else content

/-- One record of `parse_pax`, and its length. -/
def parsePaxRecord (records : ByteString) (pending : Pending) : Except TarError (Pending × Nat) := do
  let space ← okOr (records.findIdx? (· = ascii ' ')) .truncated
  let _ ← fromUtf8 (records.take space)
  let recLen ← okOr (parseDecimal (records.take space)) .badOctal
  require (recLen ≠ 0 ∧ recLen ≤ records.length) .truncated
  require (space + 1 < recLen) .truncated
  let content := dropNewline ((records.take recLen).drop (space + 1))
  match content.findIdx? (· = ascii '=') with
  | some eq => return (← applyPax (content.take eq) (content.drop (eq + 1)) pending, recLen)
  | none => return (pending, recLen)

/-- One round of `parse_pax`. -/
def paxRound (pending : Pending) : Decoder ByteString TarError (Pending ⊕ Pending) := fun records =>
  if records = [] then .ok (.inr pending, records)
  else do
    let (pending, recLen) ← parsePaxRecord records pending
    return (.inl pending, records.drop recLen)

section Progress

theorem bind_eq_ok {α β : Type} {m : Except TarError α} {f : α → Except TarError β} {b : β}
    (h : m >>= f = .ok b) : ∃ a, m = .ok a ∧ f a = .ok b := by
  cases m with
  | error e => exact nomatch h
  | ok a => exact ⟨a, rfl, h⟩

theorem require_eq_ok {c : Bool} {e : TarError} {u : Unit} (h : require c e = .ok u) : c = true := by
  rw [require] at h
  split at h
  · assumption
  · exact nomatch h

/-- A record is not empty. -/
theorem parsePaxRecord_pos {records : ByteString} {pending pending' : Pending} {recLen : Nat}
    (h : parsePaxRecord records pending = .ok (pending', recLen)) : recLen ≠ 0 := by
  obtain ⟨space, -, h₁⟩ := bind_eq_ok h
  obtain ⟨_, -, h₂⟩ := bind_eq_ok h₁
  obtain ⟨len, -, h₃⟩ := bind_eq_ok h₂
  obtain ⟨_, hlen, h₄⟩ := bind_eq_ok h₃
  obtain ⟨_, -, h₅⟩ := bind_eq_ok h₄
  have hpos := (of_decide_eq_true (require_eq_ok hlen)).1
  dsimp only at h₅
  split at h₅
  · obtain ⟨_, -, h₆⟩ := bind_eq_ok h₅
    obtain ⟨-, rfl⟩ := Prod.mk.inj (Except.ok.inj h₆)
    exact hpos
  · obtain ⟨-, rfl⟩ := Prod.mk.inj (Except.ok.inj h₅)
    exact hpos

theorem progresses_paxRound : Decoder.Progresses List.length paxRound := by
  intro pending records pending' rest h
  rw [paxRound] at h
  split at h
  · exact nomatch h
  · next hne =>
    obtain ⟨⟨p, recLen⟩, hrecord, h₁⟩ := bind_eq_ok h
    obtain ⟨-, rfl⟩ := Prod.mk.inj (Except.ok.inj h₁)
    have hpos := parsePaxRecord_pos hrecord
    have hlen := List.length_pos_iff.mpr hne
    rw [List.length_drop]
    omega

end Progress

/-- `parse_pax`. -/
def parsePax (records : ByteString) (pending : Pending) : Except TarError Pending :=
  (Decoder.loop List.length paxRound progresses_paxRound pending records).map Prod.fst

/-! ## Reading -/

/-- The local variables of `read_tar`, less the position. -/
structure Reading where
  entries : List TarEntry
  pending : Pending
  zeroSeen : Bool
  total : Nat
  anyValid : Bool
  deriving DecidableEq

def Reading.start : Reading := ⟨[], .default, false, 0, false⟩

/-- The name of an entry: an override, or the name with its prefix. -/
def entryName (block : ByteString) (pending : Pending) : Except TarError String :=
  match pending.name with
  | some name => .ok name
  | none => do
    let base ← readStr block 0 100
    let pre ← if (slice block 257 6).take 5 = utf8 "ustar" then readStr block 345 155 else .ok ""
    return if pre = "" then base else pre ++ "/" ++ base

def entryLink (block : ByteString) (pending : Pending) : Except TarError String :=
  match pending.link with
  | some link => .ok link
  | none => readStr block 157 100

def kindOf (typeflag : UInt8) : TarKind :=
  if typeflag = ascii '0' ∨ typeflag = 0 then .file
  else if typeflag = ascii '5' then .dir
  else if typeflag = ascii '2' then .symlink
  else if typeflag = ascii '1' then .hardlink
  else .other typeflag

/-- The numbers of a header. -/
structure Numbers where
  size : Nat
  mode : Nat
  mtime : Nat

def readNumbers (block : ByteString) : Except TarError Numbers := do
  let size ← readOctal block 124 12
  let mode ← readOctal block 100 8
  let mtime ← readOctal block 136 12
  return ⟨size, mode % 2 ^ 32, mtime⟩

/-- A real entry. -/
def readEntry (block body : ByteString) (n : Numbers) (r : Reading) : Except TarError Reading := do
  let name ← entryName block r.pending
  let linkTarget ← entryLink block r.pending
  let kind := kindOf (block.getD 156 0)
  let data := if kind = .file then body else []
  let total := min (r.total + data.length) (2 ^ 64 - 1)
  require (total ≤ maxTotalSize) .tooLarge
  let entries := r.entries ++ [⟨name, r.pending.size.getD n.size, kind, n.mode, n.mtime, linkTarget, data⟩]
  require (entries.length ≤ maxEntries) .tooLarge
  return { r with entries := entries, pending := .default, total := total }

/-- What the body of a header is for, by its type. -/
def readMember (block body : ByteString) (n : Numbers) (r : Reading) : Except TarError Reading :=
  let typeflag := block.getD 156 0
  if typeflag = ascii 'L' then do
    return { r with pending := { r.pending with name := some (← nulTrimUtf8 body) } }
  else if typeflag = ascii 'K' then do
    return { r with pending := { r.pending with link := some (← nulTrimUtf8 body) } }
  else if typeflag = ascii 'x' ∨ typeflag = ascii 'g' then do
    return { r with pending := ← parsePax body r.pending }
  else readEntry block body n r

/-- A header and its body, and the position after them. -/
def readHeader (data : ByteString) (r : Reading) (pos : Nat) : Except TarError (Reading × Nat) := do
  let block := slice data pos blockLen
  require (← checksumOk block) (if r.anyValid then .badChecksum else .notTar)
  let n ← readNumbers block
  let bodyStart := pos + blockLen
  let bodyEnd ← okOr (checkedAdd bodyStart n.size) .truncated
  require (n.size ≤ maxEntrySize) .tooLarge
  require (bodyEnd ≤ data.length) .truncated
  let padded ← okOr (roundUp n.size) .truncated
  let next ← okOr (checkedAdd bodyStart padded) .truncated
  let r ← readMember block (slice data bodyStart n.size) n { r with zeroSeen := false, anyValid := true }
  return (r, next)

/-- The end of the data without two zero blocks. -/
def ranOff (r : Reading) : Except TarError (List TarEntry) :=
  if r.anyValid ∧ r.entries ≠ [] then .ok r.entries
  else if r.anyValid then .error .truncated
  else .error .notTar

/-- One round of `read_tar`; the position is the state. -/
def readRound (data : ByteString) (r : Reading) : Decoder Nat TarError (Reading ⊕ List TarEntry) := fun pos =>
  if data.length < pos + blockLen then do
    return (.inr (← ranOff r), pos)
  else if isZeroBlock (slice data pos blockLen) then
    if r.zeroSeen then .ok (.inr r.entries, pos)
    else .ok (.inl { r with zeroSeen := true }, pos + blockLen)
  else do
    let (r, next) ← readHeader data r pos
    return (.inl r, next)

section Progress

theorem checkedAdd_eq_some {a b c : Nat} (h : checkedAdd a b = some c) : c = a + b := by
  rw [checkedAdd] at h
  split at h
  · exact (Option.some.inj h).symm
  · exact nomatch h

theorem okOr_eq_ok {α : Type} {o : Option α} {e : TarError} {a : α} (h : okOr o e = .ok a) : o = some a := by
  cases o with
  | none => exact nomatch h
  | some a' => exact congrArg some (Except.ok.inj h)

/-- The next header comes after this one. -/
theorem readHeader_lt {data : ByteString} {r r' : Reading} {pos next : Nat}
    (h : readHeader data r pos = .ok (r', next)) : pos < next := by
  obtain ⟨_, -, h⟩ := bind_eq_ok h
  obtain ⟨_, -, h⟩ := bind_eq_ok h
  obtain ⟨n, -, h⟩ := bind_eq_ok h
  obtain ⟨bodyEnd, -, h⟩ := bind_eq_ok h
  obtain ⟨_, -, h⟩ := bind_eq_ok h
  obtain ⟨_, -, h⟩ := bind_eq_ok h
  obtain ⟨padded, -, h⟩ := bind_eq_ok h
  obtain ⟨next', hnext, h⟩ := bind_eq_ok h
  obtain ⟨_, -, h⟩ := bind_eq_ok h
  obtain ⟨-, rfl⟩ := Prod.mk.inj (Except.ok.inj h)
  rw [checkedAdd_eq_some (okOr_eq_ok hnext), blockLen]
  omega

theorem progresses_readRound (data : ByteString) :
    Decoder.Progresses (fun pos => data.length - pos) (readRound data) := by
  intro r pos r' next h
  rw [readRound] at h
  split at h
  · obtain ⟨_, -, h⟩ := bind_eq_ok h
    exact nomatch h
  next hlen =>
  have hlt : pos < data.length := by
    rw [blockLen] at hlen
    omega
  split at h
  · split at h
    · exact nomatch h
    · obtain ⟨-, rfl⟩ := Prod.mk.inj (Except.ok.inj h)
      dsimp only [blockLen]
      omega
  · obtain ⟨⟨_, next'⟩, hheader, h⟩ := bind_eq_ok h
    obtain ⟨-, rfl⟩ := Prod.mk.inj (Except.ok.inj h)
    have hnext := readHeader_lt hheader
    dsimp only at hnext ⊢
    omega

end Progress

/-- `read_tar`. -/
def readTar (data : ByteString) : Except TarError (List TarEntry) :=
  if data.length < blockLen then .error .notTar
  else (Decoder.loop (fun pos => data.length - pos) (readRound data) (progresses_readRound data) .start 0).map
    Prod.fst

/-! ## Headers -/

/-- `TarWriteError`. -/
inductive TarWriteError where
  | nameTooLong
  | badName
  | entryTooLarge
  | archiveTooLarge
  deriving DecidableEq, Repr

/-- `TarMeta`. -/
structure TarMeta where
  mode : UInt32
  uid : UInt32
  gid : UInt32
  mtime : UInt64

/-- `n` octal digits, the lowest at the end. -/
def octalDigits : Nat → Nat → ByteString
  | 0, _ => []
  | n + 1, val => octalDigits n (val / 8) ++ [ascii '0' + UInt8.ofNat (val % 8)]

/-- `put_octal`. -/
def putOctal (h : Bytes 512) (off len val : Nat) : Bytes 512 :=
  h.splice off (.ofList (octalDigits (len - 1) val ++ [0]) : Bytes len)

/-- `write_checksum`. -/
def writeChecksum (h : Bytes 512) (sum : Nat) : Bytes 512 :=
  h.splice 148 (.ofList (octalDigits 6 (sum % 2 ^ 18) ++ [0, ascii ' ']) : Bytes 8)

/-- `copy_from_slice` of a whole slice at `off`. -/
def copyAt (h : Bytes 512) (off : Nat) (bytes : ByteString) : Bytes 512 :=
  h.splice off (.ofList bytes : Bytes bytes.length)

/-- A slash where both parts fit their fields. -/
def IsSplit (nb : ByteString) (i : Nat) : Prop :=
  nb[i]? = some (ascii '/') ∧ i ≤ 155 ∧ nb.length - i - 1 ≤ 100 ∧ 0 < nb.length - i - 1

instance (nb : ByteString) (i : Nat) : Decidable (IsSplit nb i) := inferInstanceAs (Decidable (_ ∧ _))

/-- `split_ustar_name`: at the last such slash. -/
def splitUstarName (nb : ByteString) : Except TarWriteError (ByteString × ByteString) :=
  if 255 < nb.length then .error .nameTooLong
  else
    match (List.range nb.length).foldl (fun best i => if IsSplit nb i then some i else best) none with
    | some i => .ok (nb.take i, nb.drop (i + 1))
    | none => .error .nameTooLong

/-- The name, and the prefix of a long one. -/
def putName (h : Bytes 512) (nb : ByteString) : Except TarWriteError (Bytes 512) :=
  if nb.length ≤ 100 then .ok (copyAt h 0 nb)
  else do
    let (pre, base) ← splitUstarName nb
    return copyAt (copyAt h 0 base) 345 pre

/-- `build_header`. -/
def buildHeader (name : String) (typeflag : UInt8) (size : Nat) (link : String) (info : TarMeta) :
    Except TarWriteError (Bytes 512) :=
  let nb := utf8 name
  let lb := utf8 link
  if nb = [] then .error .badName
  else if 0 ∈ nb then .error .badName
  else if 0 ∈ lb ∨ 100 < lb.length then .error .badName
  else do
    let h ← putName .zero nb
    let h := putOctal h 100 8 info.mode.toNat
    let h := putOctal h 108 8 info.uid.toNat
    let h := putOctal h 116 8 info.gid.toNat
    let h := putOctal h 124 12 size
    let h := putOctal h 136 12 info.mtime.toNat
    let h := h.splice 156 (fun _ => typeflag : Bytes 1)
    let h := copyAt h 157 lb
    let h := copyAt h 257 (utf8 "ustar\x00")
    let h := copyAt h 263 (utf8 "00")
    let h := h.splice 148 (fun _ => ascii ' ' : Bytes 8)
    return writeChecksum h (h.toList.map UInt8.toNat).sum

/-! ## Writing -/

/-- `TarWriter`. -/
structure TarWriter where
  buf : ByteString
  count : Nat
  total : Nat

/-- `TarWriter::new`. -/
def TarWriter.new : TarWriter := ⟨[], 0, 0⟩

/-- A call on a writer. -/
abbrev Writing (α : Type) : Type := Checked TarWriteError TarWriter α

/-- `reserve_entry`. -/
def reserveEntry (bodyLen : Nat) : Writing Unit := do
  let w ← Checked.read
  Checked.require (w.count + 1 ≤ maxEntries) .archiveTooLarge
  Checked.require (min (w.total + bodyLen) (2 ^ 64 - 1) ≤ maxTotalSize) .archiveTooLarge

/-- `pad_to_block`. -/
def padding (bodyLen : Nat) : ByteString := List.replicate ((blockLen - bodyLen % blockLen) % blockLen) 0

/-- `add_file_meta`. -/
def addFileMeta (name : String) (data : ByteString) (info : TarMeta) : Writing Unit := do
  Checked.require (data.length ≤ maxEntrySize) .entryTooLarge
  reserveEntry data.length
  let header ← Checked.ofExcept (buildHeader name (ascii '0') data.length "" info)
  Checked.write fun w => {
    buf := w.buf ++ (header.toList ++ data ++ padding data.length)
    count := w.count + 1
    total := min (w.total + data.length) (2 ^ 64 - 1) }

/-- `add_dir_meta`. -/
def addDirMeta (name : String) (info : TarMeta) : Writing Unit := do
  let m := if info.mode = 0o644 then { info with mode := 0o755 } else info
  reserveEntry 0
  let header ← Checked.ofExcept (buildHeader name (ascii '5') 0 "" m)
  Checked.write fun w => { w with buf := w.buf ++ header.toList, count := w.count + 1 }

/-- `add_symlink`. -/
def addSymlink (name target : String) (info : TarMeta) : Writing Unit := do
  Checked.require (target ≠ "") .badName
  reserveEntry 0
  let header ← Checked.ofExcept (buildHeader name (ascii '2') 0 target info)
  Checked.write fun w => { w with buf := w.buf ++ header.toList, count := w.count + 1 }

/-- `finish`: two zero blocks end the archive. -/
def TarWriter.finish (w : TarWriter) : Except TarWriteError ByteString :=
  .ok (w.buf ++ List.replicate (blockLen * 2) 0)

end AthenaOS.Tar
