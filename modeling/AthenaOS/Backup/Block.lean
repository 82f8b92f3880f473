import AthenaOS.Lib.Bytes
import AthenaOS.Lib.Wire

/-!
# Backup blocks (`components/athbackup/src/lib.rs`)

A file becomes one block: compressed, in adaptive mode only if a sample of it has few different
bytes, then sealed if encryption is on. A restore opens the block and decompresses it.
-/

namespace AthenaOS.Backup

open Lib.Wire

/-! ## Compression -/

inductive CompressionAlgorithm where
  | none
  | lz4
  | zstd
  | gzip
  deriving DecidableEq

/-- An `f32`, as far as `<` tells them apart. -/
inductive Float32Value where
  | nan
  | negInfinity
  | infinity
  | finite (value : Rat)

/-- An exact number is less than an `f32`. -/
def Float32Value.above (x : Rat) : Float32Value → Bool
  | .nan => false
  | .negInfinity => false
  | .infinity => true
  | .finite value => decide (x < value)

structure CompressionConfig where
  algorithm : CompressionAlgorithm
  level : UInt8
  adaptive : Bool
  minRatioThreshold : Float32Value

/-- The loop of `find_run_length`. It compares no bytes. -/
def growRun (max len : Nat) : Nat := if len < max then growRun max (len + 1) else len
termination_by max - len

def findRunLength (data : ByteString) (start : Nat) : Nat := growRun (min (data.length - start) 255) 1

theorem growRun_eq (max len : Nat) : growRun max len = Nat.max max len := by
  fun_induction growRun max len with
  | case1 len h ih =>
    rw [ih]
    exact (Nat.max_eq_left h).trans (Nat.max_eq_left h.le).symm
  | case2 len h => exact (Nat.max_eq_right (Nat.le_of_not_lt h)).symm

theorem findRunLength_eq {data : ByteString} {start : Nat} (h : start < data.length) :
    findRunLength data start = min (data.length - start) 255 := by
  rw [findRunLength, growRun_eq]
  exact Nat.max_eq_left (by omega)

/-- The loop of `lz4_compress`, from position `i` on. -/
def lz4Runs (data : ByteString) (i : Nat) : ByteString :=
  if i < data.length then
    let runLen := min (findRunLength data i) 255
    UInt8.ofNat runLen :: (slice data i runLen ++ lz4Runs data (i + runLen))
  else []
termination_by data.length - i
decreasing_by
  rename_i h
  rw [findRunLength_eq h]
  omega

def lz4Compress (data : ByteString) : ByteString :=
  [0x04, 0x22, 0x4D, 0x18] ++ leBytes 4 data.length ++ lz4Runs data 0

def zstdCompress (level : UInt8) (data : ByteString) : ByteString :=
  [0x28, 0xB5, 0x2F, 0xFD] ++ [level] ++ leBytes 4 data.length ++ data

def gzipCompress (data : ByteString) : ByteString :=
  [0x1F, 0x8B, 0x08, 0x00] ++ List.replicate 6 0 ++ data ++ leBytes 4 (crc32 data).toNat ++ leBytes 4 data.length

/-- The number of different bytes. -/
def countUniqueBytes (data : ByteString) : Nat := (List.range 256).countP fun b => data.contains (UInt8.ofNat b)

namespace CompressionConfig

def compress (cfg : CompressionConfig) (data : ByteString) : ByteString :=
  match cfg.algorithm with
  | .none => data
  | .lz4 => lz4Compress data
  | .zstd => zstdCompress cfg.level data
  | .gzip => gzipCompress data

def headerLen (cfg : CompressionConfig) : Nat :=
  match cfg.algorithm with
  | .lz4 => 8
  | .zstd => 9
  | .gzip => 10
  | .none => 0

/-- `none` where the slice starts past the end. -/
def genericDecompress (cfg : CompressionConfig) (data : ByteString) : Option ByteString :=
  if data.length < 8 then some []
  else if data.length < cfg.headerLen then none
  else some (data.drop cfg.headerLen)

def decompress (cfg : CompressionConfig) (data : ByteString) : Option ByteString :=
  match cfg.algorithm with
  | .none => some data
  | _ => cfg.genericDecompress data

def shouldCompress (cfg : CompressionConfig) (data : ByteString) : Bool :=
  if !cfg.adaptive then true
  else cfg.minRatioThreshold.above ((countUniqueBytes (data.take 4096) : Rat) / 256)

end CompressionConfig

/-! ## Encryption -/

/-- The functions of `ath_crypto` that blocks go through. -/
structure Crypto where
  /-- `chacha20poly1305::seal`: key, nonce, associated data, plaintext. -/
  aeadSeal : Bytes 32 → Bytes 12 → ByteString → ByteString → ByteString
  /-- `chacha20poly1305::open`. -/
  aeadOpen : Bytes 32 → Bytes 12 → ByteString → ByteString → Option ByteString
  sha256 : ByteString → Bytes 32

/-- Opening inverts sealing, and a seal is a tag of 16 bytes longer. -/
structure Crypto.Lawful (c : Crypto) : Prop where
  open_seal : ∀ key nonce aad plaintext, c.aeadOpen key nonce aad (c.aeadSeal key nonce aad plaintext) = some plaintext
  length_seal : ∀ key nonce aad plaintext, (c.aeadSeal key nonce aad plaintext).length = plaintext.length + 16

/-- The fields blocks need. -/
structure EncryptionConfig where
  enabled : Bool
  backupKey : Bytes 32

namespace EncryptionConfig

def encryptBlock (c : Crypto) (cfg : EncryptionConfig) (data : ByteString) (nonce : Bytes 12) : ByteString :=
  if !cfg.enabled then data
  else nonce.toList ++ c.aeadSeal cfg.backupKey nonce [] data

def decryptBlock (c : Crypto) (cfg : EncryptionConfig) (data : ByteString) : Option ByteString :=
  if !cfg.enabled then some data
  else if data.length < 28 then none
  else c.aeadOpen cfg.backupKey (Bytes.ofList (data.take 12)) [] (data.drop 12)

/-- A block is opened under the configuration it was sealed with. -/
theorem decryptBlock_encryptBlock {c : Crypto} (hc : c.Lawful) (cfg : EncryptionConfig) (data : ByteString)
    (nonce : Bytes 12) : cfg.decryptBlock c (cfg.encryptBlock c data nonce) = some data := by
  rw [encryptBlock, decryptBlock]
  cases cfg.enabled with
  | false => rfl
  | true =>
    have hnonce : nonce.toList.length = 12 := Bytes.length_toList nonce
    have hlen : ¬ (nonce.toList ++ c.aeadSeal cfg.backupKey nonce [] data).length < 28 := by
      rw [List.length_append, hnonce, hc.length_seal]
      omega
    simp only [Bool.not_true, Bool.false_eq_true, if_false]
    rw [if_neg hlen, List.take_left' hnonce, List.drop_left' hnonce, Bytes.ofList_toList, hc.open_seal]

end EncryptionConfig

/-! ## Deduplication -/

structure ChunkLocation where
  containerId : UInt64
  offset : UInt64
  length : UInt32

structure ChunkHash where
  hash : Bytes 32
  location : ChunkLocation
  refCount : UInt32

/-- The index, without the ratio it reports. -/
structure DedupIndex where
  entries : List ChunkHash
  totalChunks : UInt64
  uniqueChunks : UInt64
  bytesSaved : UInt64

/-- One more reference to the first chunk of a hash. -/
def refer (hash : Bytes 32) : List ChunkHash → List ChunkHash
  | [] => []
  | e :: es => if e.hash = hash then { e with refCount := e.refCount + 1 } :: es else e :: refer hash es

/-- The flag says that the chunk is new. -/
def DedupIndex.insert (index : DedupIndex) (hash : Bytes 32) (location : ChunkLocation) : Bool × DedupIndex :=
  if index.entries.any fun e => decide (e.hash = hash) then
    (false, { index with
      entries := refer hash index.entries
      totalChunks := index.totalChunks + 1
      bytesSaved := index.bytesSaved + location.length.toUInt64 })
  else
    (true, { index with
      entries := index.entries ++ [⟨hash, location, 1⟩]
      totalChunks := index.totalChunks + 1
      uniqueChunks := index.uniqueChunks + 1 })

/-- `DedupEngine::process_block`. -/
def DedupIndex.processBlock (c : Crypto) (index : DedupIndex) (data : ByteString) (containerId offset : UInt64) :
    Bool × DedupIndex :=
  index.insert (c.sha256 data) ⟨containerId, offset, UInt32.ofNat data.length⟩

/-! ## Files -/

inductive BackupJobState where
  | idle
  | preScripts
  | snapshot
  | scanning
  | backing
  | postScripts
  | verifying
  | complete
  | failed

/-- The fields a file changes or reads. -/
structure BackupJob where
  state : BackupJobState
  compression : CompressionConfig
  encryption : EncryptionConfig
  dedup : DedupIndex
  bytesProcessed : UInt64
  bytesWritten : UInt64
  filesProcessed : UInt64

namespace BackupJob

/-- The local `encrypted`, and the job. -/
def processFile (c : Crypto) (job : BackupJob) (data : ByteString) (containerId : UInt64) : ByteString × BackupJob :=
  let filesProcessed := job.filesProcessed + 1
  let compressed := if job.compression.shouldCompress data then job.compression.compress data else data
  let nonce := Bytes.ofList (leBytes 8 filesProcessed.toNat)
  let encrypted := job.encryption.encryptBlock c compressed nonce
  let (isNew, dedup) := job.dedup.processBlock c encrypted containerId job.bytesWritten
  (encrypted,
    { job with
      state := .backing
      dedup := dedup
      bytesProcessed := job.bytesProcessed + UInt64.ofNat data.length
      bytesWritten := if isNew then job.bytesWritten + UInt64.ofNat encrypted.length else job.bytesWritten
      filesProcessed := filesProcessed })

/-- `decrypt_block`, then `decompress`. -/
def restore (c : Crypto) (job : BackupJob) (block : ByteString) : Option ByteString :=
  (job.encryption.decryptBlock c block).bind job.compression.decompress

end BackupJob

/-! ## What comes back -/

/-- What a configuration gives back: a file stored as zstd blocks, and without compression any file;
otherwise at most the empty file. -/
def Recoverable (cfg : CompressionConfig) (data : ByteString) : Prop :=
  match cfg.algorithm with
  | .none => True
  | .zstd => cfg.shouldCompress data = true ∨ data = []
  | .lz4 => data = []
  | .gzip => cfg.shouldCompress data = false ∧ data = []

/-- A part of a file in runs is no shorter. -/
theorem length_le_lz4Runs (data : ByteString) (i : Nat) : data.length - i ≤ (lz4Runs data i).length := by
  fun_induction lz4Runs data i with
  | case1 i h runLen ih =>
    have hrun : runLen ≤ data.length - i := by
      have := findRunLength_eq h
      omega
    rw [List.length_cons, List.length_append, length_slice_of_le data (by omega)]
    omega
  | case2 i h => omega

/-- Runs are longer than the file. -/
theorem lz4Runs_eq_self_iff (data : ByteString) : lz4Runs data 0 = data ↔ data = [] := by
  constructor
  · intro h
    by_contra hne
    have hpos : 0 < data.length := List.length_pos_of_ne_nil hne
    have hlen := congrArg List.length h
    have hrun := findRunLength_eq hpos
    have hrest := length_le_lz4Runs data (0 + min (findRunLength data 0) 255)
    rw [lz4Runs, if_pos hpos] at hlen
    rw [List.length_cons, List.length_append, length_slice_of_le data (by omega)] at hlen
    omega
  · rintro rfl
    rw [lz4Runs]
    rfl

namespace CompressionConfig

/-- A stored file loses its first bytes. -/
theorem genericDecompress_eq_self_iff {cfg : CompressionConfig} (h : cfg.algorithm ≠ .none) (data : ByteString) :
    cfg.genericDecompress data = some data ↔ data = [] := by
  have hheader : 0 < cfg.headerLen := by
    rw [headerLen]
    cases halg : cfg.algorithm with
    | none => exact absurd halg h
    | lz4 => exact Nat.succ_pos _
    | zstd => exact Nat.succ_pos _
    | gzip => exact Nat.succ_pos _
  rw [genericDecompress]
  constructor
  · intro heq
    split at heq
    · exact (Option.some.inj heq).symm
    · split at heq
      · exact nomatch heq
      · have hlen := congrArg List.length (Option.some.inj heq)
        rw [List.length_drop] at hlen
        omega
  · rintro rfl
    rfl

/-- Behind a header of the right length stands what is given back. -/
theorem genericDecompress_append {cfg : CompressionConfig} {header rest : ByteString}
    (hlen : header.length = cfg.headerLen) (h8 : 8 ≤ header.length) :
    cfg.genericDecompress (header ++ rest) = some rest := by
  rw [genericDecompress, if_neg (by rw [List.length_append]; omega), if_neg (by rw [List.length_append]; omega),
    List.drop_left' hlen]

theorem decompress_compress_iff (cfg : CompressionConfig) (data : ByteString) :
    cfg.decompress (cfg.compress data) = some data ↔
      match cfg.algorithm with
      | .none => True
      | .zstd => True
      | .lz4 => data = []
      | .gzip => False := by
  rw [decompress, compress]
  cases halg : cfg.algorithm with
  | none => exact iff_of_true rfl trivial
  | lz4 =>
    have hback := @genericDecompress_append cfg ([0x04, 0x22, 0x4D, 0x18] ++ leBytes 4 data.length)
      (lz4Runs data 0) (by rw [headerLen, halg]; rfl)
      (by rw [List.length_append, length_leBytes]; decide)
    rw [← lz4Runs_eq_self_iff data]
    change cfg.genericDecompress (lz4Compress data) = some data ↔ _
    rw [lz4Compress, hback, Option.some.injEq]
  | zstd =>
    refine iff_of_true ?_ trivial
    exact @genericDecompress_append cfg ([0x28, 0xB5, 0x2F, 0xFD] ++ [cfg.level] ++ leBytes 4 data.length) data
      (by rw [headerLen, halg]; rfl) (Nat.le_succ 8)
  | gzip =>
    have hback := @genericDecompress_append cfg ([0x1F, 0x8B, 0x08, 0x00] ++ List.replicate 6 0)
      (data ++ leBytes 4 (crc32 data).toNat ++ leBytes 4 data.length) (by rw [headerLen, halg]; rfl) (by decide)
    refine iff_of_false (fun h => ?_) not_false
    change cfg.genericDecompress (gzipCompress data) = some data at h
    rw [gzipCompress, List.append_assoc _ data, List.append_assoc _ (data ++ _), hback] at h
    have hlen := congrArg List.length (Option.some.inj h)
    rw [List.length_append, List.length_append] at hlen
    exact absurd hlen (by rw [length_leBytes, length_leBytes]; omega)

end CompressionConfig

open CompressionConfig

/-- What a configuration gives back of a block, before encryption. -/
theorem decompress_stored_iff (cfg : CompressionConfig) (data : ByteString) :
    cfg.decompress (if cfg.shouldCompress data then cfg.compress data else data) = some data ↔ Recoverable cfg data := by
  rw [Recoverable]
  cases hshould : cfg.shouldCompress data with
  | true =>
    rw [if_pos rfl, decompress_compress_iff]
    cases cfg.algorithm <;> simp
  | false =>
    rw [if_neg Bool.false_ne_true]
    by_cases hnone : cfg.algorithm = .none
    · rw [decompress, hnone]
      exact iff_of_true rfl trivial
    · have hstored := genericDecompress_eq_self_iff hnone data
      rw [decompress]
      cases halg : cfg.algorithm <;> simp_all

/-- A file comes back from its block exactly when the configuration gives it back. -/
theorem restore_processFile_iff {c : Crypto} (hc : c.Lawful) (job : BackupJob) (data : ByteString) (containerId : UInt64) :
    job.restore c (job.processFile c data containerId).1 = some data ↔ Recoverable job.compression data := by
  rw [← decompress_stored_iff, BackupJob.restore, BackupJob.processFile, EncryptionConfig.decryptBlock_encryptBlock hc,
    Option.bind_some]

/-- A cipher that appends a tag of zeros. -/
def tagCrypto : Crypto where
  aeadSeal _ _ _ plaintext := plaintext ++ List.replicate 16 0
  aeadOpen _ _ _ ciphertext := some (ciphertext.take (ciphertext.length - 16))
  sha256 _ := Bytes.zero

theorem tagCrypto_lawful : tagCrypto.Lawful where
  open_seal key nonce aad plaintext := by
    change some ((plaintext ++ List.replicate 16 0).take ((plaintext ++ List.replicate 16 0).length - 16)) = _
    rw [List.length_append, List.length_replicate, Nat.add_sub_cancel, List.take_left]
  length_seal key nonce aad plaintext := by
    change (plaintext ++ List.replicate 16 0).length = _
    rw [List.length_append, List.length_replicate]

/-- A job at its first file. -/
def firstJob (algorithm : CompressionAlgorithm) (enabled : Bool) : BackupJob where
  state := .scanning
  compression := ⟨algorithm, 3, false, .finite (9 / 10)⟩
  encryption := ⟨enabled, Bytes.zero⟩
  dedup := ⟨[], 0, 0, 0⟩
  bytesProcessed := 0
  bytesWritten := 0
  filesProcessed := 0

/-- A sealed zstd block. -/
theorem restore_zstd : (firstJob .zstd true).restore tagCrypto ((firstJob .zstd true).processFile tagCrypto [7, 7] 1).1 =
    some [7, 7] :=
  (restore_processFile_iff tagCrypto_lawful (firstJob .zstd true) [7, 7] 1).mpr (.inl rfl)

/-- An LZ4 block gives back the run's length byte too, and a gzip block its trailer. -/
theorem lz4_gzip_not_restored :
    (firstJob .lz4 false).restore tagCrypto ((firstJob .lz4 false).processFile tagCrypto [7] 1).1 = some [1, 7] ∧
      (firstJob .gzip false).restore tagCrypto ((firstJob .gzip false).processFile tagCrypto [] 1).1 =
        some [0, 0, 0, 0, 0, 0, 0, 0] := by
  have hruns : lz4Runs [7] 0 = [1, 7] := by
    simp [lz4Runs, findRunLength, growRun_eq, slice]
  refine ⟨?_, rfl⟩
  change (firstJob .lz4 false).compression.decompress (lz4Compress [7]) = _
  rw [lz4Compress, hruns]
  rfl

end AthenaOS.Backup
