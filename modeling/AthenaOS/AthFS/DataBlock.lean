import AthenaOS.Lib.Bytes
import AthenaOS.AthFS.Lz4

/-!
# The data-block codec of AthFS

`write_data_block` and `read_data_block` of `kernel/src/athfs.rs`: transparent
LZ4 compression, then XTS-AES-256, over one 4096-byte device block.
-/

namespace AthenaOS

/-- `BLOCK_SIZE`. -/
def blockSize : Nat := 4096

/-- A device block, `[u8; BLOCK_SIZE]`. -/
abbrev Block : Type := Bytes blockSize

/-- The contents of the device, by block index. -/
abbrev Disk : Type := Nat → Block

/-- `AthFS::write_block`. -/
def writeBlock (disk : Disk) (blockIdx : Nat) (data : Block) : Disk :=
  Function.update disk blockIdx data

/-! ## XTS -/

/-- AES-256 with an expanded key: `encrypt_block`, and `decrypt_block` undoing it. -/
structure Aes where
  encryptBlock : Bytes 32 → Bytes 16 → Bytes 16
  decryptBlock : Bytes 32 → Bytes 16 → Bytes 16
  decrypt_encrypt : ∀ key block, decryptBlock key (encryptBlock key block) = block

/-- `EncryptionKey`: the data key and the tweak key. -/
structure EncryptionKey where
  key1 : Bytes 32
  key2 : Bytes 32

/-- The sweep of `xts_gf128_mul_alpha` over the bytes, lowest first: each is shifted
left by one, the top bit carried into the next. -/
def xtsShift : List UInt8 → UInt8 → List UInt8 × UInt8
  | [], carry => ([], carry)
  | byte :: rest, carry =>
    let (shifted, out) := xtsShift rest (byte >>> 7)
    ((byte <<< 1 ||| carry) :: shifted, out)

/-- `xts_gf128_mul_alpha`. -/
def xtsGf128MulAlpha (tweak : Bytes 16) : Bytes 16 :=
  let (shifted, carry) := xtsShift tweak.toList 0
  let tweak : Bytes 16 := Bytes.ofList shifted
  if carry ≠ 0 then Function.update tweak 0 (tweak 0 ^^^ 0x87) else tweak

/-- The loop of both directions: `n` units from byte `i` on, each through `cipher`
between two exclusive ors with the tweak. -/
def xtsUnits (cipher : Bytes 16 → Bytes 16) : Nat → Nat → Bytes 16 → Block → Block
  | 0, _, _, data => data
  | n + 1, i, tweak, data =>
    let block := Bytes.xor (data.slice i) tweak
    xtsUnits cipher n (i + 16) (xtsGf128MulAlpha tweak)
      (data.splice i (Bytes.xor (cipher block) tweak))

/-- The tweak of a block: its number, little endian in the low eight bytes, under
the tweak key. -/
def xtsTweak (aes : Aes) (key : EncryptionKey) (blockNum : Nat) : Bytes 16 :=
  aes.encryptBlock key.key2
    fun j => if j.val < 8 then UInt8.ofNat (blockNum >>> (8 * j.val)) else 0

/-- `encrypt_data_block`. -/
def encryptDataBlock (aes : Aes) (key : EncryptionKey) (blockNum : Nat) (data : Block) : Block :=
  xtsUnits (aes.encryptBlock key.key1) (blockSize / 16) 0 (xtsTweak aes key blockNum) data

/-- `decrypt_data_block`. -/
def decryptDataBlock (aes : Aes) (key : EncryptionKey) (blockNum : Nat) (data : Block) : Block :=
  xtsUnits (aes.decryptBlock key.key1) (blockSize / 16) 0 (xtsTweak aes key blockNum) data

variable {j : Nat} {compressed : List UInt8}

/-- Units from `i` on leave the unit at `j` before them as it is. -/
theorem slice_xtsUnits (cipher : Bytes 16 → Bytes 16) :
    ∀ (n i : Nat) (tweak : Bytes 16) (data : Block), j + 16 ≤ i →
      ((xtsUnits cipher n i tweak data).slice j : Bytes 16) = data.slice j
  | 0, _, _, _, _ => rfl
  | n + 1, i, tweak, data, h => by
    rw [xtsUnits, slice_xtsUnits cipher n (i + 16) _ _ (by omega), Bytes.slice_splice_before _ _ h]

/-- Units from `i` on do not see what the unit at `j` before them holds. -/
theorem xtsUnits_splice (cipher : Bytes 16 → Bytes 16) (part : Bytes 16) :
    ∀ (n i : Nat) (tweak : Bytes 16) (data : Block), j + 16 ≤ i → i + 16 * n ≤ blockSize →
      xtsUnits cipher n i tweak (data.splice j part) = (xtsUnits cipher n i tweak data).splice j part
  | 0, _, _, _, _, _ => rfl
  | n + 1, i, tweak, data, h, hn => by
    have hunit : ((data.splice j part).slice i : Bytes 16) = data.slice i := by
      funext k
      rw [Bytes.slice, Bytes.slice, Bytes.get, Bytes.get]
      split
      · rw [Bytes.splice, if_neg (by simp only; omega)]
      · rfl
    rw [xtsUnits, xtsUnits, hunit, Bytes.splice_comm _ _ _ h]
    exact xtsUnits_splice cipher part n (i + 16) _ _ (by omega) (by omega)

/-- **XTS round trip**: the loop under `g` undoes the loop under `f` when `g` undoes
`f`. By induction on the units; the first one is untouched by the rest. -/
theorem xtsUnits_cancel {f g : Bytes 16 → Bytes 16} (hgf : ∀ b, g (f b) = b) :
    ∀ (n i : Nat) (tweak : Bytes 16) (data : Block), i + 16 * n ≤ blockSize →
      xtsUnits g n i tweak (xtsUnits f n i tweak data) = data
  | 0, _, _, _, _ => rfl
  | n + 1, i, tweak, data, h => by
    have hi : i + 16 ≤ blockSize := by omega
    have hn : i + 16 + 16 * n ≤ blockSize := by omega
    rw [xtsUnits, xtsUnits, slice_xtsUnits f n (i + 16) _ _ le_rfl,
      Bytes.slice_splice_self _ _ hi, Bytes.xor_xor_cancel, hgf, Bytes.xor_xor_cancel,
      xtsUnits_splice f _ n (i + 16) _ _ le_rfl hn, Bytes.splice_splice_self,
      xtsUnits_splice g _ n (i + 16) _ _ le_rfl hn, xtsUnits_cancel hgf n (i + 16) _ _ hn,
      Bytes.splice_slice_self]

/-- `decrypt_data_block` undoes `encrypt_data_block` for one key and block number. -/
theorem decryptDataBlock_encryptDataBlock (aes : Aes) (key : EncryptionKey) (blockNum : Nat)
    (data : Block) :
    decryptDataBlock aes key blockNum (encryptDataBlock aes key blockNum data) = data :=
  xtsUnits_cancel (aes.decrypt_encrypt key.key1) _ _ _ _ (by decide)

/-! ## Compression header and cipher -/

/-- The globals both directions consult: `ATHFS_COMPRESSION_ENABLED` and
`ATHFS_ENCRYPTION_KEY`. -/
structure DataBlockSettings where
  compressionEnabled : Bool
  key : Option EncryptionKey

/-- `BLOCK_HDR_COMPRESSED`. -/
def blockHdrCompressed : UInt8 := 0x01

/-- `COMPRESSION_THRESHOLD_PERCENT`. -/
def compressionThresholdPercent : Nat := 75

/-- The decision of the writer, and `block_stored_compressed`. -/
def blockStoredCompressed (compressionEnabled : Bool) (data : Block) : Bool :=
  let compressed := lz4Compress data.toList
  compressionEnabled && compressed.length < blockSize * compressionThresholdPercent / 100 &&
    compressed.length ≤ blockSize - 3

/-- `[HDR=0x01][len_lo][len_hi][compressed_data...]`, zeros after. -/
def compressedBlock (compressed : List UInt8) : Block :=
  Bytes.ofList (blockHdrCompressed :: UInt8.ofNat (compressed.length &&& 0xFF) ::
    UInt8.ofNat (compressed.length >>> 8 &&& 0xFF) :: compressed)

/-- Encrypt under the active key, if any. -/
def encryptIfKeyed (aes : Aes) (key : Option EncryptionKey) (blockIdx : Nat) (data : Block) :
    Block :=
  match key with
  | some key => encryptDataBlock aes key blockIdx data
  | none => data

/-- Decrypt under the active key, if any. -/
def decryptIfKeyed (aes : Aes) (key : Option EncryptionKey) (blockIdx : Nat) (raw : Block) :
    Block :=
  match key with
  | some key => decryptDataBlock aes key blockIdx raw
  | none => raw

/-- What `write_data_block` puts on the device: compressed if that pays, then
encrypted. -/
def encodeDataBlock (aes : Aes) (settings : DataBlockSettings) (blockIdx : Nat) (data : Block) :
    Block :=
  let toWrite :=
    if blockStoredCompressed settings.compressionEnabled data then
      compressedBlock (lz4Compress data.toList)
    else data
  encryptIfKeyed aes settings.key blockIdx toWrite

/-- `AthFS::write_data_block`, the device accepting the write. -/
def writeDataBlock (aes : Aes) (settings : DataBlockSettings) (disk : Disk) (blockIdx : Nat)
    (data : Block) : Disk :=
  writeBlock disk blockIdx (encodeDataBlock aes settings blockIdx data)

/-- `compressed_len`: bytes 1 and 2, little endian. -/
def headerLen (raw : Block) : Nat := (raw.get 1).toNat ||| (raw.get 2).toNat <<< 8

/-- The test by which the reader takes a block for a compressed one. -/
def hasCompressionHeader (raw : Block) : Bool :=
  raw.get 0 == blockHdrCompressed && 0 < headerLen raw && headerLen raw ≤ blockSize - 3

/-- The decoded payload of a block read as compressed, zero-filled. -/
def decodePayload (raw : Block) : Option Block :=
  (lz4Decompress ((raw.toList.drop 3).take (headerLen raw)) blockSize).map Bytes.ofList

/-- `AthFS::read_data_block`, the device answering the read. `none` would be a
panic in the decoder. -/
def readDataBlock (aes : Aes) (settings : DataBlockSettings) (disk : Disk) (blockIdx : Nat) :
    Option Block :=
  let raw := decryptIfKeyed aes settings.key blockIdx (disk blockIdx)
  if hasCompressionHeader raw then decodePayload raw else some raw

/-- The cipher layer cancels. -/
theorem decryptIfKeyed_encryptIfKeyed (aes : Aes) (key : Option EncryptionKey) (blockIdx : Nat)
    (data : Block) :
    decryptIfKeyed aes key blockIdx (encryptIfKeyed aes key blockIdx data) = data := by
  cases key with
  | none => rfl
  | some key => exact decryptDataBlock_encryptDataBlock aes key blockIdx data

/-! ## The compressed path -/

/-- A length below 65536 is read back from its two bytes. -/
theorem headerLen_bytes {len : Nat} (h : len < 65536) :
    (UInt8.ofNat (len &&& 0xFF)).toNat ||| (UInt8.ofNat (len >>> 8 &&& 0xFF)).toNat <<< 8 = len := by
  have hlo : (UInt8.ofNat (len &&& 0xFF)).toNat = len % 256 := by
    rw [UInt8.toNat_ofNat', Nat.and_two_pow_sub_one_eq_mod len 8]
    omega
  have hhi : (UInt8.ofNat (len >>> 8 &&& 0xFF)).toNat = len / 256 := by
    rw [UInt8.toNat_ofNat', Nat.and_two_pow_sub_one_eq_mod _ 8, Nat.shiftRight_eq_div_pow]
    omega
  rw [hlo, hhi, Nat.lor_comm, ← Nat.shiftLeft_add_eq_or_of_lt (by omega), Nat.shiftLeft_eq]
  omega

/-- The header of a compressed block carries the payload's length. -/
theorem headerLen_compressedBlock (h : compressed.length < 65536) :
    headerLen (compressedBlock compressed) = compressed.length := by
  have h1 : (compressedBlock compressed).get 1 = UInt8.ofNat (compressed.length &&& 0xFF) := by
    rw [Bytes.get_of_lt _ (by decide)]
    rfl
  have h2 : (compressedBlock compressed).get 2 = UInt8.ofNat (compressed.length >>> 8 &&& 0xFF) := by
    rw [Bytes.get_of_lt _ (by decide)]
    rfl
  rw [headerLen, h1, h2, headerLen_bytes h]

/-- The payload of a compressed block, cut out as the reader does. -/
theorem payload_compressedBlock (h : compressed.length + 3 ≤ blockSize) :
    ((compressedBlock compressed).toList.drop 3).take compressed.length = compressed := by
  have htake := Bytes.take_toList_ofList (n := blockSize)
    (l := blockHdrCompressed :: UInt8.ofNat (compressed.length &&& 0xFF) ::
      UInt8.ofNat (compressed.length >>> 8 &&& 0xFF) :: compressed) h
  have hdrop := congrArg (List.drop 3) htake
  rw [List.drop_take] at hdrop
  exact hdrop

/-- A block is read as compressed, and its payload decoded, exactly as it was laid out. -/
theorem read_compressedBlock (hpos : 0 < compressed.length)
    (h : compressed.length + 3 ≤ blockSize) :
    hasCompressionHeader (compressedBlock compressed) = true ∧
      decodePayload (compressedBlock compressed)
        = (lz4Decompress compressed blockSize).map Bytes.ofList := by
  have hlt : compressed.length < 65536 := by
    rw [blockSize] at h
    omega
  have hlen := headerLen_compressedBlock hlt
  constructor
  · have h0 : (compressedBlock compressed).get 0 = blockHdrCompressed := by
      rw [Bytes.get_of_lt _ (by decide)]
      rfl
    have hle : headerLen (compressedBlock compressed) ≤ blockSize - 3 := by omega
    rw [hasCompressionHeader, h0, decide_eq_true (hlen ▸ hpos), decide_eq_true hle]
    rfl
  · rw [decodePayload, hlen, payload_compressedBlock h]

/-- One block fits the codec: no match can be 65536 bytes away. -/
theorem lz4Decompress_lz4Compress_block (data : Block) :
    lz4Decompress (lz4Compress data.toList) blockSize = some data.toList :=
  lz4Decompress_lz4Compress (by rw [Bytes.length_toList]; decide) (by rw [Bytes.length_toList])
    (by decide)

/-- The compressor never encodes a whole block as nothing. -/
theorem lz4Compress_block_pos (data : Block) : 0 < (lz4Compress data.toList).length := by
  have hrt := lz4Decompress_lz4Compress_block data
  rw [List.length_pos_iff]
  intro hnil
  rw [hnil, lz4Decompress_reserved (by decide), lz4DecompressLoop] at hrt
  have hlen := congrArg List.length (Option.some.inj hrt)
  rw [Bytes.length_toList, List.length_nil, blockSize] at hlen
  omega

/-! ## The round trip -/

/-- **When a block written is the block read.** Exactly when the writer stored it
compressed, or its own first three bytes do not read as a compression header, or
they do and decoding its bytes happens to give the block itself. -/
theorem readDataBlock_writeDataBlock_iff (aes : Aes) (settings : DataBlockSettings) (disk : Disk)
    (blockIdx : Nat) (data : Block) :
    readDataBlock aes settings (writeDataBlock aes settings disk blockIdx data) blockIdx = some data ↔
      blockStoredCompressed settings.compressionEnabled data = true ∨
        hasCompressionHeader data = false ∨ decodePayload data = some data := by
  have hraw : ∀ toWrite : Block, decryptIfKeyed aes settings.key blockIdx
      (writeBlock disk blockIdx (encryptIfKeyed aes settings.key blockIdx toWrite) blockIdx)
        = toWrite := by
    intro toWrite
    rw [writeBlock, Function.update_self, decryptIfKeyed_encryptIfKeyed]
  rw [readDataBlock, writeDataBlock]
  simp only [encodeDataBlock, hraw]
  by_cases hstored : blockStoredCompressed settings.compressionEnabled data = true
  · have hle : (lz4Compress data.toList).length + 3 ≤ blockSize := by
      simp only [blockStoredCompressed, Bool.and_eq_true, decide_eq_true_eq] at hstored
      have hthree : 3 ≤ blockSize := by decide
      omega
    obtain ⟨hhdr, hdec⟩ := read_compressedBlock (lz4Compress_block_pos data) hle
    rw [lz4Decompress_lz4Compress_block, Option.map_some, Bytes.ofList_toList] at hdec
    rw [if_pos hstored, if_pos hhdr]
    exact iff_of_true hdec (Or.inl hstored)
  · rw [if_neg hstored]
    -- the raw path: what comes back is decided by the data's own first three bytes
    by_cases hhdr : hasCompressionHeader data = true
    · simp [hstored, hhdr]
    · simp [hstored, hhdr]

/-- The block `01 01 00 00 ...`: a header that announces one payload byte, 0. -/
def headerLikeBlock : Block := Bytes.ofList [0x01, 0x01]

/-- A cipher for settings without a key, where it is never called. -/
def Aes.unused : Aes := ⟨fun _ block => block, fun _ block => block, fun _ _ => rfl⟩

/-- **A raw block that looks compressed is lost**: with compression off and no key,
the block `01 01 00 ...` is read back as zeros. -/
theorem rawHeader_misread :
    readDataBlock Aes.unused ⟨false, none⟩
        (writeDataBlock Aes.unused ⟨false, none⟩ (fun _ => Bytes.zero) 9 headerLikeBlock) 9
      = some Bytes.zero ∧ (Bytes.zero : Block) ≠ headerLikeBlock := by
  have hblock : headerLikeBlock = compressedBlock [0] := by
    funext i
    show List.getD [0x01, 0x01] i.val 0 = List.getD [0x01, 0x01, 0x00, 0x00] i.val 0
    rcases i with ⟨_ | _ | _ | _ | i, hi⟩ <;> simp
  have hdec : lz4Decompress [0] blockSize = some [] := by
    rw [lz4Decompress_reserved (by decide)]
    exact lz4DecompressLoop_done (by decide) rfl
  obtain ⟨hhdr, hpay⟩ := @read_compressedBlock [0] (by decide) (by decide)
  rw [hdec, ← hblock] at hpay
  rw [← hblock] at hhdr
  have hraw : writeDataBlock Aes.unused ⟨false, none⟩ (fun _ => Bytes.zero) 9 headerLikeBlock 9
      = headerLikeBlock := by
    rw [writeDataBlock, writeBlock, Function.update_self]
    rfl
  constructor
  · have hread : readDataBlock Aes.unused ⟨false, none⟩
        (writeDataBlock Aes.unused ⟨false, none⟩ (fun _ => Bytes.zero) 9 headerLikeBlock) 9
          = decodePayload headerLikeBlock := by
      rw [readDataBlock, hraw]
      exact if_pos hhdr
    rw [hread, hpay]
    rfl
  · intro h
    have h0 := congrArg (fun block : Block => block.get 0) h
    rw [Bytes.get_of_lt _ (by decide), Bytes.get_of_lt _ (by decide)] at h0
    exact absurd h0 (by decide)

end AthenaOS
