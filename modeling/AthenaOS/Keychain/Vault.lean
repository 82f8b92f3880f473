import AthenaOS.Lib.Bytes
import AthenaOS.Lib.Checked
import AthenaOS.Lib.Decoder
import AthenaOS.Lib.Utf8

/-!
# The encrypted keychain (`components/ath_keychain/src/lib.rs`)

A keychain is a sorted map of credentials under a master key derived from a
passphrase. It is saved as a plain header and the sealed credential table; the
header is the associated data of the seal.

- `Crypto`: Argon2id and the AEAD as parameters. `Crypto.Lawful`: opening inverts
  sealing, and sealing adds the 16 bytes of the tag.
- `Keychain.toBytesWithNonce` and `Keychain.open`. The table's cursor is the input
  that is left.

The writer writes every keychain; the reader has caps of its own on the whole blob
and on the KDF cost.
-/

namespace AthenaOS.Vault

open Lib Lib.Wire

def maxEntries : Nat := 1048576
def maxServiceLen : Nat := 4096
def maxAccountLen : Nat := 4096
def maxSecretLen : Nat := 1048576
def maxMetadataLen : Nat := 65536

/-- `MAX_TOTAL_SIZE`: the largest blob `open` reads. -/
def maxBlobSize : Nat := 268435456

def maxPlaintextSize : Nat := 268435456

/-- `MAX_OPEN_M_KIB`: the largest Argon2id memory cost `open` honors. -/
def maxOpenMKib : UInt32 := 1048576

/-- `MAX_OPEN_T_COST`: the largest iteration count `open` honors. -/
def maxOpenTCost : UInt32 := 64

/-- `MAGIC`, the text `RAEKEYC` and a zero byte. -/
def magic : ByteString := [82, 65, 69, 75, 69, 89, 67, 0]

def formatVersion : Nat := 1
def saltLen : Nat := 16
def nonceLen : Nat := 12

/-- `HEADER_FIXED_LEN`. -/
def headerFixedLen : Nat := 8 + 2 + 4 + 4 + 1 + 1

inductive KeychainError where
  | serviceTooLong
  | accountTooLong
  | secretTooLong
  | metadataTooLong
  | tooManyEntries
  | badMagic
  | unsupportedVersion (version : Nat)
  | badPassphrase
  | corrupt
  | tooLarge
  | badKdfParams
  deriving DecidableEq, Repr

/-- The functions of `ath_crypto` the keychain calls. -/
structure Crypto where
  /-- `argon2id_derive`: passphrase, salt, iterations, memory in KiB, parallelism. -/
  argon2id : ByteString → Bytes 16 → UInt32 → UInt32 → UInt8 → Bytes 32
  /-- `chacha20poly1305::seal`: key, nonce, associated data, plaintext. -/
  aeadSeal : Bytes 32 → Bytes 12 → ByteString → ByteString → ByteString
  /-- `chacha20poly1305::open`. -/
  aeadOpen : Bytes 32 → Bytes 12 → ByteString → ByteString → Option ByteString

/-- What the keychain relies on. -/
structure Crypto.Lawful (c : Crypto) : Prop where
  open_seal : ∀ key nonce aad plaintext,
    c.aeadOpen key nonce aad (c.aeadSeal key nonce aad plaintext) = some plaintext
  length_seal : ∀ key nonce aad plaintext,
    (c.aeadSeal key nonce aad plaintext).length = plaintext.length + 16

structure KdfParams where
  tCost : UInt32
  mKib : UInt32
  parallelism : UInt8
  deriving DecidableEq

structure Credential where
  service : String
  account : String
  secret : ByteString
  metadata : Option String
  deriving DecidableEq

/-- Keys are ordered by service, then by account. -/
local instance nameOrd : Ord (String × String) := lexOrd

/-- `BTreeMap<(String, String), Credential>`. -/
abbrev Entries : Type := Std.ExtTreeMap (String × String) Credential

structure Keychain where
  entries : Entries
  salt : Bytes 16
  nonce : Bytes 12
  kdf : KdfParams
  masterKey : ByteString

/-- The length of a text in bytes. -/
def byteLen (s : String) : Nat := (utf8 s).length

/-- `derive_key`: the 32-byte master key, as a vector. -/
def deriveKey (c : Crypto) (passphrase : String) (salt : Bytes 16) (kdf : KdfParams) : ByteString :=
  (c.argon2id (utf8 passphrase) salt kdf.tCost kdf.mKib kdf.parallelism).toList

/-- `key_array`: zero-padded to 32 bytes. -/
def keyArray (k : ByteString) : Bytes 32 := .ofList k

/-- A text or byte string behind its length, cast to `u32`. -/
def field (data : ByteString) : ByteString := leBytes 4 data.length ++ data

/-- The metadata of a row, behind its flag. -/
def metadataBytes : Option String → ByteString
  | some m => 1 :: field (utf8 m)
  | none => [0]

/-- One row of the credential table. -/
def credentialBytes (cred : Credential) : ByteString :=
  field (utf8 cred.service) ++ (field (utf8 cred.account) ++ (field cred.secret ++
    metadataBytes cred.metadata))

namespace Keychain

/-- A fresh keychain, with salt and nonce from the caller. -/
def withEntropy (c : Crypto) (passphrase : String) (salt : Bytes 16) (nonce : Bytes 12)
    (kdf : KdfParams) : Keychain where
  entries := ∅
  salt := salt
  nonce := nonce
  kdf := kdf
  masterKey := deriveKey c passphrase salt kdf

/-! ## The credential map -/

/-- Insert or overwrite a credential, within the caps of its fields. -/
def addWithMetadata (service account : String) (secret : ByteString) (metadata : Option String) :
    Checked KeychainError Keychain Unit := do
  Checked.require (byteLen service ≤ maxServiceLen) .serviceTooLong
  Checked.require (byteLen account ≤ maxAccountLen) .accountTooLong
  Checked.require (secret.length ≤ maxSecretLen) .secretTooLong
  Checked.require (metadata.all fun m => byteLen m ≤ maxMetadataLen) .metadataTooLong
  let kc ← Checked.read
  let key := (service, account)
  -- a new key grows the map, an overwrite does not
  Checked.require (kc.entries.contains key || decide (kc.entries.size < maxEntries)) .tooManyEntries
  Checked.write fun kc =>
    { kc with entries := kc.entries.insert key { service, account, secret, metadata } }
  return ()

def add (service account : String) (secret : ByteString) : Checked KeychainError Keychain Unit :=
  addWithMetadata service account secret none

/-- Remove a credential; whether it was there. -/
def delete (kc : Keychain) (service account : String) : Bool × Keychain :=
  (kc.entries.contains (service, account),
    { kc with entries := kc.entries.erase (service, account) })

/-! ## Saving -/

/-- `serialize_plaintext`. -/
def serializePlaintext (kc : Keychain) : ByteString :=
  leBytes 4 kc.entries.size ++ kc.entries.toList.flatMap fun e => credentialBytes e.2

/-- `build_header`: the file prefix and the associated data. -/
def buildHeader (kc : Keychain) (nonce : Bytes 12) : ByteString :=
  magic ++ (leBytes 2 formatVersion ++ (leBytes 4 kc.kdf.tCost.toNat ++
    (leBytes 4 kc.kdf.mKib.toNat ++ ([kc.kdf.parallelism] ++ ([UInt8.ofNat saltLen] ++
      (kc.salt.toList ++ nonce.toList))))))

/-- Serialize and encrypt with an explicit nonce. -/
def toBytesWithNonce (c : Crypto) (kc : Keychain) (nonce : Bytes 12) : ByteString :=
  let header := kc.buildHeader nonce
  header ++ c.aeadSeal (keyArray kc.masterKey) nonce header kc.serializePlaintext

end Keychain

/-! ## Reading the table -/

/-- A reader of the decrypted table; the state is the input that is left. -/
abbrev Reader (α : Type) : Type := Decoder ByteString KeychainError α

def readU8 : Reader UInt8 := fun body =>
  match body with
  | [] => .error .corrupt
  | b :: rest => .ok (b, rest)

def readU32 : Reader Nat := fun body =>
  if body.length < 4 then .error .corrupt else .ok (leNat (body.take 4), body.drop 4)

def readSlice (len : Nat) : Reader ByteString := fun body =>
  if body.length < len then .error .corrupt else .ok (body.take len, body.drop len)

def readString (len : Nat) : Reader String := do
  let bytes ← readSlice len
  match ofUtf8? bytes with
  | some s => return s
  | none => throw .corrupt

/-- The metadata of a row, behind its flag. -/
def readMetadata : Reader (Option String) := do
  let metaFlag ← readU8
  if metaFlag = 0 then return none
  else if metaFlag = 1 then
    let metaLen ← readU32
    if metaLen > maxMetadataLen then throw .corrupt
    return some (← readString metaLen)
  else throw .corrupt

/-- The body of the row loop. -/
def readCredential : Reader Credential := do
  let svcLen ← readU32
  if svcLen > maxServiceLen then throw .corrupt
  let service ← readString svcLen
  let accLen ← readU32
  if accLen > maxAccountLen then throw .corrupt
  let account ← readString accLen
  let secLen ← readU32
  if secLen > maxSecretLen then throw .corrupt
  let secret ← readSlice secLen
  let metadata ← readMetadata
  return { service, account, secret, metadata }

/-- The row loop: `count` more rows. -/
def readCredentials : Nat → Entries → Reader Entries
  | 0, map => return map
  | count + 1, map => do
    let cred ← readCredential
    readCredentials count (map.insert (cred.service, cred.account) cred)

/-- `parse_plaintext`: no trailing bytes, and no two rows with one key. -/
def parsePlaintext (pt : ByteString) : Except KeychainError Entries := do
  let (count, rest) ← readU32 pt
  if count > maxEntries then throw .corrupt
  let (map, rest) ← readCredentials count ∅ rest
  if rest ≠ [] ∨ map.size ≠ count then throw .corrupt
  return map

/-- Parse and decrypt a blob. -/
def Keychain.open (c : Crypto) (data : ByteString) (passphrase : String) :
    Except KeychainError Keychain := do
  if data.length > maxBlobSize then throw .tooLarge
  if data.length < headerFixedLen then throw .corrupt
  if slice data 0 8 ≠ magic then throw .badMagic
  let version := leNat (slice data 8 2)
  if version ≠ formatVersion then throw (.unsupportedVersion version)
  let tCost := UInt32.ofNat (leNat (slice data 10 4))
  let mKib := UInt32.ofNat (leNat (slice data 14 4))
  let parallelism := data.getD 18 0
  let saltLen' := (data.getD 19 0).toNat
  if saltLen' ≠ saltLen then throw .badKdfParams
  -- the KDF runs before the tag can be checked, so its cost is capped first
  if mKib > maxOpenMKib ∨ tCost > maxOpenTCost then throw .badKdfParams
  let headerLen := headerFixedLen + saltLen' + nonceLen
  if data.length < headerLen then throw .corrupt
  let salt : Bytes 16 := .ofList (slice data headerFixedLen saltLen)
  let nonce : Bytes 12 := .ofList (slice data (headerFixedLen + saltLen) nonceLen)
  let kdf : KdfParams := { tCost, mKib, parallelism }
  let header := data.take headerLen
  let ctAndTag := data.drop headerLen
  if ctAndTag.length < 16 then throw .corrupt
  let derived := deriveKey c passphrase salt kdf
  match c.aeadOpen (keyArray derived) nonce header ctAndTag with
  | none => throw .badPassphrase
  | some plaintext =>
    if plaintext.length > maxPlaintextSize then throw .corrupt
    let entries ← parsePlaintext plaintext
    return { entries, salt, nonce, kdf, masterKey := derived }

end AthenaOS.Vault
