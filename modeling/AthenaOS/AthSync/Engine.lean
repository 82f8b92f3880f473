import AthenaOS.AthSync.Manifest

/-!
# The sync engine (`components/athsync/src/lib.rs`)

All of the engine's state and every operation on it: devices and their trust, pairing, items,
sessions, uploads and downloads.
-/

namespace AthenaOS.AthSync.Engine

open Lib Lib.Wire Manifest

/-- The functions of `ath_crypto` for both directions. -/
structure Aead extends Crypto where
  /-- `chacha20poly1305::open`: key, nonce, associated data, ciphertext and tag. -/
  aeadOpen : Key → Nonce → ByteString → ByteString → Option ByteString

/-- What is sealed can be opened. -/
structure Aead.Lawful (c : Aead) : Prop where
  crypto : c.toCrypto.Lawful
  open_seal : ∀ key nonce aad plaintext, c.aeadOpen key nonce aad (c.aeadSeal key nonce aad plaintext) = some plaintext

/-- `SealedPayload::unseal`. -/
def unsealWith (c : Aead) (payload : SealedPayload) (key : Key) : Option ByteString :=
  c.aeadOpen key payload.nonce
    (payload.sender.toList ++ payload.recipient.toList ++ leBytes 8 payload.sequence.toNat) payload.encryptedData

/-! ## Devices and pairing -/

/-- A paired device: the fields the engine reads or changes. -/
structure DeviceRecord extends AthSync.DeviceRecord where
  deviceId : DeviceId
  pairedAt : UInt64
  lastSeen : UInt64
  lastSync : UInt64

/-- `SyncScope::full`. -/
def SyncScope.full : SyncScope where
  allowedTypes := [.settings, .bookmarks, .clipboard, .wifiPasswords, .appData, .files, .gameSaves, .credentials]

/-- `DeviceRecord::is_active`. -/
def DeviceRecord.isActive (device : DeviceRecord) (now staleThreshold : UInt64) : Bool :=
  device.trustLevel.canSync && decide (now - device.lastSeen < staleThreshold)

structure PairingChallenge where
  initiator : DeviceId
  numericPin : UInt32
  publicKey : Key
  createdAt : UInt64
  expiresAt : UInt64
  qrPayload : ByteString

def PairingChallenge.isExpired (challenge : PairingChallenge) (now : UInt64) : Bool := decide (challenge.expiresAt ≤ now)

structure PairingResponse where
  responder : DeviceId
  numericPin : UInt32
  publicKey : Key

inductive PairingError where
  | pinMismatch
  | expired
  | alreadyPaired
  deriving DecidableEq

/-- `PairingCeremony`. -/
abbrev Pairing : Type := Std.ExtTreeMap DeviceId PairingChallenge

namespace Pairing

def initiate (pending : Pairing) (localDevice : DeviceId) (localPubkey : Key) (pin : UInt32) (now : UInt64) : Pairing :=
  pending.insert localDevice
    { initiator := localDevice
      numericPin := pin
      publicKey := localPubkey
      createdAt := now
      expiresAt := now + 300
      qrPayload := localDevice.toList ++ localPubkey.toList ++ leBytes 4 pin.toNat }

/-- The challenge is used up whether or not the response fits it. -/
def complete (pending : Pairing) (localDevice : DeviceId) (response : PairingResponse) (now : UInt64) :
    Except PairingError DeviceRecord × Pairing :=
  match pending[localDevice]? with
  | none => (.error .expired, pending)
  | some challenge =>
    let pending := pending.erase localDevice
    if challenge.isExpired now then (.error .expired, pending)
    else if challenge.numericPin ≠ response.numericPin then (.error .pinMismatch, pending)
    else
      (.ok
        { deviceId := response.responder
          trustLevel := .trusted
          publicKey := response.publicKey
          pairedAt := now
          lastSeen := now
          lastSync := 0
          syncScope := SyncScope.full }, pending)

def cleanupExpired (pending : Pairing) (now : UInt64) : Pairing := pending.filter fun _ challenge => !challenge.isExpired now

end Pairing

/-! ## Sessions -/

inductive SyncError where
  | peerUnreachable (peer : DeviceId)
  | trustRevoked (peer : DeviceId)
  | encryptionFailed
  | decryptionFailed
  | integrityCheckFailed
  | payloadTooLarge
  | versionMismatch
  | conflictUnresolved (item : SyncItemId)
  | storageFull
  | timeout
  | protocolError
  deriving DecidableEq

structure SyncProgress where
  phase : SyncPhase
  totalItems : Nat
  completedItems : Nat
  failedItems : Nat
  bytesTransferred : Nat
  bytesTotal : Nat
  startedAt : UInt64
  peerDevice : Option DeviceId
  errors : List SyncError

/-- `SyncProgress::new`. -/
def SyncProgress.new (now : UInt64) : SyncProgress where
  phase := .idle
  totalItems := 0
  completedItems := 0
  failedItems := 0
  bytesTransferred := 0
  bytesTotal := 0
  startedAt := now
  peerDevice := none
  errors := []

structure ItemSyncState where
  status : ItemSyncStatus
  localVersion : UInt64
  remoteVersion : UInt64
  lastSyncedVersion : UInt64
  lastSyncTime : UInt64
  retryCount : UInt32

inductive ConflictStrategy where
  | keepLocal
  | keepRemote
  | keepNewer
  | keepBoth
  | manual
  deriving DecidableEq

structure ConflictPolicy where
  defaultStrategy : ConflictStrategy
  typeOverrides : SyncItemType → Option ConflictStrategy

def ConflictPolicy.setOverride (policy : ConflictPolicy) (itemType : SyncItemType) (strategy : ConflictStrategy) :
    ConflictPolicy :=
  { policy with typeOverrides := Function.update policy.typeOverrides itemType (some strategy) }

/-- The state; its items and manifest are those of `Manifest.SyncEngine`. -/
structure SyncEngine extends Manifest.SyncEngine where
  localDevice : DeviceId
  keypair : X25519KeyPair
  devices : Std.ExtTreeMap DeviceId DeviceRecord
  itemStates : Std.ExtTreeMap SyncItemId ItemSyncState
  conflictPolicy : ConflictPolicy
  pairing : Pairing
  progress : SyncProgress
  sequenceCounter : UInt64
  enabled : Bool

namespace SyncEngine

/-! ### Devices -/

def initiatePairing (e : SyncEngine) (pin : UInt32) (now : UInt64) : SyncEngine :=
  { e with pairing := e.pairing.initiate e.localDevice e.keypair.publicKey pin now }

def completePairing (e : SyncEngine) (response : PairingResponse) (now : UInt64) :
    Except PairingError DeviceId × SyncEngine :=
  if e.devices[response.responder]?.isSome then (.error .alreadyPaired, e)
  else
    match e.pairing.complete e.localDevice response now with
    | (.error err, pairing) => (.error err, { e with pairing })
    | (.ok record, pairing) =>
      (.ok record.deviceId, { e with pairing, devices := e.devices.insert record.deviceId record })

def addDevice (e : SyncEngine) (record : DeviceRecord) : Except PairingError Unit × SyncEngine :=
  if e.devices[record.deviceId]?.isSome then (.error .alreadyPaired, e)
  else (.ok (), { e with devices := e.devices.insert record.deviceId record })

def removeDevice (e : SyncEngine) (id : DeviceId) : Bool × SyncEngine :=
  (e.devices[id]?.isSome, { e with devices := e.devices.erase id })

def setTrustLevel (e : SyncEngine) (id : DeviceId) (level : TrustLevel) : Option TrustLevel × SyncEngine :=
  (e.devices[id]?.map fun device => device.trustLevel,
    { e with devices := e.devices.modify id fun device => { device with trustLevel := level } })

def revokeDevice (e : SyncEngine) (id : DeviceId) : Bool × SyncEngine :=
  (e.devices[id]?.isSome, { e with devices := e.devices.modify id fun device => { device with trustLevel := .revoked } })

def updateDeviceSyncScope (e : SyncEngine) (id : DeviceId) (scope : SyncScope) : Bool × SyncEngine :=
  (e.devices[id]?.isSome, { e with devices := e.devices.modify id fun device => { device with syncScope := scope } })

/-- Devices that are revoked, or were not seen for too long, go. -/
def pruneStaleDevices (e : SyncEngine) (now staleThreshold : UInt64) : Nat × SyncEngine :=
  let stale := (e.devices.values.filter fun device => !device.isActive now staleThreshold).map DeviceRecord.deviceId
  (stale.length, { e with devices := stale.foldl (fun devices id => devices.erase id) e.devices })

/-! ### Items -/

def registerItem (e : SyncEngine) (item : Manifest.SyncItem) : SyncEngine :=
  { e with
    toSyncEngine := e.toSyncEngine.registerItem item
    itemStates := e.itemStates.insert item.id
      { status := .pendingUpload
        localVersion := item.version
        remoteVersion := 0
        lastSyncedVersion := 0
        lastSyncTime := 0
        retryCount := 0 } }

def updateItem (e : SyncEngine) (id : SyncItemId) (newData : ByteString) (hash : Bytes 32) (now : UInt64) : SyncEngine :=
  match e.items[id]? with
  | none => e
  | some item =>
    { e with
      toSyncEngine := e.toSyncEngine.updateItem id newData hash now
      itemStates := e.itemStates.modify id fun state =>
        { state with localVersion := item.version + 1, status := .pendingUpload } }

def deleteItem (e : SyncEngine) (id : SyncItemId) : Bool × SyncEngine :=
  if e.items[id]?.isSome then
    (true, { e with toSyncEngine := (e.toSyncEngine.deleteItem id).2, itemStates := e.itemStates.erase id })
  else (false, e)

def purgeDeletedItems (e : SyncEngine) : Nat × SyncEngine :=
  let deleted := (e.manifest.items.toList.filter fun (_, entry) => entry.isDeleted).map Prod.fst
  (deleted.length, { e with
    manifest := { e.manifest with items := deleted.foldl (fun items id => items.erase id) e.manifest.items }
    items := deleted.foldl (fun items id => items.erase id) e.items
    itemStates := deleted.foldl (fun states id => states.erase id) e.itemStates })

/-! ### Sync operations -/

/-- Begin a sync session with a specific peer. -/
def beginSync (e : SyncEngine) (peerId : DeviceId) (now : UInt64) : Except SyncError Unit × SyncEngine :=
  if !e.enabled then (.error .protocolError, e)
  else
    match e.devices[peerId]? with
    | none => (.error (.peerUnreachable peerId), e)
    | some device =>
      if !device.trustLevel.canSync then (.error (.trustRevoked peerId), e)
      else (.ok (), { e with progress := { SyncProgress.new now with phase := .discovering, peerDevice := some peerId } })

/-- Negotiate sync by computing the delta against a remote manifest. -/
def negotiate (e : SyncEngine) (remoteManifest : SyncManifest) : SyncDelta × SyncEngine :=
  let delta := computeDelta e.manifest remoteManifest
  let total := delta.toUpload.length + delta.toDownload.length + delta.conflicts.length
  (delta, { e with progress := { e.progress with phase := .negotiating, totalItems := total } })

section

variable (c : Aead)

/-- One round of the loop of `prepare_upload`. -/
def uploadOne (e : SyncEngine) (device : DeviceRecord) (peerId : DeviceId) (key : Key) (baseNonce : Nonce) (now : UInt64)
    (id : SyncItemId) : List SealedPayload × SyncEngine :=
  match e.items[id]? with
  | none => ([], e)
  | some item =>
    if !device.syncScope.allows item.itemType then ([], e)
    else if !device.trustLevel.canSyncType item.itemType then ([], e)
    else
      let sequence := e.sequenceCounter + 1
      ([.seal c.toCrypto e.localDevice peerId sequence key (mixNonce baseNonce sequence) item.encryptedPayload now],
        { e with
          sequenceCounter := sequence
          itemStates := e.itemStates.modify id fun state => { state with status := .uploading } })

/-- The loop of `prepare_upload`. -/
def uploadAll (e : SyncEngine) (device : DeviceRecord) (peerId : DeviceId) (key : Key) (baseNonce : Nonce) (now : UInt64) :
    List SyncItemId → List SealedPayload × SyncEngine
  | [] => ([], e)
  | id :: ids =>
    let (payload, e) := e.uploadOne c device peerId key baseNonce now id
    let (payloads, e) := e.uploadAll device peerId key baseNonce now ids
    (payload ++ payloads, e)

/-- The key and base nonce for a device. -/
def sessionKeys (e : SyncEngine) (device : DeviceRecord) : Key × Nonce :=
  deriveSessionKeys c.toCrypto (c.diffieHellman e.keypair.privateKey device.publicKey) (utf8 "athsync-upload")

/-- Prepare encrypted payloads for items that need uploading. -/
def prepareUpload (e : SyncEngine) (itemIds : List SyncItemId) (peerId : DeviceId) (now : UInt64) :
    Except SyncError (List SealedPayload) × SyncEngine :=
  match e.devices[peerId]? with
  | none => (.error (.peerUnreachable peerId), e)
  | some device =>
    if !device.trustLevel.canSync then (.error (.trustRevoked peerId), e)
    else
      let (key, baseNonce) := e.sessionKeys c device
      let (payloads, e) := e.uploadAll c device peerId key baseNonce now itemIds
      (.ok payloads, { e with progress := { e.progress with phase := .syncing } })

/-- Open a payload with the key its sender shares. The sender's trust level is not looked at. -/
def receive (e : SyncEngine) (payload : SealedPayload) : Except SyncError ByteString :=
  match e.devices[payload.sender]? with
  | none => .error (.peerUnreachable payload.sender)
  | some device =>
    match unsealWith c payload (e.sessionKeys c device).1 with
    | none => .error .decryptionFailed
    | some plaintext => .ok plaintext

/-- What a payload that was opened adds to the progress. -/
def countPayload (e : SyncEngine) (plaintext : ByteString) : SyncEngine :=
  { e with progress := { e.progress with
      bytesTransferred := e.progress.bytesTransferred + plaintext.length
      completedItems := e.progress.completedItems + 1 } }

/-- The loop of `apply_download`, and the number of payloads it has applied. -/
def applyAll (e : SyncEngine) (applied : Nat) : List SealedPayload → Except SyncError Nat × SyncEngine
  | [] => (.ok applied, e)
  | payload :: payloads =>
    match e.receive c payload with
    | .error err => (.error err, e)
    | .ok plaintext => (e.countPayload plaintext).applyAll (applied + 1) payloads

/-- Apply downloaded items from sealed payloads. -/
def applyDownload (e : SyncEngine) (payloads : List SealedPayload) (_remoteManifest : SyncManifest) (now : UInt64) :
    Except SyncError Nat × SyncEngine :=
  match e.applyAll c 0 payloads with
  | (.error err, e) => (.error err, e)
  | (.ok applied, e) =>
    (.ok applied, { e with
      devices := match e.progress.peerDevice with
        | some peerId => e.devices.modify peerId fun device => { device with lastSync := now, lastSeen := now }
        | none => e.devices
      manifest := { e.manifest with lastSync := now } })

end

/-- The engine's part of `resolve_conflicts`. -/
def resolveConflicts (e : SyncEngine) : SyncEngine := { e with progress := { e.progress with phase := .resolving } }

/-- Complete a sync session. -/
def completeSync (e : SyncEngine) (now : UInt64) : SyncEngine :=
  { e with
    progress := { e.progress with phase := .complete }
    manifest := { e.manifest with lastSync := now }
    itemStates := e.itemStates.map fun _ state =>
      match state.status with
      | .uploading | .downloading =>
        { state with status := .inSync, lastSyncedVersion := state.localVersion, lastSyncTime := now }
      | _ => state }

/-- Mark sync as failed. -/
def failSync (e : SyncEngine) (error : SyncError) : SyncEngine :=
  { e with
    progress := { e.progress with phase := .failed, errors := e.progress.errors ++ [error] }
    itemStates := e.itemStates.map fun _ state =>
      match state.status with
      | .uploading | .downloading => { state with status := .error, retryCount := state.retryCount + 1 }
      | _ => state }

end SyncEngine

/-! ## Steps -/

/-- The operations that change the engine. -/
inductive Call where
  | enable
  | disable
  | initiatePairing (pin : UInt32) (now : UInt64)
  | completePairing (response : PairingResponse) (now : UInt64)
  | addDevice (record : DeviceRecord)
  | removeDevice (id : DeviceId)
  | setTrustLevel (id : DeviceId) (level : TrustLevel)
  | revokeDevice (id : DeviceId)
  | updateDeviceSyncScope (id : DeviceId) (scope : SyncScope)
  | pruneStaleDevices (now staleThreshold : UInt64)
  | registerItem (item : Manifest.SyncItem)
  | updateItem (id : SyncItemId) (newData : ByteString) (hash : Bytes 32) (now : UInt64)
  | deleteItem (id : SyncItemId)
  | purgeDeletedItems
  | beginSync (peerId : DeviceId) (now : UInt64)
  | negotiate (remoteManifest : SyncManifest)
  | prepareUpload (itemIds : List SyncItemId) (peerId : DeviceId) (now : UInt64)
  | applyDownload (payloads : List SealedPayload) (remoteManifest : SyncManifest) (now : UInt64)
  | resolveConflicts
  | completeSync (now : UInt64)
  | failSync (error : SyncError)
  | setConflictPolicy (policy : ConflictPolicy)
  | setTypeConflictStrategy (itemType : SyncItemType) (strategy : ConflictStrategy)
  | cleanupExpiredPairings (now : UInt64)

def SyncEngine.step (c : Aead) (e : SyncEngine) : Call → SyncEngine
  | .enable => { e with enabled := true }
  | .disable => { e with enabled := false }
  | .initiatePairing pin now => e.initiatePairing pin now
  | .completePairing response now => (e.completePairing response now).2
  | .addDevice record => (e.addDevice record).2
  | .removeDevice id => (e.removeDevice id).2
  | .setTrustLevel id level => (e.setTrustLevel id level).2
  | .revokeDevice id => (e.revokeDevice id).2
  | .updateDeviceSyncScope id scope => (e.updateDeviceSyncScope id scope).2
  | .pruneStaleDevices now staleThreshold => (e.pruneStaleDevices now staleThreshold).2
  | .registerItem item => e.registerItem item
  | .updateItem id newData hash now => e.updateItem id newData hash now
  | .deleteItem id => (e.deleteItem id).2
  | .purgeDeletedItems => e.purgeDeletedItems.2
  | .beginSync peerId now => (e.beginSync peerId now).2
  | .negotiate remoteManifest => (e.negotiate remoteManifest).2
  | .prepareUpload itemIds peerId now => (e.prepareUpload c itemIds peerId now).2
  | .applyDownload payloads remoteManifest now => (e.applyDownload c payloads remoteManifest now).2
  | .resolveConflicts => e.resolveConflicts
  | .completeSync now => e.completeSync now
  | .failSync error => e.failSync error
  | .setConflictPolicy policy => { e with conflictPolicy := policy }
  | .setTypeConflictStrategy itemType strategy => { e with conflictPolicy := e.conflictPolicy.setOverride itemType strategy }
  | .cleanupExpiredPairings now => { e with pairing := e.pairing.cleanupExpired now }

end AthenaOS.AthSync.Engine
