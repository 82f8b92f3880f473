import AthenaOS.AthSync.Engine

/-!
# Revoked devices

A device is revoked by its trust level. Uploads look at the trust level; downloads do not.
-/

namespace AthenaOS.AthSync.Engine

open Lib Lib.Wire Manifest

variable {c : Aead} {d : DeviceId} {e : SyncEngine}

/-! ## Device records -/

/-- There is no record of the device, or a revoked one. -/
def Revoked (d : DeviceId) (devices : Std.ExtTreeMap DeviceId DeviceRecord) : Prop :=
  ∀ record, devices[d]? = some record → record.trustLevel = .revoked

namespace Revoked

variable {devices : Std.ExtTreeMap DeviceId DeviceRecord}

/-- Changing a record without raising its trust level. -/
theorem modify (h : Revoked d devices) (id : DeviceId) {f : DeviceRecord → DeviceRecord}
    (hf : id = d → ∀ record, record.trustLevel = .revoked → (f record).trustLevel = .revoked) : Revoked d (devices.modify id f) := by
  intro record hrecord
  rw [Std.ExtTreeMap.getElem?_modify] at hrecord
  split at hrecord
  · rename_i heq
    obtain ⟨old, hold, rfl⟩ := Option.map_eq_some_iff.mp hrecord
    have hid : id = d := Std.LawfulEqCmp.eq_of_compare heq
    exact hf hid old (h old (hid ▸ hold))
  · exact h record hrecord

theorem insert (h : Revoked d devices) {id : DeviceId} (hid : id ≠ d) (record : DeviceRecord) :
    Revoked d (devices.insert id record) := by
  intro record' hrecord
  rw [Std.ExtTreeMap.getElem?_insert, if_neg fun heq => hid (Std.LawfulEqCmp.eq_of_compare heq)] at hrecord
  exact h record' hrecord

theorem erase (h : Revoked d devices) (id : DeviceId) : Revoked d (devices.erase id) := by
  intro record hrecord
  rw [Std.ExtTreeMap.getElem?_erase] at hrecord
  split at hrecord
  · exact nomatch hrecord
  · exact h record hrecord

theorem eraseAll (ids : List DeviceId) : ∀ {devices : Std.ExtTreeMap DeviceId DeviceRecord}, Revoked d devices →
    Revoked d (ids.foldl (fun devices id => devices.erase id) devices) := by
  induction ids with
  | nil => exact fun h => h
  | cons id ids ih => exact fun h => ih (h.erase id)

theorem of_revoke (devices : Std.ExtTreeMap DeviceId DeviceRecord) :
    Revoked d (devices.modify d fun device => { device with trustLevel := .revoked }) := by
  intro record hrecord
  rw [Std.ExtTreeMap.getElem?_modify_self] at hrecord
  obtain ⟨old, -, rfl⟩ := Option.map_eq_some_iff.mp hrecord
  rfl

end Revoked

/-! ## Steps behind a revocation -/

/-- The operations that let a device in again: trusting it, and pairing with it. -/
def Call.Readmits (d : DeviceId) : Call → Prop
  | .setTrustLevel id level => id = d ∧ level ≠ .revoked
  | .addDevice record => record.deviceId = d
  | .completePairing response _ => response.responder = d
  | _ => False

/-- Pairing makes a record of the device that answered. -/
theorem complete_deviceId {pending : Pairing} {localDevice : DeviceId} {response : PairingResponse} {now : UInt64}
    {record : DeviceRecord} (h : (pending.complete localDevice response now).1 = .ok record) :
    record.deviceId = response.responder := by
  rw [Pairing.complete] at h
  split at h
  · cases h
  · dsimp only at h
    split at h
    · cases h
    · split at h
      · cases h
      · exact (Except.ok.inj h) ▸ rfl

theorem devices_uploadOne (c : Aead) (e : SyncEngine) (device : DeviceRecord) (peerId : DeviceId) (key : Key)
    (baseNonce : Nonce) (now : UInt64) (id : SyncItemId) :
    (e.uploadOne c device peerId key baseNonce now id).2.devices = e.devices := by
  rw [SyncEngine.uploadOne]
  split
  · rfl
  · split
    · rfl
    · split <;> rfl

theorem devices_uploadAll (c : Aead) (device : DeviceRecord) (peerId : DeviceId) (key : Key) (baseNonce : Nonce)
    (now : UInt64) (ids : List SyncItemId) : ∀ e : SyncEngine,
      (e.uploadAll c device peerId key baseNonce now ids).2.devices = e.devices := by
  induction ids with
  | nil => exact fun _ => rfl
  | cons id ids ih => exact fun e => (ih _).trans (devices_uploadOne c e device peerId key baseNonce now id)

/-- Preparing an upload changes no device record. -/
theorem devices_prepareUpload (c : Aead) (e : SyncEngine) (itemIds : List SyncItemId) (peerId : DeviceId) (now : UInt64) :
    (e.prepareUpload c itemIds peerId now).2.devices = e.devices := by
  rw [SyncEngine.prepareUpload]
  split
  · rfl
  · split
    · rfl
    · exact devices_uploadAll ..

theorem devices_applyAll (c : Aead) (payloads : List SealedPayload) : ∀ (e : SyncEngine) (applied : Nat),
    (e.applyAll c applied payloads).2.devices = e.devices := by
  induction payloads with
  | nil => exact fun _ _ => rfl
  | cons payload payloads ih =>
    intro e applied
    rw [SyncEngine.applyAll]
    split
    · rfl
    · exact ih ..

/-- Applying a download changes at most when the peer of the session was seen. -/
theorem Revoked.applyDownload (h : Revoked d e.devices) (c : Aead) (payloads : List SealedPayload)
    (remoteManifest : SyncManifest) (now : UInt64) :
    Revoked d (e.applyDownload c payloads remoteManifest now).2.devices := by
  have hdevices := devices_applyAll c payloads e 0
  rw [SyncEngine.applyDownload]
  rcases hrun : e.applyAll c 0 payloads with ⟨err | applied, e'⟩
  · rw [hrun] at hdevices
    exact hdevices.symm ▸ h
  · rw [hrun] at hdevices
    have h' : Revoked d e'.devices := hdevices.symm ▸ h
    dsimp only
    split
    · exact h'.modify _ fun _ _ hrecord => hrecord
    · exact h'

/-- An operation that does not let the device in keeps it out. -/
theorem Revoked.step (h : Revoked d e.devices) (c : Aead) {call : Call} (hcall : ¬ call.Readmits d) :
    Revoked d (e.step c call).devices := by
  cases call with
  | completePairing response now =>
    rw [SyncEngine.step, SyncEngine.completePairing]
    split
    · exact h
    · rcases hpair : e.pairing.complete e.localDevice response now with ⟨err | record, pairing⟩
      · exact h
      · have hid := complete_deviceId (congrArg Prod.fst hpair)
        exact h.insert (fun heq => hcall (hid.symm.trans heq)) record
  | addDevice record =>
    rw [SyncEngine.step, SyncEngine.addDevice]
    split
    · exact h
    · exact h.insert hcall record
  | removeDevice id => exact h.erase id
  | setTrustLevel id level =>
    exact h.modify id fun hid _ _ => not_not.mp fun hlevel => hcall ⟨hid, hlevel⟩
  | revokeDevice id => exact h.modify id fun _ _ _ => rfl
  | updateDeviceSyncScope id scope => exact h.modify id fun _ _ hrecord => hrecord
  | pruneStaleDevices now staleThreshold => exact Revoked.eraseAll _ h
  | updateItem id newData hash now =>
    rw [SyncEngine.step, SyncEngine.updateItem]
    split <;> exact h
  | deleteItem id =>
    rw [SyncEngine.step, SyncEngine.deleteItem]
    split <;> exact h
  | beginSync peerId now =>
    rw [SyncEngine.step, SyncEngine.beginSync]
    split
    · exact h
    · split
      · exact h
      · split <;> exact h
  | prepareUpload itemIds peerId now => exact (devices_prepareUpload c e itemIds peerId now).symm ▸ h
  | applyDownload payloads remoteManifest now => exact h.applyDownload c payloads remoteManifest now
  | enable | disable | initiatePairing | registerItem | purgeDeletedItems | negotiate | resolveConflicts | completeSync |
    failSync | setConflictPolicy | setTypeConflictStrategy | cleanupExpiredPairings => exact h

/-- Runs behind a revocation. -/
def afterRevoking (c : Aead) (d : DeviceId) : Machine SyncEngine Call where
  init e := ∃ e₀ : SyncEngine, e = (e₀.revokeDevice d).2
  step e call e' := e' = e.step c call

theorem Revoked.of_run (hrun : (afterRevoking c d).Run (fun _ call => ¬ call.Readmits d) e) : Revoked d e.devices := by
  refine hrun.invariant (I := fun e => Revoked d e.devices) ?_ ?_
  · rintro _ ⟨e₀, rfl⟩
    exact .of_revoke e₀.devices
  · rintro e call _ he hcall rfl
    exact he.step c hcall

/-! ## Uploads and downloads -/

/-- The call fails and nothing has changed. -/
def Rejected {α : Type} (e : SyncEngine) (result : Except SyncError α × SyncEngine) : Prop :=
  (∃ err, result.1 = .error err) ∧ result.2.progress = e.progress ∧ result.2.devices = e.devices ∧
    result.2.manifest = e.manifest

/-- Nothing goes to a revoked device. -/
theorem prepareUpload_revoked (h : Revoked d e.devices) (c : Aead) (itemIds : List SyncItemId) (now : UInt64) :
    Rejected e (e.prepareUpload c itemIds d now) := by
  rw [SyncEngine.prepareUpload]
  cases hdevice : e.devices[d]? with
  | none => exact ⟨⟨_, rfl⟩, rfl, rfl, rfl⟩
  | some device =>
    have htrust : device.trustLevel.canSync = false := by
      rw [h device hdevice]
      rfl
    dsimp only
    rw [htrust]
    exact ⟨⟨_, rfl⟩, rfl, rfl, rfl⟩

/-- A round that applies a payload counts it, and the rest only count further. -/
theorem completedItems_applyAll (c : Aead) (payloads : List SealedPayload) : ∀ (e : SyncEngine) (applied : Nat),
    e.progress.completedItems ≤ (e.applyAll c applied payloads).2.progress.completedItems := by
  induction payloads with
  | nil => exact fun _ _ => Nat.le_refl _
  | cons payload payloads ih =>
    intro e applied
    rw [SyncEngine.applyAll]
    split
    · exact Nat.le_refl _
    · rename_i plaintext _
      exact Nat.le_trans (Nat.le_succ _) (ih (e.countPayload plaintext) (applied + 1))

/-- A batch leaves no trace just when its first payload cannot be opened. -/
theorem rejected_iff (c : Aead) (e : SyncEngine) (payloads : List SealedPayload) (remoteManifest : SyncManifest)
    (now : UInt64) : Rejected e (e.applyDownload c payloads remoteManifest now) ↔
      ∃ payload rest err, payloads = payload :: rest ∧ e.receive c payload = .error err := by
  cases payloads with
  | nil => exact ⟨by rintro ⟨⟨_, ⟨⟩⟩, _⟩, by rintro ⟨_, _, _, ⟨⟩, _⟩⟩
  | cons payload payloads =>
    constructor
    · rintro ⟨⟨err, herr⟩, hprogress, -⟩
      cases hreceive : e.receive c payload with
      | error err' => exact ⟨payload, payloads, err', rfl, hreceive⟩
      | ok plaintext =>
        -- the payload is counted, and an error behind it does not take that back
        have hcounts := completedItems_applyAll c payloads (e.countPayload plaintext) 1
        rw [SyncEngine.applyDownload, SyncEngine.applyAll, hreceive] at herr hprogress
        dsimp only at herr hprogress
        rcases hrun : (e.countPayload plaintext).applyAll c (0 + 1) payloads with ⟨_ | _, e'⟩
        · rw [hrun] at hcounts hprogress
          dsimp only at hcounts hprogress
          rw [hprogress] at hcounts
          exact absurd hcounts (Nat.not_succ_le_self _)
        · rw [hrun] at herr
          cases herr
    · rintro ⟨_, _, err, heq, herr⟩
      obtain ⟨rfl, rfl⟩ := List.cons.inj heq
      rw [SyncEngine.applyDownload, SyncEngine.applyAll, herr]
      exact ⟨⟨_, rfl⟩, rfl, rfl, rfl⟩

/-- After every run behind a revocation that does not let the device in again, no upload is prepared
for it, and a batch with a payload from it is rejected just when the first payload of the batch
cannot be opened. -/
theorem revocation_iff (c : Aead) (d : DeviceId) {e : SyncEngine}
    (hrun : (afterRevoking c d).Run (fun _ call => ¬ call.Readmits d) e) :
    (∀ itemIds now, Rejected e (e.prepareUpload c itemIds d now)) ∧
      ∀ (payloads : List SealedPayload) (remoteManifest : SyncManifest) (now : UInt64), (∃ p ∈ payloads, p.sender = d) →
        (Rejected e (e.applyDownload c payloads remoteManifest now) ↔
          ∃ payload rest err, payloads = payload :: rest ∧ e.receive c payload = .error err) :=
  ⟨prepareUpload_revoked (.of_run hrun) c, fun payloads remoteManifest now _ => rejected_iff c e payloads remoteManifest now⟩

/-! ### A revoked device that goes on sending -/

/-- Key agreement by xor, and no encryption. -/
def plainAead : Aead where
  toCrypto := World.plainCrypto
  aeadOpen _ _ _ ciphertext := some ciphertext

theorem plainAead_lawful : plainAead.Lawful where
  crypto := World.plainCrypto_lawful
  open_seal _ _ _ _ := rfl

/-- An engine with one paired device. -/
def pairedEngine : SyncEngine where
  items := ∅
  manifest := .new (.replicate 16 1)
  localDevice := .replicate 16 1
  keypair := { privateKey := fun _ => 1, publicKey := fun _ => 1 }
  devices := (∅ : Std.ExtTreeMap DeviceId DeviceRecord).insert (.replicate 16 2)
    { deviceId := .replicate 16 2
      trustLevel := .trusted
      publicKey := fun _ => 2
      pairedAt := 0
      lastSeen := 0
      lastSync := 0
      syncScope := SyncScope.full }
  itemStates := ∅
  conflictPolicy := { defaultStrategy := .keepNewer, typeOverrides := fun _ => none }
  pairing := ∅
  progress := .new 0
  sequenceCounter := 0
  enabled := true

/-- What the paired device sends, under the key the two share. -/
def peerPayload : SealedPayload :=
  .seal plainAead.toCrypto (.replicate 16 2) (.replicate 16 1) 1
    (deriveSessionKeys plainAead.toCrypto (plainAead.diffieHellman (fun _ => 2) fun _ => 1) (utf8 "athsync-upload")).1
    (fun _ => 0) [1, 2, 3] 5

/-- The device is revoked while its session goes on, and sends once more. -/
theorem revoked_run : (afterRevoking plainAead (.replicate 16 2)).Run (fun _ call => ¬ call.Readmits (.replicate 16 2))
    ((pairedEngine.revokeDevice (.replicate 16 2)).2.step plainAead (.negotiate (.new (.replicate 16 2)))) :=
  .snoc (.start ⟨pairedEngine, rfl⟩) id rfl

theorem revocation_paired :
    let e := (pairedEngine.revokeDevice (.replicate 16 2)).2.step plainAead (.negotiate (.new (.replicate 16 2)))
    (∀ itemIds now, Rejected e (e.prepareUpload plainAead itemIds (.replicate 16 2) now)) ∧
      ∀ (payloads : List SealedPayload) (remoteManifest : SyncManifest) (now : UInt64),
        (∃ p ∈ payloads, p.sender = .replicate 16 2) →
          (Rejected e (e.applyDownload plainAead payloads remoteManifest now) ↔
            ∃ payload rest err, payloads = payload :: rest ∧ e.receive plainAead payload = .error err) :=
  revocation_iff plainAead (.replicate 16 2) revoked_run

/-- The payload of a revoked device is applied. -/
theorem revoked_download : ¬ ∀ c : Aead, c.Lawful → ∀ (d : DeviceId) (e : SyncEngine),
    (afterRevoking c d).Run (fun _ call => ¬ call.Readmits d) e → ∀ (payloads : List SealedPayload)
      (remoteManifest : SyncManifest) (now : UInt64), (∃ p ∈ payloads, p.sender = d) →
        Rejected e (e.applyDownload c payloads remoteManifest now) := by
  intro h
  have hrejected := h plainAead plainAead_lawful (.replicate 16 2) (pairedEngine.revokeDevice (.replicate 16 2)).2
    (.start ⟨pairedEngine, rfl⟩) [peerPayload] (.new (.replicate 16 2)) 10 ⟨peerPayload, List.mem_cons_self, rfl⟩
  obtain ⟨payload, rest, err, heq, herr⟩ := (rejected_iff ..).mp hrejected
  obtain ⟨rfl, rfl⟩ := List.cons.inj heq
  have hdevice : (pairedEngine.revokeDevice (.replicate 16 2)).2.devices[peerPayload.sender]? =
      (pairedEngine.devices[peerPayload.sender]?).map fun device => { device with trustLevel := .revoked } :=
    Std.ExtTreeMap.getElem?_modify_self
  have hpaired : pairedEngine.devices[peerPayload.sender]? = some _ := Std.ExtTreeMap.getElem?_insert_self
  rw [SyncEngine.receive, hdevice, hpaired] at herr
  exact nomatch herr

end AthenaOS.AthSync.Engine
