import AthenaOS.Lib.Bytes
import AthenaOS.Lib.Machine
import AthenaOS.Lib.Utf8

/-!
# Sealed uploads (`components/athsync/src/lib.rs`)

An engine seals its items for a peer under a key and a base nonce derived from
the X25519 secret the two share. Each payload's nonce is the base nonce with the
engine's own sequence number mixed into its first eight bytes.
-/

namespace AthenaOS.AthSync

open Lib Lib.Wire

/-- A 32-byte key. -/
abbrev Key : Type := Bytes 32

/-- A 12-byte AEAD nonce. -/
abbrev Nonce : Type := Bytes 12

abbrev DeviceId : Type := Vector UInt8 16

abbrev SyncItemId : Type := Vector UInt8 16

instance deviceIdOrd : Std.TransOrd DeviceId := inferInstance

/-- The functions of `ath_crypto` the engine calls. -/
structure Crypto where
  /-- `x25519::public_key`. -/
  publicKey : Key → Key
  /-- `x25519::diffie_hellman`, from a private and a public key. -/
  diffieHellman : Key → Key → Key
  /-- `sha256::hkdf_extract`, from salt and keying material. -/
  hkdfExtract : ByteString → ByteString → Key
  /-- `sha256::hkdf_expand` into `n` bytes. -/
  hkdfExpand : (n : Nat) → Key → ByteString → Bytes n
  /-- `chacha20poly1305::seal`: key, nonce, associated data, plaintext. -/
  aeadSeal : Key → Nonce → ByteString → ByteString → ByteString

/-- X25519 is symmetric. -/
structure Crypto.Lawful (c : Crypto) : Prop where
  dh_comm : ∀ a b, c.diffieHellman a (c.publicKey b) = c.diffieHellman b (c.publicKey a)

/-! ## Devices and items -/

inductive TrustLevel where
  | owner
  | trusted
  | limited
  | revoked
  deriving DecidableEq, Repr

inductive SyncItemType where
  | settings
  | bookmarks
  | clipboard
  | wifiPasswords
  | appData
  | files
  | gameSaves
  | credentials
  deriving DecidableEq, Repr

namespace TrustLevel

def canSync : TrustLevel → Bool
  | owner | trusted | limited => true
  | revoked => false

def canSyncType (itemType : SyncItemType) : TrustLevel → Bool
  | owner | trusted => true
  | limited => itemType == .settings || itemType == .bookmarks
  | revoked => false

end TrustLevel

structure SyncScope where
  allowedTypes : List SyncItemType

def SyncScope.allows (scope : SyncScope) (itemType : SyncItemType) : Bool :=
  scope.allowedTypes.contains itemType

structure DeviceRecord where
  trustLevel : TrustLevel
  publicKey : Key
  syncScope : SyncScope

structure SyncItem where
  itemType : SyncItemType
  encryptedPayload : ByteString

inductive ItemSyncStatus where
  | inSync
  | localAhead
  | remoteAhead
  | conflict
  | pendingUpload
  | pendingDownload
  | uploading
  | downloading
  | error
  deriving DecidableEq, Repr

inductive SyncPhase where
  | idle
  | discovering
  | negotiating
  | syncing
  | resolving
  | complete
  | failed
  deriving DecidableEq, Repr

inductive SyncError where
  | peerUnreachable (peer : DeviceId)
  | trustRevoked (peer : DeviceId)
  deriving DecidableEq

structure X25519KeyPair where
  privateKey : Key
  publicKey : Key

/-- The fields of `SyncEngine` an upload reads or writes. -/
structure SyncEngine where
  localDevice : DeviceId
  keypair : X25519KeyPair
  devices : Std.ExtTreeMap DeviceId DeviceRecord
  items : Std.ExtTreeMap SyncItemId SyncItem
  itemStatus : Std.ExtTreeMap SyncItemId ItemSyncStatus
  phase : SyncPhase
  sequenceCounter : UInt64

structure SealedPayload where
  sender : DeviceId
  recipient : DeviceId
  sequence : UInt64
  encryptedData : ByteString
  nonce : Nonce
  timestamp : UInt64

/-! ## Sealing -/

section Seal

variable (c : Crypto)

/-- `Hkdf::derive_session_keys`: 44 bytes of keying material, cut in key and nonce. -/
def deriveSessionKeys (sharedSecret : Key) (context : ByteString) : Key × Nonce :=
  let prk := c.hkdfExtract context sharedSecret.toList
  let expanded := c.hkdfExpand 44 prk (utf8 "athsync-session")
  (expanded.slice 0, expanded.slice 32)

/-- The base nonce with the sequence number's little-endian bytes xored in. -/
def mixNonce (baseNonce : Nonce) (sequence : UInt64) : Nonce :=
  fun i => baseNonce i ^^^ (leBytes 8 sequence.toNat).getD i 0

def SealedPayload.seal (sender recipient : DeviceId) (sequence : UInt64) (key : Key) (nonce : Nonce)
    (plaintext : ByteString) (now : UInt64) : SealedPayload where
  sender := sender
  recipient := recipient
  sequence := sequence
  encryptedData :=
    c.aeadSeal key nonce (sender.toList ++ recipient.toList ++ leBytes 8 sequence.toNat) plaintext
  nonce := nonce
  timestamp := now

namespace SyncEngine

/-- The key and base nonce an engine uses for a device. -/
def sessionKeys (e : SyncEngine) (device : DeviceRecord) : Key × Nonce :=
  deriveSessionKeys c (c.diffieHellman e.keypair.privateKey device.publicKey)
    (utf8 "athsync-upload")

/-- The item is there, and the device's scope and trust level cover its type. -/
def eligible (e : SyncEngine) (device : DeviceRecord) (id : SyncItemId) : Bool :=
  match e.items[id]? with
  | none => false
  | some item =>
    device.syncScope.allows item.itemType && device.trustLevel.canSyncType item.itemType

/-- One round of the loop of `prepare_upload`. -/
def uploadOne (e : SyncEngine) (device : DeviceRecord) (peerId : DeviceId) (key : Key)
    (baseNonce : Nonce) (now : UInt64) (id : SyncItemId) : SyncEngine × List SealedPayload :=
  match e.items[id]? with
  | none => (e, [])
  | some item =>
    if !device.syncScope.allows item.itemType then (e, [])
    else if !device.trustLevel.canSyncType item.itemType then (e, [])
    else
      let sequence := e.sequenceCounter + 1
      let payload := SealedPayload.seal c e.localDevice peerId sequence key
        (mixNonce baseNonce sequence) item.encryptedPayload now
      ({ e with
          sequenceCounter := sequence
          itemStatus := e.itemStatus.modify id fun _ => .uploading }, [payload])

/-- The loop of `prepare_upload`. -/
def uploadAll (e : SyncEngine) (device : DeviceRecord) (peerId : DeviceId) (key : Key)
    (baseNonce : Nonce) (now : UInt64) : List SyncItemId → SyncEngine × List SealedPayload
  | [] => (e, [])
  | id :: ids =>
    let (e, payload) := e.uploadOne c device peerId key baseNonce now id
    let (e, payloads) := e.uploadAll device peerId key baseNonce now ids
    (e, payload ++ payloads)

/-- Prepare encrypted payloads for items that need uploading. -/
def prepareUpload (e : SyncEngine) (itemIds : List SyncItemId) (peerId : DeviceId) (now : UInt64) :
    Except SyncError (SyncEngine × List SealedPayload) :=
  match e.devices[peerId]? with
  | none => .error (.peerUnreachable peerId)
  | some device =>
    if !device.trustLevel.canSync then .error (.trustRevoked peerId)
    else
      let (key, baseNonce) := e.sessionKeys c device
      let (e, payloads) := e.uploadAll c device peerId key baseNonce now itemIds
      .ok ({ e with phase := .syncing }, payloads)

end SyncEngine

end Seal

/-! ## What the loop seals -/

/-- Under one base nonce, the nonce determines the sequence number. -/
theorem mixNonce_inj {baseNonce : Nonce} {s t : UInt64}
    (h : mixNonce baseNonce s = mixNonce baseNonce t) : s = t := by
  have hbytes : leBytes 8 s.toNat = leBytes 8 t.toNat := by
    refine List.ext_getElem (by rw [length_leBytes, length_leBytes]) fun i hi hi' => ?_
    have hi8 : i < 8 := by rwa [length_leBytes] at hi
    have hbyte := congrFun h ⟨i, by omega⟩
    simp only [mixNonce, UInt8.xor_right_inj] at hbyte
    rwa [List.getD_eq_getElem _ _ hi, List.getD_eq_getElem _ _ hi'] at hbyte
  have hnat := congrArg leNat hbytes
  rw [leNat_leBytes_of_lt s.toNat_lt, leNat_leBytes_of_lt t.toNat_lt] at hnat
  exact UInt64.toNat.inj hnat

namespace SyncEngine

variable {c : Crypto} {e : SyncEngine} {device : DeviceRecord} {peerId : DeviceId} {key : Key}
  {baseNonce : Nonce} {now : UInt64}

/-- A round seals the item when it is eligible, under the next sequence number. -/
theorem uploadOne_cases (c : Crypto) (e : SyncEngine) (device : DeviceRecord) (peerId : DeviceId)
    (key : Key) (baseNonce : Nonce) (now : UInt64) (id : SyncItemId) :
    (e.eligible device id = false ∧ e.uploadOne c device peerId key baseNonce now id = (e, [])) ∨
      (e.eligible device id = true ∧ ∃ payload,
        (e.uploadOne c device peerId key baseNonce now id).2 = [payload] ∧
        payload.sequence = e.sequenceCounter + 1 ∧
        payload.nonce = mixNonce baseNonce payload.sequence ∧
        (e.uploadOne c device peerId key baseNonce now id).1.items = e.items ∧
        (e.uploadOne c device peerId key baseNonce now id).1.sequenceCounter =
          e.sequenceCounter + 1) := by
  rw [eligible, uploadOne]
  cases hitem : e.items[id]? with
  | none => exact .inl ⟨rfl, rfl⟩
  | some item =>
    dsimp only
    cases hscope : device.syncScope.allows item.itemType with
    | false => exact .inl ⟨rfl, rfl⟩
    | true =>
      cases htrust : device.trustLevel.canSyncType item.itemType with
      | false => exact .inl ⟨rfl, rfl⟩
      | true => exact .inr ⟨rfl, _, rfl, rfl, rfl, rfl, rfl⟩

/-- The loop seals the eligible items under the next sequence numbers, in order. -/
theorem uploadAll_spec (c : Crypto) (device : DeviceRecord) (ids : List SyncItemId) :
    ∀ e : SyncEngine,
      e.sequenceCounter.toNat + ids.countP (e.eligible device) < 2 ^ 64 →
      let run := e.uploadAll c device peerId key baseNonce now ids
      run.1.sequenceCounter.toNat = e.sequenceCounter.toNat + ids.countP (e.eligible device) ∧
        (∀ p ∈ run.2, p.nonce = mixNonce baseNonce p.sequence ∧
          e.sequenceCounter.toNat < p.sequence.toNat ∧
          p.sequence.toNat ≤ e.sequenceCounter.toNat + ids.countP (e.eligible device)) ∧
        run.2.Pairwise fun p q => p.sequence ≠ q.sequence := by
  induction ids with
  | nil =>
    intro e _
    exact ⟨rfl, fun p hp => absurd hp List.not_mem_nil, .nil⟩
  | cons id ids ih =>
    intro e hwrap
    rw [List.countP_cons] at hwrap ⊢
    obtain ⟨hskip, hround⟩ | ⟨htake, payload, hpayload, hseq, hnonce, hitems, hcounter⟩ :=
      uploadOne_cases c e device peerId key baseNonce now id
    · simp only [hskip, Bool.false_eq_true, if_false, Nat.add_zero] at hwrap ⊢
      rw [uploadAll, hround]
      exact ih e hwrap
    · simp only [htake, if_true] at hwrap ⊢
      have hnext : (e.sequenceCounter + 1).toNat = e.sequenceCounter.toNat + 1 := by
        rw [UInt64.toNat_add, UInt64.toNat_one, Nat.mod_eq_of_lt (by omega)]
      have heligible : (e.uploadOne c device peerId key baseNonce now id).1.eligible device =
          e.eligible device := by
        funext id'
        rw [eligible, eligible, hitems]
      obtain ⟨hcount, hsealed, hdistinct⟩ := ih
        (e.uploadOne c device peerId key baseNonce now id).1
        (by rw [hcounter, hnext, heligible]; omega)
      rw [hcounter, hnext, heligible] at hcount hsealed
      have hpayloads : (e.uploadAll c device peerId key baseNonce now (id :: ids)).2 =
          payload :: ((e.uploadOne c device peerId key baseNonce now id).1.uploadAll c device peerId
            key baseNonce now ids).2 := by
        show (e.uploadOne c device peerId key baseNonce now id).2 ++ _ = _
        rw [hpayload]
        rfl
      refine ⟨hcount.trans (by omega), ?_, ?_⟩
      · rw [hpayloads]
        intro p hp
        obtain rfl | hp := List.mem_cons.mp hp
        · rw [hseq, hnext] at *
          exact ⟨hnonce, by omega, by omega⟩
        · obtain ⟨hmix, hlow, hhigh⟩ := hsealed p hp
          exact ⟨hmix, by omega, by omega⟩
      · rw [hpayloads]
        refine List.pairwise_cons.mpr ⟨fun q hq heq => ?_, hdistinct⟩
        obtain ⟨-, hlow, -⟩ := hsealed q hq
        rw [← heq, hseq, hnext] at hlow
        omega

end SyncEngine

/-! ## Two engines -/

inductive Side where
  | a
  | b
  deriving DecidableEq, Repr

/-- A payload with what it was sealed under, and by which of the two engines. -/
structure Sealing where
  side : Side
  key : Key
  baseNonce : Nonce
  payload : SealedPayload

/-- Two engines, and what they have sealed so far. -/
structure World where
  engine : Side → SyncEngine
  sealings : List Sealing

structure Upload where
  side : Side
  itemIds : List SyncItemId
  peerId : DeviceId
  now : UInt64

namespace World

/-- One `prepare_upload` call; a refused one changes nothing. -/
def step (c : Crypto) (w : World) (u : Upload) : World :=
  match (w.engine u.side).devices[u.peerId]? with
  | none => w
  | some device =>
    match (w.engine u.side).prepareUpload c u.itemIds u.peerId u.now with
    | .error _ => w
    | .ok (e, payloads) =>
      let (key, baseNonce) := (w.engine u.side).sessionKeys c device
      { engine := Function.update w.engine u.side e
        sealings := payloads.map (Sealing.mk u.side key baseNonce) ++ w.sealings }

/-- The engine knows the other's device id and public key. -/
def Knows (e other : SyncEngine) : Prop :=
  ∃ device, e.devices[other.localDevice]? = some device ∧
    device.publicKey = other.keypair.publicKey

/-- Two engines that have each other's public keys and have sealed nothing yet, with
any items, and any further devices. -/
def machine (c : Crypto) : Machine World Upload where
  init w :=
    w.sealings = [] ∧ Knows (w.engine .a) (w.engine .b) ∧ Knows (w.engine .b) (w.engine .a) ∧
      ∀ side, (w.engine side).sequenceCounter = 0 ∧
        (w.engine side).keypair.publicKey = c.publicKey (w.engine side).keypair.privateKey
  step w u w' := w' = w.step c u

/-- No two payloads were sealed under one key with one nonce. -/
def NonceFresh (w : World) : Prop :=
  w.sealings.Pairwise fun x y => ¬ (x.key = y.key ∧ x.payload.nonce = y.payload.nonce)

/-- An earlier payload under the key now in use stays apart from the sequence number
`s` with this base nonce: with the same base nonce it is of the same engine, or
has another sequence number; with another base nonce the two mix differently. -/
def Apart (x : Sealing) (side : Side) (baseNonce : Nonce) (s : UInt64) : Prop :=
  if x.baseNonce = baseNonce then x.side = side ∨ x.payload.sequence ≠ s
  else mixNonce x.baseNonce x.payload.sequence ≠ mixNonce baseNonce s

/-- The condition on an upload: the counter does not wrap, and earlier payloads
under the derived key stay apart from every sequence number now taken. -/
def Clear (c : Crypto) (w : World) (u : Upload) : Prop :=
  ∀ device, (w.engine u.side).devices[u.peerId]? = some device → device.trustLevel.canSync = true →
    let counter := (w.engine u.side).sequenceCounter.toNat
    let count := u.itemIds.countP ((w.engine u.side).eligible device)
    let session := (w.engine u.side).sessionKeys c device
    counter + count < 2 ^ 64 ∧
      ∀ x ∈ w.sealings, x.key = session.1 → ∀ s : UInt64, counter < s.toNat →
        s.toNat ≤ counter + count → Apart x u.side session.2 s

/-- An upload changes nothing, or seals what the loop seals. -/
theorem step_cases (c : Crypto) (w : World) (u : Upload) :
    w.step c u = w ∨ ∃ device, (w.engine u.side).devices[u.peerId]? = some device ∧
      device.trustLevel.canSync = true ∧
      let session := (w.engine u.side).sessionKeys c device
      let run := (w.engine u.side).uploadAll c device u.peerId session.1 session.2 u.now u.itemIds
      w.step c u =
        { engine := Function.update w.engine u.side { run.1 with phase := .syncing }
          sealings := run.2.map (Sealing.mk u.side session.1 session.2) ++ w.sealings } := by
  rw [step, SyncEngine.prepareUpload]
  cases hdevice : (w.engine u.side).devices[u.peerId]? with
  | none => exact .inl rfl
  | some device =>
    cases htrust : device.trustLevel.canSync with
    | false => exact .inl (by simp [htrust])
    | true => exact .inr ⟨device, rfl, htrust, by simp [htrust]⟩

/-- The invariant: nonces are mixed from sequence numbers the engine has used up. -/
structure Accounted (w : World) : Prop where
  mixed : ∀ x ∈ w.sealings, x.payload.nonce = mixNonce x.baseNonce x.payload.sequence
  used : ∀ x ∈ w.sealings, x.payload.sequence.toNat ≤ (w.engine x.side).sequenceCounter.toNat
  fresh : w.NonceFresh

theorem Accounted.step {c : Crypto} {w : World} {u : Upload} (hw : w.Accounted)
    (hclear : w.Clear c u) : (w.step c u).Accounted := by
  obtain hsame | ⟨device, hdevice, htrust, hstep⟩ := step_cases c w u
  · rwa [hsame]
  obtain ⟨hwrap, hapart⟩ := hclear device hdevice htrust
  obtain ⟨hcounter, hsealed, hdistinct⟩ := SyncEngine.uploadAll_spec c device u.itemIds
    (w.engine u.side) hwrap
  dsimp only at hstep
  rw [hstep]
  refine ⟨fun x hx => ?_, fun x hx => ?_, ?_⟩
  · obtain hx | hx := List.mem_append.mp hx
    · obtain ⟨p, hp, rfl⟩ := List.mem_map.mp hx
      exact (hsealed p hp).1
    · exact hw.mixed x hx
  · show _ ≤ (Function.update w.engine u.side _ x.side).sequenceCounter.toNat
    obtain hx | hx := List.mem_append.mp hx
    · obtain ⟨p, hp, rfl⟩ := List.mem_map.mp hx
      rw [Function.update_self]
      exact (hsealed p hp).2.2.trans hcounter.ge
    · by_cases hside : x.side = u.side
      · rw [hside, Function.update_self]
        have hused := hw.used x hx
        rw [hside] at hused
        exact hused.trans ((Nat.le_add_right _ _).trans hcounter.ge)
      · rw [Function.update_of_ne hside]
        exact hw.used x hx
  · refine List.pairwise_append.mpr ⟨?_, hw.fresh, ?_⟩
    · -- within the call the sequence numbers differ
      refine List.pairwise_map.mpr (hdistinct.imp_of_mem fun {p q} hp hq hne => ?_)
      rintro ⟨-, hnonce⟩
      obtain ⟨hmixp, -⟩ := hsealed p hp
      obtain ⟨hmixq, -⟩ := hsealed q hq
      exact hne (mixNonce_inj (hmixp.symm.trans (hnonce.trans hmixq)))
    · -- against earlier payloads the guard speaks, the counter for the engine's own
      intro x hx y hy
      obtain ⟨p, hp, rfl⟩ := List.mem_map.mp hx
      rintro ⟨hkey, hnonce⟩
      obtain ⟨hmix, hlow, hhigh⟩ := hsealed p hp
      have hmixes := hw.mixed y hy
      rw [← hnonce, show (Sealing.mk u.side _ _ p).payload = p from rfl, hmix] at hmixes
      have hy' := hapart y hy hkey.symm p.sequence hlow hhigh
      rw [Apart] at hy'
      split at hy'
      · rename_i hbase
        rw [hbase] at hmixes
        have hseq := mixNonce_inj hmixes
        obtain hside | hne := hy'
        · have hused := hw.used y hy
          rw [hside, ← hseq] at hused
          omega
        · exact hne hseq.symm
      · exact hy' hmixes.symm

end World

/-- In every run of clear uploads, no two payloads are sealed under the same key with
the same nonce. -/
theorem nonceFresh_of_clear {c : Crypto} {w : World}
    (hrun : (World.machine c).Run (World.Clear c) w) : w.NonceFresh := by
  have haccounted : w.Accounted := by
    refine hrun.invariant (fun w hinit => ?_) fun w u w' hw hclear hstep => ?_
    · obtain ⟨hnil, -⟩ := hinit
      refine ⟨fun x hx => ?_, fun x hx => ?_, ?_⟩
      · exact absurd hx (hnil ▸ List.not_mem_nil)
      · exact absurd hx (hnil ▸ List.not_mem_nil)
      · rw [World.NonceFresh, hnil]
        exact .nil
    · exact hstep ▸ hw.step hclear
  exact haccounted.fresh

/-! ## The two directions of one pair -/

namespace World

/-- A call with one eligible item seals it under the engine's next sequence number. -/
theorem step_single (c : Crypto) {w : World} {side : Side} {id : SyncItemId} {peerId : DeviceId}
    (now : UInt64) {device : DeviceRecord} (hdevice : (w.engine side).devices[peerId]? = some device)
    (htrust : device.trustLevel.canSync = true)
    (heligible : (w.engine side).eligible device id = true) :
    ∃ e payload, w.step c ⟨side, [id], peerId, now⟩ =
        { engine := Function.update w.engine side e
          sealings := ⟨side, ((w.engine side).sessionKeys c device).1,
            ((w.engine side).sessionKeys c device).2, payload⟩ :: w.sealings } ∧
      payload.nonce = mixNonce ((w.engine side).sessionKeys c device).2
        ((w.engine side).sequenceCounter + 1) := by
  obtain ⟨hnot, -⟩ | ⟨-, payload, hpayload, hseq, hnonce, -, -⟩ :=
    SyncEngine.uploadOne_cases c (w.engine side) device peerId
      ((w.engine side).sessionKeys c device).1 ((w.engine side).sessionKeys c device).2 now id
  · rw [heligible] at hnot
    cases hnot
  · let e := ((w.engine side).uploadOne c device peerId ((w.engine side).sessionKeys c device).1
      ((w.engine side).sessionKeys c device).2 now id).1
    refine ⟨{ e with phase := .syncing }, payload, ?_, hseq ▸ hnonce⟩
    simp only [step, hdevice, SyncEngine.prepareUpload, htrust, SyncEngine.uploadAll, hpayload,
      Bool.not_true, Bool.false_eq_true, if_false, List.append_nil, List.map_cons, List.map_nil,
      List.cons_append, List.nil_append, e]

/-- Whatever the cipher and the key derivation, the first payload each of two engines
sends the other is sealed under the same key with the same nonce. -/
theorem first_uploads_collide {c : Crypto} (hc : c.Lawful) {w : World}
    (hinit : (machine c).init w) {idA idB : SyncItemId} {peerA peerB : DeviceId}
    {deviceA deviceB : DeviceRecord} {now now' : UInt64}
    (hdeviceA : (w.engine .b).devices[peerA]? = some deviceA)
    (hdeviceB : (w.engine .a).devices[peerB]? = some deviceB)
    (hpublicA : deviceA.publicKey = (w.engine .a).keypair.publicKey)
    (hpublicB : deviceB.publicKey = (w.engine .b).keypair.publicKey)
    (htrustA : deviceA.trustLevel.canSync = true) (htrustB : deviceB.trustLevel.canSync = true)
    (hitemB : (w.engine .a).eligible deviceB idA = true)
    (hitemA : (w.engine .b).eligible deviceA idB = true) :
    ¬ ((w.step c ⟨.a, [idA], peerB, now⟩).step c ⟨.b, [idB], peerA, now'⟩).NonceFresh := by
  obtain ⟨-, -, -, hengines⟩ := hinit
  obtain ⟨e, p, hstep, hp⟩ := step_single c now hdeviceB htrustB hitemB
  have hb : (w.step c ⟨.a, [idA], peerB, now⟩).engine .b = w.engine .b := by
    rw [hstep]
    exact Function.update_of_ne (show Side.b ≠ Side.a by decide) e w.engine
  have hdevice' : ((w.step c ⟨.a, [idA], peerB, now⟩).engine .b).devices[peerA]? = some deviceA :=
    hb.symm ▸ hdeviceA
  have hitem' : ((w.step c ⟨.a, [idA], peerB, now⟩).engine .b).eligible deviceA idB = true :=
    hb.symm ▸ hitemA
  obtain ⟨e', q, hstep', hq⟩ := step_single c now' hdevice' htrustA hitem'
  -- both sides derive from the one shared secret
  have hsession : (w.engine .b).sessionKeys c deviceA = (w.engine .a).sessionKeys c deviceB := by
    rw [SyncEngine.sessionKeys, SyncEngine.sessionKeys, hpublicA, hpublicB, (hengines .a).2,
      (hengines .b).2, hc.dh_comm]
  intro hfresh
  rw [hstep', NonceFresh, hstep] at hfresh
  refine (List.pairwise_cons.mp hfresh).1 _ List.mem_cons_self ⟨?_, ?_⟩
  · show ((_ : World).engine .b |>.sessionKeys c deviceA).1 = _
    rw [← hstep, hb, hsession]
  · show q.nonce = p.nonce
    rw [hp, hq, hb, (hengines .a).1, (hengines .b).1, hsession]

/-! ### A pair of engines -/

/-- Key agreement by xor, and no encryption. -/
def plainCrypto : Crypto where
  publicKey key := key
  diffieHellman a b := Bytes.xor a b
  hkdfExtract _ material := .ofList material
  hkdfExpand _ prk info := .ofList (prk.toList ++ info)
  aeadSeal _ _ _ plaintext := plaintext

theorem plainCrypto_lawful : plainCrypto.Lawful where
  dh_comm _ _ := funext fun _ => UInt8.xor_comm ..

/-- An engine with its own key and device id, one trusted peer, and two items. -/
def sampleEngine (own peer : UInt8) : SyncEngine where
  localDevice := .replicate 16 own
  keypair := { privateKey := fun _ => own, publicKey := fun _ => own }
  devices := (∅ : Std.ExtTreeMap DeviceId DeviceRecord).insert (.replicate 16 peer)
    { trustLevel := .trusted, publicKey := fun _ => peer
      syncScope := { allowedTypes := [.settings, .bookmarks] } }
  items := ((∅ : Std.ExtTreeMap SyncItemId SyncItem).insert (.replicate 16 7)
      { itemType := .settings, encryptedPayload := [1, 2, 3] }).insert (.replicate 16 8)
      { itemType := .bookmarks, encryptedPayload := [4, 5] }
  itemStatus := ∅
  phase := .idle
  sequenceCounter := 0

def samplePair : World where
  engine side := match side with
    | .a => sampleEngine 1 2
    | .b => sampleEngine 2 1
  sealings := []

theorem samplePair_init : (machine plainCrypto).init samplePair :=
  ⟨rfl, ⟨_, Std.ExtTreeMap.getElem?_insert_self, rfl⟩, ⟨_, Std.ExtTreeMap.getElem?_insert_self, rfl⟩,
    fun side => by cases side <;> exact ⟨rfl, rfl⟩⟩

end World

/-- One engine uploads two items: the nonces differ. -/
theorem two_items_nonceFresh :
    (World.samplePair.step World.plainCrypto
      ⟨.a, [.replicate 16 7, .replicate 16 8], .replicate 16 2, 0⟩).NonceFresh := by
  refine nonceFresh_of_clear (.snoc (.start World.samplePair_init) ?_ rfl)
  refine fun device _ _ => ⟨?_, fun x hx => absurd hx List.not_mem_nil⟩
  have hcount := List.countP_le_length
    (p := (World.samplePair.engine .a).eligible device)
    (l := [.replicate 16 7, .replicate 16 8])
  exact (Nat.add_le_add_left hcount _).trans_lt (by decide)

/-- Two engines upload one item each to the other: key and nonce are used twice. -/
theorem both_directions_reuse :
    ¬ ∀ c : Crypto, c.Lawful → ∀ w, (World.machine c).Reachable w → w.NonceFresh := by
  intro hfresh
  have hcollide : ¬ ((World.samplePair.step World.plainCrypto
      ⟨.a, [.replicate 16 7], .replicate 16 2, 0⟩).step World.plainCrypto
      ⟨.b, [.replicate 16 7], .replicate 16 1, 0⟩).NonceFresh :=
    World.first_uploads_collide World.plainCrypto_lawful World.samplePair_init
      Std.ExtTreeMap.getElem?_insert_self Std.ExtTreeMap.getElem?_insert_self rfl rfl rfl rfl
      (by decide +kernel) (by decide +kernel)
  refine hcollide ?_
  exact hfresh _ World.plainCrypto_lawful _
    (.snoc (.snoc (.start World.samplePair_init) trivial rfl) trivial rfl)

end AthenaOS.AthSync
