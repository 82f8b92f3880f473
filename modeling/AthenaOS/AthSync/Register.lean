import AthenaOS.AthSync.Upload
import AthenaOS.Lib.LastWriter

/-!
# The last-writer-wins register (`components/athsync/src/lib.rs`)

Every device of a sync group keeps a register for each record key. A local write
advances the device's Lamport clock and makes a sealed, signed blob; blobs of
other devices are verified, decrypted and merged. The greater (clock, device id)
wins.
-/

namespace AthenaOS.AthSync

open Lib Lib.Wire
open Function (update update_of_ne update_self)

/-- A 64-byte signature. -/
abbrev Signature : Type := Bytes 64

/-- The functions of `ath_crypto` the record path calls. -/
structure E2eCrypto where
  /-- `ed25519::derive_public_key`. -/
  derivePublicKey : Key → Key
  /-- `ed25519::sign`, from the seed. -/
  sign : Key → ByteString → Signature
  /-- `ed25519::verify`, from the public key. -/
  verify : Key → ByteString → Signature → Bool
  /-- `chacha20poly1305::seal`: key, nonce, associated data, plaintext. -/
  aeadSeal : Key → Nonce → ByteString → ByteString → ByteString
  /-- `chacha20poly1305::open`. -/
  aeadOpen : Key → Nonce → ByteString → ByteString → Option ByteString

/-- What the record path relies on. -/
structure E2eCrypto.Lawful (c : E2eCrypto) : Prop where
  verify_sign : ∀ seed message,
    c.verify (c.derivePublicKey seed) message (c.sign seed message) = true
  open_seal : ∀ key nonce aad plaintext,
    c.aeadOpen key nonce aad (c.aeadSeal key nonce aad plaintext) = some plaintext

/-! ## Records and blobs -/

/-- The public identity of an enrolled device, as far as `apply_remote` reads it. -/
structure DeviceIdentity where
  deviceId : DeviceId
  edPublic : Key
  deriving DecidableEq

/-- The signing keys of a device. -/
structure DeviceKeys where
  deviceId : DeviceId
  edSeed : Key
  edPublic : Key

def DeviceKeys.identity (d : DeviceKeys) : DeviceIdentity :=
  { deviceId := d.deviceId, edPublic := d.edPublic }

inductive E2eError where
  | decryptFailed
  | badSignature
  | unknownDevice
  | malformedKey
  | malformedBlob
  deriving DecidableEq, Repr

structure SyncBlob where
  recordKey : String
  lamport : UInt64
  deviceId : DeviceId
  nonce : Nonce
  ciphertext : ByteString
  signature : Signature
  deriving DecidableEq

namespace SyncBlob

/-- The associated data: record key, clock, device and nonce. -/
def aad (recordKey : String) (lamport : UInt64) (deviceId : DeviceId) (nonce : Nonce) :
    ByteString :=
  utf8 "athsync-record-v1" ++ leBytes 8 (utf8 recordKey).length ++ utf8 recordKey ++
    leBytes 8 lamport.toNat ++ deviceId.toList ++ nonce.toList

/-- What is signed: every field except the signature. -/
def signingTranscript (recordKey : String) (lamport : UInt64) (deviceId : DeviceId) (nonce : Nonce)
    (ciphertext : ByteString) : ByteString :=
  utf8 "athsync-sig-v1" ++ leBytes 8 (utf8 recordKey).length ++ utf8 recordKey ++
    leBytes 8 lamport.toNat ++ deviceId.toList ++ nonce.toList ++
    leBytes 8 ciphertext.length ++ ciphertext

def verifySignature (c : E2eCrypto) (blob : SyncBlob) (edPublic : Key) : Bool :=
  c.verify edPublic (signingTranscript blob.recordKey blob.lamport blob.deviceId blob.nonce
    blob.ciphertext) blob.signature

end SyncBlob

/-- Encrypt and sign a record. -/
def encryptRecord (c : E2eCrypto) (recordKey : String) (value : ByteString) (lamport : UInt64)
    (device : DeviceKeys) (groupKey : Key) (nonce : Nonce) : SyncBlob :=
  let ciphertext :=
    c.aeadSeal groupKey nonce (SyncBlob.aad recordKey lamport device.deviceId nonce) value
  { recordKey, lamport, deviceId := device.deviceId, nonce, ciphertext
    signature := c.sign device.edSeed
      (SyncBlob.signingTranscript recordKey lamport device.deviceId nonce ciphertext) }

def decryptRecord (c : E2eCrypto) (blob : SyncBlob) (groupKey : Key) : Except E2eError ByteString :=
  match c.aeadOpen groupKey blob.nonce
      (SyncBlob.aad blob.recordKey blob.lamport blob.deviceId blob.nonce) blob.ciphertext with
  | some value => .ok value
  | none => .error .decryptFailed

structure RegisterCell where
  lamport : UInt64
  deviceId : DeviceId
  value : ByteString
  deriving DecidableEq

/-- Higher Lamport wins; ties are broken by the larger device id. -/
def RegisterCell.dominates (cell : RegisterCell) (lamport : UInt64) (deviceId : DeviceId) : Bool :=
  match compare cell.lamport lamport with
  | .gt => true
  | .lt => false
  | .eq => (compare cell.deviceId deviceId).isGE

structure SyncState where
  device : DeviceKeys
  groupKey : Key
  enrolled : Std.ExtTreeMap DeviceId DeviceIdentity
  records : Std.ExtTreeMap String RegisterCell
  lamport : UInt64

namespace SyncState

/-- The device enrolls itself. -/
def new (device : DeviceKeys) (groupKey : Key) : SyncState where
  device := device
  groupKey := groupKey
  enrolled := (∅ : Std.ExtTreeMap DeviceId DeviceIdentity).insert device.deviceId device.identity
  records := ∅
  lamport := 0

def enrollDevice (s : SyncState) (identity : DeviceIdentity) : SyncState :=
  { s with enrolled := s.enrolled.insert identity.deviceId identity }

/-- The last-writer-wins merge. -/
def mergeCell (s : SyncState) (recordKey : String) (lamport : UInt64) (deviceId : DeviceId)
    (value : ByteString) : SyncState :=
  let inserted := { s with records := s.records.insert recordKey { lamport, deviceId, value } }
  match s.records[recordKey]? with
  | some existing => if existing.dominates lamport deviceId then s else inserted
  | none => inserted

/-- Local write: advance the clock, update the register and produce a blob. -/
def localSet (c : E2eCrypto) (s : SyncState) (recordKey : String) (value : ByteString)
    (nonce : Nonce) : SyncBlob × SyncState :=
  let s := { s with lamport := s.lamport + 1 }
  (encryptRecord c recordKey value s.lamport s.device s.groupKey nonce,
    s.mergeCell recordKey s.lamport s.device.deviceId value)

/-- Lamport receive rule: clock = max(local, received). -/
def receive (s : SyncState) (lamport : UInt64) : SyncState :=
  if lamport > s.lamport then { s with lamport } else s

/-- Apply a remote blob: verify, decrypt, advance the clock, merge. -/
def applyRemote (c : E2eCrypto) (s : SyncState) (blob : SyncBlob) : Except E2eError SyncState :=
  match s.enrolled[blob.deviceId]? with
  | none => .error .unknownDevice
  | some identity =>
    if !blob.verifySignature c identity.edPublic then .error .badSignature
    else do
      let value ← decryptRecord c blob s.groupKey
      return (s.receive blob.lamport).mergeCell blob.recordKey blob.lamport blob.deviceId value

end SyncState

/-! ## The registers a state holds -/

/-- Clock and device of a write. -/
abbrev Stamp : Type := UInt64 × DeviceId

namespace Stamp

/-- The clock first, then the device id. -/
def cmp : Stamp → Stamp → Ordering := compareLex (compareOn (·.1)) (compareOn (·.2))

instance : Std.TransCmp cmp := inferInstanceAs (Std.TransCmp (compareLex _ _))

instance : Std.LawfulEqCmp cmp where
  eq_of_compare {s t} h := by
    rw [cmp, compareLex_eq_eq, compareOn, compareOn, Std.compare_eq_iff_eq,
      Std.compare_eq_iff_eq] at h
    exact Prod.ext h.1 h.2

end Stamp

theorem RegisterCell.dominates_eq (cell : RegisterCell) (lamport : UInt64) (deviceId : DeviceId) :
    cell.dominates lamport deviceId =
      (Stamp.cmp (cell.lamport, cell.deviceId) (lamport, deviceId)).isGE := by
  rw [dominates, Stamp.cmp, compareLex, compareOn, compareOn]
  cases compare cell.lamport lamport <;> rfl

namespace SyncState

/-- What the records say, with clock and device as one stamp. -/
def registers (s : SyncState) : LastWriter.Registers String Stamp ByteString := fun key =>
  s.records[key]?.map fun cell => ((cell.lamport, cell.deviceId), cell.value)

theorem registers_insert (s : SyncState) (recordKey : String) (cell : RegisterCell) :
    { s with records := s.records.insert recordKey cell }.registers =
      update s.registers recordKey
        (some ((cell.lamport, cell.deviceId), cell.value)) := by
  funext key
  by_cases hkey : key = recordKey
  · subst hkey
    rw [update_self, registers, Std.ExtTreeMap.getElem?_insert_self]
    rfl
  · rw [update_of_ne hkey, registers, registers, Std.ExtTreeMap.getElem?_insert, if_neg]
    exact fun hc => hkey (Std.compare_eq_iff_eq.mp hc).symm

/-- `merge_cell` is the merge of the registers. -/
theorem registers_mergeCell (s : SyncState) (recordKey : String) (lamport : UInt64)
    (deviceId : DeviceId) (value : ByteString) :
    (s.mergeCell recordKey lamport deviceId value).registers =
      LastWriter.merge Stamp.cmp s.registers ⟨recordKey, (lamport, deviceId), value⟩ := by
  rw [mergeCell, LastWriter.merge]
  cases hcell : s.records[recordKey]? with
  | none => simp only [registers_insert, registers, hcell, Option.map_none]
  | some cell =>
    simp only [registers, hcell, Option.map_some, RegisterCell.dominates_eq]
    split
    · rfl
    · exact registers_insert s recordKey _

/-- The registers determine the records. -/
theorem records_eq_of_registers {s s' : SyncState} (h : s.registers = s'.registers) :
    s.records = s'.records := by
  refine Std.ExtTreeMap.ext_getElem? fun {key} => ?_
  have hkey := congrFun h key
  rw [registers, registers] at hkey
  refine Option.map_injective (fun a b hab => ?_) hkey
  obtain ⟨hstamp, hvalue⟩ := Prod.mk.inj hab
  obtain ⟨hlamport, hdevice⟩ := Prod.mk.inj hstamp
  cases a
  cases b
  simp_all only

theorem receive_frame (s : SyncState) (lamport : UInt64) :
    (s.receive lamport).device = s.device ∧ (s.receive lamport).groupKey = s.groupKey ∧
      (s.receive lamport).enrolled = s.enrolled ∧ (s.receive lamport).records = s.records ∧
      s.lamport.toNat ≤ (s.receive lamport).lamport.toNat := by
  rw [receive]
  split
  · rename_i hgt
    exact ⟨rfl, rfl, rfl, rfl, (UInt64.lt_iff_toNat_lt.mp hgt).le⟩
  · exact ⟨rfl, rfl, rfl, rfl, le_rfl⟩

theorem mergeCell_frame (s : SyncState) (recordKey : String) (lamport : UInt64)
    (deviceId : DeviceId) (value : ByteString) :
    let s' := s.mergeCell recordKey lamport deviceId value
    s'.device = s.device ∧ s'.groupKey = s.groupKey ∧ s'.enrolled = s.enrolled ∧
      s'.lamport = s.lamport := by
  dsimp only
  rw [mergeCell]
  split
  · split <;> exact ⟨rfl, rfl, rfl, rfl⟩
  · exact ⟨rfl, rfl, rfl, rfl⟩

end SyncState

/-! ## Groups of devices -/

variable {ι : Type} [DecidableEq ι]

/-- The devices of a group, the blobs they have produced, and the blobs each of them
has seen (its own counted as seen). -/
structure Group (ι : Type) where
  state : ι → SyncState
  produced : List SyncBlob
  seen : ι → List SyncBlob

inductive GroupCall (ι : Type) where
  | localSet (i : ι) (recordKey : String) (value : ByteString) (nonce : Nonce)
  | applyRemote (i : ι) (blob : SyncBlob)

namespace Group

def step (c : E2eCrypto) (g : Group ι) : GroupCall ι → Group ι
  | .localSet i recordKey value nonce =>
    let (blob, s) := (g.state i).localSet c recordKey value nonce
    { state := update g.state i s
      produced := blob :: g.produced
      seen := update g.seen i (blob :: g.seen i) }
  | .applyRemote i blob =>
    -- a refused blob changes nothing, but it has been seen
    let s := match (g.state i).applyRemote c blob with
      | .ok s => s
      | .error _ => g.state i
    { g with
      state := update g.state i s
      seen := update g.seen i (blob :: g.seen i) }

/-- Devices with distinct ids that share a group key and are enrolled with each other. -/
structure Enrolled (c : E2eCrypto) (g : Group ι) : Prop where
  distinct : Function.Injective fun i => (g.state i).device.deviceId
  groupKey : ∀ i j, (g.state i).groupKey = (g.state j).groupKey
  enrolled : ∀ i j,
    (g.state i).enrolled[(g.state j).device.deviceId]? = some (g.state j).device.identity
  keys : ∀ i, (g.state i).device.edPublic = c.derivePublicKey (g.state i).device.edSeed

/-- Runs start with empty records and deliver produced blobs only. -/
def machine (c : E2eCrypto) (ι : Type) [DecidableEq ι] : Machine (Group ι) (GroupCall ι) where
  init g := g.Enrolled c ∧ g.produced = [] ∧
    ∀ i, g.seen i = [] ∧ (g.state i).records = ∅ ∧ (g.state i).lamport = 0
  step g call g' := (∀ i blob, call = .applyRemote i blob → blob ∈ g.produced) ∧ g' = g.step c call

/-- The clocks stay below `2 ^ 64 - 1`. -/
def ClocksBelow (g : Group ι) : GroupCall ι → Prop
  | .localSet i _ _ _ => (g.state i).lamport.toNat < 2 ^ 64 - 1
  | .applyRemote _ _ => True

/-- The write a blob stands for, in the hands of a device that has the group key. -/
def writeOf (c : E2eCrypto) (groupKey : Key) (blob : SyncBlob) :
    LastWriter.Write String Stamp ByteString where
  key := blob.recordKey
  stamp := (blob.lamport, blob.deviceId)
  value := (decryptRecord c blob groupKey).toOption.getD []

/-- The writes of the blobs a device has seen. -/
def writes (c : E2eCrypto) (g : Group ι) (i : ι) : Set (LastWriter.Write String Stamp ByteString) :=
  writeOf c (g.state i).groupKey '' {blob | blob ∈ g.seen i}

/-- Some device of the group made the blob, at a clock it has reached. -/
def Genuine (c : E2eCrypto) (g : Group ι) (blob : SyncBlob) : Prop :=
  ∃ i value, blob.lamport.toNat ≤ (g.state i).lamport.toNat ∧
    blob = encryptRecord c blob.recordKey value blob.lamport (g.state i).device (g.state i).groupKey
      blob.nonce

/-- The invariant of runs. -/
structure Consistent (c : E2eCrypto) (g : Group ι) : Prop where
  enrolled : g.Enrolled c
  genuine : ∀ blob ∈ g.produced, g.Genuine c blob
  /-- No two produced blobs share clock and device. -/
  stamped : ∀ blob ∈ g.produced, ∀ blob' ∈ g.produced,
    blob.lamport = blob'.lamport → blob.deviceId = blob'.deviceId → blob = blob'
  seen : ∀ i, ∀ blob ∈ g.seen i, blob ∈ g.produced
  registers : ∀ i, LastWriter.Reflects Stamp.cmp (g.state i).registers (g.writes c i)

end Group

/-! ### What one call does -/

variable {c : E2eCrypto}

theorem decryptRecord_encryptRecord (hc : c.Lawful) (recordKey : String) (value : ByteString)
    (lamport : UInt64) (device : DeviceKeys) (groupKey : Key) (nonce : Nonce) :
    decryptRecord c (encryptRecord c recordKey value lamport device groupKey nonce) groupKey =
      .ok value := by
  simp only [decryptRecord, encryptRecord, hc.open_seal]

theorem verifySignature_encryptRecord (hc : c.Lawful) {device : DeviceKeys}
    (hdevice : device.edPublic = c.derivePublicKey device.edSeed) (recordKey : String)
    (value : ByteString) (lamport : UInt64) (groupKey : Key) (nonce : Nonce) :
    (encryptRecord c recordKey value lamport device groupKey nonce).verifySignature c
      device.edPublic = true := by
  rw [SyncBlob.verifySignature, hdevice]
  exact hc.verify_sign ..

namespace SyncState

/-- A local write stamps its blob with the next clock and merges it. -/
theorem localSet_spec (s : SyncState) (recordKey : String) (value : ByteString) (nonce : Nonce) :
    let blob := (s.localSet c recordKey value nonce).1
    let s' := (s.localSet c recordKey value nonce).2
    blob = encryptRecord c recordKey value (s.lamport + 1) s.device s.groupKey nonce ∧
      s'.device = s.device ∧ s'.groupKey = s.groupKey ∧ s'.enrolled = s.enrolled ∧
      s'.lamport = s.lamport + 1 ∧
      s'.registers = LastWriter.merge Stamp.cmp s.registers
        ⟨recordKey, (s.lamport + 1, s.device.deviceId), value⟩ := by
  obtain ⟨hdevice, hkey, henrolled, hlamport⟩ := mergeCell_frame { s with lamport := s.lamport + 1 }
    recordKey (s.lamport + 1) s.device.deviceId value
  exact ⟨rfl, hdevice, hkey, henrolled, hlamport, registers_mergeCell ..⟩

/-- A blob an enrolled device made is applied: its write is merged, and the clock
only grows. -/
theorem applyRemote_spec (hc : c.Lawful) {s : SyncState} {device : DeviceKeys}
    (hdevice : device.edPublic = c.derivePublicKey device.edSeed)
    (henrolled : s.enrolled[device.deviceId]? = some device.identity) (recordKey : String)
    (value : ByteString) (lamport : UInt64) (nonce : Nonce) :
    ∃ s', s.applyRemote c (encryptRecord c recordKey value lamport device s.groupKey nonce) = .ok s' ∧
      s'.device = s.device ∧ s'.groupKey = s.groupKey ∧ s'.enrolled = s.enrolled ∧
      s.lamport.toNat ≤ s'.lamport.toNat ∧
      s'.registers = LastWriter.merge Stamp.cmp s.registers
        ⟨recordKey, (lamport, device.deviceId), value⟩ := by
  have hlookup : s.enrolled[(encryptRecord c recordKey value lamport device s.groupKey
      nonce).deviceId]? = some device.identity := henrolled
  have hverify := verifySignature_encryptRecord hc hdevice recordKey value lamport s.groupKey nonce
  rw [applyRemote, hlookup]
  show ∃ s', (if !(encryptRecord c recordKey value lamport device s.groupKey nonce).verifySignature c
    device.edPublic then _ else _) = _ ∧ _
  rw [hverify, decryptRecord_encryptRecord hc]
  obtain ⟨hdevice', hkey, henrolled', hlamport⟩ := mergeCell_frame (s.receive lamport) recordKey
    lamport device.deviceId value
  obtain ⟨hdevice'', hkey', henrolled'', hrecords, hle⟩ := receive_frame s lamport
  refine ⟨(s.receive lamport).mergeCell recordKey lamport device.deviceId value, rfl,
    hdevice'.trans hdevice'', hkey.trans hkey', henrolled'.trans henrolled'', hlamport ▸ hle, ?_⟩
  have hregisters : (s.receive lamport).registers = s.registers := by
    funext key
    rw [registers, registers, hrecords]
  rw [registers_mergeCell, hregisters]

end SyncState

namespace Group

/-! ### The invariant -/

/-- Identities, keys and rosters stay, and clocks only grow. -/
structure Advances (g g' : Group ι) : Prop where
  device : ∀ j, (g'.state j).device = (g.state j).device
  groupKey : ∀ j, (g'.state j).groupKey = (g.state j).groupKey
  roster : ∀ j, (g'.state j).enrolled = (g.state j).enrolled
  clock : ∀ j, (g.state j).lamport.toNat ≤ (g'.state j).lamport.toNat

variable {g g' : Group ι} {i : ι} {s : SyncState}

/-- One device moves on, the others stay. -/
theorem advances_update (hstate : g'.state = update g.state i s)
    (hdevice : s.device = (g.state i).device) (hkey : s.groupKey = (g.state i).groupKey)
    (hroster : s.enrolled = (g.state i).enrolled)
    (hclock : (g.state i).lamport.toNat ≤ s.lamport.toNat) : Advances g g' := by
  have hcases : ∀ j, (j = i ∧ g'.state j = s) ∨ g'.state j = g.state j := by
    intro j
    by_cases hj : j = i
    · exact .inl ⟨hj, by rw [hstate, hj, update_self]⟩
    · exact .inr (by rw [hstate, update_of_ne hj])
  constructor <;> intro j <;> obtain ⟨rfl, hj⟩ | hj := hcases j <;> rw [hj]
  · exact hdevice
  · exact hkey
  · exact hroster
  · exact hclock

omit [DecidableEq ι] in
theorem Enrolled.advances (h : g.Enrolled c) (ha : Advances g g') : g'.Enrolled c where
  distinct i j hij := by
    dsimp only at hij
    rw [ha.device, ha.device] at hij
    exact h.distinct hij
  groupKey i j := by rw [ha.groupKey, ha.groupKey, h.groupKey i j]
  enrolled i j := by rw [ha.roster, ha.device, h.enrolled i j]
  keys i := by rw [ha.device, h.keys i]

omit [DecidableEq ι] in
theorem Genuine.advances {blob : SyncBlob} (h : g.Genuine c blob) (ha : Advances g g') :
    g'.Genuine c blob := by
  obtain ⟨i, value, hle, hblob⟩ := h
  refine ⟨i, value, hle.trans (ha.clock i), ?_⟩
  rwa [ha.device, ha.groupKey]

/-- The device that saw one more blob merged its write; the others' registers stay. -/
theorem reflects_seen (hstate : g'.state = update g.state i s) {blob : SyncBlob}
    (hseen : g'.seen = update g.seen i (blob :: g.seen i)) (ha : Advances g g')
    (hregisters : s.registers = LastWriter.merge Stamp.cmp (g.state i).registers
      (writeOf c (g.state i).groupKey blob))
    (h : ∀ j, LastWriter.Reflects Stamp.cmp (g.state j).registers (g.writes c j)) (j : ι) :
    LastWriter.Reflects Stamp.cmp (g'.state j).registers (g'.writes c j) := by
  rw [writes, ha.groupKey, hstate, hseen]
  by_cases hj : j = i
  · subst hj
    rw [update_self, update_self, hregisters]
    have hwrites : writeOf c (g.state j).groupKey '' {b | b ∈ blob :: g.seen j} =
        insert (writeOf c (g.state j).groupKey blob) (g.writes c j) := by
      rw [writes, ← Set.image_insert_eq]
      congr 1
      ext b
      exact List.mem_cons
    rw [hwrites]
    exact (h j).merge _
  · rw [update_of_ne hj, update_of_ne hj]
    exact h j

/-- A local write keeps the invariant: its clock is above that of every blob the
device has made. -/
theorem Consistent.localSet (hc : c.Lawful) (h : g.Consistent c) {recordKey : String}
    {value : ByteString} {nonce : Nonce} (hclock : g.ClocksBelow (.localSet i recordKey value nonce)) :
    (g.step c (.localSet i recordKey value nonce)).Consistent c := by
  obtain ⟨hblob, hdevice, hkey, hroster, hlamport, hregisters⟩ :=
    (g.state i).localSet_spec (c := c) recordKey value nonce
  have hnext : ((g.state i).lamport + 1).toNat = (g.state i).lamport.toNat + 1 := by
    have hlt : (g.state i).lamport.toNat < 2 ^ 64 - 1 := hclock
    rw [UInt64.toNat_add, UInt64.toNat_one, Nat.mod_eq_of_lt (by omega)]
  have ha : Advances g (g.step c (.localSet i recordKey value nonce)) :=
    advances_update rfl hdevice hkey hroster
      ((Nat.le_succ _).trans ((congrArg UInt64.toNat hlamport).trans hnext).ge)
  have hmine : (g.step c (.localSet i recordKey value nonce)).Genuine c
      ((g.state i).localSet c recordKey value nonce).1 := by
    refine ⟨i, value, ?_, ?_⟩
    · rw [show (g.step c (.localSet i recordKey value nonce)).state i =
        ((g.state i).localSet c recordKey value nonce).2 from update_self .., hlamport, hblob]
      exact le_rfl
    · rw [ha.device, ha.groupKey, hblob]
      rfl
  have habove : ∀ blob ∈ g.produced,
      ((g.state i).localSet c recordKey value nonce).1.lamport = blob.lamport →
      ((g.state i).localSet c recordKey value nonce).1.deviceId ≠ blob.deviceId := by
    intro blob hmem hsame hid
    obtain ⟨k, v, hle, hmade⟩ := h.genuine blob hmem
    have hk : k = i := by
      refine h.enrolled.distinct ?_
      have hid' : blob.deviceId = (g.state k).device.deviceId := by rw [hmade]; rfl
      exact hid'.symm.trans (hid.symm.trans (by rw [hblob]; rfl))
    have hlam : blob.lamport = (g.state i).lamport + 1 := hsame.symm.trans (by rw [hblob]; rfl)
    rw [hlam, hnext, hk] at hle
    omega
  refine ⟨h.enrolled.advances ha, fun blob hmem => ?_, fun blob hmem blob' hmem' hsame hid => ?_,
    fun j blob hmem => ?_, reflects_seen rfl rfl ha ?_ h.registers⟩
  · obtain rfl | hmem := List.mem_cons.mp hmem
    · exact hmine
    · exact (h.genuine blob hmem).advances ha
  · obtain rfl | hmem := List.mem_cons.mp hmem <;> obtain rfl | hmem' := List.mem_cons.mp hmem'
    · rfl
    · exact absurd hid (habove blob' hmem' hsame)
    · exact absurd hid.symm (habove blob hmem hsame.symm)
    · exact h.stamped blob hmem blob' hmem' hsame hid
  · by_cases hj : j = i
    · subst hj
      have hmem' : blob ∈ ((g.state j).localSet c recordKey value nonce).1 :: g.seen j := by
        rwa [show (g.step c (.localSet j recordKey value nonce)).seen j = _ from
          update_self ..] at hmem
      obtain rfl | hmem' := List.mem_cons.mp hmem'
      · exact List.mem_cons_self
      · exact List.mem_cons_of_mem _ (h.seen j blob hmem')
    · rw [show (g.step c (.localSet i recordKey value nonce)).seen j = g.seen j from
        update_of_ne hj ..] at hmem
      exact List.mem_cons_of_mem _ (h.seen j blob hmem)
  · refine hregisters.trans ?_
    rw [writeOf, decryptRecord_encryptRecord hc]
    rfl

/-- A delivery of a produced blob keeps the invariant. -/
theorem Consistent.applyRemote (hc : c.Lawful) (h : g.Consistent c) {blob : SyncBlob}
    (hblob : blob ∈ g.produced) : (g.step c (.applyRemote i blob)).Consistent c := by
  obtain ⟨k, value, -, hmade⟩ := h.genuine blob hblob
  obtain ⟨s, happly, hdevice, hkey, hroster, hle, hregisters⟩ := SyncState.applyRemote_spec hc
    (h.enrolled.keys k) (h.enrolled.enrolled i k) blob.recordKey value blob.lamport blob.nonce
  rw [h.enrolled.groupKey i k, ← hmade] at happly
  have hstate : (g.step c (.applyRemote i blob)).state = update g.state i s := by
    rw [step, happly]
  have ha : Advances g (g.step c (.applyRemote i blob)) :=
    advances_update hstate hdevice hkey hroster hle
  refine ⟨h.enrolled.advances ha, fun b hb => (h.genuine b hb).advances ha, h.stamped,
    fun j b hb => ?_, reflects_seen hstate rfl ha ?_ h.registers⟩
  · by_cases hj : j = i
    · subst hj
      have hb' : b ∈ blob :: g.seen j := by
        rwa [show (g.step c (.applyRemote j blob)).seen j = _ from update_self ..] at hb
      obtain rfl | hb' := List.mem_cons.mp hb'
      · exact hblob
      · exact h.seen j b hb'
    · rw [show (g.step c (.applyRemote i blob)).seen j = g.seen j from
        update_of_ne hj ..] at hb
      exact h.seen j b hb
  · have hid : blob.deviceId = (g.state k).device.deviceId := by rw [hmade]; rfl
    have hvalue : decryptRecord c blob (g.state i).groupKey = .ok value := by
      rw [h.enrolled.groupKey i k, hmade]
      exact decryptRecord_encryptRecord hc ..
    rw [hregisters, writeOf, hvalue, hid]
    rfl

theorem Consistent.of_run (hc : c.Lawful) (hrun : (machine c ι).Run ClocksBelow g) :
    g.Consistent c := by
  refine hrun.invariant (fun g hinit => ?_) fun g call g' hg hclock hstep => ?_
  · obtain ⟨henrolled, hproduced, hempty⟩ := hinit
    refine ⟨henrolled, ?_, ?_, fun i blob hb => ?_, fun i => ?_⟩
    · simp [hproduced]
    · simp [hproduced]
    · rw [(hempty i).1] at hb
      exact absurd hb List.not_mem_nil
    · have hregisters : (g.state i).registers = fun _ => none := by
        funext key
        rw [SyncState.registers, (hempty i).2.1, Std.ExtTreeMap.getElem?_empty]
        rfl
      have hwrites : g.writes c i = ∅ := by
        rw [writes, (hempty i).1]
        simp
      rw [hregisters, hwrites]
      exact .empty
  · obtain ⟨hproduced, rfl⟩ := hstep
    cases call with
    | localSet i recordKey value nonce => exact hg.localSet hc hclock
    | applyRemote i blob => exact hg.applyRemote hc (hproduced i blob rfl)

end Group

/-- Two devices of a group that have seen the same blobs hold the same records,
whatever the order and number of deliveries. -/
theorem records_converge (hc : c.Lawful) {g : Group ι}
    (hrun : (Group.machine c ι).Run Group.ClocksBelow g) {i j : ι}
    (hseen : ∀ blob, blob ∈ g.seen i ↔ blob ∈ g.seen j) :
    (g.state i).records = (g.state j).records := by
  have hg := Group.Consistent.of_run hc hrun
  have hwrites : g.writes c i = g.writes c j := by
    rw [Group.writes, Group.writes, hg.enrolled.groupKey i j]
    congr 1
    ext blob
    exact hseen blob
  refine SyncState.records_eq_of_registers ((hg.registers i).unique (hwrites ▸ hg.registers j) ?_)
  -- a clock and a device name one blob
  rintro _ ⟨b, hb, rfl⟩ _ ⟨b', hb', rfl⟩ - hstamp
  obtain ⟨hlamport, hdevice⟩ := Prod.mk.inj hstamp
  rw [hg.stamped b (hg.seen i b hb) b' (hg.seen i b' hb') hlamport hdevice]

/-! ### Two devices that write at once -/

namespace Group

/-- Signatures that name signer and message, and ciphertexts that carry their key,
nonce and associated data behind the plaintext. -/
def plainE2e : E2eCrypto where
  derivePublicKey seed := seed
  sign seed message := .ofList (seed.toList ++ message)
  verify pub message signature := decide (signature = .ofList (pub.toList ++ message))
  aeadSeal key nonce aad plaintext := plaintext ++ (key.toList ++ nonce.toList ++ aad)
  aeadOpen key nonce aad ciphertext :=
    let tag := key.toList ++ nonce.toList ++ aad
    let plaintext := ciphertext.take (ciphertext.length - tag.length)
    if ciphertext = plaintext ++ tag then some plaintext else none

theorem plainE2e_lawful : plainE2e.Lawful where
  verify_sign _ _ := decide_eq_true_iff.mpr rfl
  open_seal key nonce aad plaintext := by
    have hlength : (plaintext ++ (key.toList ++ nonce.toList ++ aad)).length -
        (key.toList ++ nonce.toList ++ aad).length = plaintext.length := by
      rw [List.length_append, Nat.add_sub_cancel]
    simp only [plainE2e, hlength, List.take_left, if_true]

def sampleKeys (own : Bool) : DeviceKeys where
  deviceId := .replicate 16 (if own then 2 else 1)
  edSeed := fun _ => if own then 2 else 1
  edPublic := fun _ => if own then 2 else 1

/-- Two devices with one group key, each enrolled with the other. -/
def samplePair : Group Bool where
  state own := (SyncState.new (sampleKeys own) fun _ => 0x42).enrollDevice (sampleKeys !own).identity
  produced := []
  seen _ := []

theorem samplePair_init : (machine plainE2e Bool).init samplePair := by
  refine ⟨⟨?_, fun _ _ => rfl, ?_, fun i => by cases i <;> rfl⟩, rfl, fun _ => ⟨rfl, rfl, rfl⟩⟩
  · intro i j hij
    cases i <;> cases j <;> first | rfl | exact absurd hij (by decide)
  · intro i j
    cases i <;> cases j <;> decide +kernel

/-- The blob a device makes when it first sets the wallpaper. -/
def wallpaper (own : Bool) (value : UInt8) : SyncBlob :=
  ((samplePair.state own).localSet plainE2e "settings/wallpaper" [value] fun _ => 10).1

/-- Both devices set the wallpaper. -/
def written : Group Bool :=
  (samplePair.step plainE2e (.localSet true "settings/wallpaper" [1] fun _ => 10)).step plainE2e
    (.localSet false "settings/wallpaper" [2] fun _ => 10)

/-- Then each is sent the other's blob. -/
def exchanged : Group Bool :=
  (written.step plainE2e (.applyRemote false (wallpaper true 1))).step plainE2e
    (.applyRemote true (wallpaper false 2))

end Group

/-- Both have then seen both blobs, and hold the same records. -/
theorem exchanged_records_converge :
    (Group.exchanged.state true).records = (Group.exchanged.state false).records := by
  have hwritten : (Group.machine Group.plainE2e Bool).Run Group.ClocksBelow Group.written := by
    refine .snoc (.snoc (.start Group.samplePair_init) ?_ ⟨?_, rfl⟩) ?_ ⟨?_, rfl⟩
    · exact (by decide : (0 : UInt64).toNat < 2 ^ 64 - 1)
    · exact fun _ _ h => nomatch h
    · exact (by decide : (0 : UInt64).toNat < 2 ^ 64 - 1)
    · exact fun _ _ h => nomatch h
  have hexchanged : (Group.machine Group.plainE2e Bool).Run Group.ClocksBelow Group.exchanged := by
    refine .snoc (l := .applyRemote true (Group.wallpaper false 2))
      (.snoc (l := .applyRemote false (Group.wallpaper true 1)) hwritten trivial ⟨?_, rfl⟩)
      trivial ⟨?_, rfl⟩
    · rintro _ _ ⟨⟩
      decide
    · rintro _ _ ⟨⟩
      decide
  refine records_converge Group.plainE2e_lawful hexchanged fun blob => ?_
  have hseen : Group.exchanged.seen true = (Group.exchanged.seen false).reverse := by decide
  rw [hseen, List.mem_reverse]

end AthenaOS.AthSync
