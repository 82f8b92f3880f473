import AthenaOS.AthSync.Upload

/-!
# Sync manifests (`components/athsync/src/lib.rs`)

A manifest lists the items of a device. Two manifests are compared to find what has to be uploaded, what has to be
downloaded, and what was changed on both sides.
-/

namespace AthenaOS.AthSync.Manifest

open Lib Lib.Wire

/-! ## Manifests -/

/-- `SyncManifestEntry`. -/
structure SyncManifestEntry where
  itemType : SyncItemType
  version : UInt64
  dataHash : Bytes 32
  modifiedAt : UInt64
  sizeBytes : UInt64
  isDeleted : Bool

/-- `SyncManifest`. -/
structure SyncManifest where
  deviceId : DeviceId
  version : UInt64
  lastSync : UInt64
  items : Std.ExtTreeMap SyncItemId SyncManifestEntry

namespace SyncManifest

/-- `SyncManifest::new`. -/
def new (deviceId : DeviceId) : SyncManifest := ⟨deviceId, 0, 0, ∅⟩

/-- `add_entry`. -/
def addEntry (m : SyncManifest) (id : SyncItemId) (entry : SyncManifestEntry) : SyncManifest :=
  { m with items := m.items.insert id entry, version := m.version + 1 }

/-- `remove_entry`. -/
def removeEntry (m : SyncManifest) (id : SyncItemId) : Bool × SyncManifest :=
  if m.items[id]?.isSome then (true, { m with items := m.items.erase id, version := m.version + 1 }) else (false, m)

/-- `mark_deleted`. -/
def markDeleted (m : SyncManifest) (id : SyncItemId) : Bool × SyncManifest :=
  match m.items[id]? with
  | some entry => (true, { m with items := m.items.insert id { entry with isDeleted := true }, version := m.version + 1 })
  | none => (false, m)

end SyncManifest

/-! ## The engine -/

/-- The fields of `SyncItem` that get into a manifest. -/
structure SyncItem where
  id : SyncItemId
  itemType : SyncItemType
  version : UInt64
  dataHash : Bytes 32
  modifiedAt : UInt64
  sizeBytes : UInt64
  encryptedPayload : ByteString

/-- The fields of `SyncEngine` that manifests are made from. -/
structure SyncEngine where
  items : Std.ExtTreeMap SyncItemId SyncItem
  manifest : SyncManifest

namespace SyncEngine

/-- `SyncEngine::new`. -/
def new (deviceId : DeviceId) : SyncEngine := ⟨∅, .new deviceId⟩

/-- `register_item`. -/
def registerItem (e : SyncEngine) (item : SyncItem) : SyncEngine where
  manifest := e.manifest.addEntry item.id
    { itemType := item.itemType
      version := item.version
      dataHash := item.dataHash
      modifiedAt := item.modifiedAt
      sizeBytes := item.sizeBytes
      isDeleted := false }
  items := e.items.insert item.id item

/-- `update_item`. -/
def updateItem (e : SyncEngine) (id : SyncItemId) (newData : ByteString) (hash : Bytes 32) (now : UInt64) : SyncEngine :=
  match e.items[id]? with
  | none => e
  | some item =>
    let item := { item with
      version := item.version + 1
      dataHash := hash
      modifiedAt := now
      encryptedPayload := newData
      sizeBytes := .ofNat newData.length }
    let items := match e.manifest.items[id]? with
      | some entry => e.manifest.items.insert id { entry with
          version := item.version
          dataHash := hash
          modifiedAt := now
          sizeBytes := item.sizeBytes }
      | none => e.manifest.items
    { items := e.items.insert id item, manifest := { e.manifest with items := items, version := e.manifest.version + 1 } }

/-- `delete_item`. -/
def deleteItem (e : SyncEngine) (id : SyncItemId) : Bool × SyncEngine :=
  if e.items[id]?.isSome then (true, ⟨e.items.erase id, (e.manifest.markDeleted id).2⟩) else (false, e)

end SyncEngine

/-- What is done to a device's manifest. -/
inductive Command where
  | addEntry (id : SyncItemId) (entry : SyncManifestEntry)
  | removeEntry (id : SyncItemId)
  | markDeleted (id : SyncItemId)
  | registerItem (item : SyncItem)
  | updateItem (id : SyncItemId) (newData : ByteString) (hash : Bytes 32) (now : UInt64)
  | deleteItem (id : SyncItemId)

def SyncEngine.apply (e : SyncEngine) : Command → SyncEngine
  | .addEntry id entry => { e with manifest := e.manifest.addEntry id entry }
  | .removeEntry id => { e with manifest := (e.manifest.removeEntry id).2 }
  | .markDeleted id => { e with manifest := (e.manifest.markDeleted id).2 }
  | .registerItem item => e.registerItem item
  | .updateItem id newData hash now => e.updateItem id newData hash now
  | .deleteItem id => (e.deleteItem id).2

/-- The manifest of a device after some commands. -/
def manifestAfter (deviceId : DeviceId) (commands : List Command) : SyncManifest :=
  (commands.foldl SyncEngine.apply (.new deviceId)).manifest

/-! ## Deltas -/

/-- `Conflict`, before it is resolved. -/
structure Conflict where
  itemId : SyncItemId
  itemType : SyncItemType
  localVersion : UInt64
  remoteVersion : UInt64
  localModified : UInt64
  remoteModified : UInt64
  localHash : Bytes 32
  remoteHash : Bytes 32

/-- `SyncDelta`. -/
structure SyncDelta where
  toUpload : List SyncItemId
  toDownload : List SyncItemId
  conflicts : List Conflict

def conflictOf (id : SyncItemId) (l r : SyncManifestEntry) : Conflict where
  itemId := id
  itemType := l.itemType
  localVersion := l.version
  remoteVersion := r.version
  localModified := l.modifiedAt
  remoteModified := r.modifiedAt
  localHash := l.dataHash
  remoteHash := r.dataHash

/-- One round of the loop over the local items. -/
def localRound (remote : SyncManifest) (delta : SyncDelta) (item : SyncItemId × SyncManifestEntry) : SyncDelta :=
  let (id, l) := item
  match remote.items[id]? with
  | none => if !l.isDeleted then { delta with toUpload := delta.toUpload ++ [id] } else delta
  | some r =>
    if l.dataHash = r.dataHash then delta
    else if l.version > r.version then { delta with toUpload := delta.toUpload ++ [id] }
    else if r.version > l.version then { delta with toDownload := delta.toDownload ++ [id] }
    else { delta with conflicts := delta.conflicts ++ [conflictOf id l r] }

/-- One round of the loop over the remote items. -/
def remoteRound (self : SyncManifest) (delta : SyncDelta) (item : SyncItemId × SyncManifestEntry) : SyncDelta :=
  let (id, r) := item
  if !self.items.contains id && !r.isDeleted then { delta with toDownload := delta.toDownload ++ [id] } else delta

/-- `compute_delta`. -/
def computeDelta (self remote : SyncManifest) : SyncDelta :=
  remote.items.toList.foldl (remoteRound self) (self.items.toList.foldl (localRound remote) ⟨[], [], []⟩)

/-! ## Verdicts -/

/-- What becomes of an id. -/
inductive Verdict where
  | skip
  | upload
  | download
  | conflict
  deriving DecidableEq

/-- The verdict on the entries of an id. -/
def verdict : Option SyncManifestEntry → Option SyncManifestEntry → Verdict
  | none, none => .skip
  | some l, none => if l.isDeleted then .skip else .upload
  | none, some r => if r.isDeleted then .skip else .download
  | some l, some r =>
    if l.dataHash = r.dataHash then .skip
    else if l.version > r.version then .upload
    else if r.version > l.version then .download
    else .conflict

def Verdict.mirror : Verdict → Verdict
  | skip => .skip
  | upload => .download
  | download => .upload
  | conflict => .conflict

/-- **From the other side** uploads are downloads. -/
theorem verdict_comm (l r : Option SyncManifestEntry) : verdict r l = (verdict l r).mirror := by
  rcases l with _ | l <;> rcases r with _ | r
  · rfl
  · cases h : r.isDeleted <;> simp [verdict, h, Verdict.mirror]
  · cases h : l.isDeleted <;> simp [verdict, h, Verdict.mirror]
  · rw [verdict, verdict]
    by_cases hhash : l.dataHash = r.dataHash
    · rw [if_pos hhash, if_pos hhash.symm]
      rfl
    · rw [if_neg hhash, if_neg (Ne.symm hhash)]
      by_cases hl : l.version > r.version
      · rw [if_neg (UInt64.lt_asymm hl), if_pos hl, if_pos hl]
        rfl
      · by_cases hr : r.version > l.version
        · rw [if_pos hr, if_neg hl, if_pos hr]
          rfl
        · rw [if_neg hr, if_neg hl, if_neg hl, if_neg hr]
          rfl

theorem Verdict.mirror_eq_iff {v w : Verdict} : v.mirror = w ↔ v = w.mirror := by cases v <;> cases w <;> decide

/-! ## The lists of a delta -/

/-- The ids in the list of a verdict. -/
def SyncDelta.ids (delta : SyncDelta) : Verdict → List SyncItemId
  | .skip => []
  | .upload => delta.toUpload
  | .download => delta.toDownload
  | .conflict => delta.conflicts.map (·.itemId)

section Delta

variable {l r : SyncManifest} {id : SyncItemId} {v : Verdict}

/-- An item of the first loop goes to the list of its verdict. -/
theorem ids_localRound (hv : v ≠ .skip) (delta : SyncDelta) (item : SyncItemId × SyncManifestEntry) :
    (localRound r delta item).ids v =
      delta.ids v ++ if verdict (some item.2) r.items[item.1]? = v then [item.1] else [] := by
  obtain ⟨id, entry⟩ := item
  rw [localRound]
  dsimp only
  rcases r.items[id]? with _ | e
  · cases h : entry.isDeleted <;> cases v <;> simp_all [verdict, SyncDelta.ids]
  · dsimp only
    rw [verdict]
    by_cases hhash : entry.dataHash = e.dataHash
    · rw [if_pos hhash, if_pos hhash, if_neg (Ne.symm hv), List.append_nil]
    · rw [if_neg hhash, if_neg hhash]
      by_cases hl : entry.version > e.version
      · rw [if_pos hl, if_pos hl]
        cases v <;> simp_all [SyncDelta.ids]
      · rw [if_neg hl, if_neg hl]
        by_cases hr : e.version > entry.version
        · rw [if_pos hr, if_pos hr]
          cases v <;> simp_all [SyncDelta.ids]
        · rw [if_neg hr, if_neg hr]
          cases v <;> simp_all [SyncDelta.ids, conflictOf]

/-- So does an item of the second loop. -/
theorem ids_remoteRound (hv : v ≠ .skip) (delta : SyncDelta) (item : SyncItemId × SyncManifestEntry) :
    (remoteRound l delta item).ids v =
      delta.ids v ++ if l.items.contains item.1 = false ∧ verdict none (some item.2) = v then [item.1] else [] := by
  obtain ⟨id, entry⟩ := item
  rw [remoteRound]
  dsimp only
  cases hc : l.items.contains id <;> cases h : entry.isDeleted <;> cases v <;> simp_all [verdict, SyncDelta.ids]

/-- Rounds that each add an item or not. -/
theorem ids_foldl {round : SyncDelta → SyncItemId × SyncManifestEntry → SyncDelta}
    {adds : SyncItemId × SyncManifestEntry → Prop} [DecidablePred adds]
    (hround : ∀ delta item, (round delta item).ids v = delta.ids v ++ if adds item then [item.1] else [])
    (items : List (SyncItemId × SyncManifestEntry)) (delta : SyncDelta) :
    (items.foldl round delta).ids v = delta.ids v ++ (items.filter adds).map Prod.fst := by
  induction items generalizing delta with
  | nil => rw [List.foldl_nil, List.filter_nil, List.map_nil, List.append_nil]
  | cons item items ih =>
    rw [List.foldl_cons, ih, hround, List.append_assoc]
    by_cases h : adds item
    · rw [if_pos h, List.filter_cons, if_pos (decide_eq_true h)]
      rfl
    · rw [if_neg h, List.filter_cons, if_neg (by simpa using h)]
      rfl

/-- What the two loops add. -/
theorem ids_computeDelta (hv : v ≠ .skip) (l r : SyncManifest) : (computeDelta l r).ids v =
    (l.items.toList.filter fun item => verdict (some item.2) r.items[item.1]? = v).map Prod.fst ++
      (r.items.toList.filter fun item => l.items.contains item.1 = false ∧ verdict none (some item.2) = v).map
        Prod.fst := by
  have hnil : (⟨[], [], []⟩ : SyncDelta).ids v = [] := by cases v <;> rfl
  rw [computeDelta, ids_foldl (ids_remoteRound hv), ids_foldl (ids_localRound hv), hnil, List.nil_append]

/-- **An id is in the list of its verdict.** -/
theorem mem_ids (hv : v ≠ .skip) : id ∈ (computeDelta l r).ids v ↔ verdict l.items[id]? r.items[id]? = v := by
  simp only [ids_computeDelta hv, List.mem_append, List.mem_map, List.mem_filter, decide_eq_true_eq, Prod.exists,
    Std.ExtTreeMap.mem_toList_iff_getElem?_eq_some]
  constructor
  · rintro (⟨id, entry, ⟨hl, hverdict⟩, rfl⟩ | ⟨id, entry, ⟨hr, hnone, hverdict⟩, rfl⟩)
    · rwa [hl]
    · rw [Std.ExtTreeMap.contains_eq_isSome_getElem?, Option.isSome_eq_false_iff, Option.isNone_iff_eq_none] at hnone
      rwa [hnone, hr]
  · intro h
    rcases hl : l.items[id]? with _ | entry
    · rcases hr : r.items[id]? with _ | entry
      · rw [hl, hr] at h
        exact absurd h.symm hv
      · rw [hl, hr] at h
        refine .inr ⟨id, entry, ⟨hr, ?_, h⟩, rfl⟩
        rw [Std.ExtTreeMap.contains_eq_isSome_getElem?, hl]
        rfl
    · exact .inl ⟨id, entry, ⟨hl, hl ▸ h⟩, rfl⟩

theorem nodup_map_fst_toList (m : Std.ExtTreeMap SyncItemId SyncManifestEntry) : (m.toList.map Prod.fst).Nodup := by
  rw [Std.ExtTreeMap.map_fst_toList_eq_keys]
  exact Std.ExtTreeMap.nodup_keys

/-- **Each id is there once.** -/
theorem nodup_ids (hv : v ≠ .skip) : ((computeDelta l r).ids v).Nodup := by
  rw [ids_computeDelta hv, List.nodup_append]
  refine ⟨(nodup_map_fst_toList _).sublist (List.filter_sublist.map _),
    (nodup_map_fst_toList _).sublist (List.filter_sublist.map _), ?_⟩
  rintro id hid _ hid' rfl
  obtain ⟨⟨id, entry⟩, hentry, rfl⟩ := List.mem_map.mp hid
  obtain ⟨⟨id', entry'⟩, hentry', heq⟩ := List.mem_map.mp hid'
  obtain rfl : id' = id := heq
  have hl := (Std.ExtTreeMap.mem_toList_iff_getElem?_eq_some).mp (List.mem_filter.mp hentry).1
  have hnone := (of_decide_eq_true (List.mem_filter.mp hentry').2).1
  rw [Std.ExtTreeMap.contains_eq_isSome_getElem?, hl] at hnone
  cases hnone

theorem count_ids (hv : v ≠ .skip) : ((computeDelta l r).ids v).count id =
    if verdict l.items[id]? r.items[id]? = v then 1 else 0 := by
  split
  · next h => exact List.count_eq_one_of_mem (nodup_ids hv) ((mem_ids hv).mpr h)
  · next h => exact List.count_eq_zero_of_not_mem fun hmem => h ((mem_ids hv).mp hmem)

/-! ## Complete deltas -/

/-- How often an id is in the three lists. -/
def SyncDelta.appearances (delta : SyncDelta) (id : SyncItemId) : Nat :=
  delta.toUpload.count id + delta.toDownload.count id + (delta.conflicts.map (·.itemId)).count id

/-- Present and not deleted. -/
def live : Option SyncManifestEntry → Bool
  | some entry => !entry.isDeleted
  | none => false

/-- Live on one side only, or live on both with different data. -/
def Differs (l r : Option SyncManifestEntry) : Prop :=
  live l ≠ live r ∨ live l = true ∧ live r = true ∧ l.map (·.dataHash) ≠ r.map (·.dataHash)

/-- Every difference is in exactly one of the lists, once. -/
def Complete (l r : SyncManifest) : Prop :=
  ∀ id : SyncItemId, Differs l.items[id]? r.items[id]? → (computeDelta l r).appearances id = 1

/-- The other side has uploads and downloads exchanged, and the same conflicts. -/
structure Mirrored (l r : SyncManifest) : Prop where
  upload : (computeDelta r l).toUpload.Perm (computeDelta l r).toDownload
  download : (computeDelta r l).toDownload.Perm (computeDelta l r).toUpload
  conflict : ((computeDelta r l).conflicts.map (·.itemId)).Perm ((computeDelta l r).conflicts.map (·.itemId))

/-- A tombstone on one side, live on the other, with the hash of the same data. -/
def Stale (l r : Option SyncManifestEntry) : Prop :=
  ∃ a b, l = some a ∧ r = some b ∧ a.isDeleted ≠ b.isDeleted ∧ a.dataHash = b.dataHash

theorem appearances_computeDelta (l r : SyncManifest) (id : SyncItemId) : (computeDelta l r).appearances id =
    if verdict l.items[id]? r.items[id]? = .skip then 0 else 1 := by
  have hcount : ∀ v : Verdict, v ≠ .skip → ((computeDelta l r).ids v).count id =
      if verdict l.items[id]? r.items[id]? = v then 1 else 0 := fun v hv => count_ids hv
  rw [SyncDelta.appearances]
  show ((computeDelta l r).ids .upload).count id + ((computeDelta l r).ids .download).count id +
    ((computeDelta l r).ids .conflict).count id = _
  rw [hcount .upload nofun, hcount .download nofun, hcount .conflict nofun]
  cases verdict l.items[id]? r.items[id]? <;> rfl

/-- **What is lost**: a deletion whose tombstone still has the hash of the live entry. -/
theorem differs_skip_iff {l r : Option SyncManifestEntry} : Differs l r ∧ verdict l r = .skip ↔ Stale l r := by
  rcases l with _ | l <;> rcases r with _ | r
  · simp [Differs, Stale]
  · cases h : r.isDeleted <;> simp [Differs, Stale, live, verdict, h]
  · cases h : l.isDeleted <;> simp [Differs, Stale, live, verdict, h]
  · have hskip : verdict (some l) (some r) = .skip ↔ l.dataHash = r.dataHash := by
      rw [verdict]
      by_cases hhash : l.dataHash = r.dataHash
      · rw [if_pos hhash]
        exact ⟨fun _ => hhash, fun _ => rfl⟩
      · rw [if_neg hhash]
        refine ⟨fun h => ?_, fun h => absurd h hhash⟩
        split at h
        · cases h
        · split at h <;> cases h
    rw [hskip, Differs]
    constructor
    · rintro ⟨hdiffers | ⟨-, -, hne⟩, hhash⟩
      · exact ⟨l, r, rfl, rfl, fun h => hdiffers (by rw [live, live, h]), hhash⟩
      · exact absurd (congrArg some hhash) hne
    · rintro ⟨_, _, ⟨⟩, ⟨⟩, hne, hhash⟩
      exact ⟨.inl fun h => hne (Bool.not_inj h), hhash⟩

theorem mirrored (l r : SyncManifest) : Mirrored l r := by
  have hperm : ∀ v : Verdict, v ≠ .skip → ((computeDelta r l).ids v).Perm ((computeDelta l r).ids v.mirror) := by
    intro v hv
    have hv' : v.mirror ≠ .skip := by cases v <;> first | exact absurd rfl hv | exact nofun
    refine (List.perm_ext_iff_of_nodup (nodup_ids hv) (nodup_ids hv')).mpr fun id => ?_
    rw [mem_ids hv, mem_ids hv', verdict_comm, Verdict.mirror_eq_iff]
  exact ⟨hperm .upload nofun, hperm .download nofun, hperm .conflict nofun⟩

end Delta

/-- **No difference is lost** exactly where no deletion is marked on one side only with the data unchanged; the
other side always sees the mirror image. -/
theorem delta_iff (device device' : DeviceId) (commands commands' : List Command) :
    Complete (manifestAfter device commands) (manifestAfter device' commands') ∧
        Mirrored (manifestAfter device commands) (manifestAfter device' commands') ↔
      ∀ id : SyncItemId, ¬ Stale (manifestAfter device commands).items[id]? (manifestAfter device' commands').items[id]? := by
  constructor
  · intro ⟨hcomplete, _⟩ id hstale
    obtain ⟨hdiffers, hskip⟩ := differs_skip_iff.mpr hstale
    have hone := hcomplete id hdiffers
    rw [appearances_computeDelta, if_pos hskip] at hone
    cases hone
  · refine fun h => ⟨fun id hdiffers => ?_, mirrored _ _⟩
    rw [appearances_computeDelta, if_neg]
    exact fun hskip => h id (differs_skip_iff.mp ⟨hdiffers, hskip⟩)

/-- An item that both devices have, deleted on one of them. -/
theorem delta_loses_deletion : ¬ ∀ (device device' : DeviceId) (commands commands' : List Command),
    Complete (manifestAfter device commands) (manifestAfter device' commands') ∧
      Mirrored (manifestAfter device commands) (manifestAfter device' commands') := by
  intro h
  obtain ⟨id, hid⟩ : ∃ id : SyncItemId, id = Vector.replicate 16 0 := ⟨_, rfl⟩
  obtain ⟨entry, hlive⟩ : ∃ entry : SyncManifestEntry, entry.isDeleted = false :=
    ⟨⟨.files, 1, Bytes.zero, 0, 0, false⟩, rfl⟩
  have hleft : (manifestAfter id [.addEntry id entry]).items[id]? = some entry :=
    Std.ExtTreeMap.getElem?_insert_self
  have hright : (manifestAfter id [.addEntry id entry, .markDeleted id]).items[id]? =
      some { entry with isDeleted := true } := by
    have hmark : ((manifestAfter id [.addEntry id entry]).markDeleted id).2.items[id]? =
        some { entry with isDeleted := true } := by
      rw [SyncManifest.markDeleted, hleft]
      exact Std.ExtTreeMap.getElem?_insert_self
    exact hmark
  have hstale : Stale (manifestAfter id [.addEntry id entry]).items[id]?
      (manifestAfter id [.addEntry id entry, .markDeleted id]).items[id]? := by
    refine ⟨_, _, hleft, hright, ?_, rfl⟩
    rw [hlive]
    exact Bool.false_ne_true
  obtain ⟨hdiffers, hskip⟩ := differs_skip_iff.mpr hstale
  have hone := (h id id [.addEntry id entry] [.addEntry id entry, .markDeleted id]).1 id hdiffers
  rw [appearances_computeDelta, if_pos hskip] at hone
  cases hone

end AthenaOS.AthSync.Manifest
