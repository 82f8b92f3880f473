import AthenaOS.Kv.Store
import AthenaOS.Lib.SortedMap

/-!
# RaeKV snapshots and durability

`to_bytes` writes a header, the entries in key order and a CRC-32 trailer;
`from_bytes` reads them back and enforces the caps of the format. The writer
enforces nothing, so the round trip rests on what the mutators let into a
store.
-/

namespace AthenaOS

open Lib.Wire

/-- `MAX_TOTAL_SIZE`. -/
def maxTotalSize : Nat := 1073741824

/-- `MAGIC`, the text `RAEKV` and a zero byte. -/
def kvMagic : ByteString := [82, 65, 69, 75, 86, 0]

/-- `FORMAT_VERSION`. -/
def kvFormatVersion : Nat := 1

/-- `HEADER_LEN`: magic, version and entry count. -/
def kvHeaderLen : Nat := 6 + 2 + 8

/-- `TRAILER_LEN`. -/
def kvTrailerLen : Nat := 4

namespace KvStore

/-- One entry of a snapshot. Lengths are cast to `u32`. -/
def entryBytes (entry : ByteString × ByteString) : ByteString :=
  leBytes 4 entry.1.length ++ (entry.1 ++ (leBytes 4 entry.2.length ++ entry.2))

def headerBytes (count : Nat) : ByteString :=
  kvMagic ++ (leBytes 2 kvFormatVersion ++ leBytes 8 count)

/-- Everything the checksum covers. -/
def payload (store : KvStore) : ByteString :=
  headerBytes store.map.size ++ store.map.toList.flatMap entryBytes

/-- The whole snapshot. -/
def toBytes (store : KvStore) : ByteString :=
  store.payload ++ leBytes 4 (crc32 store.payload).toNat

/-- A little-endian `u32` at the cursor, and the cursor behind it. -/
def readU32 (body : ByteString) (cursor : Nat) : Except KvError (Nat × Nat) :=
  if cursor + 4 > body.length then .error .corrupt
  else .ok (leNat (slice body cursor 4), cursor + 4)

/-- `len` bytes at the cursor, and the cursor behind them. -/
def readSlice (body : ByteString) (cursor len : Nat) : Except KvError (ByteString × Nat) :=
  if cursor + len > body.length then .error .corrupt
  else .ok (slice body cursor len, cursor + len)

/-- The body of the entry loop. -/
def readEntry (body : ByteString) (cursor : Nat) :
    Except KvError ((ByteString × ByteString) × Nat) := do
  let (keyLen, cursor) ← readU32 body cursor
  if keyLen > maxKeySize then throw .corrupt
  let (key, cursor) ← readSlice body cursor keyLen
  let (valueLen, cursor) ← readU32 body cursor
  if valueLen > maxValueSize then throw .corrupt
  let (value, cursor) ← readSlice body cursor valueLen
  return ((key, value), cursor)

/-- The entry loop: `count` more entries. -/
def readEntries (body : ByteString) : Nat → Nat → KvMap → Except KvError (Nat × KvMap)
  | 0, cursor, map => .ok (cursor, map)
  | count + 1, cursor, map =>
    match readEntry body cursor with
    | .error e => .error e
    | .ok ((key, value), cursor) => readEntries body count cursor (map.insert key value)

/-- Parse a snapshot, treating every byte as hostile. -/
def fromBytes (data : ByteString) : Except KvError KvStore :=
  if data.length > maxTotalSize then .error .tooLarge
  else if data.length < kvHeaderLen + kvTrailerLen then .error .corrupt
  else if slice data 0 6 ≠ kvMagic then .error .badMagic
  else
    let version := leNat (slice data 6 2)
    if version ≠ kvFormatVersion then .error (.unsupportedVersion version)
    else
      let payloadEnd := data.length - kvTrailerLen
      let storedCrc := leNat (slice data payloadEnd 4)
      if (crc32 (slice data 0 payloadEnd)).toNat ≠ storedCrc then .error .badChecksum
      else
        let count := leNat (slice data 8 8)
        if count > maxKeys then .error .corrupt
        else
          let body := slice data kvHeaderLen (payloadEnd - kvHeaderLen)
          match readEntries body count 0 ∅ with
          | .error e => .error e
          | .ok (cursor, map) =>
            if cursor ≠ body.length ∨ map.size ≠ count then .error .corrupt
            else .ok ⟨map⟩

/-! ## Reading a snapshot back -/

/-- The bytes an entry takes. -/
def entrySize (entry : ByteString × ByteString) : Nat := 8 + entry.1.length + entry.2.length

theorem length_entryBytes (entry : ByteString × ByteString) :
    (entryBytes entry).length = entrySize entry := by
  simp only [entryBytes, entrySize, List.length_append, length_leBytes]
  omega

/-- The bytes a snapshot of some entries takes. -/
def snapshotSize (entries : List (ByteString × ByteString)) : Nat :=
  kvHeaderLen + kvTrailerLen + (entries.map entrySize).sum

theorem length_toBytes (store : KvStore) :
    store.toBytes.length = snapshotSize store.map.toList := by
  have hentries : (store.map.toList.flatMap entryBytes).length =
      (store.map.toList.map entrySize).sum := by
    rw [List.length_flatMap]
    exact congrArg List.sum (List.map_congr_left fun e _ => length_entryBytes e)
  simp only [toBytes, payload, headerBytes, List.length_append, length_leBytes, hentries,
    snapshotSize, kvHeaderLen, kvTrailerLen, kvMagic, List.length_cons, List.length_nil]
  omega

/-- Both lengths of an entry are within their caps. -/
def EntryFits (entry : ByteString × ByteString) : Prop :=
  entry.1.length ≤ maxKeySize ∧ entry.2.length ≤ maxValueSize

theorem readU32_at {n : Nat} (hn : n < 256 ^ 4) (pre suf : ByteString) :
    readU32 (pre ++ (leBytes 4 n ++ suf)) pre.length = .ok (n, pre.length + 4) := by
  have hroom : ¬ pre.length + 4 > (pre ++ (leBytes 4 n ++ suf)).length := by
    simp only [List.length_append, length_leBytes]
    omega
  rw [readU32, if_neg hroom, slice_append_mid _ _ _ rfl (length_leBytes 4 n).symm,
    leNat_leBytes_of_lt hn]

theorem readSlice_at (pre part suf : ByteString) :
    readSlice (pre ++ (part ++ suf)) pre.length part.length =
      .ok (part, pre.length + part.length) := by
  have hroom : ¬ pre.length + part.length > (pre ++ (part ++ suf)).length := by
    simp only [List.length_append]
    omega
  rw [readSlice, if_neg hroom, slice_append_mid _ _ _ rfl rfl]

/-- An entry within its caps is read back where it was written. -/
theorem readEntry_at {entry : ByteString × ByteString} (h : EntryFits entry)
    (pre suf : ByteString) :
    readEntry (pre ++ (entryBytes entry ++ suf)) pre.length =
      .ok (entry, pre.length + (entryBytes entry).length) := by
  obtain ⟨key, value⟩ := entry
  obtain ⟨hkey, hvalue⟩ := h
  have hkeyLt : key.length < 256 ^ 4 := lt_of_le_of_lt hkey (by decide)
  have hvalueLt : value.length < 256 ^ 4 := lt_of_le_of_lt hvalue (by decide)
  -- The four fields are read one after the other, each behind what came before.
  have hkeyLen := readU32_at hkeyLt pre (key ++ (leBytes 4 value.length ++ (value ++ suf)))
  have hkeyBytes := readSlice_at (pre ++ leBytes 4 key.length) key
    (leBytes 4 value.length ++ (value ++ suf))
  have hvalueLen := readU32_at hvalueLt (pre ++ (leBytes 4 key.length ++ key)) (value ++ suf)
  have hvalueBytes := readSlice_at
    (pre ++ (leBytes 4 key.length ++ (key ++ leBytes 4 value.length))) value suf
  simp only [List.append_assoc, List.length_append, length_leBytes] at hkeyLen hkeyBytes
  simp only [List.append_assoc, List.length_append, length_leBytes] at hvalueLen hvalueBytes
  simp only [readEntry, entryBytes, List.append_assoc, hkeyLen, bind, Except.bind]
  rw [if_neg (Nat.not_lt.2 hkey)]
  simp only [hkeyBytes, pure, Except.pure]
  rw [show pre.length + 4 + key.length = pre.length + (4 + key.length) from Nat.add_assoc ..]
  simp only [hvalueLen]
  rw [if_neg (Nat.not_lt.2 hvalue)]
  rw [show pre.length + (4 + key.length) + 4 = pre.length + (4 + (key.length + 4)) by omega]
  simp only [hvalueBytes, List.length_append, length_leBytes]
  congr 2
  omega

/-- The entry loop reads a list of entries back into the map it is given. -/
theorem readEntries_at {entries : List (ByteString × ByteString)}
    (h : ∀ e ∈ entries, EntryFits e) (pre : ByteString) (map : KvMap) :
    readEntries (pre ++ entries.flatMap entryBytes) entries.length pre.length map =
      .ok ((pre ++ entries.flatMap entryBytes).length,
        entries.foldl (fun m e => m.insert e.1 e.2) map) := by
  induction entries generalizing pre map with
  | nil => simp [readEntries]
  | cons entry rest ih =>
    have hrest : ∀ e ∈ rest, EntryFits e := fun e he => h e (List.mem_cons_of_mem _ he)
    have hnext := ih hrest (pre ++ entryBytes entry) (map.insert entry.1 entry.2)
    rw [List.append_assoc, List.length_append] at hnext
    rw [List.flatMap_cons, List.length_cons, readEntries,
      readEntry_at (h entry List.mem_cons_self), List.foldl_cons]
    exact hnext

variable {store : KvStore}

/-- Within the caps of the format a snapshot reads back to the same store. -/
theorem fromBytes_toBytes (hkeys : store.len ≤ maxKeys)
    (hfits : ∀ e ∈ store.map.toList, EntryFits e)
    (hsize : snapshotSize store.map.toList ≤ maxTotalSize) :
    fromBytes store.toBytes = .ok store := by
  obtain ⟨map⟩ := store
  -- The snapshot, as the parts the reader looks at.
  set body := map.toList.flatMap entryBytes with hbody
  set trailer := leBytes 4 (crc32 (payload ⟨map⟩)).toNat with htrailer
  have hdata : toBytes ⟨map⟩ = kvMagic ++ (leBytes 2 kvFormatVersion ++
      (leBytes 8 map.size ++ (body ++ trailer))) := by
    simp only [toBytes, payload, headerBytes, List.append_assoc, hbody, htrailer]
  have htrailerLen : trailer.length = kvTrailerLen := length_leBytes 4 _
  have hpayloadLen : (payload ⟨map⟩).length = kvHeaderLen + body.length := by
    simp only [payload, headerBytes, List.length_append, length_leBytes, hbody]
    rfl
  have hlen : (toBytes ⟨map⟩).length = kvHeaderLen + body.length + kvTrailerLen := by
    rw [toBytes, List.length_append, hpayloadLen, length_leBytes]
    rfl
  have hend : (toBytes ⟨map⟩).length - kvTrailerLen = (payload ⟨map⟩).length := by
    rw [hlen, hpayloadLen]
    omega
  have hmagic : slice (toBytes ⟨map⟩) 0 6 = kvMagic := by
    rw [hdata]
    exact slice_append_start _ _ rfl
  have hversion : leNat (slice (toBytes ⟨map⟩) 6 2) = kvFormatVersion := by
    rw [hdata, slice_append_mid kvMagic _ _ (i := 6) rfl (length_leBytes 2 _).symm]
    exact leNat_leBytes_of_lt (by decide)
  have hcount : leNat (slice (toBytes ⟨map⟩) 8 8) = map.size := by
    rw [hdata, ← List.append_assoc, slice_append_mid (kvMagic ++ leBytes 2 kvFormatVersion) _ _
      (i := 8) rfl (length_leBytes 8 _).symm]
    exact leNat_leBytes_of_lt (lt_of_le_of_lt hkeys (by decide))
  have hcrc : leNat (slice (toBytes ⟨map⟩) (payload ⟨map⟩).length 4) =
      (crc32 (payload ⟨map⟩)).toNat := by
    rw [toBytes, ← List.append_nil (leBytes 4 _), slice_append_mid _ _ _ rfl (by simp)]
    exact leNat_leBytes_of_lt (UInt32.toNat_lt _)
  have hcovered : slice (toBytes ⟨map⟩) 0 (payload ⟨map⟩).length = payload ⟨map⟩ := by
    rw [toBytes]
    exact slice_append_start _ _ rfl
  have hread : slice (toBytes ⟨map⟩) kvHeaderLen ((payload ⟨map⟩).length - kvHeaderLen) =
      body := by
    rw [hpayloadLen, Nat.add_sub_cancel_left, hdata, ← List.append_assoc, ← List.append_assoc]
    exact slice_append_mid _ _ _ (by simp only [List.length_append, length_leBytes]; rfl) rfl
  have hloop : readEntries body map.size 0 ∅ = .ok (body.length, map) := by
    have := readEntries_at hfits [] ∅
    rwa [Std.ExtTreeMap.length_toList, Lib.SortedMap.foldl_insert_toList] at this
  rw [fromBytes, if_neg (by rw [length_toBytes]; exact Nat.not_lt.2 hsize),
    if_neg (by rw [hlen]; omega), if_neg (by rw [hmagic]; exact fun h => h rfl)]
  simp only [hversion, hend, hcrc, hcovered, hcount, hread, hloop]
  rw [if_neg (fun h => h rfl), if_neg (fun h => h rfl),
    if_neg (show ¬ map.size > maxKeys from Nat.not_lt.2 hkeys)]
  simp

/-- A store whose entries are within their caps reads back exactly when its
snapshot is not too long. -/
theorem fromBytes_toBytes_iff (hkeys : store.len ≤ maxKeys)
    (hfits : ∀ e ∈ store.map.toList, EntryFits e) :
    fromBytes store.toBytes = .ok store ↔ snapshotSize store.map.toList ≤ maxTotalSize := by
  constructor
  · intro hread
    by_contra hlong
    rw [fromBytes, if_pos (by rw [length_toBytes]; exact Nat.lt_of_not_le hlong)] at hread
    cases hread
  · exact fromBytes_toBytes hkeys hfits

/-! ## Durability -/

/-- The entries of a map are within their caps. -/
def Capped (map : KvMap) : Prop :=
  ∀ key value : ByteString, map[key]? = some value →
    key.length ≤ maxKeySize ∧ value.length ≤ maxValueSize

/-- The store is within its caps and its snapshot reads back. -/
structure Durable (store : KvStore) : Prop where
  len_le : store.len ≤ maxKeys
  sizes : Capped store.map
  readsBack : fromBytes store.toBytes = .ok store

theorem Capped.entryFits {map : KvMap} (h : Capped map) : ∀ e ∈ map.toList, EntryFits e :=
  fun ⟨key, value⟩ he => h key value (Std.ExtTreeMap.mem_toList_iff_getElem?_eq_some.1 he)

theorem durable_iff (store : KvStore) (h : Capped store.map) :
    store.Durable ↔ store.len ≤ maxKeys ∧ snapshotSize store.map.toList ≤ maxTotalSize := by
  constructor
  · rintro ⟨hlen, -, hread⟩
    exact ⟨hlen, (fromBytes_toBytes_iff hlen h.entryFits).1 hread⟩
  · rintro ⟨hlen, hsize⟩
    exact ⟨hlen, h, fromBytes_toBytes hlen h.entryFits hsize⟩

theorem snapshotSize_perm {l l' : List (ByteString × ByteString)} (h : l.Perm l') :
    snapshotSize l = snapshotSize l' := by
  rw [snapshotSize, snapshotSize, (h.map entrySize).sum_eq]

/-- What committing a batch must respect, in terms of the entries it leaves. -/
theorem durable_commit_iff (store : KvStore) (batch : Batch)
    (h : Capped (commit store.map batch)) :
    Durable ⟨commit store.map batch⟩ ↔
      (store.entriesAfter batch).length ≤ maxKeys ∧
      snapshotSize (store.entriesAfter batch) ≤ maxTotalSize := by
  have hperm := store.toList_commit_perm batch
  rw [durable_iff ⟨commit store.map batch⟩ h, snapshotSize_perm hperm, ← hperm.length_eq, Std.ExtTreeMap.length_toList]
  rfl

end KvStore

/-! ## Calls -/

inductive KvOp where
  | put (key value : ByteString)
  | delete (key : ByteString)
  | clear
  | apply (batch : Batch)

/-- The store after a call, successful or rejected. -/
def KvOp.run (store : KvStore) : KvOp → KvStore
  | put key value => (store.put key value).2
  | delete key => (store.delete key).2
  | clear => store.clear
  | apply batch => (store.apply batch).2

namespace KvStore

/-- Nothing is wrong with the call that the code does not check: if it passes
the checks of the code, it leaves at most `MAX_KEYS` entries, counting every key
once, and their snapshot is not too long. -/
def Fits (store : KvStore) : KvOp → Prop
  | .put key value =>
    key.length ≤ maxKeySize → value.length ≤ maxValueSize →
    (store.map.contains key ∨ store.len < maxKeys) →
      snapshotSize (store.entriesAfter [.put key value]) ≤ maxTotalSize
  | .delete _ => True
  | .clear => True
  | .apply batch =>
    checkSizes batch = .ok () → store.projected batch ≤ maxKeys →
      (store.entriesAfter batch).length ≤ maxKeys ∧
      snapshotSize (store.entriesAfter batch) ≤ maxTotalSize

variable {batch : Batch} {key value : ByteString} {store : KvStore}

/-- A value a batch leaves was put by one of its operations. -/
theorem mem_of_outcome (h : Batch.outcome batch key = some (some value)) :
    BatchOp.put key value ∈ batch := by
  induction batch with
  | nil => cases h
  | cons op ops ih =>
    rw [Batch.outcome] at h
    split at h
    · next r hrest =>
      rw [Option.some.injEq] at h
      exact List.mem_cons_of_mem _ (ih (h ▸ hrest))
    · split at h
      · next hkey =>
        cases op with
        | put k v =>
          obtain rfl : k = key := hkey
          obtain rfl : v = value := by simpa [BatchOp.result] using h
          exact List.mem_cons_self
        | delete k => cases h
      · cases h

/-- A batch that passes the size checks keeps the entries within their caps. -/
theorem capped_commit {map : KvMap} (h : Capped map)
    (hsizes : ∀ op ∈ batch, op.checkSize = .ok ()) : Capped (commit map batch) := by
  intro key value hstored
  rw [Batch.getElem?_commit] at hstored
  cases hout : Batch.outcome batch key with
  | none =>
    rw [hout] at hstored
    exact h key value hstored
  | some r =>
    rw [hout] at hstored
    obtain rfl : r = some value := hstored
    have hput := hsizes _ (mem_of_outcome hout)
    rw [BatchOp.checkSize] at hput
    split at hput
    · cases hput
    · next hkey =>
      split at hput
      · cases hput
      · next hvalue => exact ⟨Nat.not_lt.1 hkey, Nat.not_lt.1 hvalue⟩

/-- Dropping entries keeps a store durable. -/
theorem durable_delete (h : store.Durable) (key : ByteString) : (store.delete key).2.Durable := by
  have hcapped : Capped (commit store.map [.delete key]) :=
    capped_commit h.sizes fun op hop => by rw [List.mem_singleton.1 hop]; rfl
  have hkept : store.entriesAfter [.delete key] =
      store.map.toList.filter fun e => e.1 ∉ Batch.keys [.delete key] := by
    simp [entriesAfter, Batch.keys, Batch.outcome, BatchOp.key, BatchOp.result]
  obtain ⟨hlen, hsize⟩ := (durable_iff store h.sizes).1 h
  refine (durable_commit_iff store [.delete key] hcapped).2 ⟨?_, ?_⟩
  · rw [hkept]
    exact (List.length_filter_le _ _).trans (by rwa [Std.ExtTreeMap.length_toList])
  · rw [hkept]
    refine le_trans (Nat.add_le_add_left ?_ _) hsize
    exact (List.filter_sublist.map entrySize).sum_le_sum fun _ _ => Nat.zero_le _

theorem durable_empty : Durable ⟨∅⟩ := by
  have hcapped : Capped ∅ := fun key value h => by
    rw [Std.ExtTreeMap.getElem?_empty] at h
    cases h
  have hnil : (∅ : KvMap).toList = [] := Std.ExtTreeMap.toList_eq_nil_iff.2 rfl
  refine (durable_iff ⟨∅⟩ hcapped).2 ⟨?_, ?_⟩
  · rw [len, Std.ExtTreeMap.size_empty]
    exact Nat.zero_le _
  · rw [hnil]
    decide

/-- Putting a key is a batch of one operation. -/
theorem put_eq_commit (hkey : key.length ≤ maxKeySize) (hvalue : value.length ≤ maxValueSize)
    (hroom : store.map.contains key ∨ store.len < maxKeys) :
    (store.put key value).2 = ⟨commit store.map [.put key value]⟩ := by
  have hfull : ¬ (!store.map.contains key && decide (store.map.size ≥ maxKeys)) = true := by
    rw [Bool.and_eq_true, Bool.not_eq_true', decide_eq_true_eq]
    rintro ⟨hnew, hfull⟩
    rcases hroom with hstored | hroom
    · rw [hnew] at hstored
      cases hstored
    · exact absurd hroom (Nat.not_lt.2 hfull)
  rw [put, if_neg (Nat.not_lt.2 hkey), if_neg (Nat.not_lt.2 hvalue), if_neg hfull]
  rfl

/-- A put that passes the check leaves at most `MAX_KEYS` entries. -/
theorem length_entriesAfter_put (hlen : store.len ≤ maxKeys)
    (hroom : store.map.contains key ∨ store.len < maxKeys) :
    (store.entriesAfter [.put key value]).length ≤ maxKeys := by
  rw [← (store.toList_commit_perm _).length_eq, Std.ExtTreeMap.length_toList]
  show (store.map.insert key value).size ≤ maxKeys
  rw [Std.ExtTreeMap.size_insert]
  split
  · exact hlen
  · next hnew => exact hroom.resolve_left hnew

/-- The step lemma: a call keeps a store durable exactly when it fits. -/
theorem durable_run_iff (h : store.Durable) (op : KvOp) :
    (op.run store).Durable ↔ store.Fits op := by
  cases op with
  | put key value =>
    show (store.put key value).2.Durable ↔ _
    by_cases hkey : key.length ≤ maxKeySize
    swap
    · rw [put, if_pos (Nat.lt_of_not_le hkey)]
      exact iff_of_true h fun hk => absurd hk hkey
    by_cases hvalue : value.length ≤ maxValueSize
    swap
    · rw [put, if_neg (Nat.not_lt.2 hkey), if_pos (Nat.lt_of_not_le hvalue)]
      exact iff_of_true h fun _ hv => absurd hv hvalue
    by_cases hroom : store.map.contains key ∨ store.len < maxKeys
    swap
    · have hfull : (!store.map.contains key && decide (store.map.size ≥ maxKeys)) = true := by
        rw [not_or, Nat.not_lt] at hroom
        rw [Bool.and_eq_true, Bool.not_eq_true', decide_eq_true_eq]
        exact ⟨Bool.eq_false_iff.2 hroom.1, hroom.2⟩
      rw [put, if_neg (Nat.not_lt.2 hkey), if_neg (Nat.not_lt.2 hvalue), if_pos hfull]
      exact iff_of_true h fun _ _ hr => absurd hr hroom
    have hcapped : Capped (commit store.map [.put key value]) :=
      capped_commit h.sizes fun op hop => by
        rw [List.mem_singleton.1 hop, BatchOp.checkSize, if_neg (Nat.not_lt.2 hkey),
          if_neg (Nat.not_lt.2 hvalue)]
    rw [put_eq_commit hkey hvalue hroom, durable_commit_iff store _ hcapped]
    exact ⟨fun hd _ _ _ => hd.2, fun hf =>
      ⟨length_entriesAfter_put h.len_le hroom, hf hkey hvalue hroom⟩⟩
  | delete key => exact iff_of_true (durable_delete h key) trivial
  | clear => exact iff_of_true durable_empty trivial
  | apply batch =>
    show (store.apply batch).2.Durable ↔ _
    unfold apply
    split
    · next e he => exact iff_of_true h fun hok => by rw [he] at hok; cases hok
    · next hsizes =>
      split
      · next hmany => exact iff_of_true h fun _ hp => absurd hp (Nat.not_le.2 hmany)
      · next hfew =>
        rw [durable_commit_iff store batch (capped_commit h.sizes (checkSizes_ok_iff.1 hsizes))]
        exact ⟨fun hd _ _ => hd, fun hf => hf hsizes (Nat.not_lt.1 hfew)⟩

/-- The store a sequence of calls leads to. -/
def runOps (ops : List KvOp) : KvStore := ops.foldl KvOp.run new

theorem runOps_concat (ops : List KvOp) (op : KvOp) :
    runOps (ops ++ [op]) = op.run (runOps ops) := by
  rw [runOps, List.foldl_append]
  rfl

/-- All stores of a sequence of calls are durable exactly when all its calls
fit. -/
theorem durable_iff_fits (ops : List KvOp) :
    (∀ past, past <+: ops → (runOps past).Durable) ↔
      ∀ past op, past ++ [op] <+: ops → (runOps past).Fits op := by
  constructor
  · intro hdurable past op hpast
    have hbefore := hdurable past ((List.prefix_append past [op]).trans hpast)
    have hafter := hdurable _ hpast
    rw [runOps_concat] at hafter
    exact (durable_run_iff hbefore op).1 hafter
  · intro hfits past
    induction past using List.reverseRecOn with
    | nil => exact fun _ => durable_empty
    | append_singleton past op ih =>
      intro hpast
      have hbefore := ih ((List.prefix_append past [op]).trans hpast)
      rw [runOps_concat]
      exact (durable_run_iff hbefore op).2 (hfits past op hpast)

/-- A batch that puts one value under four keys. -/
def fourPuts (value : ByteString) : Batch :=
  [.put [0] value, .put [1] value, .put [2] value, .put [3] value]

/-- Values of the largest size are accepted under four keys. -/
theorem apply_fourPuts (h : value.length = maxValueSize) :
    new.apply (fourPuts value) = (.ok (), ⟨commit ∅ (fourPuts value)⟩) := by
  have hsizes : checkSizes (fourPuts value) = .ok () := by
    simp [checkSizes, fourPuts, BatchOp.checkSize, h, maxKeySize]
  have hprojected : new.projected (fourPuts value) = 4 := by
    simp [projected, fourPuts, new, usizeMax]
  rw [apply, hsizes]
  simp only [hprojected]
  rfl

/-- Together they take more than `MAX_TOTAL_SIZE`. -/
theorem not_durable_fourPuts (h : value.length = maxValueSize) :
    ¬ Durable ⟨commit ∅ (fourPuts value)⟩ := by
  have hentries : new.entriesAfter (fourPuts value) =
      [([0], value), ([1], value), ([2], value), ([3], value)] := by
    have hkeys : Batch.keys (fourPuts value) = [[0], [1], [2], [3]] := by
      show ([[0], [1], [2], [3]] : List ByteString).dedup = _
      decide
    have hnil : new.map.toList = [] := Std.ExtTreeMap.toList_eq_nil_iff.2 rfl
    rw [entriesAfter, hkeys, hnil]
    simp [fourPuts, Batch.outcome, BatchOp.key, BatchOp.result]
  have hlong : maxTotalSize < snapshotSize (new.entriesAfter (fourPuts value)) := by
    rw [hentries]
    simp [snapshotSize, entrySize, kvHeaderLen, kvTrailerLen, h, maxTotalSize, maxValueSize]
  intro hdurable
  have hread := hdurable.readsBack
  rw [fromBytes_toBytes_iff hdurable.len_le hdurable.sizes.entryFits] at hread
  have hperm := snapshotSize_perm (new.toList_commit_perm (fourPuts value))
  exact absurd (hperm ▸ hlong) (Nat.not_lt.2 hread)

theorem fourPuts_lost (h : value.length = maxValueSize) :
    (new.apply (fourPuts value)).1 = .ok () ∧ ¬ (runOps [.apply (fourPuts value)]).Durable := by
  have hrun : runOps [.apply (fourPuts value)] = (new.apply (fourPuts value)).2 := rfl
  rw [hrun, apply_fourPuts h]
  exact ⟨rfl, not_durable_fourPuts h⟩

/-- Four 256 MiB values are accepted in one batch, and the store they make does
not read back. -/
theorem four_large_values :
    (new.apply (fourPuts (List.replicate maxValueSize 0))).1 = .ok () ∧
      ¬ (runOps [.apply (fourPuts (List.replicate maxValueSize 0))]).Durable :=
  fourPuts_lost List.length_replicate

end KvStore

end AthenaOS
