import AthenaOS.Lib.Wire

/-!
# The RaeKV store (`components/ath_kv/src/lib.rs`)

An embedded store of byte-string keys and values, kept sorted by key.

`getElem?_commit` and `toList_commit_perm` say that committing a batch does just
that. The entry count `apply` checks beforehand is a different one: it adds up
the operations against the store before the batch, so a stored key that the
batch deletes twice, or deletes and puts again, is subtracted once too often.
-/

namespace AthenaOS

open Lib.Wire

/-- `MAX_KEYS`. -/
def maxKeys : Nat := 16777216

/-- `MAX_KEY_SIZE`. -/
def maxKeySize : Nat := 65536

/-- `MAX_VALUE_SIZE`. -/
def maxValueSize : Nat := 268435456

inductive KvError where
  | keyTooLarge
  | valueTooLarge
  | tooManyKeys
  | badMagic
  | unsupportedVersion (version : Nat)
  | badChecksum
  | corrupt
  | tooLarge
  deriving DecidableEq

/-- `BTreeMap<Vec<u8>, Vec<u8>>`: two maps with the same entries are equal. -/
abbrev KvMap : Type := Std.ExtTreeMap ByteString ByteString

structure KvStore where
  map : KvMap

inductive BatchOp where
  | put (key value : ByteString)
  | delete (key : ByteString)
  deriving DecidableEq

/-- The operations of a batch, in the order they were added. -/
abbrev Batch : Type := List BatchOp

namespace BatchOp

/-- The key an operation is about. -/
def key : BatchOp → ByteString
  | put key _ => key
  | delete key => key

/-- What the operation leaves at its key. -/
def result : BatchOp → Option ByteString
  | put _ value => some value
  | delete _ => none

/-- The per-operation size check of `apply`. -/
def checkSize : BatchOp → Except KvError Unit
  | put key value =>
    if key.length > maxKeySize then .error .keyTooLarge
    else if value.length > maxValueSize then .error .valueTooLarge
    else .ok ()
  | delete _ => .ok ()

/-- Carry one operation out on the map. -/
def commit (map : KvMap) : BatchOp → KvMap
  | put key value => map.insert key value
  | delete key => map.erase key

end BatchOp

namespace KvStore

def new : KvStore := ⟨∅⟩

def len (store : KvStore) : Nat := store.map.size

/-- Insert or overwrite; an error leaves the store unchanged. -/
def put (store : KvStore) (key value : ByteString) : Except KvError Unit × KvStore :=
  if key.length > maxKeySize then (.error .keyTooLarge, store)
  else if value.length > maxValueSize then (.error .valueTooLarge, store)
  else if !store.map.contains key && store.map.size ≥ maxKeys then (.error .tooManyKeys, store)
  else (.ok (), ⟨store.map.insert key value⟩)

/-- Remove a key; was it there? -/
def delete (store : KvStore) (key : ByteString) : Bool × KvStore :=
  (store.map.contains key, ⟨store.map.erase key⟩)

def clear (_ : KvStore) : KvStore := ⟨∅⟩

/-- The size checks of `apply`, in order. -/
def checkSizes : Batch → Except KvError Unit
  | [] => .ok ()
  | op :: ops =>
    match op.checkSize with
    | .error e => .error e
    | .ok () => checkSizes ops

/-- `usize::MAX`. -/
def usizeMax : Nat := 2 ^ 64 - 1

/-- The entry count `apply` projects: one more for a put of a key that is not
stored, one less for a delete of a key that is (both saturating). -/
def projected (store : KvStore) (batch : Batch) : Nat :=
  batch.foldl (fun n op =>
    match op with
    | .put key _ => if !store.map.contains key then min (n + 1) usizeMax else n
    | .delete key => if store.map.contains key then n - 1 else n) store.map.size

/-- Carry out all operations of a batch. -/
def commit (map : KvMap) (batch : Batch) : KvMap := batch.foldl BatchOp.commit map

/-- Check a batch as a whole, then carry it out. -/
def apply (store : KvStore) (batch : Batch) : Except KvError Unit × KvStore :=
  match checkSizes batch with
  | .error e => (.error e, store)
  | .ok () =>
    if store.projected batch > maxKeys then (.error .tooManyKeys, store)
    else (.ok (), ⟨commit store.map batch⟩)

/-- Every key and value is within its cap. -/
def SizesOk (batch : Batch) : Prop := ∀ op ∈ batch, op.checkSize = .ok ()

/-- The size checks pass when all of them do. -/
theorem checkSizes_ok_iff {batch : Batch} : checkSizes batch = .ok () ↔ SizesOk batch := by
  induction batch with
  | nil => simp [checkSizes, SizesOk]
  | cons op ops ih =>
    rw [checkSizes, SizesOk, List.forall_mem_cons]
    cases hop : op.checkSize with
    | error e => simp
    | ok u => simpa [SizesOk] using ih

end KvStore

/-! ## What a batch asks for -/

namespace Batch

/-- What the batch leaves at a key: `none` if it does not name the key,
otherwise the result of the last operation that does. -/
def outcome : Batch → ByteString → Option (Option ByteString)
  | [], _ => none
  | op :: ops, key =>
    match outcome ops key with
    | some r => some r
    | none => if op.key = key then some op.result else none

/-- The keys the batch names, each once. -/
def keys (batch : Batch) : List ByteString := (batch.map BatchOp.key).dedup

theorem outcome_isSome_iff (batch : Batch) (key : ByteString) :
    (outcome batch key).isSome ↔ key ∈ keys batch := by
  rw [keys, List.mem_dedup]
  induction batch with
  | nil => simp [outcome]
  | cons op ops ih =>
    rw [outcome, List.map_cons, List.mem_cons, ← ih]
    cases outcome ops key with
    | some r => simp
    | none =>
      by_cases h : op.key = key
      · simp [h]
      · simp [h, Ne.symm h]

/-- Reading a key after one operation. -/
theorem getElem?_opCommit (map : KvMap) (op : BatchOp) (key : ByteString) :
    (op.commit map)[key]? = if op.key = key then op.result else map[key]? := by
  cases op with
  | put k v =>
    rw [BatchOp.commit, Std.ExtTreeMap.getElem?_insert]
    exact if_congr Std.LawfulEqOrd.compare_eq_iff_eq rfl rfl
  | delete k =>
    rw [BatchOp.commit, Std.ExtTreeMap.getElem?_erase]
    exact if_congr Std.LawfulEqOrd.compare_eq_iff_eq rfl rfl

/-- Reading a key after a batch: the last operation on it decides. -/
theorem getElem?_commit (map : KvMap) (batch : Batch) (key : ByteString) :
    (KvStore.commit map batch)[key]? = (outcome batch key).getD map[key]? := by
  induction batch generalizing map with
  | nil => rfl
  | cons op ops ih =>
    show (KvStore.commit (op.commit map) ops)[key]? = _
    rw [ih, outcome, getElem?_opCommit]
    cases outcome ops key with
    | some r => rfl
    | none => by_cases h : op.key = key <;> simp [h]

end Batch

namespace KvStore

/-- The entries a batch leaves: those whose key it does not name, and for every
key it names the value of the last operation, if that is a put. -/
def entriesAfter (store : KvStore) (batch : Batch) : List (ByteString × ByteString) :=
  store.map.toList.filter (fun e => e.1 ∉ Batch.keys batch) ++
    (Batch.keys batch).filterMap fun key =>
      ((Batch.outcome batch key).getD none).map fun value => (key, value)

theorem mem_entriesAfter (store : KvStore) (batch : Batch) (key value : ByteString) :
    (key, value) ∈ store.entriesAfter batch ↔ (commit store.map batch)[key]? = some value := by
  rw [Batch.getElem?_commit, entriesAfter, List.mem_append, List.mem_filter, List.mem_filterMap,
    Std.ExtTreeMap.mem_toList_iff_getElem?_eq_some, decide_eq_true_eq]
  constructor
  · rintro (⟨hstored, hnamed⟩ | ⟨k, hk, hvalue⟩)
    · rw [← Batch.outcome_isSome_iff, Option.not_isSome_iff_eq_none] at hnamed
      rw [hnamed]
      exact hstored
    · obtain ⟨v, hv, heq⟩ := Option.map_eq_some_iff.1 hvalue
      obtain ⟨rfl, rfl⟩ := Prod.mk.inj heq
      obtain ⟨r, hr⟩ := Option.isSome_iff_exists.1 ((Batch.outcome_isSome_iff batch k).2 hk)
      rw [hr] at hv ⊢
      exact hv
  · intro hvalue
    cases hout : Batch.outcome batch key with
    | none =>
      rw [hout] at hvalue
      refine .inl ⟨hvalue, fun hnamed => ?_⟩
      rw [← Batch.outcome_isSome_iff, hout] at hnamed
      cases hnamed
    | some r =>
      rw [hout] at hvalue
      refine .inr ⟨key, (Batch.outcome_isSome_iff batch key).1 (by rw [hout]; rfl), ?_⟩
      rw [hout, show r = some value from hvalue]
      rfl

/-- The keys of the entries a map lists are distinct. -/
theorem nodup_keys_toList (map : KvMap) : (map.toList.map Prod.fst).Nodup := by
  rw [List.Nodup, List.pairwise_map]
  refine Std.ExtTreeMap.distinct_keys_toList.imp fun hne heq => hne ?_
  rw [heq, Std.LawfulEqOrd.compare_eq_iff_eq]

theorem nodup_entriesAfter (store : KvStore) (batch : Batch) :
    (store.entriesAfter batch).Nodup := by
  have hdedup : (Batch.keys batch).Nodup := List.nodup_dedup _
  refine List.Nodup.append (((nodup_keys_toList store.map).of_map _).filter _)
    (hdedup.filterMap fun k k' e hk hk' => ?_) fun e hkept hput => ?_
  · -- An entry made for a key carries that key.
    obtain ⟨v, -, rfl⟩ := Option.map_eq_some_iff.1 hk
    obtain ⟨v', -, heq⟩ := Option.map_eq_some_iff.1 hk'
    exact (congrArg Prod.fst heq).symm
  · obtain ⟨k, hk, hvalue⟩ := List.mem_filterMap.1 hput
    obtain ⟨v, -, rfl⟩ := Option.map_eq_some_iff.1 hvalue
    exact of_decide_eq_true (List.mem_filter.1 hkept).2 hk

/-- Committing a batch leaves `entriesAfter`. -/
theorem toList_commit_perm (store : KvStore) (batch : Batch) :
    ((commit store.map batch).toList).Perm (store.entriesAfter batch) := by
  refine (List.perm_ext_iff_of_nodup ((nodup_keys_toList _).of_map _)
    (store.nodup_entriesAfter batch)).2 fun ⟨key, value⟩ => ?_
  rw [mem_entriesAfter, Std.ExtTreeMap.mem_toList_iff_getElem?_eq_some]

end KvStore

end AthenaOS
