import AthenaOS.Kv.Store

/-!
# Batches against the same calls in order

`apply` checks a batch as a whole and then carries it out. Here it is compared with
`put` and `delete`, called one after the other.
-/

namespace AthenaOS

open Lib.Wire

namespace KvStore

/-! ## Sizes -/

variable {map : KvMap} {key : ByteString} {op : BatchOp} {store : KvStore} {batch : Batch} {n : Nat}

/-- The call an operation stands for. -/
def perform (store : KvStore) : BatchOp → Except KvError Unit × KvStore
  | .put key value => store.put key value
  | .delete key => (.ok (), (store.delete key).2)

/-- No prefix of the batch, carried out in order, leaves more than `MAX_KEYS` entries. -/
def FitsInOrder (map : KvMap) (batch : Batch) : Prop :=
  ∀ n, (commit map (batch.take n)).size ≤ maxKeys

theorem FitsInOrder.tail {ops : Batch} (h : FitsInOrder map (op :: ops)) :
    FitsInOrder (op.commit map) ops := fun n => h (n + 1)

/-- The keys missing from `map` that the batch names, it names once, and they are none of
the keys of `now`. -/
def FreshOnce (map now : KvMap) (batch : Batch) : Prop :=
  ∀ key, key ∉ map → (batch.map BatchOp.key).count key + (if key ∈ now then 1 else 0) ≤ 1

variable {map now : KvMap} {op : BatchOp} {ops : Batch}

theorem mem_commit_iff (hne : key ≠ op.key) : key ∈ op.commit now ↔ key ∈ now := by
  cases op with
  | put k v =>
    rw [BatchOp.commit, Std.ExtTreeMap.mem_insert, Std.LawfulEqOrd.compare_eq_iff_eq]
    exact or_iff_right (Ne.symm hne)
  | delete k =>
    rw [BatchOp.commit, Std.ExtTreeMap.mem_erase, ne_eq, Std.LawfulEqOrd.compare_eq_iff_eq]
    exact and_iff_right (Ne.symm hne)

/-- After one operation on a fresh key, the rest does not name it. -/
theorem FreshOnce.tail (h : FreshOnce map now (op :: ops)) :
    FreshOnce map (op.commit now) ops := by
  intro key hkey
  have hcount := h key hkey
  rw [List.map_cons, List.count_cons] at hcount
  by_cases hop : key = op.key
  · subst hop
    rw [if_pos (beq_self_eq_true _)] at hcount
    split <;> omega
  · rw [if_congr (mem_commit_iff hop) rfl rfl]
    rw [if_neg (by simpa using Ne.symm hop)] at hcount
    exact hcount

/-- A fresh key is not there before its operation. -/
theorem FreshOnce.not_mem (h : FreshOnce map now (op :: ops)) (hkey : op.key ∉ map) :
    op.key ∉ now := by
  intro hmem
  have hcount := h op.key hkey
  rw [List.map_cons, List.count_cons, if_pos (beq_self_eq_true _), if_pos hmem] at hcount
  omega

/-- What the operations, carried out in order, leave at a key: the last one on it decides. -/
def resultAt (map : KvMap) (batch : Batch) (key : ByteString) : Option ByteString :=
  match (batch.filter fun op => op.key = key).getLast? with
  | some (.put _ value) => some value
  | some (.delete _) => none
  | none => map[key]?

theorem getElem?_commitOp (map : KvMap) (op : BatchOp) (key : ByteString) :
    (op.commit map)[key]? = resultAt map [op] key := by
  cases op with
  | put k v =>
    rw [BatchOp.commit, Std.ExtTreeMap.getElem?_insert, resultAt]
    by_cases h : k = key
    · simp [BatchOp.key, h, Std.ReflCmp.compare_self]
    · simp [BatchOp.key, h]
  | delete k =>
    rw [BatchOp.commit, Std.ExtTreeMap.getElem?_erase, resultAt]
    by_cases h : k = key
    · simp [BatchOp.key, h, Std.ReflCmp.compare_self]
    · simp [BatchOp.key, h]

/-- **The last operation on a key decides**, by induction on the batch. -/
theorem getElem?_commit (map : KvMap) (batch : Batch) (key : ByteString) :
    (commit map batch)[key]? = resultAt map batch key := by
  induction batch generalizing map with
  | nil => rfl
  | cons op ops ih =>
    show (commit (op.commit map) ops)[key]? = _
    rw [ih, resultAt, resultAt, List.filter_cons]
    cases hlast : (ops.filter fun op => op.key = key).getLast? with
    | some last =>
      by_cases hop : decide (op.key = key) = true
      · rw [if_pos hop, List.getLast?_cons, hlast]
        cases last <;> rfl
      · rw [if_neg hop, hlast]
        cases last <;> rfl
    | none =>
      rw [List.getLast?_eq_none_iff] at hlast
      rw [hlast, getElem?_commitOp, resultAt, List.filter_cons, List.filter_nil]

end KvStore

end AthenaOS
