import AthenaOS.Lib.Crc
import AthenaOS.Kv.Snapshot

/-!
# Corrupt RaeKV snapshots

A snapshot carries the CRC-32 of everything before its trailer, and `from_bytes` compares
it before it reads an entry.
-/

namespace AthenaOS

open Lib.Wire

namespace KvStore

/-- What differs from `data` in the bytes from `i` to `j` at most. -/
def ChangedWithin (i j : Nat) (data blob : ByteString) : Prop :=
  blob ≠ data ∧ blob.length = data.length ∧ ∀ k, k < i ∨ j ≤ k → blob[k]? = data[k]?

/-- A blob that is read has the checksum of its payload in the trailer. -/
theorem crc_of_fromBytes {blob : ByteString} {store : KvStore} (h : fromBytes blob = .ok store) :
    kvTrailerLen ≤ blob.length ∧
      (crc32 (blob.take (blob.length - kvTrailerLen))).toNat =
        leNat (blob.drop (blob.length - kvTrailerLen)) := by
  rw [fromBytes] at h
  split at h
  · cases h
  split at h
  · cases h
  next hlong =>
    split at h
    · cases h
    dsimp only at h
    split at h
    · cases h
    split at h
    · cases h
    next hcrc =>
      rw [kvHeaderLen, kvTrailerLen] at hlong
      rw [not_not, slice, slice, List.drop_zero, List.take_of_length_le (i := 4)] at hcrc
      · exact ⟨by rw [kvTrailerLen]; omega, hcrc⟩
      · rw [List.length_drop, kvTrailerLen]
        omega

section Window

variable {i j : Nat} {data blob : ByteString}

theorem ChangedWithin.take_eq (h : ChangedWithin i j data blob) {k : Nat} (hk : k ≤ i) :
    blob.take k = data.take k := by
  refine List.ext_getElem? fun l => ?_
  by_cases hl : l < k
  · rw [List.getElem?_take_of_lt hl, List.getElem?_take_of_lt hl]
    exact h.2.2 l (.inl (by omega))
  · rw [List.getElem?_eq_none (by rw [List.length_take]; omega),
      List.getElem?_eq_none (by rw [List.length_take]; omega)]

theorem ChangedWithin.drop_eq (h : ChangedWithin i j data blob) {k : Nat} (hk : j ≤ k) :
    blob.drop k = data.drop k := by
  refine List.ext_getElem? fun l => ?_
  rw [List.getElem?_drop, List.getElem?_drop]
  exact h.2.2 (k + l) (.inr (by omega))

/-- Cut at the window, which lies before `n`. -/
theorem take_eq_window {n : Nat} (hi : i + 4 ≤ n) (l : ByteString) :
    l.take n = l.take i ++ (slice l i 4 ++ (l.take n).drop (i + 4)) := by
  have hhead : l.take i = (l.take n).take i := by rw [List.take_take, Nat.min_eq_left (by omega)]
  have hmid : slice l i 4 = ((l.take n).drop i).take 4 := by
    rw [slice, List.drop_take, List.take_take, Nat.min_eq_left (by omega)]
  rw [hhead, hmid, ← List.drop_drop, List.take_append_drop, List.take_append_drop]

end Window

/-- **A corrupt snapshot is not read**: neither one changed within four consecutive bytes
before the trailer, nor one changed in the trailer. -/
theorem fromBytes_corrupt {store : KvStore} {blob : ByteString}
    (h : (∃ i, i + 4 ≤ store.toBytes.length - kvTrailerLen ∧
        ChangedWithin i (i + 4) store.toBytes blob) ∨
      ChangedWithin (store.toBytes.length - kvTrailerLen) store.toBytes.length store.toBytes blob) :
    ∃ e, fromBytes blob = .error e := by
  cases hread : fromBytes blob with
  | error e => exact ⟨e, rfl⟩
  | ok other =>
    exfalso
    obtain ⟨-, hcrc⟩ := crc_of_fromBytes hread
    have hpayload : store.toBytes.length - kvTrailerLen = store.payload.length := by
      rw [toBytes, List.length_append, length_leBytes, kvTrailerLen, Nat.add_sub_cancel]
    have htake : store.toBytes.take store.payload.length = store.payload := List.take_left
    have hdrop : store.toBytes.drop store.payload.length = leBytes 4 (crc32 store.payload).toNat :=
      List.drop_left
    have hwritten : leNat (leBytes 4 (crc32 store.payload).toNat) = (crc32 store.payload).toNat :=
      leNat_leBytes_of_lt (crc32 store.payload).toNat_lt
    rcases h with ⟨i, hi, hchanged⟩ | hchanged
    · rw [hchanged.2.1, hpayload] at hcrc
      rw [hpayload] at hi
      -- the trailer is the one written, so the checksums of both payloads agree
      rw [hchanged.drop_eq hi, hdrop, hwritten, UInt32.toNat_inj] at hcrc
      have hsame : blob.take i = store.toBytes.take i := hchanged.take_eq (Nat.le_refl i)
      have hrest : (blob.take store.payload.length).drop (i + 4) =
          (store.toBytes.take store.payload.length).drop (i + 4) := by
        rw [List.drop_take, List.drop_take, hchanged.drop_eq (Nat.le_refl _)]
      have hlong : i + 4 ≤ store.toBytes.length := by
        rw [← hpayload] at hi
        omega
      have hlength : (slice blob i 4).length = 4 := length_slice_of_le _ (hchanged.2.1 ▸ hlong)
      have hparts : crc32 (store.toBytes.take i ++ (slice blob i 4 ++
            (store.toBytes.take store.payload.length).drop (i + 4))) =
          crc32 (store.toBytes.take i ++ (slice store.toBytes i 4 ++
            (store.toBytes.take store.payload.length).drop (i + 4))) := by
        rw [← take_eq_window hi, htake, ← hcrc, take_eq_window hi, hsame, hrest, htake]
      have hwindow : slice blob i 4 = slice store.toBytes i 4 := by
        refine crc32_window ?_ (Nat.le_of_eq hlength) hparts
        rw [hlength, length_slice_of_le _ hlong]
      refine hchanged.1 ?_
      rw [← List.take_append_drop (i + 4) blob, ← List.take_append_drop (i + 4) store.toBytes,
        hchanged.drop_eq (Nat.le_refl _), List.take_add, List.take_add, hsame]
      exact congrArg (store.toBytes.take i ++ · ++ _) hwindow
    · rw [hchanged.2.1, hpayload] at hcrc
      rw [hpayload] at hchanged
      have hhead := hchanged.take_eq (Nat.le_refl _)
      rw [hhead, htake] at hcrc
      refine hchanged.1 ?_
      rw [← List.take_append_drop store.payload.length blob,
        ← List.take_append_drop store.payload.length store.toBytes, hhead, hdrop, hcrc]
      have hlength : (blob.drop store.payload.length).length = 4 := by
        rw [List.length_drop, hchanged.2.1, toBytes, List.length_append, length_leBytes,
          Nat.add_sub_cancel_left]
      have hfield := leBytes_leNat (blob.drop store.payload.length)
      rw [hlength] at hfield
      rw [hfield]

/-- A store of two keys. -/
def twoKeys : KvStore := ((new.put [107, 49] [118, 49, 50]).2.put [107, 50] [9]).2

/-- Its snapshot, with two bytes of a value flipped. -/
theorem fromBytes_corrupt_value :
    ∃ e, fromBytes ((twoKeys.toBytes.set 26 117).set 28 48) = .error e := by
  have hlen : twoKeys.toBytes.length = 44 := by decide +kernel
  refine fromBytes_corrupt (.inl ⟨26, by rw [hlen]; decide, ?_, ?_, fun k hk => ?_⟩)
  · decide +kernel
  · rw [List.length_set, List.length_set]
  · rw [List.getElem?_set_ne (by omega), List.getElem?_set_ne (by omega)]

end KvStore

end AthenaOS
