import Mathlib

/-!
# Sorted maps

`BTreeMap`s are extensional tree maps: two maps with the same entries are equal.
-/

namespace AthenaOS.Lib.SortedMap

universe u v

variable {α : Type u} {β : Type v} {cmp : α → α → Ordering}

/-- A map is rebuilt by inserting the entries it lists. -/
theorem foldl_insert_toList [DecidableEq α] [Std.TransCmp cmp] [Std.LawfulEqCmp cmp]
    (map : Std.ExtTreeMap α β cmp) :
    map.toList.foldl (fun m e => m.insert e.1 e.2) (∅ : Std.ExtTreeMap α β cmp) = map := by
  rw [← Std.ExtTreeMap.insertMany_list_eq_foldl, ← Std.ExtTreeMap.ofList_eq_insertMany_empty]
  refine Std.ExtTreeMap.ext_getElem? fun {key} => ?_
  cases hstored : map[key]? with
  | some value =>
    exact Std.ExtTreeMap.getElem?_ofList_of_mem (Std.LawfulEqCmp.compare_eq_iff_eq.2 rfl)
      Std.ExtTreeMap.distinct_keys_toList
      (Std.ExtTreeMap.mem_toList_iff_getElem?_eq_some.2 hstored)
  | none =>
    refine Std.ExtTreeMap.getElem?_ofList_of_contains_eq_false ?_
    rw [List.contains_eq_mem, decide_eq_false_iff_not, List.mem_map]
    rintro ⟨⟨k, v⟩, hmem, rfl⟩
    rw [Std.ExtTreeMap.mem_toList_iff_getElem?_eq_some, hstored] at hmem
    cases hmem

end AthenaOS.Lib.SortedMap
