import Mathlib

/-!
# Elements kept in buckets

A collection split over the buckets of a list of slots, in no particular order: hash
tables, timer wheels, run queues. What counts is the multiset of all elements, and how
it changes when one bucket does.
-/

namespace AthenaOS.Lib

universe u v

namespace Buckets

variable {ι : Type u} {α : Type v} {slots : List ι} {bucket : ι → List α}

/-- The elements of all buckets. -/
def contents (slots : List ι) (bucket : ι → List α) : Multiset α :=
  (slots.map fun s => (bucket s : Multiset α)).sum

theorem mem_contents {a : α} : a ∈ contents slots bucket ↔ ∃ s ∈ slots, a ∈ bucket s := by
  induction slots with
  | nil => simp [contents]
  | cons s slots ih =>
    rw [contents, List.map_cons, List.sum_cons, Multiset.mem_add, Multiset.mem_coe, ← contents, ih]
    simp only [List.mem_cons, exists_eq_or_imp]

theorem card_contents :
    (contents slots bucket).card = (slots.map fun s => (bucket s).length).sum := by
  induction slots with
  | nil => rfl
  | cons s slots ih =>
    rw [contents, List.map_cons, List.sum_cons, Multiset.card_add, ← contents, ih, Multiset.coe_card,
      List.map_cons, List.sum_cons]

theorem contents_congr {bucket' : ι → List α} (h : ∀ s ∈ slots, bucket' s = bucket s) :
    contents slots bucket' = contents slots bucket := by
  rw [contents, contents, List.map_congr_left fun s hs => congrArg _ (h s hs)]

/-- **One bucket replaced**: its old elements go, its new ones come. -/
theorem contents_update [DecidableEq ι] (bucket : ι → List α) {s : ι} (hslots : slots.Nodup) (hs : s ∈ slots)
    (l : List α) : contents slots (Function.update bucket s l) + bucket s
      = contents slots bucket + l := by
  induction slots with
  | nil => exact nomatch hs
  | cons t slots ih =>
    obtain ⟨hnot, hnodup⟩ := List.nodup_cons.mp hslots
    have hcons : ∀ f : ι → List α, contents (t :: slots) f = f t + contents slots f := fun _ => rfl
    rw [hcons, hcons]
    rcases List.mem_cons.mp hs with rfl | hs
    · have hrest : contents slots (Function.update bucket s l) = contents slots bucket :=
        contents_congr fun i hi => by
          refine Function.update_of_ne ?_ _ _
          rintro rfl
          exact hnot hi
      rw [hrest, Function.update_self]
      abel
    · have hne : t ≠ s := fun heq => hnot (heq ▸ hs)
      rw [Function.update_of_ne hne, add_assoc, ih hnodup hs, add_assoc]

end Buckets

/-! ## `swap_remove` -/

section SwapRemove

variable {α : Type v}

/-- The element at `pos` gone, and the last one in its place. -/
def swapRemove (l : List α) (pos : Nat) : List α :=
  match l.getLast? with
  | none => []
  | some last => (l.set pos last).dropLast

/-- What `swap_remove` takes out is the element it was asked for. -/
theorem cons_swapRemove_perm {l : List α} {pos : Nat} (h : pos < l.length) :
    List.Perm (l[pos] :: swapRemove l pos) l := by
  have hne : l ≠ [] := List.ne_nil_of_length_pos (by omega)
  obtain ⟨init, last, rfl⟩ := List.eq_nil_or_concat' l |>.resolve_left hne
  rw [swapRemove, List.getLast?_concat]
  dsimp only
  rw [List.length_append, List.length_singleton] at h
  by_cases hlast : pos = init.length
  · subst hlast
    rw [List.set_append_right _ _ (Nat.le_refl _), Nat.sub_self, List.set_cons_zero,
      List.dropLast_concat, List.getElem_concat_length]
    · exact (List.perm_append_singleton last init).symm
    · rfl
  · have hlt : pos < init.length := by omega
    rw [List.set_append_left _ _ hlt, List.dropLast_concat, List.getElem_append_left hlt]
    have hset := (List.set_perm_cons_eraseIdx hlt last).cons init[pos]
    have herase := (List.getElem_cons_eraseIdx_perm hlt).cons last
    exact (hset.trans ((List.Perm.swap _ _ _).trans herase)).trans
      (List.perm_append_singleton last init).symm

/-- An order is kept if the last element may stand where the one taken out stood. -/
theorem pairwise_swapRemove {R : α → α → Prop} {l : List α} {pos : Nat} (hpos : pos < l.length)
    (h : l.Pairwise R) (hbehind : ∀ x ∈ l.drop (pos + 1), ∀ y ∈ l.drop (pos + 1), R x y) :
    (swapRemove l pos).Pairwise R := by
  have hne : l ≠ [] := List.ne_nil_of_length_pos (by omega)
  obtain ⟨init, last, rfl⟩ := List.eq_nil_or_concat' l |>.resolve_left hne
  rw [List.length_append, List.length_singleton] at hpos
  rw [swapRemove, List.getLast?_concat]
  dsimp only
  obtain ⟨hinit, -, hlast⟩ := List.pairwise_append.mp h
  by_cases hend : pos = init.length
  · subst hend
    rw [List.set_append_right _ _ (Nat.le_refl _), Nat.sub_self, List.set_cons_zero, List.dropLast_concat]
    exact hinit
  · have hlt : pos < init.length := by omega
    rw [List.drop_append_of_le_length hlt] at hbehind
    rw [List.set_append_left _ _ hlt, List.dropLast_concat, List.set_eq_take_append_cons_drop,
      if_pos hlt]
    rw [← List.take_append_drop pos init, List.pairwise_append] at hinit
    obtain ⟨htake, hdrop, hcross⟩ := hinit
    rw [List.drop_eq_getElem_cons hlt, List.pairwise_cons] at hdrop
    refine List.pairwise_append.mpr ⟨htake, List.pairwise_cons.mpr ⟨fun y hy => ?_, hdrop.2⟩, ?_⟩
    · exact hbehind last (List.mem_append_right _ (List.mem_singleton_self _)) y
        (List.mem_append_left _ hy)
    · intro x hx y hy
      rcases List.mem_cons.mp hy with rfl | hy
      · exact hlast x (List.mem_of_mem_take hx) _ (List.mem_singleton_self _)
      · exact hcross x hx y (by
          rw [List.drop_eq_getElem_cons hlt]
          exact List.mem_cons_of_mem _ hy)

end SwapRemove

end AthenaOS.Lib
