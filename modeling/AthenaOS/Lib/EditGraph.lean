import Mathlib

/-!
# Edit graphs

Two lists are compared along the paths of a grid: a step to the right drops an element of the
first, a step down takes one of the second, and a diagonal keeps one they share.
-/

namespace AthenaOS.Lib

variable {α : Type} {a b : List α} {d x y : Nat}

/-- A path with `d` steps off the diagonal. -/
inductive Edits (a b : List α) : Nat → Nat → Nat → Prop
  | origin : Edits a b 0 0 0
  | keep {d x y : Nat} {c : α} : Edits a b d x y → a[x]? = some c → b[y]? = some c → Edits a b d (x + 1) (y + 1)
  | delete {d x y : Nat} : Edits a b d x y → Edits a b (d + 1) (x + 1) y
  | insert {d x y : Nat} : Edits a b d x y → Edits a b (d + 1) x (y + 1)

namespace Edits

/-! ## Diagonals -/

/-- Every step off the diagonal moves to the next one. -/
theorem diagonal (h : Edits a b d x y) : x ≤ y + d ∧ y ≤ x + d ∧ (x + y + d) % 2 = 0 := by
  induction h with
  | origin => exact ⟨Nat.le_refl _, Nat.le_refl _, rfl⟩
  | keep _ _ _ ih => omega
  | delete _ ih => omega
  | insert _ ih => omega

/-- No step leads back to the origin. -/
theorem of_zero (h : Edits a b 0 x y) : x = y := by
  have := h.diagonal
  omega

/-- **A path that leaves the lists** passes the corner on the way: each step outside is one that is
saved. -/
theorem clip (h : Edits a b d x y) :
    ∃ d', Edits a b d' (min x a.length) (min y b.length) ∧ d' + (x - a.length) + (y - b.length) ≤ d := by
  induction h with
  | origin => exact ⟨0, by rw [Nat.zero_min, Nat.zero_min]; exact .origin, by omega⟩
  | @keep d x y c _ ha hb ih =>
    obtain ⟨hx, -⟩ := List.getElem?_eq_some_iff.mp ha
    obtain ⟨hy, -⟩ := List.getElem?_eq_some_iff.mp hb
    obtain ⟨d', hpath, hle⟩ := ih
    rw [Nat.min_eq_left (Nat.le_of_lt hx), Nat.min_eq_left (Nat.le_of_lt hy)] at hpath
    rw [Nat.min_eq_left hx, Nat.min_eq_left hy]
    exact ⟨d', hpath.keep ha hb, by omega⟩
  | @delete d x y _ ih =>
    obtain ⟨d', hpath, hle⟩ := ih
    by_cases hx : x < a.length
    · rw [Nat.min_eq_left (Nat.le_of_lt hx)] at hpath
      rw [Nat.min_eq_left hx]
      exact ⟨d' + 1, hpath.delete, by omega⟩
    · rw [Nat.min_eq_right (by omega)] at hpath ⊢
      exact ⟨d', hpath, by omega⟩
  | @insert d x y _ ih =>
    obtain ⟨d', hpath, hle⟩ := ih
    by_cases hy : y < b.length
    · rw [Nat.min_eq_left (Nat.le_of_lt hy)] at hpath
      rw [Nat.min_eq_left hy]
      exact ⟨d' + 1, hpath.insert, by omega⟩
    · rw [Nat.min_eq_right (a := y) (by omega)] at hpath
      rw [Nat.min_eq_right (a := y + 1) (by omega)]
      exact ⟨d', hpath, by omega⟩

/-- All of one list is dropped, all of the other taken. -/
theorem corner (a b : List α) (x y : Nat) : Edits a b (x + y) x y := by
  induction x with
  | zero =>
    induction y with
    | zero => exact .origin
    | succ y ih => exact ih.insert
  | succ x ih =>
    rw [Nat.add_right_comm]
    exact ih.delete

/-! ## Common subsequences -/

/-- What a path keeps is in both lists. -/
theorem common (h : Edits a b d x y) :
    ∃ s : List α, s.Sublist (a.take x) ∧ s.Sublist (b.take y) ∧ (x ≤ a.length → y ≤ b.length → d + 2 * s.length = x + y) := by
  induction h with
  | origin => exact ⟨[], List.nil_sublist _, List.nil_sublist _, fun _ _ => rfl⟩
  | @keep d x y c _ ha hb ih =>
    obtain ⟨s, hsa, hsb, hlen⟩ := ih
    refine ⟨s ++ [c], ?_, ?_, fun hx hy => ?_⟩
    · rw [List.take_add_one, ha]
      exact hsa.append (List.Sublist.refl _)
    · rw [List.take_add_one, hb]
      exact hsb.append (List.Sublist.refl _)
    · rw [List.length_append, List.length_singleton]
      have := hlen (by omega) (by omega)
      omega
  | @delete d x y _ ih =>
    obtain ⟨s, hsa, hsb, hlen⟩ := ih
    refine ⟨s, hsa.trans (List.take_sublist_take_left (Nat.le_succ x)), hsb, fun hx hy => ?_⟩
    have := hlen (by omega) hy
    omega
  | @insert d x y _ ih =>
    obtain ⟨s, hsa, hsb, hlen⟩ := ih
    refine ⟨s, hsa, hsb.trans (List.take_sublist_take_left (Nat.le_succ y)), fun hx hy => ?_⟩
    have := hlen hx (by omega)
    omega

end Edits

/-- The longest common subsequence has this length. -/
def CommonLength (a b : List α) (l : Nat) : Prop :=
  (∃ s : List α, s.Sublist a ∧ s.Sublist b ∧ s.length = l) ∧ ∀ s : List α, s.Sublist a → s.Sublist b → s.length ≤ l

/-- The last element of a subsequence is the last of the list, or the list's last one is not used. -/
theorem sublist_take_succ {s : List α} (h : s.Sublist (a.take (x + 1))) :
    s.Sublist (a.take x) ∨ ∃ s' c, a[x]? = some c ∧ s = s' ++ [c] ∧ s'.Sublist (a.take x) := by
  rw [List.take_add_one] at h
  obtain ⟨s₁, s₂, rfl, h₁, h₂⟩ := List.sublist_append_iff.mp h
  cases hx : a[x]? with
  | none =>
    rw [hx, Option.toList_none, List.sublist_nil] at h₂
    subst h₂
    exact .inl (by rw [List.append_nil]; exact h₁)
  | some c =>
    rw [hx, Option.toList_some, List.sublist_singleton] at h₂
    rcases h₂ with rfl | rfl
    · exact .inl (by rw [List.append_nil]; exact h₁)
    · exact .inr ⟨s₁, c, rfl, rfl, h₁⟩

/-- **A common subsequence is kept by a path**, by induction on the two lengths. -/
theorem edits_of_common {s : List α} (hsa : s.Sublist (a.take x)) (hsb : s.Sublist (b.take y)) :
    ∃ d, Edits a b d x y ∧ d + 2 * s.length = x + y := by
  induction hn : x + y using Nat.strongRecOn generalizing x y s with
  | _ n ih =>
    cases x with
    | zero =>
      rw [List.take_zero, List.sublist_nil] at hsa
      subst hsa
      exact ⟨y, by simpa using Edits.corner a b 0 y, by simpa using hn⟩
    | succ x =>
      cases y with
      | zero =>
        rw [List.take_zero, List.sublist_nil] at hsb
        subst hsb
        exact ⟨x + 1, Edits.corner a b (x + 1) 0, by simpa using hn⟩
      | succ y =>
        rcases sublist_take_succ hsa with hsa' | ⟨s₁, c, ha, rfl, hsa'⟩
        · obtain ⟨d, hpath, hlen⟩ := ih (x + (y + 1)) (by omega) hsa' hsb rfl
          exact ⟨d + 1, hpath.delete, by omega⟩
        rcases sublist_take_succ hsb with hsb' | ⟨s₂, c', hb, hs, hsb'⟩
        · obtain ⟨d, hpath, hlen⟩ := ih (x + 1 + y) (by omega) hsa hsb' rfl
          exact ⟨d + 1, hpath.insert, by omega⟩
        · obtain ⟨rfl, hc⟩ := List.append_inj' hs rfl
          obtain rfl := List.singleton_inj.mp hc
          obtain ⟨d, hpath, hlen⟩ := ih (x + y) (by omega) hsa' hsb' rfl
          refine ⟨d, hpath.keep ha hb, ?_⟩
          rw [List.length_append, List.length_singleton]
          omega

/-- **The shortest path to the far corner** keeps a longest common subsequence. -/
theorem commonLength_of_shortest (h : Edits a b d a.length b.length)
    (hshort : ∀ d' < d, ¬ Edits a b d' a.length b.length) :
    ∃ l, CommonLength a b l ∧ d + 2 * l = a.length + b.length := by
  obtain ⟨s, hsa, hsb, hlen⟩ := h.common
  have hlen := hlen (Nat.le_refl _) (Nat.le_refl _)
  rw [List.take_length] at hsa hsb
  refine ⟨s.length, ⟨⟨s, hsa, hsb, rfl⟩, fun s' hsa' hsb' => ?_⟩, hlen⟩
  obtain ⟨d', hpath, hlen'⟩ := edits_of_common (a := a) (b := b) (x := a.length) (y := b.length) (s := s')
    (by rwa [List.take_length]) (by rwa [List.take_length])
  by_contra hlonger
  exact hshort d' (by omega) hpath

/-! ## Furthest points -/

/-- The furthest point on a diagonal. -/
structure Furthest (a b : List α) (d : Nat) (k x : Int) : Prop where
  path : ∃ x' y' : Nat, Edits a b d x' y' ∧ x = x' ∧ x - k = y'
  bound : ∀ x' y' : Nat, Edits a b d x' y' → (x' : Int) - y' = k → (x' : Int) ≤ x

theorem Furthest.unique {k x₁ x₂ : Int} (h₁ : Furthest a b d k x₁) (h₂ : Furthest a b d k x₂) : x₁ = x₂ := by
  obtain ⟨x₁', y₁', hpath₁, hx₁, hy₁⟩ := h₁.path
  obtain ⟨x₂', y₂', hpath₂, hx₂, hy₂⟩ := h₂.path
  have hle₁ := h₂.bound x₁' y₁' hpath₁ (by omega)
  have hle₂ := h₁.bound x₂' y₂' hpath₂ (by omega)
  omega

/-- Nothing more matches at this point. -/
def Stuck (a b : List α) (x y : Nat) : Prop := ∀ c, a[x]? = some c → b[y]? ≠ some c

/-- At first, the diagonal from the origin. -/
theorem Furthest.zero (hpath : Edits a b 0 x x) (hstuck : Stuck a b x x) : Furthest a b 0 0 x where
  path := ⟨x, x, hpath, rfl, by omega⟩
  bound := by
    have hbound : ∀ d x' y', Edits a b d x' y' → d = 0 → x' ≤ x := by
      intro d x' y' h
      induction h with
      | origin => exact fun _ => Nat.zero_le _
      | @keep d x' y' c hpath' ha hb ih =>
        rintro rfl
        rcases Nat.lt_or_eq_of_le (ih rfl) with hlt | rfl
        · exact hlt
        · rw [← hpath'.of_zero] at hb
          exact absurd hb (hstuck c ha)
      | delete _ _ => exact fun h => nomatch h
      | insert _ _ => exact fun h => nomatch h
    intro x' y' h _
    exact Int.ofNat_le.mpr (hbound 0 x' y' h rfl)

/-- **From the diagonals beside it**: a start that is not behind either of them, and the matches
from there. -/
theorem Furthest.succ {k : Int} (hpath : Edits a b (d + 1) x y) (hk : (x : Int) - y = k) (hstuck : Stuck a b x y)
    (hdelete : ∀ x' y' : Nat, Edits a b d x' y' → (x' : Int) - y' = k - 1 → x' + 1 ≤ x)
    (hinsert : ∀ x' y' : Nat, Edits a b d x' y' → (x' : Int) - y' = k + 1 → x' ≤ x) :
    Furthest a b (d + 1) k x where
  path := ⟨x, y, hpath, rfl, by omega⟩
  bound := by
    have hbound : ∀ e x' y', Edits a b e x' y' → e = d + 1 → (x' : Int) - y' = k → x' ≤ x := by
      intro e x' y' h
      induction h with
      | origin => exact fun h => nomatch h
      | @keep e x' y' c _ ha hb ih =>
        intro he hdiag
        rcases Nat.lt_or_eq_of_le (ih he (by omega)) with hlt | rfl
        · exact hlt
        · obtain rfl : y' = y := by omega
          exact absurd hb (hstuck c ha)
      | @delete e x' y' hpath' _ =>
        intro he hdiag
        obtain rfl : e = d := Nat.succ.inj he
        exact hdelete x' y' hpath' (by omega)
      | @insert e x' y' hpath' _ =>
        intro he hdiag
        obtain rfl : e = d := Nat.succ.inj he
        exact hinsert x' y' hpath' (by omega)
    intro x' y' h hdiag
    exact Int.ofNat_le.mpr (hbound (d + 1) x' y' h rfl hdiag)

end AthenaOS.Lib
