import AthenaOS.Diff.Lines
import AthenaOS.Lib.EditGraph

/-!
# The search finds the shortest path

The array holds the furthest points of all diagonals after a number of steps. Each diagonal of a
round gets its furthest point from the two beside it.
-/

namespace AthenaOS.Diff

open Lib

variable {a b : List String}

/-! ## Following a diagonal -/

/-- The lines at these points are there, and the same. -/
def Matches (a b : List String) (x y j : Nat) : Prop := ∀ i < j, ∃ c, a[x + i]? = some c ∧ b[y + i]? = some c

variable {d x y : Nat} {v w : Front} {k : Int}

/-- Diagonal steps cost nothing. -/
theorem edits_of_matches {j : Nat} (h : Edits a b d x y) (hmatch : Matches a b x y j) :
    Edits a b d (x + j) (y + j) := by
  induction j with
  | zero => exact h
  | succ j ih =>
    obtain ⟨c, ha, hb⟩ := hmatch j (Nat.lt_succ_self j)
    exact (ih fun i hi => hmatch i (Nat.lt_succ_of_lt hi)).keep ha hb

/-- **The diagonal is followed** until nothing matches. -/
theorem snake_spec (x y : Nat) :
    ∃ j : Nat, snake a b x y = (((x + j : Nat) : Int), ((y + j : Nat) : Int)) ∧ Matches a b x y j ∧ Stuck a b (x + j) (y + j) := by
  induction hn : a.length - x generalizing x y with
  | zero =>
    refine ⟨0, ?_, fun i hi => absurd hi (Nat.not_lt_zero i), ?_⟩
    · rw [snake, if_neg]
      · rfl
      · rintro ⟨hx, -⟩
        omega
    · intro c ha
      obtain ⟨hx, -⟩ := List.getElem?_eq_some_iff.mp ha
      omega
  | succ n ih =>
    rw [snake]
    split
    · next hmatch =>
      obtain ⟨hx, hy, hsame⟩ := hmatch
      rw [Int.toNat_natCast, Int.toNat_natCast] at hsame
      have hx' : x < a.length := by omega
      obtain ⟨j, hsnake, hrun, hstuck⟩ := ih (x + 1) (y + 1) (by omega)
      refine ⟨j + 1, ?_, ?_, ?_⟩
      · rw [← Int.natCast_succ, ← Int.natCast_succ, hsnake, Nat.add_right_comm x, Nat.add_right_comm y]
        rfl
      · intro i hi
        cases i with
        | zero => exact ⟨a[x], List.getElem?_eq_getElem hx', hsame ▸ List.getElem?_eq_getElem hx'⟩
        | succ i =>
          have hrest := hrun i (by omega)
          rw [Nat.add_right_comm x, Nat.add_right_comm y] at hrest
          exact hrest
      · rw [Nat.add_right_comm x, Nat.add_right_comm y] at hstuck
        exact hstuck
    · next hstop =>
      refine ⟨0, rfl, fun i hi => absurd hi (Nat.not_lt_zero i), fun c ha hb => hstop ?_⟩
      obtain ⟨hx, -⟩ := List.getElem?_eq_some_iff.mp ha
      obtain ⟨hy, -⟩ := List.getElem?_eq_some_iff.mp hb
      refine ⟨by omega, by omega, ?_⟩
      rw [Int.toNat_natCast, Int.toNat_natCast]
      exact ha.trans hb.symm

/-! ## One diagonal of a round -/

/-- The array holds the furthest points after `d` steps. -/
def Rounded (a b : List String) (d : Nat) (v : Front) : Prop :=
  ∀ k : Int, -d ≤ k → k ≤ d → (k + d) % 2 = 0 → Furthest a b d k (v k)

/-- Any path of `d` steps ends on or before the array. -/
theorem Rounded.bound (h : Rounded a b d v) (hpath : Edits a b d x y) (hk : (x : Int) - y = k) :
    -d ≤ k ∧ k ≤ d ∧ (x : Int) ≤ v k := by
  have hdiag := hpath.diagonal
  exact ⟨by omega, by omega, (h k (by omega) (by omega) (by omega)).bound x y hpath hk⟩

/-- Where the source starts on a diagonal. -/
def start (v : Front) (d k : Int) : Int := if goesDown v d k then v (k + 1) else v (k - 1) + 1

/-- How a point is reached in round `d + 1`: from the array, and along matches. -/
inductive From (a b : List String) (v : Front) (d x y : Nat) : Prop
  | down (x' y' j : Nat) : goesDown v (d + 1) (x - y) = true → v ((x : Int) - y + 1) = x' →
    x = x' + j → y = y' + 1 + j → Matches a b x' (y' + 1) j → From a b v d x y
  | right (x' y' j : Nat) : goesDown v (d + 1) (x - y) = false → v ((x : Int) - y - 1) = x' →
    x = x' + 1 + j → y = y' + j → Matches a b (x' + 1) y' j → From a b v d x y

theorem goesDown_eq_true {d : Int} (h : goesDown v d k = true) :
    k = -d ∨ k ≠ d ∧ v (k - 1) < v (k + 1) := by
  simpa [goesDown] using h

theorem goesDown_eq_false {d : Int} (h : goesDown v d k = false) :
    k ≠ -d ∧ (k ≠ d → v (k + 1) ≤ v (k - 1)) := by
  simpa [goesDown] using h

/-- **Each diagonal gets its furthest point** from the two beside it. -/
theorem reach_succ (hv : Rounded a b d v) (hlo : -((d : Int) + 1) ≤ k) (hhi : k ≤ (d : Int) + 1)
    (hparity : (k + ((d : Int) + 1)) % 2 = 0) :
    ∃ x y : Nat, snake a b (start v (d + 1) k) (start v (d + 1) k - k) = ((x : Int), (y : Int)) ∧
      (x : Int) - y = k ∧ Furthest a b (d + 1) k x ∧ From a b v d x y := by
  cases hdown : goesDown v (d + 1) k with
  | true =>
    have hcase := goesDown_eq_true hdown
    obtain ⟨x', y', hpath, hx', hy'⟩ := (hv (k + 1) (by omega) (by omega) (by omega)).path
    have hstart : start v (d + 1) k = x' := by rw [start, if_pos hdown, hx']
    obtain ⟨j, hsnake, hrun, hstuck⟩ := snake_spec (a := a) (b := b) x' (y' + 1)
    have hk : ((x' + j : Nat) : Int) - (y' + 1 + j : Nat) = k := by omega
    refine ⟨x' + j, y' + 1 + j, ?_, hk, ?_, ?_⟩
    · rw [hstart, show (x' : Int) - k = (y' + 1 : Nat) by omega, hsnake]
    · refine Furthest.succ (edits_of_matches hpath.insert hrun) hk hstuck ?_ ?_
      · intro x'' y'' hother hdiag
        obtain ⟨hlo', -, hle⟩ := hv.bound hother hdiag
        omega
      · intro x'' y'' hother hdiag
        obtain ⟨-, -, hle⟩ := hv.bound hother hdiag
        omega
    · refine .down x' y' j ?_ ?_ rfl rfl hrun
      · rw [hk]
        exact hdown
      · rw [hk]
        exact hx'
  | false =>
    have hcase := goesDown_eq_false hdown
    obtain ⟨x', y', hpath, hx', hy'⟩ := (hv (k - 1) (by omega) (by omega) (by omega)).path
    have hstart : start v (d + 1) k = (x' + 1 : Nat) := by
      rw [start, if_neg (by rw [hdown]; decide), hx']
      rfl
    obtain ⟨j, hsnake, hrun, hstuck⟩ := snake_spec (a := a) (b := b) (x' + 1) y'
    have hk : ((x' + 1 + j : Nat) : Int) - (y' + j : Nat) = k := by omega
    refine ⟨x' + 1 + j, y' + j, ?_, hk, ?_, ?_⟩
    · rw [hstart, show ((x' + 1 : Nat) : Int) - k = (y' : Nat) by omega, hsnake]
    · refine Furthest.succ (edits_of_matches hpath.delete hrun) hk hstuck ?_ ?_
      · intro x'' y'' hother hdiag
        obtain ⟨-, -, hle⟩ := hv.bound hother hdiag
        omega
      · intro x'' y'' hother hdiag
        obtain ⟨-, hhi', hle⟩ := hv.bound hother hdiag
        have := hcase.2
        omega
    · refine .right x' y' j ?_ ?_ rfl rfl hrun
      · rw [hk]
        exact hdown
      · rw [hk]
        exact hx'

/-! ## One round -/

/-- The diagonals of round `d` are found from this array. -/
def Reaches (a b : List String) (d : Nat) (v : Front) : Prop :=
  ∀ k : Int, -d ≤ k → k ≤ d → (k + d) % 2 = 0 →
    ∃ x y : Nat, snake a b (start v d k) (start v d k - k) = ((x : Int), (y : Int)) ∧ (x : Int) - y = k ∧
      Furthest a b d k x

theorem Rounded.reaches (h : Rounded a b d v) : Reaches a b (d + 1) v := by
  intro k hlo hhi hparity
  push_cast at hlo hhi hparity ⊢
  obtain ⟨x, y, hsnake, hk, hfurthest, -⟩ := reach_succ h hlo hhi hparity
  exact ⟨x, y, hsnake, hk, hfurthest⟩

/-- The first round starts at the origin. -/
theorem reaches_zero (a b : List String) : Reaches a b 0 fun _ => 0 := by
  intro k hlo hhi _
  obtain rfl : k = 0 := by
    push_cast at hlo hhi
    omega
  obtain ⟨j, hsnake, hrun, hstuck⟩ := snake_spec (a := a) (b := b) 0 0
  rw [Nat.zero_add] at hsnake hstuck
  refine ⟨j, j, ?_, Int.sub_self _, ?_⟩
  · have hstart : start (fun _ => 0) (0 : Nat) 0 = (0 : Nat) := by decide
    rw [hstart]
    exact hsnake
  · have hpath := edits_of_matches .origin hrun
    rw [Nat.zero_add] at hpath
    exact .zero hpath hstuck

/-- A diagonal has its furthest point, and that is not the end. -/
def Passed (a b : List String) (d : Nat) (v : Front) (k : Int) : Prop :=
  Furthest a b d k (v k) ∧ ¬ (a.length ≤ v k ∧ b.length ≤ v k - k)

/-- Two arrays hold the same where a round reads. -/
def SameReads (d : Nat) (v w : Front) : Prop := ∀ j : Int, (j + d) % 2 ≠ 0 → w j = v j

theorem start_congr (h : SameReads d v w) (hparity : (k + d) % 2 = 0) :
    start w d k = start v d k := by
  rw [start, start, goesDown, goesDown, h (k + 1) (by omega), h (k - 1) (by omega)]

theorem diagonalLoop_next {d x y : Int} (hk : k ≤ d)
    (hsnake : snake a b (start w d k) (start w d k - k) = (x, y)) :
    diagonalLoop a b d w k = if a.length ≤ x ∧
      b.length ≤ y then none else diagonalLoop a b d (Function.update w k x) (k + 2) := by
  rw [start] at hsnake
  rw [diagonalLoop, if_pos hk]
  dsimp only
  rw [hsnake]

/-- **A round** reaches the end, or finds the furthest points of all its diagonals. -/
theorem diagonalLoop_spec (hreach : Reaches a b d v) (hsame : SameReads d v w) (hlo : -d ≤ k)
    (hparity : (k + d) % 2 = 0)
    (hdone : ∀ j : Int, -d ≤ j → j < k → (j + d) % 2 = 0 → Passed a b d w j) :
    match diagonalLoop a b d w k with
    | none => ∃ x y : Nat, Edits a b d x y ∧ a.length ≤ x ∧ b.length ≤ y
    | some w' => ∀ j : Int, -d ≤ j → j ≤ d → (j + d) % 2 = 0 → Passed a b d w' j := by
  induction hn : (d + 1 - k).toNat using Nat.strongRecOn generalizing w k with
  | _ n ih =>
    by_cases hk : k ≤ d
    · obtain ⟨x, y, hsnake, hdiag, hfurthest⟩ := hreach k hlo hk hparity
      rw [← start_congr hsame hparity] at hsnake
      rw [diagonalLoop_next hk hsnake]
      by_cases hend : (a.length : Int) ≤ x ∧ (b.length : Int) ≤ y
      · rw [if_pos hend]
        obtain ⟨x', y', hpath, hx', hy'⟩ := hfurthest.path
        exact ⟨x', y', hpath, by omega, by omega⟩
      · rw [if_neg hend]
        refine ih _ (by omega) ?_ (by omega) (by omega) ?_ rfl
        · -- the diagonal that is written is none of those that are read
          intro j hj
          rw [Function.update_of_ne (by rintro rfl; exact hj hparity)]
          exact hsame j hj
        · intro j hj hjk hpar
          by_cases hjk' : j = k
          · subst hjk'
            rw [Passed, Function.update_self]
            exact ⟨hfurthest, fun h => hend ⟨h.1, by omega⟩⟩
          · rw [Passed, Function.update_of_ne hjk']
            exact hdone j hj (by omega) hpar
    · rw [diagonalLoop, if_neg hk]
      exact fun j hj hj' hpar => hdone j hj (by omega) hpar

/-! ## All rounds -/

/-- A round that passes all its diagonals leaves the end out of reach. -/
theorem not_edits_of_passed (h : ∀ j : Int, -d ≤ j → j ≤ d → (j + d) % 2 = 0 → Passed a b d v j) :
    ¬ Edits a b d a.length b.length := by
  intro hpath
  have hdiag := hpath.diagonal
  obtain ⟨hfurthest, hend⟩ := h (a.length - b.length) (by omega) (by omega) (by omega)
  have hle := hfurthest.bound _ _ hpath rfl
  exact hend ⟨hle, by omega⟩

/-- A path beyond the end, and none of fewer steps to it: then one of that many steps. -/
theorem edits_of_beyond (hpath : Edits a b d x y) (hx : a.length ≤ x) (hy : b.length ≤ y)
    (hshort : ∀ d' < d, ¬ Edits a b d' a.length b.length) : Edits a b d a.length b.length := by
  obtain ⟨d', hclip, hle⟩ := hpath.clip
  rw [Nat.min_eq_right hx, Nat.min_eq_right hy] at hclip
  obtain rfl : d' = d := by
    by_contra hne
    exact hshort d' (by omega) hclip
  exact hclip

/-- The trace of a search: the arrays before the rounds up to the length of the shortest path. -/
structure Searched (a b : List String) (d : Nat) (trace : List Front) : Prop where
  length : trace.length = d + 1
  rounds : ∀ i < d, Rounded a b i (trace.getD (i + 1) fun _ => 0)
  path : Edits a b d a.length b.length
  short : ∀ d' < d, ¬ Edits a b d' a.length b.length

/-- **The rounds end at the shortest path.** -/
theorem traceLoop_spec {trace : List Front} (hlen : trace.length = d) (hreach : Reaches a b d v)
    (hrounds : ∀ i < d, Rounded a b i ((trace ++ [v]).getD (i + 1) fun _ => 0))
    (hshort : ∀ d' < d, ¬ Edits a b d' a.length b.length) :
    ∃ D, Searched a b D (traceLoop a b d v trace) := by
  induction hn : a.length + b.length + 1 - d generalizing d v trace with
  | zero => exact absurd (Edits.corner a b a.length b.length) (hshort _ (by omega))
  | succ n ih =>
    have hround := diagonalLoop_spec hreach (fun _ _ => rfl) (Int.le_refl _) (by omega)
      fun j hj hj' _ => absurd hj' (Int.not_lt.mpr hj)
    rw [traceLoop, if_pos (by omega)]
    cases hloop : diagonalLoop a b d v (-d) with
    | none =>
      rw [hloop] at hround
      obtain ⟨x, y, hpath, hx, hy⟩ := hround
      refine ⟨d, ?_, hrounds, edits_of_beyond hpath hx hy hshort, hshort⟩
      show (trace ++ [v]).length = d + 1
      rw [List.length_append, hlen, List.length_singleton]
    | some v' =>
      rw [hloop] at hround
      have hv' : Rounded a b d v' := fun k hlo hhi hpar => (hround k hlo hhi hpar).1
      refine ih ?_ hv'.reaches ?_ ?_ (by omega)
      · rw [List.length_append, hlen, List.length_singleton]
      · have hlen' : (trace ++ [v]).length = d + 1 := by rw [List.length_append, hlen, List.length_singleton]
        intro i hi
        rcases Nat.lt_succ_iff_lt_or_eq.mp hi with hlt | rfl
        · rw [List.getD_append _ _ _ _ (by omega)]
          exact hrounds i hlt
        · rw [List.getD_append_right _ _ _ _ (by omega), hlen', Nat.sub_self]
          exact hv'
      · intro d' hd'
        rcases Nat.lt_succ_iff_lt_or_eq.mp hd' with hlt | rfl
        · exact hshort d' hlt
        · exact not_edits_of_passed hround

/-- The trace ends at the length of the shortest path. -/
theorem myersTrace_spec (a b : List String) : ∃ D, Searched a b D (myersTrace a b) :=
  traceLoop_spec rfl (reaches_zero a b) (fun i hi => absurd hi (Nat.not_lt_zero i))
    fun d' hd' => absurd hd' (Nat.not_lt_zero d')

end AthenaOS.Diff
