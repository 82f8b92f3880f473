import Mathlib

/-!
# Doubly linked lists through two link functions

Nodes are addresses, `0` is the null address, and the links are two functions that
stand for the words stored in the nodes.
-/

namespace AthenaOS.Lib

/-- The nodes of a list are linked both ways, from `head` on. -/
def Linked (next prev : Nat → Nat) : Nat → Nat → List Nat → Prop
  | _, head, [] => head = 0
  | before, head, a :: l => head = a ∧ a ≠ 0 ∧ prev a = before ∧ Linked next prev a (next a) l

namespace Linked

variable {next prev next' prev' : Nat → Nat} {before head a : Nat} {l : List Nat}

/-- Only the links of the nodes matter. -/
theorem congr (hn : ∀ c ∈ l, next' c = next c) (hp : ∀ c ∈ l, prev' c = prev c)
    (h : Linked next prev before head l) : Linked next' prev' before head l := by
  induction l generalizing before head with
  | nil => exact h
  | cons c l ih =>
    obtain ⟨hhead, hne, hprev, hrest⟩ := h
    refine ⟨hhead, hne, (hp c List.mem_cons_self).trans hprev, ?_⟩
    rw [hn c List.mem_cons_self]
    exact ih (fun d hd => hn d (List.mem_cons_of_mem _ hd))
      (fun d hd => hp d (List.mem_cons_of_mem _ hd)) hrest

theorem ne_zero (h : Linked next prev before head l) (ha : a ∈ l) : a ≠ 0 := by
  induction l generalizing before head with
  | nil => exact absurd ha List.not_mem_nil
  | cons c l ih =>
    obtain ⟨-, hne, -, hrest⟩ := h
    rcases List.mem_cons.mp ha with rfl | ha
    · exact hne
    · exact ih hrest ha

/-- The head is the first node, if there is one. -/
theorem head_mem (h : Linked next prev before head l) (hhead : head ≠ 0) : head ∈ l := by
  cases l with
  | nil => exact absurd h hhead
  | cons c l =>
    rw [h.1]
    exact List.mem_cons_self

/-- The head's back link is what lies before the list. -/
theorem prev_head (h : Linked next prev before head l) (hhead : head ≠ 0) : prev head = before := by
  cases l with
  | nil => exact absurd h hhead
  | cons c l =>
    rw [h.1]
    exact h.2.2.1

/-- A link leads to a node, or ends the list. -/
theorem next_mem (h : Linked next prev before head l) (ha : a ∈ l) : next a = 0 ∨ next a ∈ l := by
  induction l generalizing before head with
  | nil => exact absurd ha List.not_mem_nil
  | cons c l ih =>
    obtain ⟨-, -, -, hrest⟩ := h
    rcases List.mem_cons.mp ha with rfl | ha
    · by_cases hzero : next a = 0
      · exact .inl hzero
      · exact .inr (List.mem_cons_of_mem _ (hrest.head_mem hzero))
    · exact (ih hrest ha).imp_right (List.mem_cons_of_mem _)

/-- The back link of a node that is not the head is a node, which links to it. -/
theorem prev_mem (h : Linked next prev before head l) (ha : a ∈ l) (hhead : head ≠ a) :
    prev a ∈ l ∧ next (prev a) = a := by
  induction l generalizing before head with
  | nil => exact absurd ha List.not_mem_nil
  | cons c l ih =>
    obtain ⟨hc, -, -, hrest⟩ := h
    rcases List.mem_cons.mp ha with rfl | ha
    · exact absurd hc hhead
    · by_cases hnext : next c = a
      · have hback : prev a = c := by
          rw [← hnext]
          refine hrest.prev_head ?_
          rw [hnext]
          exact hrest.ne_zero ha
        rw [hback]
        exact ⟨List.mem_cons_self, hnext⟩
      · obtain ⟨hmem, hlink⟩ := ih hrest ha hnext
        exact ⟨List.mem_cons_of_mem _ hmem, hlink⟩

/-- A new node in front. -/
theorem push (h : Linked next prev 0 head l) (ha : a ≠ 0) (hfresh : a ∉ l) (hnodup : l.Nodup)
    (hnext : next' a = head) (hprev : prev' a = 0) (hhead : head ≠ 0 → prev' head = a)
    (hn : ∀ c ∈ l, next' c = next c) (hp : ∀ c ∈ l, c ≠ head → prev' c = prev c) :
    Linked next' prev' 0 a (a :: l) := by
  refine ⟨rfl, ha, hprev, ?_⟩
  rw [hnext]
  cases l with
  | nil => exact h
  | cons c l =>
    obtain ⟨rfl, hne, -, hrest⟩ := h
    refine ⟨rfl, hne, hhead hne, ?_⟩
    rw [hn head List.mem_cons_self]
    rw [List.nodup_cons] at hnodup
    refine hrest.congr (fun d hd => hn d (List.mem_cons_of_mem _ hd)) fun d hd => ?_
    refine hp d (List.mem_cons_of_mem _ hd) ?_
    rintro rfl
    exact hnodup.1 hd

/-- A node taken out: its neighbours are linked to each other. -/
theorem erase (h : Linked next prev before head l) (ha : a ∈ l) (hnodup : l.Nodup)
    (hbefore : before ∉ l) (hn : ∀ c ∈ l, c ≠ a → next' c = if c = prev a then next a else next c)
    (hp : ∀ c ∈ l, c ≠ a → prev' c = if c = next a then prev a else prev c) :
    Linked next' prev' before (if head = a then next a else head) (l.erase a) := by
  induction l generalizing before head with
  | nil => exact absurd ha List.not_mem_nil
  | cons c l ih =>
    obtain ⟨rfl, hne, hprev, hrest⟩ := h
    obtain ⟨hc, hnodup'⟩ := List.nodup_cons.mp hnodup
    by_cases hca : head = a
    · subst hca
      rw [if_pos rfl, List.erase_cons_head]
      cases l with
      | nil => exact hrest
      | cons d l =>
        obtain ⟨hd, hdne, -, htail⟩ := hrest
        have hmem : ∀ e ∈ d :: l, e ∈ head :: d :: l := fun e he => List.mem_cons_of_mem _ he
        have hnode : ∀ e ∈ d :: l, e ≠ head := fun e he heq => hc (heq ▸ he)
        have hkeep : ∀ e ∈ d :: l, next' e = next e := by
          intro e he
          rw [hn e (hmem e he) (hnode e he), if_neg]
          rintro rfl
          rw [hprev] at he
          exact hbefore (hmem _ he)
        refine ⟨hd, hdne, ?_, ?_⟩
        · rw [hp d (hmem d List.mem_cons_self) (hnode d List.mem_cons_self), if_pos hd.symm, hprev]
        · rw [hkeep d List.mem_cons_self]
          refine htail.congr (fun e he => hkeep e (List.mem_cons_of_mem _ he)) fun e he => ?_
          have he' : e ∈ d :: l := List.mem_cons_of_mem _ he
          rw [hp e (hmem e he') (hnode e he'), if_neg]
          rw [hd]
          rintro rfl
          exact (List.nodup_cons.mp hnodup').1 he
    · have ha' : a ∈ l := (List.mem_cons.mp ha).resolve_left (Ne.symm hca)
      have hlast : head ≠ next a := by
        intro heq
        rcases hrest.next_mem ha' with hzero | hmem
        · exact hne (heq.trans hzero)
        · exact hc (heq ▸ hmem)
      rw [if_neg hca, List.erase_cons_tail (by simpa using hca)]
      refine ⟨rfl, hne, ?_, ?_⟩
      · rw [hp head List.mem_cons_self hca, if_neg hlast, hprev]
      · have hrest' := ih hrest ha' hnodup' hc
          (fun c hc => hn c (List.mem_cons_of_mem _ hc)) fun c hc => hp c (List.mem_cons_of_mem _ hc)
        rw [hn head List.mem_cons_self hca]
        -- the node before `a` is the one that links to it
        by_cases hnext : next head = a
        · have hback : prev a = head := by
            rw [← hnext]
            refine hrest.prev_head ?_
            rw [hnext]
            exact hrest.ne_zero ha'
          rw [if_pos hback.symm]
          rwa [if_pos hnext] at hrest'
        · rw [if_neg]
          · rwa [if_neg hnext] at hrest'
          · rintro rfl
            exact hc (hrest.prev_mem ha' hnext).1

end Linked

end AthenaOS.Lib
