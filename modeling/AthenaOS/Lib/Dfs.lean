import Mathlib

/-!
# Cycles by depth-first search

A graph is given by the successors of its nodes. The search keeps the nodes it has visited and
the path it is on; where the path comes back to one of its own nodes, it reports the part of the
path from there.
-/

namespace AthenaOS.Lib.Dfs

open Relation

universe u

variable {V : Type u}

/-! ## Cycles -/

/-- Each node has an edge to the next one, and the last to the first. -/
def IsCycle (R : V → V → Prop) : List V → Prop
  | [] => False
  | v :: l => (v :: l ++ [v]).IsChain R

/-- Edges do not leave the set, and no cycle goes through it. -/
structure Done (R : V → V → Prop) (B : Set V) : Prop where
  closed : ∀ {b v}, b ∈ B → R b v → v ∈ B
  acyclic : ∀ b ∈ B, ¬ TransGen R b b

section Cycles

variable {R : V → V → Prop} {B : Set V} {v : V}

/-- A node of a cycle reaches itself. -/
theorem IsCycle.transGen {l : List V} (h : IsCycle R l) : ∃ v, TransGen R v v := by
  cases l with
  | nil => exact h.elim
  | cons v l =>
    refine ⟨v, ?_⟩
    cases l with
    | nil => exact .single (List.isChain_pair.mp h)
    | cons w l =>
      obtain ⟨hedge, hrest⟩ := List.isChain_cons_cons.mp h
      have hback : ReflTransGen R w v := List.relationReflTransGen_of_exists_isChain_cons _ hrest (by simp)
      exact TransGen.head' hedge hback

theorem Done.empty : Done R (∅ : Set V) := ⟨fun h => h.elim, fun _ h => h.elim⟩

theorem Done.reaches (h : Done R B) {b : V} (hb : b ∈ B) (hreach : ReflTransGen R b v) : v ∈ B := by
  induction hreach with
  | refl => exact hb
  | tail _ hedge ih => exact h.closed ih hedge

/-- A node whose edges all go into a done set is done with it. -/
theorem Done.insert (h : Done R B) (hv : v ∉ B) (hedges : ∀ w, R v w → w ∈ B) : Done R (insert v B) where
  closed := by
    rintro b w (rfl | hb) hedge
    · exact .inr (hedges w hedge)
    · exact .inr (h.closed hb hedge)
  acyclic := by
    rintro b (rfl | hb) hcycle
    · obtain ⟨w, hedge, hback⟩ := TransGen.head'_iff.mp hcycle
      exact hv (h.reaches (hedges w hedge) hback)
    · exact h.acyclic b hb hcycle

end Cycles

/-! ## The search -/

/-- What the search has found so far. -/
structure Search (V : Type u) where
  visited : Finset V
  cycles : List (List V)

section

variable [DecidableEq V] (succ : V → List V)

/-- Visit a node at the end of the path. -/
def visit : Nat → List V → Search V → V → Option (Search V)
  | 0, _, _, _ => none
  | fuel + 1, stack, s, v =>
    if v ∈ stack then some { s with cycles := s.cycles ++ [stack.drop (stack.idxOf v)] }
    else if v ∈ s.visited then some s
    else (succ v).foldlM (visit fuel (stack ++ [v])) { s with visited := insert v s.visited }

/-- Visit what is not visited yet, one node after the other. -/
def search (fuel : Nat) (starts : List V) : Option (Search V) :=
  starts.foldlM (fun s v => if v ∈ s.visited then some s else visit succ fuel [] s v) ⟨∅, []⟩

end

/-- There is an edge. -/
def Edge (succ : V → List V) (v w : V) : Prop := w ∈ succ v

/-! ## What a visit keeps -/

/-- The path is visited, reports are cycles, and as long as there are none, the visited nodes off
the path are done. -/
structure Inv (succ : V → List V) (stack : List V) (s : Search V) : Prop where
  onPath : ∀ v ∈ stack, v ∈ s.visited
  sound : ∀ l ∈ s.cycles, IsCycle (Edge succ) l
  done : s.cycles = [] → Done (Edge succ) {v | v ∈ s.visited ∧ v ∉ stack}

/-- Nodes stay visited, and reports stay. -/
structure Advances (s s' : Search V) : Prop where
  visited : s.visited ⊆ s'.visited
  cycles : s'.cycles = [] → s.cycles = []

theorem Advances.refl (s : Search V) : Advances s s := ⟨Finset.Subset.refl _, id⟩

theorem Advances.trans {s s₁ s₂ : Search V} (h : Advances s s₁) (h₁ : Advances s₁ s₂) : Advances s s₂ :=
  ⟨h.visited.trans h₁.visited, fun hnil => h.cycles (h₁.cycles hnil)⟩

/-- What a visit leaves: the node is visited, and on the path only if that is reported. -/
structure Visited (succ : V → List V) (stack : List V) (s : Search V) (vs : List V) (s' : Search V) : Prop where
  inv : Inv succ stack s'
  advances : Advances s s'
  visited : ∀ v ∈ vs, v ∈ s'.visited
  offPath : s'.cycles = [] → ∀ v ∈ vs, v ∉ stack

section

variable {succ : V → List V}

variable {stack starts : List V} {U : Finset V}

/-- Visits one after the other. -/
theorem Visited.foldlM {step : Search V → V → Option (Search V)} : ∀ (vs : List V)
    (_ : ∀ v ∈ vs, ∀ s s', step s v = some s' → Inv succ stack s → Visited succ stack s [v] s') (s s' : Search V),
    vs.foldlM step s = some s' → Inv succ stack s → Visited succ stack s vs s'
  | [], _, s, s', h, hinv => by
    obtain rfl := Option.some.inj h
    exact ⟨hinv, .refl s, fun _ hv => (nomatch hv), fun _ _ hv => (nomatch hv)⟩
  | v :: vs, hstep, s, s', h, hinv => by
    rw [List.foldlM_cons] at h
    obtain ⟨s₁, hs₁, hrest⟩ := Option.bind_eq_some_iff.mp h
    have hone := hstep v List.mem_cons_self s s₁ hs₁ hinv
    have hall := Visited.foldlM vs (fun w hw => hstep w (List.mem_cons_of_mem _ hw)) s₁ s' hrest hone.inv
    refine ⟨hall.inv, hone.advances.trans hall.advances, ?_, ?_⟩
    · rintro w hw
      obtain rfl | hw := List.mem_cons.mp hw
      · exact hall.advances.visited (hone.visited w List.mem_cons_self)
      · exact hall.visited w hw
    · intro hnil w hw
      obtain rfl | hw := List.mem_cons.mp hw
      · exact hone.offPath (hall.advances.cycles hnil) w List.mem_cons_self
      · exact hall.offPath hnil w hw

variable [DecidableEq V]

/-- The part of the path from a node that is met again is a cycle. -/
theorem isCycle_drop {R : V → V → Prop} {v : V} (hv : v ∈ stack) (hpath : (stack ++ [v]).IsChain R) :
    IsCycle R (stack.drop (stack.idxOf v)) := by
  have hlt := List.idxOf_lt_length_of_mem hv
  have hdrop := hpath.drop (stack.idxOf v)
  rw [List.drop_append_of_le_length hlt.le] at hdrop
  rw [List.drop_eq_getElem_cons hlt, List.getElem_idxOf hlt] at hdrop ⊢
  exact hdrop

/-- The induction is on the fuel: a visit inside is one with a longer path. -/
theorem visit_spec : ∀ (fuel : Nat) (stack : List V) (s s' : Search V) (v : V), visit succ fuel stack s v = some s' →
    (stack ++ [v]).IsChain (Edge succ) → Inv succ stack s → Visited succ stack s [v] s'
  | 0, _, _, _, _, h, _, _ => nomatch h
  | fuel + 1, stack, s, s', v, h, hpath, hinv => by
    rw [visit] at h
    split at h
    · rename_i hv
      obtain rfl := Option.some.inj h
      have hne : s.cycles ++ [stack.drop (stack.idxOf v)] ≠ [] := List.append_ne_nil_of_right_ne_nil _ (List.cons_ne_nil _ _)
      refine ⟨⟨hinv.onPath, ?_, fun hnil => absurd hnil hne⟩, ⟨Finset.Subset.refl _, fun hnil => absurd hnil hne⟩, ?_,
        fun hnil => absurd hnil hne⟩
      · intro l hl
        obtain hl | hl := List.mem_append.mp hl
        · exact hinv.sound l hl
        · exact List.mem_singleton.mp hl ▸ isCycle_drop hv hpath
      · exact fun w hw => List.mem_singleton.mp hw ▸ hinv.onPath v hv
    · split at h
      · rename_i hstack hv
        obtain rfl := Option.some.inj h
        exact ⟨hinv, .refl s, fun w hw => List.mem_singleton.mp hw ▸ hv, fun _ w hw => List.mem_singleton.mp hw ▸ hstack⟩
      · rename_i hstack hv
        have hinside : Inv succ (stack ++ [v]) { s with visited := insert v s.visited } := by
          refine ⟨fun w hw => ?_, hinv.sound, fun hnil => ?_⟩
          · obtain hw | hw := List.mem_append.mp hw
            · exact Finset.mem_insert_of_mem (hinv.onPath w hw)
            · exact List.mem_singleton.mp hw ▸ Finset.mem_insert_self v s.visited
          · -- off the longer path nothing is new
            have hsame : {w | w ∈ insert v s.visited ∧ w ∉ stack ++ [v]} = {w | w ∈ s.visited ∧ w ∉ stack} := by
              ext w
              simp only [Set.mem_ofPred_eq, Finset.mem_insert, List.mem_append, List.mem_singleton, not_or]
              constructor
              · rintro ⟨rfl | hw, hoff, hne⟩
                · exact absurd rfl hne
                · exact ⟨hw, hoff⟩
              · rintro ⟨hw, hoff⟩
                exact ⟨.inr hw, hoff, fun heq => hv (heq ▸ hw)⟩
            exact hsame ▸ hinv.done hnil
        have hall := Visited.foldlM (succ v) (fun w hw t t' ht hinv' =>
          visit_spec fuel (stack ++ [v]) t t' w ht
            (List.isChain_append.mpr ⟨hpath, List.isChain_singleton w, fun x hx y hy => by
              obtain rfl : v = x := by simpa using hx
              obtain rfl : w = y := by simpa using hy
              exact hw⟩) hinv') _ s' h hinside
        have hvisited : v ∈ s'.visited := hall.advances.visited (Finset.mem_insert_self v s.visited)
        refine ⟨⟨fun w hw => hall.inv.onPath w (List.mem_append_left _ hw), hall.inv.sound, fun hnil => ?_⟩,
          ⟨(Finset.subset_insert v s.visited).trans hall.advances.visited, hall.advances.cycles⟩,
          fun w hw => List.mem_singleton.mp hw ▸ hvisited, fun _ w hw => List.mem_singleton.mp hw ▸ hstack⟩
        -- off the path again, the node joins the done ones
        have hsame : {w | w ∈ s'.visited ∧ w ∉ stack} = insert v {w | w ∈ s'.visited ∧ w ∉ stack ++ [v]} := by
          ext w
          simp only [Set.mem_ofPred_eq, Set.mem_insert_iff, List.mem_append, List.mem_singleton, not_or]
          constructor
          · rintro ⟨hw, hoff⟩
            by_cases heq : w = v
            · exact .inl heq
            · exact .inr ⟨hw, hoff, heq⟩
          · rintro (rfl | ⟨hw, hoff, -⟩)
            · exact ⟨hvisited, hstack⟩
            · exact ⟨hw, hoff⟩
        rw [hsame]
        refine (hall.inv.done hnil).insert (fun hmem => hmem.2 (List.mem_append_right _ List.mem_cons_self)) fun w hw => ?_
        exact ⟨hall.visited w hw, hall.offPath hnil w hw⟩

/-! ## Enough fuel -/

omit [DecidableEq V] in
theorem foldlM_mono {step step' : Search V → V → Option (Search V)}
    (hstep : ∀ s v s', step s v = some s' → step' s v = some s') : ∀ (vs : List V) (s s' : Search V),
      vs.foldlM step s = some s' → vs.foldlM step' s = some s'
  | [], _, _, h => h
  | v :: vs, s, s', h => by
    rw [List.foldlM_cons] at h ⊢
    obtain ⟨s₁, hs₁, hrest⟩ := Option.bind_eq_some_iff.mp h
    exact Option.bind_eq_some_iff.mpr ⟨s₁, hstep s v s₁ hs₁, foldlM_mono hstep vs s₁ s' hrest⟩

/-- More fuel changes no result. -/
theorem visit_mono : ∀ {fuel fuel' : Nat}, fuel ≤ fuel' → ∀ (stack : List V) (s : Search V) (v : V) (s' : Search V),
    visit succ fuel stack s v = some s' → visit succ fuel' stack s v = some s'
  | 0, _, _, _, _, _, _, h => nomatch h
  | fuel + 1, 0, hle, _, _, _, _, _ => absurd hle (Nat.not_succ_le_zero fuel)
  | fuel + 1, fuel' + 1, hle, stack, s, v, s', h => by
    rw [visit] at h ⊢
    split at h
    · rename_i hstack
      rw [if_pos hstack]
      exact h
    · rename_i hstack
      rw [if_neg hstack]
      split at h
      · rename_i hv
        rw [if_pos hv]
        exact h
      · rename_i hv
        rw [if_neg hv]
        exact foldlM_mono (visit_mono (Nat.le_of_succ_le_succ hle) (stack ++ [v])) _ _ _ h

theorem search_mono {fuel fuel' : Nat} (hle : fuel ≤ fuel') {s : Search V}
    (h : search succ fuel starts = some s) : search succ fuel' starts = some s := by
  refine foldlM_mono (fun t v t' ht => ?_) starts _ s h
  split at ht
  · rename_i hv
    rw [if_pos hv]
    exact ht
  · rename_i hv
    rw [if_neg hv]
    exact visit_mono hle [] t v t' ht

omit [DecidableEq V] in
/-- Where single steps come to an end and only add visited nodes, so do all of them. -/
theorem exists_foldlM (step : Search V → V → Option (Search V)) {t : Finset V} : ∀ (vs : List V) (s : Search V),
    t ⊆ s.visited → (∀ v ∈ vs, ∀ s : Search V, t ⊆ s.visited → ∃ s', step s v = some s' ∧ s.visited ⊆ s'.visited) →
    ∃ s', vs.foldlM step s = some s' ∧ s.visited ⊆ s'.visited
  | [], s, _, _ => ⟨s, rfl, Finset.Subset.refl _⟩
  | v :: vs, s, hs, hstep => by
    obtain ⟨s₁, hs₁, hsub₁⟩ := hstep v List.mem_cons_self s hs
    obtain ⟨s', hs', hsub⟩ := exists_foldlM step vs s₁ (hs.trans hsub₁) fun w hw => hstep w (List.mem_cons_of_mem _ hw)
    exact ⟨s', by rw [List.foldlM_cons, hs₁]; exact hs', hsub₁.trans hsub⟩

/-- Each visit inside another one has one node less to go to. -/
theorem visit_total (hU : ∀ v ∈ U, ∀ w ∈ succ v, w ∈ U) : ∀ (fuel : Nat) (stack : List V) (s : Search V)
    (v : V), v ∈ U → (U \ s.visited).card < fuel → ∃ s', visit succ fuel stack s v = some s' ∧ s.visited ⊆ s'.visited
  | 0, _, _, _, _, hfuel => nomatch hfuel
  | fuel + 1, stack, s, v, hv, hfuel => by
    rw [visit]
    split
    · exact ⟨_, rfl, Finset.Subset.refl _⟩
    · split
      · exact ⟨_, rfl, Finset.Subset.refl _⟩
      · rename_i _ hnew
        have hless : (U \ insert v s.visited).card < fuel := by
          have hlt : (U \ insert v s.visited).card < (U \ s.visited).card :=
            Finset.card_lt_card (Finset.ssubset_iff_of_subset (Finset.sdiff_subset_sdiff (Finset.Subset.refl _)
              (Finset.subset_insert v _)) |>.mpr ⟨v, Finset.mem_sdiff.mpr ⟨hv, hnew⟩, fun hmem =>
                (Finset.mem_sdiff.mp hmem).2 (Finset.mem_insert_self v _)⟩)
          omega
        obtain ⟨s', hs', hsub⟩ := exists_foldlM (visit succ fuel (stack ++ [v])) (t := insert v s.visited) (succ v)
          { s with visited := insert v s.visited } (Finset.Subset.refl _) fun w hw t ht =>
            visit_total hU fuel (stack ++ [v]) t w (hU v hv w hw)
              (lt_of_le_of_lt (Finset.card_le_card (Finset.sdiff_subset_sdiff (Finset.Subset.refl _) ht)) hless)
        exact ⟨s', hs', (Finset.subset_insert v _).trans hsub⟩

/-- The search reports cycles only, and reports one if there is one among the nodes that can be
reached. -/
theorem search_exact (hU : ∀ v ∈ U, ∀ w ∈ succ v, w ∈ U) (hstarts : ∀ v ∈ starts, v ∈ U)
    (hedges : ∀ v, succ v ≠ [] → v ∈ starts) {fuel : Nat} (hfuel : U.card < fuel) :
    ∃ s, search succ fuel starts = some s ∧ (∀ l ∈ s.cycles, IsCycle (Edge succ) l) ∧
      (s.cycles = [] ↔ ∀ v, ¬ TransGen (Edge succ) v v) := by
  obtain ⟨s, hs, -⟩ := exists_foldlM (fun s v => if v ∈ s.visited then some s else visit succ fuel [] s v) (t := ∅)
    starts ⟨∅, []⟩ (Finset.Subset.refl _) fun v hv s _ => by
      split
      · exact ⟨s, rfl, Finset.Subset.refl _⟩
      · exact visit_total hU fuel [] s v (hstarts v hv)
          (lt_of_le_of_lt (Finset.card_le_card Finset.sdiff_subset) hfuel)
  have hall : Visited succ [] ⟨∅, []⟩ starts s := by
    refine Visited.foldlM starts (fun v _ t t' ht hinv => ?_) _ s hs
      ⟨fun _ hv => (nomatch hv), fun _ hl => (nomatch hl), fun _ => ?_⟩
    · split at ht
      · rename_i hv
        obtain rfl := Option.some.inj ht
        exact ⟨hinv, .refl t, fun w hw => List.mem_singleton.mp hw ▸ hv, fun _ w _ => List.not_mem_nil⟩
      · exact visit_spec fuel [] t t' v ht (List.isChain_singleton v) hinv
    · have hnone : {v : V | v ∈ (∅ : Finset V) ∧ v ∉ ([] : List V)} = ∅ :=
        Set.eq_empty_iff_forall_notMem.mpr fun v hv => Finset.notMem_empty v hv.1
      exact hnone ▸ .empty
  refine ⟨s, hs, hall.inv.sound, fun hnil v hcycle => ?_, fun hacyclic => ?_⟩
  · obtain ⟨w, hedge, -⟩ := TransGen.head'_iff.mp hcycle
    have hv : v ∈ s.visited := hall.visited v (hedges v (List.ne_nil_of_mem hedge))
    exact (hall.inv.done hnil).acyclic v ⟨hv, List.not_mem_nil⟩ hcycle
  · refine List.eq_nil_iff_forall_not_mem.mpr fun l hl => ?_
    obtain ⟨v, hcycle⟩ := (hall.inv.sound l hl).transGen
    exact hacyclic v hcycle

end

end AthenaOS.Lib.Dfs
