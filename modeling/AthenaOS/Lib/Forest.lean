import Mathlib

/-!
# Pruning a subtree with a worklist

A forest is given by its parent links, `parent : ν → Option ν`. To prune the
subtree under `r`, a worklist algorithm pops a node, unlinks it, scans for the
nodes that still name it as their parent and pushes those. The scan may be
partial: it sees only the nodes of a set `vis`.
-/

namespace AthenaOS.Lib.Forest

universe u

variable {ν : Type u} {parent : ν → Option ν} {vis : ν → Prop} {r n c : ν}

/-- `Descends parent n r`: following parent links from `n` leads to `r`. -/
def Descends (parent : ν → Option ν) : ν → ν → Prop :=
  Relation.ReflTransGen fun a b => parent a = some b

/-- The nodes a scan that sees only `vis` children gets to from `r`. -/
inductive Found (parent : ν → Option ν) (vis : ν → Prop) (r : ν) : ν → Prop
  | root : Found parent vis r r
  | child {n c : ν} : Found parent vis r n → parent c = some n → vis c → Found parent vis r c

theorem Found.descends (h : Found parent vis r n) : Descends parent n r := by
  induction h with
  | root => exact Relation.ReflTransGen.refl
  | child _ hp _ ih => exact Relation.ReflTransGen.head hp ih

theorem Found.visible (h : Found parent vis r n) (hne : n ≠ r) : vis n := by
  cases h with
  | root => exact absurd rfl hne
  | child _ _ hv => exact hv

/-- The partial scan covers the whole subtree exactly when it can see every
proper descendant of the root. -/
theorem found_of_descends_iff :
    (∀ n, Descends parent n r → Found parent vis r n) ↔
      ∀ n, Descends parent n r → n ≠ r → vis n := by
  constructor
  · intro h n hn hne
    exact (h n hn).visible hne
  · intro h n hn
    induction hn using Relation.ReflTransGen.head_induction_on with
    | refl => exact Found.root
    | head hp hchain ih =>
      rename_i a b
      by_cases hne : a = r
      · rw [hne]
        exact Found.root
      · exact Found.child ih hp (h a (Relation.ReflTransGen.head hp hchain) hne)

/-! ## The loop invariant -/

/-- Where the loop stands: `removed` has been unlinked, `work` is to be popped.
`parent` is the forest before the loop. -/
structure Progress (parent : ν → Option ν) (vis : ν → Prop) (r : ν)
    (removed : Finset ν) (work : List ν) : Prop where
  /-- Nothing outside the scan is touched. -/
  found : ∀ n, n ∈ removed ∨ n ∈ work → Found parent vis r n
  /-- The root is popped first. -/
  start : r ∈ removed ∨ (removed = ∅ ∧ work = [r])
  /-- The visible children of an unlinked node are unlinked or listed. -/
  closed : ∀ n ∈ removed, ∀ c, parent c = some n → vis c → c ∈ removed ∨ c ∈ work
  /-- A listed node other than the root was pushed by its parent. -/
  pushed : ∀ c ∈ work, c = r ∨ ∃ m ∈ removed, parent c = some m
  nodup : work.Nodup
  pending : ∀ n ∈ work, n ∉ removed

variable {removed : Finset ν} {work children : List ν}

theorem Progress.init : Progress parent vis r ∅ [r] where
  found n hn := by
    rcases hn with hn | hn
    · exact absurd hn (Finset.notMem_empty n)
    · rw [List.mem_singleton.mp hn]
      exact Found.root
  start := Or.inr ⟨rfl, rfl⟩
  closed n hn := absurd hn (Finset.notMem_empty n)
  pushed c hc := Or.inl (List.mem_singleton.mp hc)
  nodup := List.nodup_singleton r
  pending n _ := Finset.notMem_empty n

/-- With the worklist empty, exactly the found nodes are unlinked. -/
theorem Progress.mem_removed_iff (h : Progress parent vis r removed []) (n : ν) :
    n ∈ removed ↔ Found parent vis r n := by
  constructor
  · exact fun hn => h.found n (Or.inl hn)
  · intro hn
    induction hn with
    | root =>
      rcases h.start with hr | ⟨_, hw⟩
      · exact hr
      · cases hw
    | child _ hp hv ih =>
      rcases h.closed _ ih _ hp hv with hc | hc
      · exact hc
      · cases hc

/-- Every listed node is linked, if the root was. -/
theorem Progress.linked (h : Progress parent vis r removed work)
    (hr : parent r ≠ none) (hn : n ∈ work) : parent n ≠ none := by
  rcases h.pushed n hn with rfl | ⟨m, _, hp⟩
  · exact hr
  · rw [hp]
    exact Option.some_ne_none m

variable [DecidableEq ν]

/-- One round: pop `n`, unlink it, push the children the scan then finds. -/
theorem Progress.pop (h : Progress parent vis r removed (n :: work))
    (hnd : children.Nodup)
    (hmem : ∀ c, c ∈ children ↔ vis c ∧ c ∉ insert n removed ∧ parent c = some n) :
    Progress parent vis r (insert n removed) (children.reverse ++ work) where
  found m hm := by
    have hn : Found parent vis r n := h.found n (Or.inr List.mem_cons_self)
    rw [Finset.mem_insert, List.mem_append, List.mem_reverse] at hm
    rcases hm with (rfl | hm) | hm | hm
    · exact hn
    · exact h.found m (Or.inl hm)
    · obtain ⟨hv, _, hp⟩ := (hmem m).mp hm
      exact Found.child hn hp hv
    · exact h.found m (Or.inr (List.mem_cons_of_mem n hm))
  start := by
    refine Or.inl (Finset.mem_insert.mpr ?_)
    rcases h.start with hr | ⟨_, hw⟩
    · exact Or.inr hr
    · exact Or.inl (List.cons.inj hw).1.symm
  closed m hm d hp hv := by
    rw [Finset.mem_insert] at hm
    by_cases hd : d ∈ insert n removed
    · exact Or.inl hd
    · refine Or.inr (List.mem_append.mpr ?_)
      rcases hm with rfl | hm
      · exact Or.inl (List.mem_reverse.mpr ((hmem d).mpr ⟨hv, hd, hp⟩))
      · rw [Finset.mem_insert, not_or] at hd
        rcases h.closed m hm d hp hv with hd' | hd'
        · exact absurd hd' hd.2
        · exact Or.inr ((List.mem_cons.mp hd').resolve_left hd.1)
  pushed d hd := by
    rw [List.mem_append, List.mem_reverse] at hd
    rcases hd with hd | hd
    · exact Or.inr ⟨n, Finset.mem_insert_self n removed, ((hmem d).mp hd).2.2⟩
    · rcases h.pushed d (List.mem_cons_of_mem n hd) with hr | ⟨m, hm, hp⟩
      · exact Or.inl hr
      · exact Or.inr ⟨m, Finset.mem_insert_of_mem hm, hp⟩
  nodup := by
    have hw := List.nodup_cons.mp h.nodup
    refine List.nodup_append.mpr ⟨List.nodup_reverse.mpr hnd, hw.2, ?_⟩
    rintro d hd _ hd' rfl
    obtain ⟨_, hnot, hp⟩ := (hmem d).mp (List.mem_reverse.mp hd)
    rw [Finset.mem_insert, not_or] at hnot
    -- `d` can only be listed already as the root, or as a child of an unlinked node
    rcases h.pushed d (List.mem_cons_of_mem n hd') with rfl | ⟨m, hm, hp'⟩
    · rcases h.start with hr | ⟨_, hlist⟩
      · exact hnot.2 hr
      · rw [(List.cons.inj hlist).2] at hd'
        cases hd'
    · have hmn : m = n := Option.some.inj (hp'.symm.trans hp)
      rw [hmn] at hm
      exact h.pending n List.mem_cons_self hm
  pending d hd hrem := by
    rw [List.mem_append, List.mem_reverse] at hd
    rcases hd with hd | hd
    · exact ((hmem d).mp hd).2.1 hrem
    · rcases Finset.mem_insert.mp hrem with rfl | hrem
      · exact (List.nodup_cons.mp h.nodup).1 hd
      · exact h.pending d (List.mem_cons_of_mem n hd) hrem

/-- A round unlinks one more of the finitely many linked nodes. -/
theorem Progress.card_lt (h : Progress parent vis r removed (n :: work))
    (hr : parent r ≠ none) {linked : Finset ν} (hlinked : ∀ n, parent n ≠ none → n ∈ linked) :
    (linked \ insert n removed).card < (linked \ removed).card := by
  refine Finset.card_lt_card (Finset.ssubset_iff_subset_ne.mpr ⟨?_, ?_⟩)
  · exact Finset.sdiff_subset_sdiff (Finset.Subset.refl _) (Finset.subset_insert n removed)
  · intro heq
    have hmem : n ∈ linked \ removed := Finset.mem_sdiff.mpr
      ⟨hlinked n (h.linked hr List.mem_cons_self), h.pending n List.mem_cons_self⟩
    rw [← heq, Finset.mem_sdiff] at hmem
    exact hmem.2 (Finset.mem_insert_self n removed)

end AthenaOS.Lib.Forest
