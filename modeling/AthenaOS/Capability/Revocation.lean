import AthenaOS.Lib.Forest
import AthenaOS.Capability.Grant

/-!
# Recursive revocation

`revoke` removes a slot and then, with a worklist, every slot derived from it.
The grant records are the parent links of a forest over `CapNode`, so the loop
is an instance of `Lib.Forest`: what it can see are the slots of tasks outside
`switch_stash`.
-/

namespace AthenaOS

open Lib.Forest

namespace Scheduler

/-- `s'` is `s` with the slots in `removed` emptied and nothing else changed. -/
structure Pruned (s s' : Scheduler) (removed : Finset CapNode) : Prop where
  ids : s'.UniqueIds
  stash : s'.stashIds = s.stashIds
  cap : ∀ n, s'.capAt n = if n ∈ removed then none else s.capAt n
  parent : ∀ n, s'.parentAt n = if n ∈ removed then none else s.parentAt n

theorem Pruned.refl {s : Scheduler} (h : s.UniqueIds) : Pruned s s ∅ where
  ids := h
  stash := rfl
  cap n := by rw [if_neg (Finset.notMem_empty n)]
  parent n := by rw [if_neg (Finset.notMem_empty n)]

/-- One removal empties one more slot. -/
theorem Pruned.removeCap {s s' : Scheduler} {removed : Finset CapNode}
    (h : Pruned s s' removed) (n : CapNode) :
    Pruned s (s'.removeCap n) (insert n removed) where
  ids := (removeCap_spec h.ids n).2.1
  stash := (removeCap_spec h.ids n).2.2.trans h.stash
  cap m := by
    rw [capAt_removeCap h.ids, h.cap]
    by_cases hm : m = n <;> simp [hm]
  parent m := by
    rw [parentAt_removeCap h.ids, h.parent]
    by_cases hm : m = n <;> simp [hm]

variable {s s' : Scheduler} {removed : Finset CapNode} {root : CapNode}

/-- What the children scan lists after a removal, in terms of the records
before the loop. -/
theorem Pruned.mem_children (h : Pruned s s' removed) (n c : CapNode) :
    c ∈ s'.findCapChildren n.1 n.2 ↔ c.1 ∉ s.stashIds ∧ c ∉ removed ∧ s.parentAt c = some n := by
  rw [Scheduler.mem_children h.ids, h.stash, h.parent]
  by_cases hc : c ∈ removed <;> simp [hc]

/-- The slots that have a grant record. -/
def linkedSlots (s : Scheduler) : Finset CapNode :=
  (s.tasks.flatMap fun t => t.capTable.iterParents.map fun e => (t.id, e.1)).toFinset

theorem mem_linkedSlots (h : s.UniqueIds) {n : CapNode} (hn : s.parentAt n ≠ none) :
    n ∈ s.linkedSlots := by
  obtain ⟨p, hp⟩ := Option.ne_none_iff_exists'.mp hn
  obtain ⟨tbl, htbl, hg⟩ := parentAt_eq_some.mp hp
  obtain ⟨t, ht, hid, rfl⟩ := (capsOf_eq_some h).mp htbl
  rw [linkedSlots, List.mem_toFinset, List.mem_flatMap]
  refine ⟨t, ht, List.mem_map.mpr ⟨(n.2, _), CapTable.mem_iterParents.mpr hg, ?_⟩⟩
  rw [hid]

/-- **The worklist loop**: given a round for every record it still has to
unlink, it ends with an empty worklist. -/
theorem revokeLoop_spec (h : s.UniqueIds) (hroot : s.parentAt root ≠ none) (fuel : Nat) :
    ∀ {work : List CapNode} {s₁ : Scheduler} {removed : Finset CapNode},
      Pruned s s₁ removed →
      Progress s.parentAt (fun c => c.1 ∉ s.stashIds) root removed work →
      (s.linkedSlots \ removed).card ≤ fuel →
      ∃ s' removed', revokeLoop fuel work s₁ = some s' ∧ Pruned s s' removed' ∧
        Progress s.parentAt (fun c => c.1 ∉ s.stashIds) root removed' [] := by
  induction fuel with
  | zero =>
    intro work s₁ removed hp hprog hcard
    cases work with
    | nil => exact ⟨s₁, removed, rfl, hp, hprog⟩
    | cons n work =>
      have hlt := hprog.card_lt hroot fun n hn => mem_linkedSlots h hn
      omega
  | succ fuel ih =>
    intro work s₁ removed hp hprog hcard
    cases work with
    | nil => exact ⟨s₁, removed, by rw [revokeLoop], hp, hprog⟩
    | cons n work =>
      have hlt := hprog.card_lt hroot fun n hn => mem_linkedSlots h hn
      have hp' := hp.removeCap n
      have hprog' := hprog.pop (nodup_children hp'.ids n) (hp'.mem_children n)
      exact ih hp' hprog' (by omega)

/-- More rounds than the loop needs change nothing. -/
theorem revokeLoop_mono {fuel : Nat} : ∀ {fuel' : Nat} {work : List CapNode} {s s' : Scheduler},
    fuel ≤ fuel' → revokeLoop fuel work s = some s' → revokeLoop fuel' work s = some s' := by
  induction fuel with
  | zero =>
    intro fuel' work s s' _ hrun
    cases work with
    | nil => rwa [revokeLoop] at hrun ⊢
    | cons n work => cases hrun
  | succ fuel ih =>
    intro fuel' work s s' hle hrun
    cases work with
    | nil => rwa [revokeLoop] at hrun ⊢
    | cons n work =>
      obtain ⟨k, rfl⟩ : ∃ k, fuel' = k + 1 := ⟨fuel' - 1, by omega⟩
      rw [revokeLoop] at hrun ⊢
      exact ih (by omega) hrun

/-- What `revoke` is for: the slot and all its descendants are gone, and every
other slot is as it was. -/
structure RevokeComplete (s s' : Scheduler) (root : CapNode) : Prop where
  removed : ∀ t ∈ s'.tasks, ∀ k, Descends s.parentAt (t.id, k) root → t.capTable.get k = none
  unchanged : ∀ n, ¬ Descends s.parentAt n root →
    s'.capAt n = s.capAt n ∧ s'.parentAt n = s.parentAt n

/-- A finished pruning is complete exactly when the scan could see every proper
descendant. -/
theorem revokeComplete_iff (hroot : s.parentAt root ≠ none) (hp : Pruned s s' removed)
    (hprog : Progress s.parentAt (fun c => c.1 ∉ s.stashIds) root removed []) :
    RevokeComplete s s' root ↔ ∀ n, Descends s.parentAt n root → n ≠ root → n.1 ∉ s.stashIds := by
  rw [← found_of_descends_iff]
  constructor
  · intro hc n hn
    by_contra hnf
    -- an unseen descendant has a record, so its slot was held and still is
    have hrec : s.parentAt n ≠ none := by
      rcases Relation.ReflTransGen.cases_head hn with rfl | ⟨m, hm, _⟩
      · exact hroot
      · rw [hm]
        exact Option.some_ne_none m
    obtain ⟨p, hpar⟩ := Option.ne_none_iff_exists'.mp hrec
    obtain ⟨cap, hcap⟩ := capAt_of_parentAt hpar
    have hkept : s'.capAt n = some cap := by
      rw [hp.cap, if_neg fun hmem => hnf ((hprog.mem_removed_iff n).mp hmem), hcap]
    obtain ⟨tbl, htbl, hget⟩ := capAt_eq_some.mp hkept
    obtain ⟨t, ht, hid, rfl⟩ := (capsOf_eq_some hp.ids).mp htbl
    have hgone := hc.removed t ht n.2 (by rw [hid]; exact hn)
    rw [hget] at hgone
    cases hgone
  · intro hall
    have hiff : ∀ n, n ∈ removed ↔ Descends s.parentAt n root := fun n =>
      (hprog.mem_removed_iff n).trans ⟨Found.descends, hall n⟩
    refine ⟨fun t ht k hk => ?_, fun n hn => ?_⟩
    · have hgone := hp.cap (t.id, k)
      rw [if_pos ((hiff _).mpr hk)] at hgone
      rwa [capAt, (capsOf_eq_some hp.ids).mpr ⟨t, ht, rfl, rfl⟩] at hgone
    · have hnot : n ∉ removed := fun hmem => hn ((hiff n).mp hmem)
      rw [hp.cap, hp.parent, if_neg hnot, if_neg hnot]
      exact ⟨rfl, rfl⟩

/-- `revoke` comes to an end, and when it reports success everything under the
revoked slot is gone and the rest is untouched. -/
def RevokesSubtree (s : Scheduler) (revoker target : TaskId) (handle : CapHandle) : Prop :=
  ∃ rounds result s', (∀ fuel ≥ rounds,
      s.revoke fuel revoker target handle = some (result, s')) ∧
    (result = .ok () → RevokeComplete s s' (target, handle))

/-- **Recursive revocation**: `revoke` does its work exactly when, the checks
having passed, no task in `switch_stash` holds a slot derived from the target. -/
theorem revoke_complete_iff {s : Scheduler} (h : s.UniqueIds) (revoker target : TaskId)
    (handle : CapHandle) :
    s.RevokesSubtree revoker target handle ↔
      (s.revokeCheck revoker target handle = .ok () →
        ∀ n, Descends s.parentAt n (target, handle) → n ≠ (target, handle) →
          n.1 ∉ s.stashIds) := by
  cases hcheck : s.revokeCheck revoker target handle with
  | error e =>
    have hfail : ∀ fuel, s.revoke fuel revoker target handle = some (.error e, s) := by
      intro fuel
      rw [revoke, hcheck]
    simp only [reduceCtorEq, false_implies, iff_true]
    exact ⟨0, .error e, s, fun fuel _ => hfail fuel, fun hok => by cases hok⟩
  | ok _ =>
    obtain ⟨p, hp, _⟩ := (revokeCheck_eq_ok (n := (target, handle))).mp hcheck
    have hroot : s.parentAt (target, handle) ≠ none := by
      rw [hp]
      exact Option.some_ne_none p
    obtain ⟨s', removed, hloop, hpr, hprog⟩ := revokeLoop_spec h hroot s.linkedSlots.card
      (Pruned.refl h) Progress.init (by rw [Finset.sdiff_empty])
    have hrun : ∀ fuel ≥ s.linkedSlots.card,
        s.revoke fuel revoker target handle = some (.ok (), s') := by
      intro fuel hfuel
      rw [revoke, hcheck, revokeLoop_mono hfuel hloop]
      rfl
    rw [← revokeComplete_iff hroot hpr hprog]
    constructor
    · rintro ⟨rounds, result, s₁, hres, hc⟩
      have heq := (hres _ (le_max_left rounds s.linkedSlots.card)).symm.trans
        (hrun _ (le_max_right _ _))
      simp only [Option.some.injEq, Prod.mk.injEq] at heq
      obtain ⟨rfl, rfl⟩ := heq
      exact fun _ => hc rfl
    · exact fun hc => ⟨s.linkedSlots.card, .ok (), s', hrun, fun _ => hc rfl⟩

/-! ### A descendant in the stash

Task 1 granted its GPU cap to task 2, which passed it on to task 3. Task 3 has
just blocked on CPU 1: its incoming task runs already, but until
`finish_task_switch` task 3 is in `switch_stash`. -/

/-- A cap table with one GPU cap, kernel-minted or granted. -/
def gpuTable (record : Option GrantRecord) : CapTable :=
  match record with
  | none => (CapTable.new.insertRoot (.gpu 0 Rights.all)).2
  | some g => (CapTable.new.insertDerived (.gpu 0 Rights.all) g).2

def gpuTask (id : TaskId) (record : Option GrantRecord) : Task :=
  { Task.new id (0x10000 * id) none with capTable := gpuTable record }

/-- The chain 1 → 2 → 3, with task 3 asleep (`stashed = false`) or on its way
there. -/
def gpuChain (stashed : Bool) : Scheduler :=
  let t₃ := { gpuTask 3 (some ⟨2, 1⟩) with state := .blockedOnReceive 7 }
  { Scheduler.new with
    currentTask := fun c => if c = 0 then some (gpuTask 1 none) else none
    runqueues := fun c => if c = 0 then ⟨[], [], [gpuTask 2 (some ⟨1, 1⟩)]⟩ else ⟨[], [], []⟩
    switchStash := fun c => if c = 1 ∧ stashed then some t₃ else none
    blockedTasks := if stashed then [] else [t₃] }

theorem gpuChain_uniqueIds (stashed : Bool) : (gpuChain stashed).UniqueIds := by
  have hids : (gpuChain stashed).tasks.map (·.id) =
      if stashed then [1, 3, 2] else [1, 2, 3] := by
    cases stashed <;> decide
  rw [UniqueIds, hids]
  cases stashed <;> decide

/-- Task 1 revokes what it granted to task 2, with success; task 3 keeps the cap
it got from task 2. -/
theorem revoke_misses_stash :
    (gpuChain true).UniqueIds ∧ ∃ s', (gpuChain true).revoke 2 1 2 1 = some (.ok (), s') ∧
      ¬ RevokeComplete (gpuChain true) s' (2, 1) := by
  have hrun : ((gpuChain true).revoke 2 1 2 1).map (fun r => (r.1.isOk,
      r.2.tasks.any fun t => t.id = 3 ∧ (t.capTable.get 1).isSome)) = some (true, true) := by
    decide
  obtain ⟨⟨result, s'⟩, hrev, hval⟩ := Option.map_eq_some_iff.mp hrun
  simp only [Prod.mk.injEq, List.any_eq_true, decide_eq_true_eq] at hval
  obtain ⟨hok, t, ht, hid, hget⟩ := hval
  refine ⟨gpuChain_uniqueIds true, s', ?_, fun hc => ?_⟩
  · cases result with
    | error e => cases hok
    | ok _ => exact hrev
  · have hchain : Descends (gpuChain true).parentAt (t.id, 1) (2, 1) := by
      rw [hid]
      exact Relation.ReflTransGen.single (by decide)
    rw [hc.removed t ht 1 hchain] at hget
    cases hget

/-- With task 3 in `blocked_tasks` the same call reaches it. -/
theorem revoke_complete_iff_asleep : (gpuChain false).RevokesSubtree 1 2 1 := by
  refine (revoke_complete_iff (gpuChain_uniqueIds false) 1 2 1).mpr fun _ n _ _ => ?_
  have hnone : (gpuChain false).stashIds = [] := by decide
  rw [hnone]
  exact List.not_mem_nil

end Scheduler

end AthenaOS
