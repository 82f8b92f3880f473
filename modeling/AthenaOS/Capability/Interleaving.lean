import AthenaOS.Lib.Machine
import AthenaOS.Capability.Revocation

/-!
# Grant and revoke on several CPUs

`grant` checks the source slot in one critical section and inserts the child in
another; `revoke` alternates removals and children scans. Here every section is
one step and any number of calls, one per CPU, take their steps in any order.
-/

namespace AthenaOS

open Lib Lib.Forest

/-- Where the call running on a CPU stands. -/
inductive CallPc where
  | idle
  /-- `grant` has passed its checks and is about to insert. -/
  | inserting (granterId : TaskId) (srcHandle : CapHandle) (targetId : TaskId) (derived : Cap)
  /-- `revoke` is at the head of its loop. -/
  | removing (toRevoke : List CapNode)
  /-- `revoke` has removed `n` and is about to list its children. -/
  | scanning (n : CapNode) (toRevoke : List CapNode)
  deriving DecidableEq

/-- The slots a call still has on its list. -/
def CallPc.listed : CallPc → List CapNode
  | idle | inserting .. => []
  | removing toRevoke => toRevoke
  | scanning n toRevoke => n :: toRevoke

structure CallState where
  sched : Scheduler
  pc : Cpu → CallPc
  /-- The slots on which some `revoke` executed `remove`. -/
  revoked : List CapNode

inductive CallLabel where
  | grantCheck (cpu : Cpu) (granterId : TaskId) (srcHandle : CapHandle) (targetId : TaskId)
      (derived : Cap)
  | grantInsert (cpu : Cpu)
  | revokeCheck (cpu : Cpu) (revokerId targetId : TaskId) (targetHandle : CapHandle)
  | revokeRemove (cpu : Cpu)
  | revokeScan (cpu : Cpu)
  /-- The worklist is empty: `revoke` returns Ok. -/
  | revokeReturn (cpu : Cpu)
  /-- Tasks move between `current_task`, the runqueues and `blocked_tasks`. -/
  | reschedule

namespace CallState

def setPc (st : CallState) (cpu : Cpu) (pc : CallPc) : CallState :=
  { st with pc := Function.update st.pc cpu pc }

/-- Remove one slot and note that it was revoked. -/
def revokeSlot (st : CallState) (n : CapNode) : CallState :=
  { st with sched := st.sched.removeCap n, revoked := n :: st.revoked }

/-- One critical section. A failed check returns to the caller at once. -/
def exec (st : CallState) : CallLabel → Option CallState
  | .grantCheck cpu g src target d =>
    match st.pc cpu with
    | .idle =>
      match st.sched.grantCheck g src d with
      | .ok () => some (st.setPc cpu (.inserting g src target d))
      | .error _ => some st
    | _ => none
  | .grantInsert cpu =>
    match st.pc cpu with
    | .inserting g src target d =>
      some ({ st with sched := (st.sched.grantInsert g src target d).2 }.setPc cpu .idle)
    | _ => none
  | .revokeCheck cpu revoker target h =>
    match st.pc cpu with
    | .idle =>
      match st.sched.revokeCheck revoker target h with
      | .ok () => some (st.setPc cpu (.removing [(target, h)]))
      | .error _ => some st
    | _ => none
  | .revokeRemove cpu =>
    match st.pc cpu with
    | .removing (n :: toRevoke) =>
      some ((st.revokeSlot n).setPc cpu (.scanning n toRevoke))
    | _ => none
  | .revokeScan cpu =>
    match st.pc cpu with
    | .scanning n toRevoke =>
      some (st.setPc cpu (.removing ((st.sched.findCapChildren n.1 n.2).reverse ++ toRevoke)))
    | _ => none
  | .revokeReturn cpu =>
    match st.pc cpu with
    | .removing [] => some (st.setPc cpu .idle)
    | _ => none
  | .reschedule => none

/-- The slot is on the worklist of a running `revoke`. -/
def Listed (st : CallState) (n : CapNode) : Prop := ∃ cpu, n ∈ (st.pc cpu).listed

instance (st : CallState) (n : CapNode) : Decidable (st.Listed n) :=
  inferInstanceAs (Decidable (∃ cpu, n ∈ (st.pc cpu).listed))

/-- All calls have returned. -/
def Quiescent (st : CallState) : Prop := ∀ cpu, st.pc cpu = .idle

instance (st : CallState) : Decidable st.Quiescent :=
  inferInstanceAs (Decidable (∀ cpu, st.pc cpu = .idle))

/-- No table holds a revoked slot or anything derived from one. -/
def NoRevokedDerivation (st : CallState) : Prop :=
  ∀ n ∈ st.revoked, ∀ m c, st.sched.capAt m = some c → ¬ Descends st.sched.parentAt m n

end CallState

/-- All interleavings of calls, from any tables, with no task in the stash. -/
def callMachine : Machine CallState CallLabel where
  init st := st.sched.UniqueIds ∧ st.sched.stashIds = [] ∧ st.Quiescent ∧ st.revoked = []
  step st l st' := st.exec l = some st' ∨
    l = .reschedule ∧ st'.pc = st.pc ∧ st'.revoked = st.revoked ∧
      st'.sched.capsOf = st.sched.capsOf ∧ st'.sched.UniqueIds ∧ st'.sched.stashIds = []

/-- The insertion of a `grant` comes in time: its source is still held, or a
running `revoke` has yet to scan it. -/
def InsertInTime (st : CallState) : CallLabel → Prop
  | .grantInsert cpu =>
    match st.pc cpu with
    | .inserting g src _ _ => st.sched.capAt (g, src) ≠ none ∨ st.Listed (g, src)
    | _ => True
  | _ => True

instance (st : CallState) (l : CallLabel) : Decidable (InsertInTime st l) :=
  match l with
  | .grantInsert cpu =>
    match hpc : st.pc cpu with
    | .inserting g src _ _ =>
      decidable_of_iff (st.sched.capAt (g, src) ≠ none ∨ st.Listed (g, src))
        (by rw [InsertInTime, hpc])
    | .idle | .removing _ | .scanning _ _ => isTrue (by rw [InsertInTime, hpc]; trivial)
  | .grantCheck .. | .revokeCheck .. | .revokeRemove _ | .revokeScan _ | .revokeReturn _
  | .reschedule => isTrue trivial

/-! ## The invariant -/

/-- What the interleavings keep. -/
structure ChaseInv (st : CallState) : Prop where
  ids : st.sched.UniqueIds
  noStash : st.sched.stashIds = []
  /-- A revoked slot is empty. -/
  gone : ∀ n ∈ st.revoked, st.sched.capAt n = none
  /-- Handles that were revoked, or are about to be, are used up. -/
  used : ∀ n, n ∈ st.revoked ∨ st.Listed n → ∀ k, st.sched.nextAt n.1 = some k → n.2 < k
  scanned : ∀ cpu n toRevoke, st.pc cpu = .scanning n toRevoke → n ∈ st.revoked
  /-- A record naming a revoked slot has an end on some worklist. -/
  chased : ∀ n ∈ st.revoked, ∀ c, st.sched.parentAt c = some n → st.Listed n ∨ st.Listed c

namespace CallState

theorem pc_setPc_self (st : CallState) (cpu : Cpu) (pc : CallPc) :
    (st.setPc cpu pc).pc cpu = pc := Function.update_self ..

variable {st : CallState} {cpu : Cpu} {pc : CallPc} {n : CapNode}

theorem pc_setPc_of_ne {cpu' : Cpu} (h : cpu' ≠ cpu) :
    (st.setPc cpu pc).pc cpu' = st.pc cpu' := Function.update_of_ne h ..

theorem listed_setPc :
    (st.setPc cpu pc).Listed n ↔ n ∈ pc.listed ∨ ∃ cpu', cpu' ≠ cpu ∧ n ∈ (st.pc cpu').listed := by
  constructor
  · rintro ⟨cpu', hn⟩
    by_cases hcpu : cpu' = cpu
    · subst hcpu
      rw [pc_setPc_self] at hn
      exact Or.inl hn
    · rw [pc_setPc_of_ne hcpu] at hn
      exact Or.inr ⟨cpu', hcpu, hn⟩
  · rintro (hn | ⟨cpu', hcpu, hn⟩)
    · exact ⟨cpu, by rwa [pc_setPc_self]⟩
    · exact ⟨cpu', by rwa [pc_setPc_of_ne hcpu]⟩

/-- Moving one CPU on to a step with at least the same list loses nothing. -/
theorem listed_setPc_of_subset (hsub : ∀ n ∈ (st.pc cpu).listed, n ∈ pc.listed) (hn : st.Listed n) :
    (st.setPc cpu pc).Listed n := by
  obtain ⟨cpu', hn⟩ := hn
  rw [listed_setPc]
  by_cases hcpu : cpu' = cpu
  · subst hcpu
    exact Or.inl (hsub n hn)
  · exact Or.inr ⟨cpu', hcpu, hn⟩

/-- Moving one CPU on lists nothing but what its new step lists. -/
theorem listed_of_setPc (hn : (st.setPc cpu pc).Listed n) : n ∈ pc.listed ∨ st.Listed n := by
  rcases listed_setPc.mp hn with hn | ⟨cpu', _, hn⟩
  · exact Or.inl hn
  · exact Or.inr ⟨cpu', hn⟩

end CallState

namespace ChaseInv

open CallState

variable {st : CallState} {cpu : Cpu}

variable {n : CapNode} {toRevoke : List CapNode}

/-- A revoked slot has no record. -/
theorem parentAt_eq_none (h : ChaseInv st) (hn : n ∈ st.revoked) : st.sched.parentAt n = none := by
  cases hp : st.sched.parentAt n with
  | none => rfl
  | some p =>
    obtain ⟨c, hc⟩ := Scheduler.capAt_of_parentAt hp
    rw [h.gone n hn] at hc
    cases hc

/-- Moving a CPU to a step that is not a scan and lists the same slots. -/
theorem setPc (h : ChaseInv st) {pc : CallPc} (hlist : (st.pc cpu).listed = pc.listed)
    (hscan : ∀ n toRevoke, pc ≠ .scanning n toRevoke) : ChaseInv (st.setPc cpu pc) where
  ids := h.ids
  noStash := h.noStash
  gone := h.gone
  used n hn := by
    refine h.used n (hn.imp_right fun hn => ?_)
    rcases listed_of_setPc hn with hn | hn
    · exact ⟨cpu, hlist ▸ hn⟩
    · exact hn
  scanned cpu' n toRevoke hpc := by
    by_cases hcpu : cpu' = cpu
    · subst hcpu
      rw [pc_setPc_self] at hpc
      exact absurd hpc (hscan n toRevoke)
    · rw [pc_setPc_of_ne hcpu] at hpc
      exact h.scanned cpu' n toRevoke hpc
  chased n hn c hp := by
    have hkeep : ∀ m, st.Listed m → (st.setPc cpu pc).Listed m := fun m hm =>
      listed_setPc_of_subset (fun k hk => hlist ▸ hk) hm
    exact (h.chased n hn c hp).imp (hkeep n) (hkeep c)

/-- Inserting a child whose source is still held or still listed. -/
theorem insert (h : ChaseInv st) {g target : TaskId} {src : CapHandle} {d : Cap}
    (hsrc : st.sched.capAt (g, src) ≠ none ∨ st.Listed (g, src)) :
    ChaseInv { st with sched := (st.sched.grantInsert g src target d).2 } := by
  rcases Scheduler.grantInsert_spec h.ids g src target d with
    ⟨_, hres⟩ | ⟨tbl, s', htbl, hres, hcaps, hids, hstash⟩
  · rw [hres]
    exact h
  rw [hres]
  have hnext : st.sched.nextAt target = some tbl.next := by
    rw [Scheduler.nextAt, htbl, Option.map_some]
  refine ⟨hids, hstash.trans h.noStash, fun n hn => ?_, fun n hn k hk => ?_, h.scanned,
    fun n hn c hp => ?_⟩
  · -- the new handle was never revoked
    have hne : n ≠ (target, tbl.next) := by
      rintro rfl
      exact absurd (h.used _ (Or.inl hn) _ hnext) (lt_irrefl _)
    show s'.capAt n = none
    rw [Scheduler.capAt_grantInsert htbl hcaps, if_neg hne]
    exact h.gone n hn
  · change s'.nextAt n.1 = some k at hk
    rw [Scheduler.nextAt_grantInsert htbl hcaps] at hk
    split at hk
    · rename_i hid
      rw [← Option.some.inj hk]
      exact Nat.lt_succ_of_lt (h.used n hn _ (by rw [hid]; exact hnext))
    · exact h.used n hn k hk
  · change s'.parentAt c = some n at hp
    rw [Scheduler.parentAt_grantInsert htbl hcaps] at hp
    split at hp
    · -- the new record: if its source is revoked, a scan of it is still to come
      rw [Option.some.injEq] at hp
      subst hp
      rcases hsrc with hheld | hlisted
      · exact absurd (h.gone _ hn) hheld
      · exact Or.inl hlisted
    · exact h.chased n hn c hp

/-- `revoke` starts on a slot that has a record. -/
theorem startRevoke (h : ChaseInv st) (hidle : st.pc cpu = .idle) {n p : CapNode}
    (hp : st.sched.parentAt n = some p) : ChaseInv (st.setPc cpu (.removing [n])) where
  ids := h.ids
  noStash := h.noStash
  gone := h.gone
  used m hm k hk := by
    by_cases hmn : m = n
    · subst hmn
      obtain ⟨c, hc⟩ := Scheduler.capAt_of_parentAt hp
      exact Scheduler.lt_of_capAt hc hk
    · refine h.used m (hm.imp_right fun hm => ?_) k hk
      exact (listed_of_setPc hm).resolve_left fun hm => hmn (List.mem_singleton.mp hm)
  scanned cpu' m toRevoke hpc := by
    by_cases hcpu : cpu' = cpu
    · subst hcpu
      rw [pc_setPc_self] at hpc
      cases hpc
    · rw [pc_setPc_of_ne hcpu] at hpc
      exact h.scanned cpu' m toRevoke hpc
  chased m hm c hc := by
    have hkeep : ∀ k, st.Listed k → (st.setPc cpu (.removing [n])).Listed k := fun k hk =>
      listed_setPc_of_subset (fun j hj => by rw [hidle] at hj; cases hj) hk
    exact (h.chased m hm c hc).imp (hkeep m) (hkeep c)

/-- Popping a slot and removing it: the slot stays listed until its scan. -/
theorem remove (h : ChaseInv st) (hpc : st.pc cpu = .removing (n :: toRevoke)) :
    ChaseInv ((st.revokeSlot n).setPc cpu (.scanning n toRevoke)) := by
  have hlisted : ∀ m, ((st.revokeSlot n).setPc cpu (.scanning n toRevoke)).Listed m ↔
      st.Listed m := by
    intro m
    rw [listed_setPc]
    constructor
    · rintro (hm | ⟨cpu', _, hm⟩)
      · exact ⟨cpu, by rw [hpc]; exact hm⟩
      · exact ⟨cpu', hm⟩
    · rintro ⟨cpu', hm⟩
      by_cases hcpu : cpu' = cpu
      · subst hcpu
        rw [hpc] at hm
        exact Or.inl hm
      · exact Or.inr ⟨cpu', hcpu, hm⟩
  have hn : st.Listed n := ⟨cpu, by rw [hpc]; exact List.mem_cons_self⟩
  refine ⟨(Scheduler.removeCap_spec h.ids n).2.1,
    (Scheduler.removeCap_spec h.ids n).2.2.trans h.noStash, fun m hm => ?_, fun m hm k hk => ?_,
    fun cpu' m rest hpc' => ?_, fun m hm c hc => ?_⟩
  · show (st.sched.removeCap n).capAt m = none
    rw [Scheduler.capAt_removeCap h.ids]
    split
    · rfl
    · rename_i hne
      exact h.gone m ((List.mem_cons.mp hm).resolve_left hne)
  · change (st.sched.removeCap n).nextAt m.1 = some k at hk
    rw [Scheduler.nextAt_removeCap h.ids] at hk
    rw [hlisted] at hm
    rcases hm with hm | hm
    · rcases List.mem_cons.mp hm with rfl | hm
      · exact h.used m (Or.inr hn) k hk
      · exact h.used m (Or.inl hm) k hk
    · exact h.used m (Or.inr hm) k hk
  · by_cases hcpu : cpu' = cpu
    · subst hcpu
      rw [pc_setPc_self] at hpc'
      obtain ⟨rfl, -⟩ := CallPc.scanning.inj hpc'
      exact List.mem_cons_self
    · rw [pc_setPc_of_ne hcpu] at hpc'
      exact List.mem_cons_of_mem _ (h.scanned cpu' m rest hpc')
  · change (st.sched.removeCap n).parentAt c = some m at hc
    rw [Scheduler.parentAt_removeCap h.ids] at hc
    rw [hlisted, hlisted]
    split at hc
    · cases hc
    · rcases List.mem_cons.mp hm with rfl | hm
      · exact Or.inl hn
      · exact h.chased m hm c hc

/-- Listing the children of a removed slot: every record naming it is found. -/
theorem scan (h : ChaseInv st) (hpc : st.pc cpu = .scanning n toRevoke) :
    ChaseInv (st.setPc cpu
      (.removing ((st.sched.findCapChildren n.1 n.2).reverse ++ toRevoke))) := by
  have hchild : ∀ c, c ∈ st.sched.findCapChildren n.1 n.2 ↔ st.sched.parentAt c = some n := by
    intro c
    rw [Scheduler.mem_children h.ids, h.noStash]
    simp
  have hrev := h.scanned cpu n toRevoke hpc
  -- only `n` leaves the lists
  have hkeep : ∀ m, m ≠ n → st.Listed m → (st.setPc cpu
      (.removing ((st.sched.findCapChildren n.1 n.2).reverse ++ toRevoke))).Listed m := by
    rintro m hne ⟨cpu', hm⟩
    rw [listed_setPc]
    by_cases hcpu : cpu' = cpu
    · subst hcpu
      rw [hpc] at hm
      exact Or.inl (List.mem_append_right _ ((List.mem_cons.mp hm).resolve_left hne))
    · exact Or.inr ⟨cpu', hcpu, hm⟩
  refine ⟨h.ids, h.noStash, h.gone, fun m hm k hk => ?_, fun cpu' m rest hpc' => ?_,
    fun m hm c hc => ?_⟩
  · rcases hm with hm | hm
    · exact h.used m (Or.inl hm) k hk
    · rcases listed_of_setPc hm with hm | hm
      · rcases List.mem_append.mp hm with hm | hm
        · obtain ⟨cap, hcap⟩ := Scheduler.capAt_of_parentAt
            ((hchild m).mp (List.mem_reverse.mp hm))
          exact Scheduler.lt_of_capAt hcap hk
        · exact h.used m (Or.inr ⟨cpu, by rw [hpc]; exact List.mem_cons_of_mem n hm⟩) k hk
      · exact h.used m (Or.inr hm) k hk
  · by_cases hcpu : cpu' = cpu
    · subst hcpu
      rw [pc_setPc_self] at hpc'
      cases hpc'
    · rw [pc_setPc_of_ne hcpu] at hpc'
      exact h.scanned cpu' m rest hpc'
  · by_cases hmn : m = n
    · subst hmn
      refine Or.inr (listed_setPc.mpr (Or.inl (List.mem_append_left _ ?_)))
      exact List.mem_reverse.mpr ((hchild c).mpr hc)
    · have hcn : c ≠ n := by
        rintro rfl
        change st.sched.parentAt c = some m at hc
        rw [h.parentAt_eq_none hrev] at hc
        cases hc
      exact (h.chased m hm c hc).imp (hkeep m hmn) (hkeep c hcn)

theorem init (h : callMachine.init st) : ChaseInv st := by
  obtain ⟨hids, hstash, hidle, hrev⟩ := h
  have hnone : ∀ n, ¬ st.Listed n := by
    rintro n ⟨cpu, hn⟩
    rw [hidle cpu] at hn
    cases hn
  refine ⟨hids, hstash, fun n hn => ?_, fun n hn => ?_, fun cpu n _ hpc => ?_, fun n hn => ?_⟩
  · rw [hrev] at hn
    cases hn
  · rcases hn with hn | hn
    · rw [hrev] at hn
      cases hn
    · exact absurd hn (hnone n)
  · rw [hidle cpu] at hpc
    cases hpc
  · rw [hrev] at hn
    cases hn

/-- Every section whose insertions come in time keeps the invariant. -/
theorem step {st' : CallState} {l : CallLabel} (h : ChaseInv st) (hg : InsertInTime st l)
    (hstep : callMachine.step st l st') : ChaseInv st' := by
  rcases hstep with hexec | ⟨rfl, hpc, hrev, hcaps, hids, hstash⟩
  · cases l with
    | grantCheck cpu g src target d =>
      simp only [exec] at hexec
      split at hexec
      · rename_i hidle
        split at hexec
        · rw [← Option.some.inj hexec]
          exact h.setPc (by rw [hidle]; rfl) (fun _ _ => CallPc.noConfusion)
        · rw [← Option.some.inj hexec]
          exact h
      · cases hexec
    | grantInsert cpu =>
      simp only [exec] at hexec
      split at hexec
      · rename_i g src target d hpc
        rw [InsertInTime, hpc] at hg
        rw [← Option.some.inj hexec]
        refine (h.insert hg).setPc ?_ (fun _ _ => CallPc.noConfusion)
        show (st.pc cpu).listed = _
        rw [hpc]
        rfl
      · cases hexec
    | revokeCheck cpu revoker target handle =>
      simp only [exec] at hexec
      split at hexec
      · rename_i hidle
        split at hexec
        · rename_i hcheck
          obtain ⟨p, hp, _⟩ := (Scheduler.revokeCheck_eq_ok (n := (target, handle))).mp hcheck
          rw [← Option.some.inj hexec]
          exact h.startRevoke hidle hp
        · rw [← Option.some.inj hexec]
          exact h
      · cases hexec
    | revokeRemove cpu =>
      simp only [exec] at hexec
      split at hexec
      · rename_i hpc
        rw [← Option.some.inj hexec]
        exact h.remove hpc
      · cases hexec
    | revokeScan cpu =>
      simp only [exec] at hexec
      split at hexec
      · rename_i hpc
        rw [← Option.some.inj hexec]
        exact h.scan hpc
      · cases hexec
    | revokeReturn cpu =>
      simp only [exec] at hexec
      split at hexec
      · rename_i hpc
        rw [← Option.some.inj hexec]
        exact h.setPc (by rw [hpc]; rfl) (fun _ _ => CallPc.noConfusion)
      · cases hexec
    | reschedule => cases hexec
  · have hlisted : ∀ n, st'.Listed n ↔ st.Listed n := fun n => by rw [Listed, hpc, Listed]
    refine ⟨hids, hstash, ?_, ?_, ?_, ?_⟩
    · rw [hrev, Scheduler.capAt_congr hcaps]
      exact h.gone
    · simp only [hrev, hlisted, Scheduler.nextAt, hcaps]
      exact h.used
    · rw [hpc, hrev]
      exact h.scanned
    · simp only [hrev, hlisted, Scheduler.parentAt_congr hcaps]
      exact h.chased

/-- With all calls returned, no record names a revoked slot, so no chain of
records ends in one. -/
theorem noRevokedDerivation (h : ChaseInv st) (hq : st.Quiescent) : st.NoRevokedDerivation := by
  have hnone : ∀ n, ¬ st.Listed n := by
    rintro n ⟨cpu, hn⟩
    rw [hq cpu] at hn
    cases hn
  intro n hn m c hc hchain
  rcases Relation.ReflTransGen.cases_tail hchain with rfl | ⟨k, _, hk⟩
  · rw [h.gone n hn] at hc
    cases hc
  · rcases h.chased n hn k hk with hl | hl
    · exact hnone n hl
    · exact hnone k hl

end ChaseInv

/-- **Grants and revokes interleave safely** as long as no insertion comes too
late: once all calls have returned, no table holds anything derived from a
revoked slot. -/
theorem noRevokedDerivation_of_run {st : CallState} (hrun : callMachine.Run InsertInTime st)
    (hq : st.Quiescent) : st.NoRevokedDerivation := by
  have hinv : ChaseInv st := hrun.invariant (fun _ => ChaseInv.init)
    fun _ _ _ hs hg hstep => hs.step hg hstep
  exact hinv.noRevokedDerivation hq

/-! ### An insertion that comes too late

Task 1 granted its GPU cap to task 2. On CPU 0 task 2 passes it on to task 3
while on CPU 1 task 1 takes it back. -/

def raceStart : CallState where
  sched :=
    { Scheduler.new with
      currentTask := fun c =>
        if c = 0 then some (Scheduler.gpuTask 2 (some ⟨1, 1⟩))
        else if c = 1 then some (Scheduler.gpuTask 1 none)
        else none
      blockedTasks := [Task.new 3 0x30000 none] }
  pc _ := .idle
  revoked := []

theorem raceStart_init : callMachine.init raceStart := by
  refine ⟨?_, by decide, fun _ => rfl, rfl⟩
  have hids : raceStart.sched.tasks.map (·.id) = [2, 1, 3] := by decide
  rw [Scheduler.UniqueIds, hids]
  decide

/-- The revoke runs to its end between the two sections of the grant. -/
def lateGrant : List CallLabel :=
  [.grantCheck 0 2 1 3 (.gpu 0 Rights.all), .revokeCheck 1 1 2 1, .revokeRemove 1,
    .revokeScan 1, .revokeReturn 1, .grantInsert 0]

/-- All calls have returned, and task 3 holds a cap derived from the revoked one. -/
theorem lateGrant_survives :
    ∃ st, callMachine.Reachable st ∧ st.Quiescent ∧ ¬ st.NoRevokedDerivation := by
  have hrun : (replay CallState.exec raceStart lateGrant).map (fun st =>
      (decide st.Quiescent, st.revoked, st.sched.capAt (3, 1), st.sched.parentAt (3, 1))) =
      some (true, [(2, 1)], some (.gpu 0 Rights.all), some (2, 1)) := by
    decide
  obtain ⟨st, hst, hval⟩ := Option.map_eq_some_iff.mp hrun
  simp only [Prod.mk.injEq, decide_eq_true_eq] at hval
  obtain ⟨hq, hrev, hcap, hpar⟩ := hval
  refine ⟨st, ?_, hq, fun hnone => ?_⟩
  · exact Machine.Run.replay (fun _ _ _ h => ⟨trivial, Or.inl h⟩) (.start raceStart_init) hst
  · refine hnone (2, 1) (by rw [hrev]; exact List.mem_singleton_self _) (3, 1) _ hcap ?_
    exact Relation.ReflTransGen.single hpar

/-- The same calls with the insertion before the revoke's first removal. -/
def grantInTime : List CallLabel :=
  [.grantCheck 0 2 1 3 (.gpu 0 Rights.all), .revokeCheck 1 1 2 1, .grantInsert 0,
    .revokeRemove 1, .revokeScan 1, .revokeRemove 1, .revokeScan 1, .revokeReturn 1]

theorem noRevokedDerivation_of_run_inTime :
    ∃ st, callMachine.Run InsertInTime st ∧ st.Quiescent ∧
      st.revoked = [(3, 1), (2, 1)] ∧ st.NoRevokedDerivation := by
  have hrun : (replay (fun st l => if InsertInTime st l then st.exec l else none) raceStart
      grantInTime).map (fun st => (decide st.Quiescent, st.revoked)) =
      some (true, [(3, 1), (2, 1)]) := by
    decide
  obtain ⟨st, hst, hval⟩ := Option.map_eq_some_iff.mp hrun
  simp only [Prod.mk.injEq, decide_eq_true_eq] at hval
  have hguarded : callMachine.Run InsertInTime st := by
    refine Machine.Run.replay (fun s l s' h => ?_) (.start raceStart_init) hst
    split at h
    · rename_i hg
      exact ⟨hg, Or.inl h⟩
    · cases h
  exact ⟨st, hguarded, hval.1, hval.2, noRevokedDerivation_of_run hguarded hval.1⟩

end AthenaOS
