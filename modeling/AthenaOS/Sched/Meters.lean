import AthenaOS.Sched.Lifecycle
import AthenaOS.Sched.Pick

/-!
# Which calls pick, and what the others leave alone

Two counters of the scheduler bound what `pick_next` may return over a whole
run: `dl_starve_streak` and the game-mode budget. Only `pick_next` and the tick
of a yield write them. This file says so for every scheduler call.
-/

namespace AthenaOS

namespace Scheduler

/-- The streaks and the game-mode budget are the same. -/
structure SameMeters (s s' : Scheduler) : Prop where
  streak : s'.dlStarveStreak = s.dlStarveStreak
  gameMode : s'.gameMode = s.gameMode

theorem SameMeters.refl (s : Scheduler) : SameMeters s s := ⟨rfl, rfl⟩

variable {s s' s'' : Scheduler} {env : SchedEnv} {cpu : Cpu}

theorem SameMeters.trans (h : SameMeters s s') (h' : SameMeters s' s'') : SameMeters s s'' :=
  ⟨h'.streak.trans h.streak, h'.gameMode.trans h.gameMode⟩

/-- The same, from a state with other tasks but the same counters. -/
theorem SameMeters.after (h : SameMeters s' s'') (hstreak : s'.dlStarveStreak = s.dlStarveStreak)
    (hmode : s'.gameMode = s.gameMode) : SameMeters s s'' :=
  SameMeters.trans ⟨hstreak, hmode⟩ h

/-! ## The calls that do not pick -/

theorem sameMeters_enqueue (env : SchedEnv) (s : Scheduler) (t : Task) :
    SameMeters s (s.enqueue env t) := by
  unfold enqueue
  split
  · exact ⟨rfl, rfl⟩
  · dsimp only
    split
    · exact ⟨rfl, rfl⟩
    · split
      · exact ⟨rfl, rfl⟩
      · exact ⟨rfl, rfl⟩

theorem sameMeters_enqueueReady (env : SchedEnv) (woken : List Task) (s : Scheduler) :
    SameMeters s (woken.foldl (fun s t => s.enqueue env { t with state := .ready }) s) := by
  induction woken generalizing s with
  | nil => exact SameMeters.refl s
  | cons t ts ih =>
    rw [List.foldl_cons]
    exact (sameMeters_enqueue env s _).trans (ih _)

theorem sameMeters_wakeFiled (env : SchedEnv) (s : Scheduler) (state : TaskState) :
    SameMeters s (s.wakeFiled env state) :=
  (sameMeters_enqueueReady env _ _).after rfl rfl

theorem sameMeters_unblock (env : SchedEnv) (s : Scheduler) (state : TaskState) :
    SameMeters s (s.unblock env state) := by
  rw [unblock_eq_wakeFiled]
  exact (sameMeters_wakeFiled env _ state).after rfl rfl

theorem sameMeters_wakeById {push : Scheduler → Task → Scheduler}
    (hpush : ∀ s t, SameMeters s (push s t)) (id : TaskId) : SameMeters s (s.wakeById id push) := by
  unfold wakeById
  dsimp only
  split
  · split
    · exact (hpush _ _).after rfl rfl
    · exact ⟨rfl, rfl⟩
  · exact ⟨rfl, rfl⟩

theorem sameMeters_finishTaskSwitch (env : SchedEnv) (s : Scheduler) (cpu : Cpu) :
    SameMeters s (s.finishTaskSwitch env cpu) := by
  unfold finishTaskSwitch
  split
  · exact SameMeters.refl s
  · dsimp only
    split
    · split
      · exact (sameMeters_unblock env _ _).after rfl rfl
      · exact ⟨rfl, rfl⟩
    · split
      · exact ⟨rfl, rfl⟩
      · exact (sameMeters_enqueue env _ _).after rfl rfl

theorem sameMeters_killRunning (env : SchedEnv) (cpu : Cpu) (id : TaskId) :
    ∀ (cpus : List Cpu) (killCurrent : Bool) (s : Scheduler),
      SameMeters s (killRunning env cpu id cpus killCurrent s).2.2
  | [], _, s => SameMeters.refl s
  | i :: is, killCurrent, s => by
    unfold killRunning
    split
    · exact sameMeters_killRunning env cpu id is killCurrent s
    · split
      · dsimp only
        split
        · exact (sameMeters_unblock env _ _).after rfl rfl
        · exact (sameMeters_killRunning env cpu id is _ _).after rfl rfl
      · exact sameMeters_killRunning env cpu id is killCurrent s

theorem sameMeters_killTask (env : SchedEnv) (s : Scheduler) (cpu : Cpu) (id : TaskId) :
    SameMeters s (s.killTask env cpu id).2 := by
  have hrunning := sameMeters_killRunning env cpu id (List.finRange maxCpus) false s
  unfold killTask
  split
  · next h =>
    rw [h] at hrunning
    exact hrunning
  · next h =>
    rw [h] at hrunning
    exact hrunning
  · next h =>
    rw [h] at hrunning
    split
    · exact hrunning.trans ((sameMeters_unblock env _ _).after rfl rfl)
    · split
      · exact hrunning.trans ((sameMeters_unblock env _ _).after rfl rfl)
      · exact hrunning

theorem sameMeters_tryWaitTask (s : Scheduler) (id : TaskId) :
    SameMeters s (s.tryWaitTask id).2 := by
  unfold tryWaitTask
  split
  · split
    · exact ⟨rfl, rfl⟩
    · exact SameMeters.refl s
  · split
    · exact SameMeters.refl s
    · exact SameMeters.refl s

/-! ## The calls that pick -/

/-- Where a call reaches `pick_next`: the CPU it picks for and the state it is
then in. -/
def pickPoint (env : SchedEnv) (s : Scheduler) : SchedCall → Option (Cpu × Scheduler)
  | .yieldTask cpu => if yieldsEarly env cpu then none else some (cpu, s.yieldPoint env cpu)
  | .blockCurrentTask cpu _ => (s.currentTask cpu).map fun _ => (cpu, s.setCurrent cpu none)
  | .exitCurrentTask cpu code => (s.currentTask cpu).map fun t =>
    (cpu, (s.setCurrent cpu none).setStash cpu (some { t with state := .zombie code }))
  | _ => none

theorem sameMeters_pickOrIdle (env : SchedEnv) (s : Scheduler) (cpu : Cpu) :
    SameMeters (s.pickNext env cpu).2 (s.pickOrIdle env cpu).2 := by
  unfold pickOrIdle orPick
  split
  · exact SameMeters.refl _
  · exact ⟨rfl, rfl⟩

theorem sameMeters_blockCurrentTask {state : TaskState}
    (h : s.blockCurrentTask env cpu state = some s') :
    SameMeters ((s.setCurrent cpu none).pickNext env cpu).2 s' := by
  have hpick := sameMeters_pickOrIdle env (s.setCurrent cpu none) cpu
  unfold blockCurrentTask at h
  split at h
  · cases h
  · dsimp only at h
    split at h
    · cases h
    · next next s₁ hr =>
      rw [hr] at hpick
      split at h
      · rw [Option.some.injEq] at h
        subst h
        exact hpick.trans ⟨rfl, rfl⟩
      · split at h
        · cases h
        · next idle s₂ htaken =>
          have heq : s₂ = (s₁.pushBlocked next).setIdle cpu none :=
            (congrArg Prod.snd htaken).symm
          rw [Option.some.injEq] at h
          subst h heq
          exact hpick.trans ⟨rfl, rfl⟩

theorem sameMeters_exitCurrentTask {code : UInt64} {t : Task} (hcur : s.currentTask cpu = some t)
    (h : s.exitCurrentTask env cpu code = some s') :
    SameMeters (((s.setCurrent cpu none).setStash cpu
      (some { t with state := .zombie code })).pickNext env cpu).2 s' := by
  have hpick := sameMeters_pickOrIdle env ((s.setCurrent cpu none).setStash cpu
    (some { t with state := .zombie code })) cpu
  unfold exitCurrentTask at h
  rw [hcur] at h
  dsimp only at h
  split at h
  · cases h
  · next next s₁ hr =>
    rw [hr] at hpick
    rw [Option.some.injEq] at h
    subst h
    exact hpick.trans ⟨rfl, rfl⟩

end Scheduler

open Scheduler

variable {env : SchedEnv} {s s' : SchedState} {call : SchedCall}

/-- A call that does not pick keeps the counters. -/
theorem call_sameMeters (h : s.call env call = some s')
    (hpoint : pickPoint env s.sched call = none) : SameMeters s.sched s'.sched := by
  have hwith : ∀ {sched : Scheduler}, some (s.withSched sched) = some s' →
      SameMeters s.sched sched → SameMeters s.sched s'.sched := by
    rintro sched heq hsame
    rw [← Option.some.inj heq]
    exact hsame
  cases call with
  | spawn task => exact hwith h ((sameMeters_enqueue env _ _).after rfl rfl)
  | yieldTask cpu =>
    cases hearly : yieldsEarly env cpu with
    | false => simp [pickPoint, hearly] at hpoint
    | true =>
      rw [← Option.some.inj h]
      show SameMeters s.sched (s.sched.yieldTask env cpu)
      rw [yieldTask_of_early hearly]
      exact SameMeters.refl _
  | blockCurrentTask cpu state =>
    have hnone : s.sched.currentTask cpu = none := by simpa [pickPoint] using hpoint
    simp [SchedState.call, Scheduler.blockCurrentTask, hnone] at h
  | finishTaskSwitch cpu =>
    rw [← Option.some.inj h]
    exact sameMeters_finishTaskSwitch env s.sched cpu
  | exitCurrentTask cpu code =>
    have hnone : s.sched.currentTask cpu = none := by simpa [pickPoint] using hpoint
    simp [SchedState.call, Scheduler.exitCurrentTask, hnone] at h
  | killTask cpu id =>
    have hkill := sameMeters_killTask env s.sched cpu id
    rcases hresult : s.sched.killTask env cpu id with ⟨outcome, sched⟩
    rw [hresult] at hkill
    cases outcome with
    | returns ok =>
      simp only [SchedState.call, hresult] at h
      rw [← Option.some.inj h]
      exact hkill
    | exits =>
      simp only [SchedState.call, hresult] at h
      rw [← Option.some.inj h]
      exact hkill
  | tryWaitTask id => exact hwith h (sameMeters_tryWaitTask s.sched id)
  | drainDeadTask => exact hwith h ⟨rfl, rfl⟩
  | unblockReceivers chan => exact hwith h (sameMeters_unblock env s.sched _)
  | unblockSenders chan => exact hwith h (sameMeters_unblock env s.sched _)
  | unblockIrqWaiters vector => exact hwith h (sameMeters_unblock env s.sched _)
  | unblockVirtioWaiters head => exact hwith h ((sameMeters_wakeFiled env _ _).after rfl rfl)
  | unblockFutexWaiter id => exact hwith h (sameMeters_wakeById (sameMeters_enqueue env) id)
  | wakeThread id => exact hwith h (sameMeters_wakeById (sameMeters_enqueue env) id)
  | wakeThreadDirect id =>
    have hpush : ∀ sched t, SameMeters sched (pushGameFront env sched t) := fun _ _ => ⟨rfl, rfl⟩
    exact hwith h (sameMeters_wakeById hpush id)

/-- A call that picks leaves the counters as its one pick leaves them, and comes
to it with the queues and the streaks it started with. -/
theorem call_pickPoint (h : s.call env call = some s') {cpu : Cpu} {p : Scheduler}
    (hpoint : pickPoint env s.sched call = some (cpu, p)) :
    p.runqueues = s.sched.runqueues ∧ p.dlStarveStreak = s.sched.dlStarveStreak ∧
      (p.gameMode = s.sched.gameMode ∨ p.gameMode = s.sched.gameMode.tickOnce) ∧
      SameMeters (p.pickNext env cpu).2 s'.sched := by
  cases call with
  | yieldTask c =>
    cases hearly : yieldsEarly env c with
    | true => simp [pickPoint, hearly] at hpoint
    | false =>
      simp only [pickPoint, hearly, Bool.false_eq_true, if_false, Option.some.injEq,
        Prod.mk.injEq] at hpoint
      obtain ⟨rfl, rfl⟩ := hpoint
      obtain ⟨hqueues, hmode, hstreak⟩ := yieldPoint_meters env s.sched c
      obtain ⟨-, hmode', hstreak'⟩ := yieldTask_meters (s := s.sched) hearly
      rw [← Option.some.inj h]
      exact ⟨hqueues, hstreak, Or.inr hmode, hstreak', hmode'⟩
  | blockCurrentTask c state =>
    obtain ⟨t, -, heq⟩ := Option.map_eq_some_iff.mp hpoint
    rw [Prod.mk.injEq] at heq
    obtain ⟨rfl, rfl⟩ := heq
    obtain ⟨sched, hsched, rfl⟩ := Option.map_eq_some_iff.mp h
    exact ⟨rfl, rfl, Or.inl rfl, sameMeters_blockCurrentTask hsched⟩
  | exitCurrentTask c code =>
    obtain ⟨t, ht, heq⟩ := Option.map_eq_some_iff.mp hpoint
    rw [Prod.mk.injEq] at heq
    obtain ⟨rfl, rfl⟩ := heq
    obtain ⟨sched, hsched, rfl⟩ := Option.map_eq_some_iff.mp h
    exact ⟨rfl, rfl, Or.inl rfl, sameMeters_exitCurrentTask ht hsched⟩
  | _ => cases hpoint

end AthenaOS
