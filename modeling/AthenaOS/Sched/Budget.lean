import AthenaOS.Sched.Conservation
import AthenaOS.Sched.Meters

/-!
# The background budget of game mode (`kernel/src/scheduler.rs`)

While a game has the machine, normal tasks get one pick in `THROTTLE_RATIO`
ticks, over all CPUs together: `pick_next` checks the budget before it looks at
its normal queue and charges each task it takes from there. A task stolen from
another CPU, or a normal one left in a game queue by `set_priority`, passes
without either.
-/

namespace AthenaOS

open Lib Scheduler

def GameModeState.resetCounters (g : GameModeState) : GameModeState :=
  { g with gameTicks := 0, bgTicksAllowed := 0, bgTicksUsed := 0 }

/-- `enter_game_mode`; the `throttled` flags it sets are read by no one. -/
def Scheduler.enterGameMode (s : Scheduler) : Scheduler :=
  { s with gameMode := { s.gameMode with active := true }.resetCounters }

/-! ## Where a normal task can come from -/

/-- Every normal-priority task `pick_next` could return for `cpu` now would come
from the normal queue of `cpu`. -/
structure OnBudget (env : SchedEnv) (s : Scheduler) (cpu : Cpu) : Prop where
  deadline : ∀ t ∈ (s.runqueues cpu).tasksDeadline, t.priority ≠ .normal
  game : ∀ t ∈ (s.runqueues cpu).tasksGame, t.priority ≠ .normal
  stolen : env.workStealing = true → s.localRunnable env cpu = false →
    ∀ i ∈ onlineCpus env, i ≠ cpu → ∀ t ∈ (s.runqueues i).tasksNormal,
      s.stealable cpu t = true → t.priority ≠ .normal

variable {s : Scheduler} {cpu : Cpu} {t : Task} {env : SchedEnv} {normals : Nat}

theorem stealable_of_stealPoint {s₃ : Scheduler} (h : StealPoint s s₃ cpu) (t : Task) :
    s₃.stealable cpu t = s.stealable cpu t := by
  unfold stealable
  rw [h.current, h.stash, h.tick]

theorem mem_of_edfScan {nowUs : Nat} {l : List Task} (h : (edfScan nowUs l).1 = some t) :
    t ∈ l := by
  induction l with
  | nil => cases h
  | cons u us ih =>
    unfold edfScan at h
    split at h
    · split at h
      · exact List.mem_cons.mpr (Or.inl (Option.some.inj h).symm)
      · exact List.mem_cons_of_mem u (ih h)
    · exact List.mem_cons_of_mem u (ih h)

/-- On budget, only the normal class returns a normal task. -/
theorem OnBudget.class_of_normal (h : OnBudget env s cpu) (hpick : (s.pickNext env cpu).1 = some t)
    (ht : t.priority = .normal) : s.pickClass env cpu = some .normal := by
  have hcase := pickCase_pickNext env s cpu
  generalize s.pickClass env cpu = class?, s.pickNext env cpu = r at hcase hpick
  cases hcase with
  | deadline hd =>
    have hpicked := (pickDeadlineGuarded_spec env (forceNormal_of_guarded hd rfl)).picked
    rw [hd] at hpicked
    obtain ⟨f, hf, heq⟩ := Option.map_eq_some_iff.mp hpicked.symm
    rw [← Option.some.inj hpick, ← heq] at ht
    exact absurd ht (h.deadline f (mem_of_edfScan hf))
  | game hd hg =>
    have hpicked := (pickGame_spec hg).1.picked
    rw [(passedOn_of_guarded hd).game] at hpicked
    obtain ⟨f, hf, heq⟩ := Option.map_eq_some_iff.mp hpicked.symm
    rw [← Option.some.inj hpick, ← heq] at ht
    exact absurd ht (h.game f (List.mem_of_find?_eq_some hf))
  | normal => rfl
  | stolen hd hg hn hw =>
    have hpoint := stealPoint hd hg hn
    rcases pickStolen_spec hw with ⟨i, hi, hon, hne, f, hf, hsteal, rest, heq⟩ | ⟨heq, -⟩
    · rw [stealable_of_stealPoint hpoint] at hsteal
      rw [hpoint.normal i hne] at hf
      rw [← Option.some.inj hpick, Option.some.inj (congrArg Prod.fst heq)] at ht
      exact absurd ht
        (h.stolen hon (localRunnable_of_stealPoint hd hg hn) i hi hne f hf hsteal)
    · cases heq
  | nothing => cases hpick

/-! ## Runs in game mode -/

/-- The scheduler, and how many normal-priority tasks `pick_next` has returned
since game mode was entered. -/
structure BudgetState where
  sched : Scheduler
  normals : Nat

inductive BudgetLabel where
  | yieldTask (env : SchedEnv) (cpu : Cpu)
  | pickNext (env : SchedEnv) (cpu : Cpu)
  /-- Anything that neither picks nor ticks, up to the state it leads to. -/
  | between (sched : Scheduler)

/-- One, if `pick_next` returns a normal-priority task here. -/
def normalReturned (env : SchedEnv) (s : Scheduler) (cpu : Cpu) : Nat :=
  if (s.pickNext env cpu).1.any (·.priority = .normal) then 1 else 0

/-- From `enter_game_mode`, in any state the scheduler can be in, up to
`exit_game_mode`. -/
def budgetMachine : Machine BudgetState BudgetLabel where
  init st := ∃ s, schedMachine.Reachable s ∧ st = ⟨s.sched.enterGameMode, 0⟩
  step
    | st, .yieldTask env cpu, st' =>
      st' = ⟨st.sched.yieldTask env cpu, st.normals +
        if yieldsEarly env cpu then 0 else normalReturned env (st.sched.yieldPoint env cpu) cpu⟩
    | st, .pickNext env cpu, st' =>
      st' = ⟨(st.sched.pickNext env cpu).2, st.normals + normalReturned env st.sched cpu⟩
    | st, .between sched, st' =>
      sched.gameMode = st.sched.gameMode ∧ st' = ⟨sched, st.normals⟩

/-- The picks of a step are on budget. -/
def StepOnBudget (st : BudgetState) : BudgetLabel → Prop
  | .yieldTask env cpu =>
    yieldsEarly env cpu = false → OnBudget env (st.sched.yieldPoint env cpu) cpu
  | .pickNext env cpu => OnBudget env st.sched cpu
  | .between _ => True

/-- What is allowed follows the ticks, what is used keeps to what is allowed,
and what was returned was charged. -/
structure Charged (g : GameModeState) (normals : Nat) : Prop where
  active : g.active = true
  allowed : g.bgTicksAllowed = g.gameTicks / throttleRatio
  used : g.bgTicksUsed ≤ g.bgTicksAllowed
  returned : normals ≤ g.bgTicksUsed

theorem Charged.tickOnce {g : GameModeState} (h : Charged g normals) :
    Charged g.tickOnce normals := by
  have htick : g.tickOnce = { g with
      gameTicks := g.gameTicks + 1, bgTicksAllowed := (g.gameTicks + 1) / throttleRatio } := by
    simp [GameModeState.tickOnce, h.active]
  rw [htick]
  refine ⟨h.active, rfl, ?_, h.returned⟩
  have hmono : g.gameTicks / throttleRatio ≤ (g.gameTicks + 1) / throttleRatio :=
    Nat.div_le_div_right (Nat.le_succ _)
  show g.bgTicksUsed ≤ (g.gameTicks + 1) / throttleRatio
  have hused := h.used
  rw [h.allowed] at hused
  exact hused.trans hmono

/-- A pick on budget: a normal task it returns is charged. -/
theorem Charged.pickNext (h : Charged s.gameMode normals) (hbudget : OnBudget env s cpu) :
    Charged (s.pickNext env cpu).2.gameMode (normals + normalReturned env s cpu) := by
  rw [pickNext_gameMode]
  by_cases hclass : s.pickClass env cpu = some .normal
  · have hroom : s.gameMode.bgTicksUsed < s.gameMode.bgTicksAllowed := by
      simpa [backgroundRuns, GameModeState.canRunBackground, h.active] using
        backgroundRuns_of_normal hclass
    have hone : normalReturned env s cpu ≤ 1 := by
      unfold normalReturned
      split <;> omega
    rw [if_pos ⟨hclass, h.active⟩]
    refine ⟨h.active, h.allowed, hroom, ?_⟩
    have hreturned := h.returned
    show normals + normalReturned env s cpu ≤ s.gameMode.bgTicksUsed + 1
    omega
  · have hzero : normalReturned env s cpu = 0 := by
      unfold normalReturned
      refine if_neg fun hany => hclass ?_
      obtain ⟨t, ht, hpriority⟩ := (Option.any_eq_true ..).mp hany
      exact hbudget.class_of_normal ht (of_decide_eq_true hpriority)
    rw [if_neg fun hboth => hclass hboth.1, hzero]
    exact h

theorem charged_of_run {st : BudgetState} (h : budgetMachine.Run StepOnBudget st) :
    Charged st.sched.gameMode st.normals := by
  refine h.invariant (I := fun st => Charged st.sched.gameMode st.normals) ?_ ?_
  · rintro st ⟨s, -, rfl⟩
    exact ⟨rfl, (Nat.zero_div throttleRatio).symm, le_rfl, le_rfl⟩
  · rintro st (⟨env, cpu⟩ | ⟨env, cpu⟩ | sched) st' hst hguard hstep
    · obtain rfl : st' = _ := hstep
      cases hearly : yieldsEarly env cpu with
      | true =>
        simp only [yieldTask_of_early hearly, if_true, add_zero]
        exact hst
      | false =>
        simp only [(yieldTask_meters hearly).2.1, Bool.false_eq_true, if_false]
        refine Charged.pickNext ?_ (hguard hearly)
        rw [(yieldPoint_meters env st.sched cpu).2.1]
        exact hst.tickOnce
    · obtain rfl : st' = _ := hstep
      exact hst.pickNext hguard
    · obtain ⟨hsame, rfl⟩ := hstep
      show Charged sched.gameMode st.normals
      rw [hsame]
      exact hst

/-- **The budget**: in every run in game mode whose picks are on budget, at most
`game_ticks / THROTTLE_RATIO` normal-priority tasks have been returned. -/
theorem normals_le_of_run {st : BudgetState} (h : budgetMachine.Run StepOnBudget st) :
    st.normals ≤ st.sched.gameMode.gameTicks / throttleRatio := by
  have hcharged := charged_of_run h
  calc st.normals ≤ st.sched.gameMode.bgTicksUsed := hcharged.returned
    _ ≤ st.sched.gameMode.bgTicksAllowed := hcharged.used
    _ = st.sched.gameMode.gameTicks / throttleRatio := hcharged.allowed

/-! ## A stolen task -/

/-- Two CPUs after boot, with work stealing on, as it is by default. -/
def stealingEnv : SchedEnv where
  nowUs := 50
  workStealing := true
  online := 2
  bootComplete := true
  freshId := 90
  freshStack := 0x900000

/-- A normal task is queued on CPU 1 and waits there for two ticks. -/
def backlogRun : List (SchedEnv × SchedCall) :=
  [(stealingEnv, .spawn (Task.new 70 0x700000 none)), (stealingEnv, .yieldTask 0),
    (stealingEnv, .yieldTask 0)]

theorem backlog_reachable {s : SchedState}
    (h : Lib.replay SchedState.exec SchedState.boot backlogRun = some s) :
    schedMachine.Reachable s :=
  Machine.Run.replay (fun _ _ _ h => ⟨trivial, h⟩) (.start SchedState.boot_initial) h

/-- The first tick of the game lets CPU 0 steal the task: one normal task was
returned where none is allowed yet. -/
theorem stolen_over_budget :
    ∃ st, budgetMachine.Run (fun _ l => ∃ cpu, l = .yieldTask stealingEnv cpu) st ∧
      ¬ st.normals ≤ st.sched.gameMode.gameTicks / throttleRatio := by
  have hrun : (Lib.replay SchedState.exec SchedState.boot backlogRun).map (fun s =>
      (normalReturned stealingEnv (s.sched.enterGameMode.yieldPoint stealingEnv 0) 0,
        (s.sched.enterGameMode.yieldTask stealingEnv 0).gameMode.gameTicks)) = some (1, 1) := by
    decide +kernel
  obtain ⟨s, hs, hval⟩ := Option.map_eq_some_iff.mp hrun
  rw [Prod.mk.injEq] at hval
  obtain ⟨hreturned, hticks⟩ := hval
  have hstart : budgetMachine.Run (fun _ l => ∃ cpu, l = .yieldTask stealingEnv cpu)
      ⟨s.sched.enterGameMode, 0⟩ := .start ⟨s, backlog_reachable hs, rfl⟩
  refine ⟨_, hstart.snoc (l := .yieldTask stealingEnv 0) ⟨0, rfl⟩ rfl, ?_⟩
  show ¬ 0 + normalReturned stealingEnv (s.sched.enterGameMode.yieldPoint stealingEnv 0) 0 ≤
    (s.sched.enterGameMode.yieldTask stealingEnv 0).gameMode.gameTicks / throttleRatio
  rw [hreturned, hticks]
  decide

/-- The same with work stealing turned off. -/
def noStealEnv : SchedEnv := { stealingEnv with workStealing := false }

/-- Without stealing the same run stays within the budget. -/
theorem normals_le_of_run_quiet :
    ∃ st, budgetMachine.Run StepOnBudget st ∧ st.sched.gameMode.gameTicks = 1 ∧
      st.normals ≤ 1 / throttleRatio := by
  have hrun : (Lib.replay SchedState.exec SchedState.boot backlogRun).map (fun s =>
      ((s.sched.enterGameMode.yieldTask noStealEnv 0).gameMode.gameTicks,
        ((s.sched.enterGameMode.yieldPoint noStealEnv 0).runqueues 0).tasksDeadline.length,
        ((s.sched.enterGameMode.yieldPoint noStealEnv 0).runqueues 0).tasksGame.length)) =
      some (1, 0, 0) := by
    decide +kernel
  obtain ⟨s, hs, hval⟩ := Option.map_eq_some_iff.mp hrun
  rw [Prod.mk.injEq, Prod.mk.injEq, List.length_eq_zero_iff, List.length_eq_zero_iff] at hval
  obtain ⟨hticks, hdeadline, hgame⟩ := hval
  have hstart : budgetMachine.Run StepOnBudget ⟨s.sched.enterGameMode, 0⟩ :=
    .start ⟨s, backlog_reachable hs, rfl⟩
  have hbudget : OnBudget noStealEnv (s.sched.enterGameMode.yieldPoint noStealEnv 0) 0 := by
    refine ⟨?_, ?_, fun hon => nomatch hon⟩
    · rw [hdeadline]
      simp
    · rw [hgame]
      simp
  have hstep : budgetMachine.Run StepOnBudget _ :=
    hstart.snoc (l := .yieldTask noStealEnv 0) (fun _ => hbudget) rfl
  have hle := normals_le_of_run hstep
  rw [hticks] at hle
  exact ⟨_, hstep, hticks, hle⟩

end AthenaOS
