import AthenaOS.Sched.Meters

/-!
# The deadline-starvation guard (`kernel/src/scheduler.rs`)

`dl_starve_streak` counts the picks of the deadline class in a row while normal
tasks wait; at `DL_STARVATION_LIMIT` one pick skips the class. The guard is
about a history, so the machine here keeps one: what each `pick_next` call on
the watched CPU returned, in order.
-/

namespace AthenaOS

open Lib Scheduler

/-- The scheduler, and which class each `pick_next` call on the watched CPU has
returned a task from, the latest call first. -/
structure WatchState where
  sched : Scheduler
  calls : List (Option PickClass)

inductive WatchLabel where
  /-- `pick_next` for the watched CPU, whoever calls it. -/
  | pickNext (env : SchedEnv)
  /-- Whatever else happens, up to the state it leads to. -/
  | between (sched : Scheduler)

/-- What may be seen of one CPU. Between two of its picks tasks may be woken,
enqueued, stolen and quarantined; only its streak is its own. -/
def watchMachine (cpu : Cpu) : Machine WatchState WatchLabel where
  init st := st.calls = []
  step
    | st, .pickNext env, st' =>
      st' = ⟨(st.sched.pickNext env cpu).2, st.sched.pickClass env cpu :: st.calls⟩
    | st, .between sched, st' =>
      sched.dlStarveStreak cpu = st.sched.dlStarveStreak cpu ∧ st' = ⟨sched, st.calls⟩

variable {cpu : Cpu} {env : SchedEnv} {st : WatchState}

/-- A pick for another CPU leaves the streak alone. -/
theorem pickNext_streak_of_ne (env : SchedEnv) (s : Scheduler) {c : Cpu} (h : cpu ≠ c) :
    (s.pickNext env c).2.dlStarveStreak cpu = s.dlStarveStreak cpu := by
  have hguard : s.streakAfterGuard c cpu = s.dlStarveStreak cpu := by
    unfold streakAfterGuard
    split
    · exact Function.update_of_ne h ..
    · rfl
  rw [pickNext_streak]
  split
  · exact Function.update_of_ne h ..
  · exact Function.update_of_ne h ..
  · exact Function.update_of_ne h ..
  · exact hguard
  · exact hguard

/-- The normal queue of the CPU is not empty when it picks. -/
def NormalWaits (cpu : Cpu) (st : WatchState) : WatchLabel → Prop
  | .pickNext _ => (st.sched.runqueues cpu).tasksNormal ≠ []
  | .between _ => True

/-- The history after a scheduler call. -/
def watched (env : SchedEnv) (cpu : Cpu) (s : Scheduler) (call : SchedCall)
    (calls : List (Option PickClass)) : List (Option PickClass) :=
  match pickPoint env s call with
  | some (c, p) => if c = cpu then p.pickClass env cpu :: calls else calls
  | none => calls

/-- Every scheduler call, on whatever CPU, is made of steps of the watch. -/
theorem watch_of_call {s s' : SchedState} {call : SchedCall} {calls : List (Option PickClass)}
    (h : s.call env call = some s') (hnormal : (s.sched.runqueues cpu).tasksNormal ≠ [])
    (hrun : (watchMachine cpu).Run (NormalWaits cpu) ⟨s.sched, calls⟩) :
    (watchMachine cpu).Run (NormalWaits cpu) ⟨s'.sched, watched env cpu s.sched call calls⟩ := by
  have hbetween : ∀ {a b : Scheduler} {l : List (Option PickClass)},
      (watchMachine cpu).Run (NormalWaits cpu) ⟨a, l⟩ →
      b.dlStarveStreak cpu = a.dlStarveStreak cpu →
      (watchMachine cpu).Run (NormalWaits cpu) ⟨b, l⟩ := fun {a b l} hr hsame =>
    hr.snoc (l := .between b) trivial ⟨hsame, rfl⟩
  unfold watched
  rcases hpoint : pickPoint env s.sched call with _ | ⟨c, p⟩
  · exact hbetween hrun (congrFun (call_sameMeters h hpoint).streak cpu)
  · obtain ⟨hqueues, hstreak, -, hafter⟩ := call_pickPoint h hpoint
    dsimp only
    split
    · -- up to the pick, the pick, and what the call does with the task
      next hc =>
      subst hc
      have hbefore := hbetween hrun (congrFun hstreak c)
      have hwaits : (p.runqueues c).tasksNormal ≠ [] := by rwa [hqueues]
      have hpick : (watchMachine c).Run (NormalWaits c)
          ⟨(p.pickNext env c).2, p.pickClass env c :: calls⟩ :=
        hbefore.snoc (l := .pickNext env) hwaits rfl
      exact hbetween hpick (congrFun hafter.streak c)
    · next hc =>
      refine hbetween hrun ?_
      rw [hafter.streak, pickNext_streak_of_ne env p (Ne.symm hc), hstreak]

/-- A part of the history that is all deadline picks. -/
def AllDeadline (l : List (Option PickClass)) : Prop := ∀ o ∈ l, o = some .deadline

/-- The streak bounds the deadline picks in a row up to now, and the limit those
anywhere in the history. -/
structure Streak (cpu : Cpu) (st : WatchState) : Prop where
  latest : ∀ window before, st.calls = window ++ before → AllDeadline window →
    window.length ≤ st.sched.dlStarveStreak cpu
  anywhere : ∀ later window before, st.calls = later ++ window ++ before → AllDeadline window →
    window.length ≤ dlStarvationLimit

/-- A pick of the deadline class while normal tasks wait: the guard had not
tripped, and the streak grows by one. -/
theorem streak_of_deadline {s : Scheduler} (hclass : s.pickClass env cpu = some .deadline)
    (hnormal : (s.runqueues cpu).tasksNormal ≠ []) :
    (s.pickNext env cpu).2.dlStarveStreak cpu = s.dlStarveStreak cpu + 1 ∧
      s.dlStarveStreak cpu < dlStarvationLimit := by
  have hempty : (s.runqueues cpu).tasksNormal.isEmpty = false := by simpa using hnormal
  have hforce : s.forceNormal cpu = false := by
    have hcase := pickCase_pickNext env s cpu
    rw [hclass] at hcase
    generalize s.pickNext env cpu = r at hcase
    cases hcase with
    | deadline hd => exact forceNormal_of_guarded hd rfl
  have hlow : s.dlStarveStreak cpu < dlStarvationLimit := by
    simpa [forceNormal, hempty] using hforce
  refine ⟨?_, hlow⟩
  rw [pickNext_streak, hclass]
  show Function.update s.dlStarveStreak cpu (s.nextStreak cpu) cpu = _
  rw [Function.update_self, nextStreak, hempty]
  unfold dlStarvationLimit at hlow
  simp only [Bool.false_eq_true, if_false]
  omega

theorem Streak.pickNext (h : Streak cpu st) (env : SchedEnv)
    (hnormal : (st.sched.runqueues cpu).tasksNormal ≠ []) :
    Streak cpu ⟨(st.sched.pickNext env cpu).2, st.sched.pickClass env cpu :: st.calls⟩ := by
  -- A window that ends with this call: it is empty, or the call is one more deadline pick.
  have hlatest : ∀ window before, st.sched.pickClass env cpu :: st.calls = window ++ before →
      AllDeadline window → window.length ≤ (st.sched.pickNext env cpu).2.dlStarveStreak cpu ∧
        window.length ≤ dlStarvationLimit := by
    rintro (_ | ⟨o, window⟩) before hcalls hall
    · exact ⟨Nat.zero_le _, Nat.zero_le _⟩
    · rw [List.cons_append, List.cons.injEq] at hcalls
      obtain ⟨hclass, hcalls⟩ := hcalls
      rw [hall o List.mem_cons_self] at hclass
      obtain ⟨hgrows, hlow⟩ := streak_of_deadline hclass hnormal
      have hbound := h.latest window before hcalls fun o ho => hall o (List.mem_cons_of_mem _ ho)
      rw [hgrows, List.length_cons]
      exact ⟨by omega, by omega⟩
  constructor
  · exact fun window before hcalls hall => (hlatest window before hcalls hall).1
  · rintro (_ | ⟨o, later⟩) window before hcalls hall
    · exact (hlatest window before hcalls hall).2
    · rw [List.cons_append, List.cons_append, List.cons.injEq] at hcalls
      exact h.anywhere later window before hcalls.2 hall

theorem streak_of_run (h : (watchMachine cpu).Run (NormalWaits cpu) st) : Streak cpu st := by
  refine h.invariant ?_ ?_
  · intro st hinit
    constructor
    · intro window before hcalls _
      rw [hinit] at hcalls
      simp [(List.append_eq_nil_iff.mp hcalls.symm).1]
    · intro later window before hcalls _
      rw [hinit] at hcalls
      have hwindow := (List.append_eq_nil_iff.mp hcalls.symm).1
      simp [(List.append_eq_nil_iff.mp hwindow).2]
  · rintro st (env | sched) st' hstreak hguard hstep
    · obtain rfl : st' = _ := hstep
      exact hstreak.pickNext env hguard
    · obtain ⟨hsame, rfl⟩ := hstep
      refine ⟨fun window before hcalls hall => ?_, hstreak.anywhere⟩
      show window.length ≤ sched.dlStarveStreak cpu
      rw [hsame]
      exact hstreak.latest window before hcalls hall

/-- **The guard**: in every run of picks for a CPU whose normal queue is never
empty, among any `DL_STARVATION_LIMIT + 1` calls in a row one does not return a
deadline task. -/
theorem starvationGuard {cpu : Cpu} {st : WatchState}
    (h : (watchMachine cpu).Run (NormalWaits cpu) st)
    {later window before : List (Option PickClass)} (hcalls : st.calls = later ++ window ++ before)
    (hlen : window.length = dlStarvationLimit + 1) :
    ∃ o ∈ window, o ≠ some .deadline := by
  by_contra hnone
  push Not at hnone
  have hbound := (streak_of_run h).anywhere later window before hcalls hnone
  omega

/-! ## A run up to the limit -/

/-- The clock stands at 50, one CPU is online. -/
def clockFifty : SchedEnv where
  nowUs := 50
  workStealing := true
  online := 1
  bootComplete := true
  freshId := 90
  freshStack := 0x900000

/-- A deadline task that never finishes and a normal task, both on CPU 0, with a
given streak. -/
def starving (streak : Nat) : Scheduler :=
  { Scheduler.new with
    runqueues := fun _ =>
      { tasksDeadline :=
          [{ Task.new 70 0x700000 none with
            priority := .game
            deadline := some
              { periodUs := 100, deadlineUs := 100, runtimeUs := 10, lastWake := 10,
                lastFinish := 0, deadlineMisses := 0, totalInvocations := 1,
                absoluteDeadline := 110 } }]
        tasksGame := []
        tasksNormal := [Task.new 71 0x800000 none] }
    dlStarveStreak := fun _ => streak }

theorem starving_pickClass {streak : Nat} (h : streak < dlStarvationLimit) :
    (starving streak).pickClass clockFifty 0 = some .deadline := by
  have hforce : (starving streak).forceNormal 0 = false := by
    simpa [forceNormal, starving] using h
  have hpicked := (pickDeadlineGuarded_spec clockFifty hforce).picked
  have hsome : ((starving streak).pickDeadlineGuarded clockFifty 0).1.isSome = true := by
    rw [hpicked]
    rfl
  simp [pickClass, hsome]

/-- As long as the limit is not reached the deadline task is picked again. -/
theorem starving_run :
    ∀ n ≤ dlStarvationLimit, (watchMachine 0).Run (NormalWaits 0)
      ⟨starving n, List.replicate n (some .deadline)⟩
  | 0, _ => .start rfl
  | n + 1, hn => by
    have hrun := starving_run n (by omega)
    have hclass := starving_pickClass (show n < dlStarvationLimit by omega)
    have hwaits : ((starving n).runqueues 0).tasksNormal ≠ [] := List.cons_ne_nil _ _
    have hpick : (watchMachine 0).Run (NormalWaits 0)
        ⟨((starving n).pickNext clockFifty 0).2, List.replicate (n + 1) (some .deadline)⟩ := by
      refine hrun.snoc (l := .pickNext clockFifty) hwaits ?_
      show _ = WatchState.mk _ ((starving n).pickClass clockFifty 0 :: _)
      rw [hclass]
      rfl
    refine hpick.snoc (l := .between (starving (n + 1))) trivial ⟨?_, rfl⟩
    exact (streak_of_deadline hclass hwaits).1.symm

/-- After 64 deadline picks the normal task gets its turn. -/
theorem starvationGuard_starving :
    ∃ o ∈ some PickClass.normal :: List.replicate 64 (some PickClass.deadline),
      o ≠ some .deadline := by
  have hclass : (starving 64).pickClass clockFifty 0 = some .normal := by decide
  have hrun : (watchMachine 0).Run (NormalWaits 0)
      ⟨((starving 64).pickNext clockFifty 0).2,
        some .normal :: List.replicate 64 (some .deadline)⟩ := by
    refine (starving_run 64 le_rfl).snoc (l := .pickNext clockFifty) (List.cons_ne_nil _ _) ?_
    show _ = WatchState.mk _ ((starving 64).pickClass clockFifty 0 :: _)
    rw [hclass]
  have hcalls : some PickClass.normal :: List.replicate 64 (some PickClass.deadline) =
      [] ++ (some .normal :: List.replicate 64 (some .deadline)) ++ [] := by
    simp
  exact starvationGuard hrun hcalls rfl

/-! ## Runs of the whole scheduler -/

/-- The scheduler, all calls on all CPUs, with what the picks for one CPU returned. -/
def guardMachine (cpu : Cpu) : Machine (SchedState × List (Option PickClass)) (SchedEnv × SchedCall) where
  init st := st.2 = []
  step st l st' := schedMachine.step st.1 l st'.1 ∧ st'.2 = watched l.1 cpu st.1.sched l.2 st.2

/-- **The guard in every interleaving**: as long as normal tasks wait for a CPU, whatever is
called on any CPU, its picks take at most `DL_STARVATION_LIMIT` deadline tasks in a row. -/
theorem deadlinePicks_le {cpu : Cpu} {st : SchedState × List (Option PickClass)}
    (h : (guardMachine cpu).Run (fun st _ => (st.1.sched.runqueues cpu).tasksNormal ≠ []) st)
    {later window before : List (Option PickClass)} (hcalls : st.2 = later ++ window ++ before)
    (hall : AllDeadline window) : window.length ≤ dlStarvationLimit := by
  have hwatch := h.invariant (I := fun st => (watchMachine cpu).Run (NormalWaits cpu) ⟨st.1.sched, st.2⟩)
    (fun _ hinit => .start hinit) ?_
  · exact (streak_of_run hwatch).anywhere later window before hcalls hall
  · rintro st l st' hrun hnormal ⟨hexec, hwatched⟩
    -- a step is the call, and the new ids it has used up
    have hcall : st.1.exec l = some st'.1 := hexec
    rw [SchedState.exec] at hcall
    split at hcall
    · obtain ⟨s, hs, heq⟩ := Option.map_eq_some_iff.mp hcall
      have hnext := watch_of_call hs hnormal hrun
      rw [hwatched, ← heq]
      exact hnext
    · cases hcall

/-- A deadline task with a period of 100 µs, woken once. -/
def periodic (id : TaskId) : Task :=
  { Task.new id (id * kernelStackSize) none with
    priority := .game
    deadline := some
      { periodUs := 100, deadlineUs := 100, runtimeUs := 10, lastWake := 10, lastFinish := 0,
        deadlineMisses := 0, totalInvocations := 1, absoluteDeadline := 110 } }

/-- Two such tasks and a normal one wait for CPU 0. -/
def crowded : SchedState where
  sched :=
    { Scheduler.new with
      runqueues := fun _ =>
        { tasksDeadline := [periodic 70, periodic 72], tasksGame := []
          tasksNormal := [Task.new 71 (71 * kernelStackSize) none] } }
  phase _ := .running
  used := []

/-- CPU 0 yields once in each of `n` periods. -/
def yields (n : Nat) : List (SchedEnv × SchedCall) :=
  (List.range n).flatMap fun k =>
    [({ clockFifty with nowUs := 50 + 100 * k }, .yieldTask 0),
      ({ clockFifty with nowUs := 50 + 100 * k }, .finishTaskSwitch 0)]

/-- A call while a normal task waits for CPU 0. -/
def execWaiting (st : SchedState × List (Option PickClass)) (l : SchedEnv × SchedCall) :
    Option (SchedState × List (Option PickClass)) :=
  if (st.1.sched.runqueues 0).tasksNormal = [] then none
  else (st.1.exec l).map fun s => (s, watched l.1 0 st.1.sched l.2 st.2)

theorem execWaiting_spec (st : SchedState × List (Option PickClass)) (l : SchedEnv × SchedCall)
    (st' : SchedState × List (Option PickClass)) (h : execWaiting st l = some st') :
    (st.1.sched.runqueues 0).tasksNormal ≠ [] ∧ (guardMachine 0).step st l st' := by
  rw [execWaiting] at h
  split at h
  · exact nomatch h
  · next hwaits =>
    obtain ⟨s, hs, rfl⟩ := Option.map_eq_some_iff.mp h
    exact ⟨hwaits, hs, rfl⟩

/-- The two tasks take turns up to the limit. -/
theorem deadlinePicks_le_crowded :
    (List.replicate 64 (some PickClass.deadline)).length ≤ dlStarvationLimit := by
  have heval : (replay execWaiting (crowded, []) (yields 64)).map Prod.snd =
      some (List.replicate 64 (some .deadline)) := by
    decide +kernel
  obtain ⟨st, hst, hcalls⟩ := Option.map_eq_some_iff.mp heval
  have hstart : (guardMachine 0).init (crowded, []) := rfl
  exact deadlinePicks_le (Machine.Run.replay execWaiting_spec (.start hstart) hst)
    (show st.2 = [] ++ List.replicate 64 (some .deadline) ++ [] from hcalls)
    fun o ho => List.eq_of_mem_replicate ho

end AthenaOS
