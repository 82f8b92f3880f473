import AthenaOS.Sched.Lifecycle
import AthenaOS.Sched.Pick

/-!
# Earliest deadline first (`kernel/src/scheduler.rs`)

`insert_deadline_sorted` keeps a CPU's deadline queue sorted by the deadlines its
tasks carry, and `pick_next` takes the first ready entry. A task that starts a
new period is given its new deadline only when it is picked, so the two agree
only as long as no new deadline overtakes another.
-/

namespace AthenaOS

open Scheduler

/-- The absolute deadline of a task at `nowUs`: a task that needs a new period
has the deadline of the new one. -/
def dueAt (nowUs : Nat) (t : Task) : Nat :=
  match t.deadline with
  | some dl => if dl.needsNewPeriod nowUs then nowUs + dl.deadlineUs else dl.absoluteDeadline
  | none => 2 ^ 64 - 1

/-- Does the task need a new period at `nowUs`? -/
def startsPeriod (nowUs : Nat) (t : Task) : Bool := t.deadline.any (·.needsNewPeriod nowUs)

theorem absoluteDeadline_startedAt (nowUs : Nat) (t : Task) :
    (startedAt nowUs t).absoluteDeadline = dueAt nowUs t := by
  unfold startedAt dueAt Task.absoluteDeadline
  cases t.deadline with
  | none => rfl
  | some dl =>
    simp only [Option.map_some, Option.elim_some]
    split <;> rfl

variable {nowUs : Nat} {s : Scheduler} {f : Task} {queue pre post : List Task}

theorem dueAt_of_not_startsPeriod {t : Task} (h : startsPeriod nowUs t = false) :
    dueAt nowUs t = t.absoluteDeadline := by
  unfold startsPeriod at h
  unfold dueAt Task.absoluteDeadline
  cases hdl : t.deadline with
  | none => rfl
  | some dl =>
    rw [hdl, Option.any_some] at h
    simp [h]

/-! ## The queues stay sorted -/

/-- The order `insert_deadline_sorted` keeps. -/
def DeadlineSorted (l : List Task) : Prop :=
  l.Pairwise fun t u => t.absoluteDeadline ≤ u.absoluteDeadline

theorem DeadlineSorted.insert {l : List Task} (h : DeadlineSorted l) (task : Task) :
    DeadlineSorted
      (insertBefore (fun t => t.absoluteDeadline > task.absoluteDeadline) task l) := by
  induction l with
  | nil => exact List.pairwise_singleton _ task
  | cons t ts ih =>
    obtain ⟨hhead, htail⟩ := List.pairwise_cons.mp h
    unfold insertBefore
    split
    · next hlater =>
      have hlater : task.absoluteDeadline < t.absoluteDeadline := by simpa using hlater
      refine List.pairwise_cons.mpr ⟨fun u hu => ?_, h⟩
      rcases List.mem_cons.mp hu with rfl | hu
      · exact hlater.le
      · exact hlater.le.trans (hhead u hu)
    · next hlater =>
      have hlater : t.absoluteDeadline ≤ task.absoluteDeadline := by simpa using hlater
      refine List.pairwise_cons.mpr ⟨fun u hu => ?_, ih htail⟩
      rcases mem_insertBefore.mp hu with rfl | hu
      · exact hlater
      · exact hhead u hu

/-- The calls that reach a deadline queue. -/
inductive EdfCall where
  | spawn (task : Task)
  | enqueue (task : Task)
  | pickNext (cpu : Cpu)
  | yieldTask (cpu : Cpu)

def EdfCall.exec (env : SchedEnv) (s : Scheduler) : EdfCall → Scheduler
  | .spawn task => s.spawn env task
  | .enqueue task => s.enqueue env task
  | .pickNext cpu => (s.pickNext env cpu).2
  | .yieldTask cpu => s.yieldTask env cpu

/-- The scheduler from `init` on, each call with a clock of its own. -/
def edfMachine : Lib.Machine Scheduler (SchedEnv × EdfCall) where
  init s := ∃ ids stackBases, s = Scheduler.init ids stackBases
  step s l s' := s' = l.2.exec l.1 s

/-- Every CPU's deadline queue is sorted. -/
def AllSorted (s : Scheduler) : Prop := ∀ c, DeadlineSorted (s.runqueues c).tasksDeadline

theorem AllSorted.of_sublist {s' : Scheduler} (h : AllSorted s)
    (hsub : ∀ c, ((s'.runqueues c).tasksDeadline).Sublist (s.runqueues c).tasksDeadline) :
    AllSorted s' := fun c => (h c).sublist (hsub c)

theorem AllSorted.modifyQueue (h : AllSorted s) (cpu : Cpu) {f : Runqueue → Runqueue}
    (hf : DeadlineSorted (f (s.runqueues cpu)).tasksDeadline) :
    AllSorted (s.modifyQueue cpu f) := by
  intro c
  rw [runqueues_modifyQueue]
  by_cases hc : c = cpu
  · rw [hc, Function.update_self]
    exact hf
  · rw [Function.update_of_ne hc]
    exact h c

theorem AllSorted.enqueue (h : AllSorted s) (env : SchedEnv) (task : Task) :
    AllSorted (s.enqueue env task) := by
  unfold Scheduler.enqueue
  split
  · exact h
  · dsimp only
    split
    · exact h.modifyQueue _ ((h _).insert task)
    · split
      · exact h.modifyQueue _ (h _)
      · exact h.modifyQueue _ (h _)

theorem AllSorted.spawn (h : AllSorted s) (env : SchedEnv) (task : Task) :
    AllSorted (s.spawn env task) := by
  unfold Scheduler.spawn
  dsimp only
  refine AllSorted.enqueue ?_ env _
  exact h

theorem AllSorted.yieldTask (h : AllSorted s) (env : SchedEnv) (cpu : Cpu) :
    AllSorted (s.yieldTask env cpu) := by
  cases hearly : yieldsEarly env cpu with
  | true =>
    rw [yieldTask_of_early hearly]
    exact h
  | false =>
    refine h.of_sublist fun c => ?_
    rw [(yieldTask_meters hearly).1, ← (yieldPoint_meters env s cpu).1]
    exact pickNext_tasksDeadline env (s.yieldPoint env cpu) cpu c

theorem AllSorted.exec (h : AllSorted s) (env : SchedEnv) :
    ∀ call : EdfCall, AllSorted (call.exec env s)
  | .spawn task => h.spawn env task
  | .enqueue task => h.enqueue env task
  | .pickNext cpu => h.of_sublist (pickNext_tasksDeadline env s cpu)
  | .yieldTask cpu => h.yieldTask env cpu

/-- The stored deadlines are sorted in every state. -/
theorem sorted_of_reachable (h : edfMachine.Reachable s) : AllSorted s := by
  refine h.invariant ?_ ?_
  · rintro s ⟨ids, stackBases, rfl⟩ c
    exact List.Pairwise.nil
  · rintro s ⟨env, call⟩ s' hs - rfl
    exact hs.exec env call

/-! ## The first ready task -/

/-- `f` is the first ready task of the queue with a sane stack, `pre` is before
it and `post` behind it. -/
structure FirstReady (nowUs : Nat) (queue pre : List Task) (f : Task) (post : List Task) :
    Prop where
  split : queue = pre ++ f :: post
  before : ∀ t ∈ pre, ¬ (runnableThisPeriod nowUs t = true ∧ t.savedStackIsSane = true)
  ready : runnableThisPeriod nowUs f = true
  sane : f.savedStackIsSane = true

theorem FirstReady.edfScan (h : FirstReady nowUs queue pre f post) :
    edfScan nowUs queue = (some f, pre.filter (fun t => !runnableThisPeriod nowUs t) ++ post) := by
  obtain ⟨rfl, hbefore, hready, hsane⟩ := h
  induction pre with
  | nil =>
    rw [List.nil_append, Scheduler.edfScan, if_pos hready, if_pos hsane]
    rfl
  | cons t ts ih =>
    have ih := ih fun u hu => hbefore u (List.mem_cons_of_mem t hu)
    rw [List.cons_append, Scheduler.edfScan, ih]
    by_cases ht : runnableThisPeriod nowUs t = true
    · have hinsane : ¬ t.savedStackIsSane = true := fun h =>
        hbefore t List.mem_cons_self ⟨ht, h⟩
      rw [if_pos ht, if_neg hinsane, List.filter_cons_of_neg (by simp [ht])]
    · rw [if_neg ht, List.filter_cons_of_pos (by simpa using ht)]
      rfl

theorem exists_firstReady (h : (edfScan nowUs queue).1 = some f) :
    ∃ pre post, FirstReady nowUs queue pre f post := by
  induction queue with
  | nil => cases h
  | cons t ts ih =>
    unfold edfScan at h
    split at h
    · next hready =>
      split at h
      · next hsane =>
        rw [Option.some.injEq] at h
        subst h
        exact ⟨[], ts, rfl, by simp, hready, hsane⟩
      · next hinsane =>
        obtain ⟨pre, post, hf⟩ := ih h
        refine ⟨t :: pre, post, by rw [hf.split]; rfl, ?_, hf.ready, hf.sane⟩
        rintro u hu ⟨hu₁, hu₂⟩
        rcases List.mem_cons.mp hu with rfl | hu
        · exact hinsane hu₂
        · exact hf.before u hu ⟨hu₁, hu₂⟩
    · next hready =>
      obtain ⟨pre, post, hf⟩ := ih h
      refine ⟨t :: pre, post, by rw [hf.split]; rfl, ?_, hf.ready, hf.sane⟩
      rintro u hu ⟨hu₁, hu₂⟩
      rcases List.mem_cons.mp hu with rfl | hu
      · exact hready hu₁
      · exact hf.before u hu ⟨hu₁, hu₂⟩

/-! ## The earliest deadline -/

/-- If `pick_next` returns a task of the deadline class, no ready task it leaves
on that queue is due before it. -/
def PicksEarliest (env : SchedEnv) (s : Scheduler) (cpu : Cpu) : Prop :=
  ∀ t, (s.pickNext env cpu).1 = some t → s.pickClass env cpu = some .deadline →
    ∀ u ∈ ((s.pickNext env cpu).2.runqueues cpu).tasksDeadline,
      runnableThisPeriod env.nowUs u = true → ¬ dueAt env.nowUs u < t.absoluteDeadline

/-- The new deadlines fit the stored order: where the first ready task or a
ready one behind it starts a new period, the first is still due no later. -/
def NewDeadlinesInOrder (nowUs : Nat) (queue : List Task) : Prop :=
  ∀ pre f post, FirstReady nowUs queue pre f post →
    ∀ u ∈ post, runnableThisPeriod nowUs u = true →
      startsPeriod nowUs f = true ∨ startsPeriod nowUs u = true →
      dueAt nowUs f ≤ dueAt nowUs u

/-- What a pick of the deadline class returns and leaves. -/
theorem pickNext_of_firstReady {env : SchedEnv} {cpu : Cpu} (hforce : s.forceNormal cpu = false)
    (hf : FirstReady env.nowUs (s.runqueues cpu).tasksDeadline pre f post) :
    s.pickClass env cpu = some .deadline ∧
      (s.pickNext env cpu).1 = some ((startedAt env.nowUs f).markScheduled cpu s.tick) ∧
      ((s.pickNext env cpu).2.runqueues cpu).tasksDeadline =
        pre.filter (fun t => !runnableThisPeriod env.nowUs t) ++ post := by
  have hspec := pickDeadlineGuarded_spec env hforce
  have hpicked := hspec.picked
  rw [hf.edfScan] at hpicked
  have hpick : s.pickNext env cpu = s.pickDeadlineGuarded env cpu := by
    unfold pickNext orPick
    rcases hr : s.pickDeadlineGuarded env cpu with ⟨o, s'⟩
    rw [hr] at hpicked
    obtain rfl : o = _ := hpicked
    rfl
  refine ⟨?_, ?_, ?_⟩
  · simp [pickClass, hpicked]
  · rw [hpick, hpicked]
    rfl
  · rw [hpick, hspec.queues, Function.update_self, hf.edfScan]

/-- **EDF**: in every queue state that spawns, enqueues, picks and yields reach,
at every time, a deadline pick leaves no ready task that is due earlier if and
only if the class is skipped or the new deadlines fit the stored order. -/
theorem pickNext_earliest_iff {s : Scheduler} (h : edfMachine.Reachable s) {p : Scheduler}
    (hp : p.runqueues = s.runqueues) (env : SchedEnv) (cpu : Cpu) :
    PicksEarliest env p cpu ↔
      p.forceNormal cpu = true ∨
        NewDeadlinesInOrder env.nowUs (p.runqueues cpu).tasksDeadline := by
  have hsorted : DeadlineSorted (p.runqueues cpu).tasksDeadline := by
    rw [hp]
    exact sorted_of_reachable h cpu
  cases hforce : p.forceNormal cpu with
  | true =>
    refine iff_of_true (fun t ht hclass => ?_) (Or.inl rfl)
    have hcase := pickCase_pickNext env p cpu
    rw [hclass] at hcase
    generalize p.pickNext env cpu = r at hcase
    cases hcase with
    | deadline hd =>
      rw [forceNormal_of_guarded hd rfl] at hforce
      cases hforce
  | false =>
    constructor
    · intro hpick
      refine Or.inr fun pre f post hf u hu hready _ => ?_
      obtain ⟨hclass, hpicked, hleft⟩ := pickNext_of_firstReady hforce hf
      have hearliest := hpick _ hpicked hclass u (by
        rw [hleft]
        exact List.mem_append_right _ hu) hready
      change ¬ dueAt env.nowUs u < (startedAt env.nowUs f).absoluteDeadline at hearliest
      rw [absoluteDeadline_startedAt] at hearliest
      exact not_lt.mp hearliest
    · rintro (hfalse | horder) t ht hclass
      · cases hfalse
      obtain ⟨f, hscan⟩ : ∃ f, (edfScan env.nowUs (p.runqueues cpu).tasksDeadline).1 = some f := by
        have hcase := pickCase_pickNext env p cpu
        rw [hclass] at hcase
        generalize p.pickNext env cpu = r at hcase
        cases hcase with
        | deadline hd =>
          have hpicked := (pickDeadlineGuarded_spec env hforce).picked
          rw [hd] at hpicked
          obtain ⟨f, hf, -⟩ := Option.map_eq_some_iff.mp hpicked.symm
          exact ⟨f, hf⟩
      obtain ⟨pre, post, hf⟩ := exists_firstReady hscan
      obtain ⟨-, hpicked, hleft⟩ := pickNext_of_firstReady hforce hf
      rw [hpicked, Option.some.injEq] at ht
      intro u hu hready
      rw [← ht]
      change ¬ dueAt env.nowUs u < (startedAt env.nowUs f).absoluteDeadline
      rw [absoluteDeadline_startedAt, not_lt]
      -- A ready task that is left is behind the first one.
      have hpost : u ∈ post := by
        rw [hleft, List.mem_append, List.mem_filter] at hu
        exact hu.resolve_left fun hskipped => by simp [hready] at hskipped
      by_cases hnew : startsPeriod env.nowUs f = true ∨ startsPeriod env.nowUs u = true
      · exact horder pre f post hf u hpost hready hnew
      · -- Neither starts a period: both are due when the queue says.
        rw [not_or, Bool.not_eq_true, Bool.not_eq_true] at hnew
        rw [dueAt_of_not_startsPeriod hnew.1, dueAt_of_not_startsPeriod hnew.2]
        rw [hf.split] at hsorted
        obtain ⟨-, hbehind, -⟩ := List.pairwise_append.mp hsorted
        exact (List.pairwise_cons.mp hbehind).1 u hpost

/-- One CPU, after boot, at a given time. -/
def oneCpuAt (nowUs : Nat) : SchedEnv where
  nowUs := nowUs
  workStealing := false
  online := 1
  bootComplete := true
  freshId := 90
  freshStack := 0x900000

/-- A game task with a period and a relative deadline. -/
def periodicTask (id : TaskId) (periodUs deadlineUs : Nat) : Task :=
  { Task.new id (0x100000 * id) none with
    priority := .game
    deadline := some
      { periodUs := periodUs, deadlineUs := deadlineUs, runtimeUs := 10, lastWake := 0,
        lastFinish := 0, deadlineMisses := 0, totalInvocations := 0, absoluteDeadline := 0 } }

/-- The scheduler after `init`, with ids 1 to 64 for the idle tasks. -/
def bootedScheduler : Scheduler :=
  Scheduler.init (fun c => c.val + 1) (fun c => 0x10000 * (c.val + 1))

/-- Task 70 has deadline 101 and task 71 deadline 110, both stored. -/
def twoPeriodic : Scheduler :=
  (bootedScheduler.spawn (oneCpuAt 1) (periodicTask 70 100 100)).spawn (oneCpuAt 60)
    (periodicTask 71 1000 50)

theorem twoPeriodic_reachable : edfMachine.Reachable twoPeriodic := by
  have hboot : edfMachine.Reachable bootedScheduler := .start ⟨_, _, rfl⟩
  have hfirst := hboot.snoc (l := (oneCpuAt 1, .spawn (periodicTask 70 100 100))) trivial rfl
  exact hfirst.snoc (l := (oneCpuAt 60, .spawn (periodicTask 71 1000 50))) trivial rfl

/-- While nobody starts a new period the stored order is the order of deadlines. -/
theorem newDeadlinesInOrder_of_none (h : ∀ t ∈ queue, startsPeriod nowUs t = false) :
    NewDeadlinesInOrder nowUs queue := by
  intro pre f post hf u hu _ hnew
  rw [h f (by simp [hf.split]), h u (by simp [hf.split, hu])] at hnew
  simp at hnew

/-- At time 70 both are in their first period, and task 70 is picked rightly. -/
theorem pickNext_earliest_iff_twoPeriodic : PicksEarliest (oneCpuAt 70) twoPeriodic 0 := by
  refine (pickNext_earliest_iff twoPeriodic_reachable rfl (oneCpuAt 70) 0).mpr (Or.inr ?_)
  exact newDeadlinesInOrder_of_none (by decide)

/-- At time 101 task 70 starts a new period, due at 201, and is picked before
task 71, which is due at 110. -/
theorem pickNext_not_earliest :
    ¬ ∀ s, edfMachine.Reachable s → ∀ (env : SchedEnv) (cpu : Cpu), PicksEarliest env s cpu := by
  intro hall
  have hrun : (((twoPeriodic.pickNext (oneCpuAt 101) 0).1.map (·.absoluteDeadline),
      twoPeriodic.pickClass (oneCpuAt 101) 0,
      ((twoPeriodic.pickNext (oneCpuAt 101) 0).2.runqueues 0).tasksDeadline.map fun u =>
        (runnableThisPeriod 101 u, dueAt 101 u)) :
      Option Nat × Option PickClass × List (Bool × Nat)) =
      (some 201, some .deadline, [(true, 110)]) := by
    decide
  rw [Prod.mk.injEq, Prod.mk.injEq] at hrun
  obtain ⟨hpicked, hclass, hleft⟩ := hrun
  obtain ⟨t, ht, hdue⟩ := Option.map_eq_some_iff.mp hpicked
  obtain ⟨u, hu, hready⟩ : ∃ u ∈ ((twoPeriodic.pickNext (oneCpuAt 101) 0).2.runqueues
      0).tasksDeadline, (runnableThisPeriod 101 u, dueAt 101 u) = (true, 110) := by
    apply List.mem_map.mp
    rw [hleft]
    exact List.mem_singleton_self _
  rw [Prod.mk.injEq] at hready
  refine hall _ twoPeriodic_reachable (oneCpuAt 101) 0 t ht hclass u hu hready.1 ?_
  rw [hdue]
  show dueAt 101 u < 201
  rw [hready.2]
  decide

end AthenaOS
