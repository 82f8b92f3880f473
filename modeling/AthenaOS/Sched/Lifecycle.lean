import AthenaOS.Lib.Machine
import AthenaOS.Sched.Switch

/-!
# The life of a task (`kernel/src/scheduler.rs`)

What creates, ends, reaps and wakes tasks, beside the switching paths:

Each call is one step under the scheduler lock. A CPU that has dropped the lock
in the middle of a switch runs with interrupts off until the task it switches to
has called `finish_task_switch`, and one that kills its own task goes on to
`exit_current_task`; its `CpuPhase` says so.
-/

namespace AthenaOS

/-- `WaitResult`. -/
inductive WaitResult where
  | reaped (code : UInt64)
  | notFound
  | blocked
  deriving DecidableEq

/-- What `kill_task` comes to: a result for its caller, or no return because the
caller killed itself and goes on to `exit_current_task(0)`. -/
inductive KillOutcome where
  | returns (ok : Bool)
  | exits
  deriving DecidableEq

/-- Remove the first task with an id from a runqueue: the deadline class is
searched first, then the game class, then the normal class. -/
def Runqueue.removeTask (rq : Runqueue) (id : TaskId) : Runqueue :=
  if rq.tasksDeadline.any (·.id = id) then
    { rq with tasksDeadline := rq.tasksDeadline.eraseP (·.id = id) }
  else if rq.tasksGame.any (·.id = id) then
    { rq with tasksGame := rq.tasksGame.eraseP (·.id = id) }
  else
    { rq with tasksNormal := rq.tasksNormal.eraseP (·.id = id) }

namespace Scheduler

/-- `init`: an idle task for every CPU; the one of CPU 0 is the boot sequence
and runs already. -/
def init (ids : Cpu → TaskId) (stackBases : Cpu → Nat) : Scheduler :=
  let idle := fun c => { Task.new (ids c) (stackBases c) none with isIdle := true }
  { new with
    idleTask := fun c => if c = 0 then none else some (idle c)
    currentTask := fun c => if c = 0 then some (idle c) else none }

/-- The task `spawn` hands to `enqueue`: a normal task starts at the minimum
virtual runtime, a deadline task starts its first period. -/
def spawnedTask (env : SchedEnv) (s : Scheduler) (task : Task) : Task :=
  let task := if task.priority = .normal then { task with vruntime := s.minVruntime } else task
  { task with deadline := task.deadline.map (·.wake env.nowUs) }

def spawn (env : SchedEnv) (s : Scheduler) (task : Task) : Scheduler :=
  let stats :=
    if task.deadline.isSome then
      { s.deadlineStats with
        totalTasks := s.deadlineStats.totalTasks + 1
        totalInvocations := s.deadlineStats.totalInvocations + 1 }
    else s.deadlineStats
  { s with deadlineStats := stats }.enqueue env (s.spawnedTask env task)

/-- The dying task goes to the stash, the next one takes the CPU. `none` is one
of the source's panics. -/
def exitCurrentTask (env : SchedEnv) (s : Scheduler) (cpu : Cpu) (code : UInt64) :
    Option Scheduler :=
  match s.currentTask cpu with
  | none => none
  | some task =>
    let dying := { task with state := .zombie code }
    match ((s.setCurrent cpu none).setStash cpu (some dying)).pickOrIdle env cpu with
    | (none, _) => none
    | (some next, s) => some (s.setCurrent cpu (some next))

/-- The loop of `kill_task` over the running tasks: has it returned, is it the
caller that dies, and the scheduler after it. -/
def killRunning (env : SchedEnv) (cpu : Cpu) (id : TaskId) :
    List Cpu → Bool → Scheduler → Bool × Bool × Scheduler
  | [], killCurrent, s => (false, killCurrent, s)
  | i :: is, killCurrent, s =>
    match s.currentTask i with
    | none => killRunning env cpu id is killCurrent s
    | some t =>
      if t.id = id then
        let s := s.setCurrent i (some { t with state := .zombie 0 })
        let killCurrent := killCurrent || i == cpu
        if !killCurrent then (true, killCurrent, s.wakeWaitParents env id)
        else killRunning env cpu id is killCurrent s
      else killRunning env cpu id is killCurrent s

/-- A task that runs elsewhere becomes a zombie where it is; one that is queued
or asleep is dropped. -/
def killTask (env : SchedEnv) (s : Scheduler) (cpu : Cpu) (id : TaskId) :
    KillOutcome × Scheduler :=
  match killRunning env cpu id (List.finRange maxCpus) false s with
  | (true, _, s) => (.returns true, s)
  | (false, true, s) => (.exits, s)
  | (false, false, s) =>
    match queueOf s.runqueues id with
    | some c =>
      (.returns true, (s.modifyQueue c (·.removeTask id)).wakeWaitParents env id)
    | none =>
      if s.blockedTasks.any (·.id = id) then
        (.returns true,
          { s with blockedTasks := s.blockedTasks.eraseP (·.id = id) }.wakeWaitParents env id)
      else (.returns false, s)

/-- Move a zombie that waits for its parent to the graveyard. -/
def tryWaitTask (s : Scheduler) (id : TaskId) : WaitResult × Scheduler :=
  match s.blockedTasks.find? (·.id = id) with
  | some t =>
    match t.state with
    | .zombie code =>
      (.reaped code,
        { s with
          blockedTasks := s.blockedTasks.eraseP (·.id = id)
          deadTasks := s.deadTasks ++ [t] })
    | _ => (.blocked, s)
  | none =>
    if (slotTasks s.currentTask).any (·.id = id) || (slotTasks s.switchStash).any (·.id = id) ||
        (queuedTasks s.runqueues).any (·.id = id) then (.blocked, s)
    else (.notFound, s)

/-- One round of `drain_dead_tasks`: free the last corpse. -/
def drainDeadTask (s : Scheduler) : Scheduler := { s with deadTasks := s.deadTasks.dropLast }

/-! ## Waking -/

/-- Wake the filed tasks in a given state, in order. -/
def wakeFiled (env : SchedEnv) (s : Scheduler) (state : TaskState) : Scheduler :=
  (s.blockedTasks.filter fun t => t.state = state).foldl
    (fun s t => s.enqueue env { t with state := .ready })
    { s with blockedTasks := s.blockedTasks.filter fun t => t.state ≠ state }

theorem unblock_eq_wakeFiled (env : SchedEnv) (s : Scheduler) (state : TaskState) :
    s.unblock env state = (s.markStashReadyIf fun t => t.state = state).wakeFiled env state := rfl

def unblockIrqWaiters (env : SchedEnv) (s : Scheduler) (vector : UInt8) : Scheduler :=
  s.unblock env (.blockedOnIrq vector)

/-- Is the task blocked on a virtio request, whichever it is? -/
def isBlockedOnVirtio (t : Task) : Bool :=
  match t.state with
  | .blockedOnVirtio _ => true
  | _ => false

/-- Filed tasks are woken by request, but in the stash any virtio waiter is. -/
def unblockVirtioWaiters (env : SchedEnv) (s : Scheduler) (head : UInt16) : Scheduler :=
  (s.markStashReadyIf isBlockedOnVirtio).wakeFiled env (.blockedOnVirtio head)

/-- Wake one filed task by id with `push`, unless it is not blocked (a zombie,
or a task parked for its insane stack). -/
def wakeById (s : Scheduler) (id : TaskId) (push : Scheduler → Task → Scheduler) : Scheduler :=
  let s := s.markStashReadyIf fun t => t.id = id
  match s.blockedTasks.find? (·.id = id) with
  | some t =>
    if t.state.isBlocked then
      push { s with blockedTasks := s.blockedTasks.eraseP (·.id = id) } { t with state := .ready }
    else s
  | none => s

def wakeThread (env : SchedEnv) (s : Scheduler) (id : TaskId) : Scheduler :=
  s.wakeById id (enqueue env)

/-- To the front of the game class of a CPU. -/
def pushGameFront (env : SchedEnv) (s : Scheduler) (task : Task) : Scheduler :=
  let task := { task with priority := .game }
  s.modifyQueue (selectCpu env s task) fun rq => { rq with tasksGame := task :: rq.tasksGame }

def wakeThreadDirect (env : SchedEnv) (s : Scheduler) (id : TaskId) : Scheduler :=
  s.wakeById id (pushGameFront env)

def unblockFutexWaiter (env : SchedEnv) (s : Scheduler) (id : TaskId) : Scheduler :=
  s.wakeById id (enqueue env)

/-- Does `yield_task` get as far as `switch_context`? -/
def yieldSwitches (env : SchedEnv) (s : Scheduler) (cpu : Cpu) : Bool :=
  if cpu = 0 ∧ !env.bootComplete then false
  else
    let s := { s with tick := s.tick + 1, gameMode := s.gameMode.tickOnce }
    let (current, s) := (s.checkDeadlineMisses env).takeRunning env cpu
    match (s.pickNext env cpu).1 with
    | none => false
    | some next => next.id != (chargeSlice env current).id && next.savedStackIsSane

/-- Does `yield_task` create an idle task, for want of anything that runs? -/
def yieldCreatesIdle (env : SchedEnv) (s : Scheduler) (cpu : Cpu) : Bool :=
  !(cpu = 0 ∧ !env.bootComplete) && (s.currentTask cpu).isNone && (s.idleTask cpu).isNone

end Scheduler

/-! ## All calls, in any order -/

/-- Where a CPU is in its code. -/
inductive CpuPhase where
  /-- Anywhere outside the two below. -/
  | running
  /-- Between the unlock before `switch_context` and `finish_task_switch`. -/
  | switching
  /-- In `kill_task` of its own task, about to call `exit_current_task(0)`. -/
  | exiting
  deriving DecidableEq

/-- A scheduler call. Those a CPU makes for itself name the CPU. -/
inductive SchedCall where
  | spawn (task : Task)
  | yieldTask (cpu : Cpu)
  | blockCurrentTask (cpu : Cpu) (state : TaskState)
  | finishTaskSwitch (cpu : Cpu)
  | exitCurrentTask (cpu : Cpu) (code : UInt64)
  | killTask (cpu : Cpu) (id : TaskId)
  | tryWaitTask (id : TaskId)
  | drainDeadTask
  | unblockReceivers (chan : Nat)
  | unblockSenders (chan : Nat)
  | unblockIrqWaiters (vector : UInt8)
  | unblockVirtioWaiters (head : UInt16)
  | unblockFutexWaiter (id : TaskId)
  | wakeThread (id : TaskId)
  | wakeThreadDirect (id : TaskId)

structure SchedState where
  sched : Scheduler
  phase : Cpu → CpuPhase
  /-- The ids `TaskId::new` has handed out to tasks that reached the scheduler. -/
  used : List TaskId

namespace SchedState

/-- Replace the scheduler. -/
def withSched (s : SchedState) (sched : Scheduler) : SchedState := { s with sched := sched }

def setPhase (s : SchedState) (cpu : Cpu) (phase : CpuPhase) : SchedState :=
  { s with phase := Function.update s.phase cpu phase }

/-- The ids a call puts to use. -/
def newIds (s : SchedState) (env : SchedEnv) : SchedCall → List TaskId
  | .spawn task => [task.id]
  | .yieldTask cpu => if s.sched.yieldCreatesIdle env cpu then [env.freshId] else []
  | _ => []

/-- May the call be made here: the CPU it names is at a place in its code from
which the call can be reached. -/
def Enabled (s : SchedState) : SchedCall → Prop
  | .yieldTask cpu | .blockCurrentTask cpu _ | .killTask cpu _ => s.phase cpu = .running
  | .finishTaskSwitch cpu => s.phase cpu ≠ .exiting
  | .exitCurrentTask cpu code =>
    s.phase cpu = .running ∨ (s.phase cpu = .exiting ∧ code = 0)
  | _ => True

instance (s : SchedState) : (call : SchedCall) → Decidable (s.Enabled call)
  | .yieldTask cpu | .blockCurrentTask cpu _ | .killTask cpu _ =>
    inferInstanceAs (Decidable (s.phase cpu = .running))
  | .finishTaskSwitch cpu => inferInstanceAs (Decidable (s.phase cpu ≠ .exiting))
  | .exitCurrentTask cpu code =>
    inferInstanceAs (Decidable (s.phase cpu = .running ∨ (s.phase cpu = .exiting ∧ code = 0)))
  | .spawn _ | .tryWaitTask _ | .drainDeadTask | .unblockReceivers _ | .unblockSenders _
  | .unblockIrqWaiters _ | .unblockVirtioWaiters _ | .unblockFutexWaiter _ | .wakeThread _
  | .wakeThreadDirect _ => .isTrue trivial

/-- The scheduler and the phases after a call; `none` is a panic. -/
def call (s : SchedState) (env : SchedEnv) : SchedCall → Option SchedState
  | .spawn task => some (s.withSched (s.sched.spawn env task))
  | .yieldTask cpu =>
    some ((s.withSched (s.sched.yieldTask env cpu)).setPhase cpu
      (if s.sched.yieldSwitches env cpu then .switching else .running))
  | .blockCurrentTask cpu state =>
    (s.sched.blockCurrentTask env cpu state).map fun sched =>
      (s.withSched sched).setPhase cpu .switching
  | .finishTaskSwitch cpu =>
    some ((s.withSched (s.sched.finishTaskSwitch env cpu)).setPhase cpu .running)
  | .exitCurrentTask cpu code =>
    (s.sched.exitCurrentTask env cpu code).map fun sched =>
      (s.withSched sched).setPhase cpu .switching
  | .killTask cpu id =>
    match s.sched.killTask env cpu id with
    | (.returns _, sched) => some (s.withSched sched)
    | (.exits, sched) => some ((s.withSched sched).setPhase cpu .exiting)
  | .tryWaitTask id => some (s.withSched (s.sched.tryWaitTask id).2)
  | .drainDeadTask => some (s.withSched s.sched.drainDeadTask)
  | .unblockReceivers chan => some (s.withSched (s.sched.unblockReceivers env chan))
  | .unblockSenders chan => some (s.withSched (s.sched.unblockSenders env chan))
  | .unblockIrqWaiters vector => some (s.withSched (s.sched.unblockIrqWaiters env vector))
  | .unblockVirtioWaiters head => some (s.withSched (s.sched.unblockVirtioWaiters env head))
  | .unblockFutexWaiter id => some (s.withSched (s.sched.unblockFutexWaiter env id))
  | .wakeThread id => some (s.withSched (s.sched.wakeThread env id))
  | .wakeThreadDirect id => some (s.withSched (s.sched.wakeThreadDirect env id))

/-- One step: the call is enabled, what it needs of new ids is new, and it does
not panic. -/
def exec (s : SchedState) (l : SchedEnv × SchedCall) : Option SchedState :=
  if s.Enabled l.2 ∧ ∀ id ∈ s.newIds l.1 l.2, id ∉ s.used then
    (s.call l.1 l.2).map fun s' => { s' with used := s.newIds l.1 l.2 ++ s.used }
  else none

/-- The state `init` leaves: all idle tasks have their own id. -/
def Initial (s : SchedState) : Prop :=
  ∃ ids stackBases, Function.Injective ids ∧ s.sched = Scheduler.init ids stackBases ∧
    (∀ c, s.phase c = .running) ∧ ∀ c, ids c ∈ s.used

end SchedState

/-- The scheduler under any interleaving of calls. -/
def schedMachine : Lib.Machine SchedState (SchedEnv × SchedCall) where
  init := SchedState.Initial
  step s l s' := s.exec l = some s'

end AthenaOS
