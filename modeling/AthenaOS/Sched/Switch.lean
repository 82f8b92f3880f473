import AthenaOS.Sched.State

/-!
# Picking, blocking and waking tasks (`kernel/src/scheduler.rs`)

The scheduler operations the IPC arms go through, each as one step under the
scheduler lock:

Telemetry counters, page-table switches and register restores are left out;
what an operation reads from clocks and atomics is a `SchedEnv`.
-/

namespace AthenaOS

/-- What a scheduler operation reads from outside the scheduler. -/
structure SchedEnv where
  /-- `edf_monotonic_us`. -/
  nowUs : Nat
  /-- `WORK_STEALING_ENABLED`. -/
  workStealing : Bool
  /-- `ONLINE_CPUS`. -/
  online : Nat
  /-- `BOOT_COMPLETE`. -/
  bootComplete : Bool
  /-- Id and kernel stack of the idle task that `yield_task` would create. -/
  freshId : TaskId
  freshStack : Nat

def throttleRatio : Nat := 20

def dlStarvationLimit : Nat := 64

def stealMinColdTicks : Nat := 3

def minGranularityVns : Nat := 1000000

namespace GameModeState

def tickOnce (g : GameModeState) : GameModeState :=
  if !g.active then g
  else
    { g with
      gameTicks := g.gameTicks + 1
      bgTicksAllowed := (g.gameTicks + 1) / throttleRatio }

def canRunBackground (g : GameModeState) : Bool :=
  !g.active || g.bgTicksUsed < g.bgTicksAllowed

def chargeBackground (g : GameModeState) : GameModeState :=
  { g with bgTicksUsed := g.bgTicksUsed + 1 }

end GameModeState

/-- Insert before the first entry that satisfies `p`, or at the back. -/
def insertBefore (p : Task → Bool) (task : Task) : List Task → List Task
  | [] => [task]
  | t :: ts => if p t then task :: t :: ts else t :: insertBefore p task ts

namespace Scheduler

def modifyQueue (s : Scheduler) (cpu : Cpu) (f : Runqueue → Runqueue) : Scheduler :=
  { s with runqueues := Function.update s.runqueues cpu (f (s.runqueues cpu)) }

def setCurrent (s : Scheduler) (cpu : Cpu) (t : Option Task) : Scheduler :=
  { s with currentTask := Function.update s.currentTask cpu t }

def setStash (s : Scheduler) (cpu : Cpu) (t : Option Task) : Scheduler :=
  { s with switchStash := Function.update s.switchStash cpu t }

def setIdle (s : Scheduler) (cpu : Cpu) (t : Option Task) : Scheduler :=
  { s with idleTask := Function.update s.idleTask cpu t }

def setStreak (s : Scheduler) (cpu : Cpu) (n : Nat) : Scheduler :=
  { s with dlStarveStreak := Function.update s.dlStarveStreak cpu n }

/-- `blocked_tasks.push`. -/
def pushBlocked (s : Scheduler) (t : Task) : Scheduler :=
  { s with blockedTasks := s.blockedTasks ++ [t] }

/-! ## Runqueues -/

def insertNormalSorted (s : Scheduler) (cpu : Cpu) (task : Task) : Scheduler :=
  s.modifyQueue cpu fun rq =>
    { rq with
      tasksNormal := insertBefore (fun t => t.vruntime > task.vruntime) task rq.tasksNormal }

def insertDeadlineSorted (s : Scheduler) (cpu : Cpu) (task : Task) : Scheduler :=
  s.modifyQueue cpu fun rq =>
    { rq with
      tasksDeadline :=
        insertBefore (fun t => t.absoluteDeadline > task.absoluteDeadline) task
          rq.tasksDeadline }

/-- The CPUs `0..online_limit`. -/
def onlineCpus (env : SchedEnv) : List Cpu :=
  (List.finRange maxCpus).filter (·.val < env.online)

/-- Prefer the core the task last ran on, then an allowed idle core, then any
allowed core, then CPU 0. -/
def selectCpu (env : SchedEnv) (s : Scheduler) (task : Task) : Cpu :=
  let allowed := (onlineCpus env).filter fun c : Cpu => task.isAllowed c.val
  match allowed.find? (fun c => task.lastCpu = some c.val) with
  | some home => home
  | none =>
    match allowed.find? (fun c => (s.currentTask c).isNone) with
    | some idle => idle
    | none => allowed.head?.getD 0

/-- Put a task on a runqueue; a zombie is parked for `wait` instead. -/
def enqueue (env : SchedEnv) (s : Scheduler) (task : Task) : Scheduler :=
  if task.state.isZombie then
    s.pushBlocked task
  else
    let cpu := selectCpu env s task
    if task.priority = .game ∧ task.deadline.isSome then
      s.insertDeadlineSorted cpu task
    else if task.priority = .game then
      s.modifyQueue cpu fun rq => { rq with tasksGame := rq.tasksGame ++ [task] }
    else
      s.insertNormalSorted cpu task

/-- Park a task whose saved stack pointer is outside its kernel stack. -/
def quarantineInsaneStack (s : Scheduler) (t : Task) : Scheduler := s.pushBlocked t

/-! ## Picking the next task -/

/-- Does a deadline task have work to do this period? -/
def runnableThisPeriod (nowUs : Nat) (t : Task) : Bool :=
  t.deadline.all fun dl => dl.needsNewPeriod nowUs || dl.lastFinish < dl.lastWake

/-- Start a new period of the picked deadline task if one is due. -/
def startPeriod (env : SchedEnv) (s : Scheduler) (t : Task) : Task × Scheduler :=
  match t.deadline with
  | some dl =>
    if dl.needsNewPeriod env.nowUs then
      ({ t with deadline := some (dl.wake env.nowUs) },
        { s with
          deadlineStats :=
            { s.deadlineStats with
              totalInvocations := s.deadlineStats.totalInvocations + 1 } })
    else
      (t, s)
  | none => (t, s)

/-- The EDF loop of `pick_next`. Every round takes one entry off the deadline
queue, so its length bounds the number of rounds. -/
def pickDeadline (env : SchedEnv) (cpu : Cpu) (normalRunnable : Bool) :
    Nat → Scheduler → Option Task × Scheduler
  | 0, s => (none, s)
  | rounds + 1, s =>
    let queue := (s.runqueues cpu).tasksDeadline
    match queue.findIdx? (runnableThisPeriod env.nowUs) with
    | none => (none, s)
    | some idx =>
      match queue[idx]? with
      | none => (none, s)
      | some t =>
        let s := s.modifyQueue cpu fun rq => { rq with tasksDeadline := queue.eraseIdx idx }
        let (t, s) := startPeriod env s t
        if !t.savedStackIsSane then
          pickDeadline env cpu normalRunnable rounds (s.quarantineInsaneStack t)
        else
          let streak := if normalRunnable then min (s.dlStarveStreak cpu + 1) (2 ^ 32 - 1) else 0
          (some (t.markScheduled cpu s.tick), s.setStreak cpu streak)

/-- The pop loop of the game and normal classes: the insane tasks it goes
through, the task it takes and what it leaves. -/
def popSane : List Task → List Task × Option Task × List Task
  | [] => ([], none, [])
  | t :: ts =>
    if !t.savedStackIsSane then
      let (dropped, picked, rest) := popSane ts
      (t :: dropped, picked, rest)
    else
      ([], some t, ts)

def pickGame (cpu : Cpu) (s : Scheduler) : Option Task × Scheduler :=
  let (dropped, picked, rest) := popSane (s.runqueues cpu).tasksGame
  let s := s.modifyQueue cpu fun rq => { rq with tasksGame := rest }
  let s := dropped.foldl quarantineInsaneStack s
  match picked with
  | some t => (some (t.markScheduled cpu s.tick), s.setStreak cpu 0)
  | none => (none, s)

def pickNormal (cpu : Cpu) (s : Scheduler) : Option Task × Scheduler :=
  if !s.gameMode.active || s.gameMode.canRunBackground then
    let (dropped, picked, rest) := popSane (s.runqueues cpu).tasksNormal
    let s := s.modifyQueue cpu fun rq => { rq with tasksNormal := rest }
    let s := dropped.foldl quarantineInsaneStack s
    match picked with
    | some t =>
      let s :=
        if s.gameMode.active then { s with gameMode := s.gameMode.chargeBackground } else s
      (some (t.markScheduled cpu s.tick), s.setStreak cpu 0)
    | none => (none, s)
  else
    (none, s)

/-- May `cpu` steal this queued task? -/
def stealable (s : Scheduler) (cpu : Cpu) (t : Task) : Bool :=
  t.isAllowed cpu.val &&
    !(slotTasks s.currentTask).any (·.id = t.id) &&
    !(slotTasks s.switchStash).any (·.id = t.id) &&
    t.stackPtr != 0 && t.savedStackIsSane &&
    s.tick - t.lastRanTick ≥ stealMinColdTicks

/-- The last index of a list whose entry satisfies `p` (`rposition`). -/
def rposition (p : Task → Bool) (l : List Task) : Option Nat :=
  (l.reverse.findIdx? p).map fun i => l.length - 1 - i

/-- Work stealing: the first other online CPU with a stealable normal task
loses the one nearest the back of its queue. -/
def steal (cpu : Cpu) (s : Scheduler) : List Cpu → Option Task × Scheduler
  | [] => (none, s)
  | i :: is =>
    if i = cpu then
      steal cpu s is
    else
      let queue := (s.runqueues i).tasksNormal
      match rposition (s.stealable cpu) queue with
      | none => steal cpu s is
      | some pos =>
        match queue[pos]? with
        | none => steal cpu s is
        | some t =>
          (some (t.markScheduled cpu s.tick),
            s.modifyQueue i fun rq => { rq with tasksNormal := queue.eraseIdx pos })

/-- Fall through to the next class when nothing was picked. -/
def orPick (r : Option Task × Scheduler) (next : Scheduler → Option Task × Scheduler) :
    Option Task × Scheduler :=
  match r.1 with
  | some t => (some t, r.2)
  | none => next r.2

/-- The deadline class of `pick_next`, skipped for one pick when it has starved
the normal class for too long. -/
def pickDeadlineGuarded (env : SchedEnv) (s : Scheduler) (cpu : Cpu) :
    Option Task × Scheduler :=
  let normalRunnable := !(s.runqueues cpu).tasksNormal.isEmpty
  let forceNormal := normalRunnable && s.dlStarveStreak cpu ≥ dlStarvationLimit
  if forceNormal then
    (none, s.setStreak cpu 0)
  else
    pickDeadline env cpu normalRunnable (s.runqueues cpu).tasksDeadline.length s

/-- EDF, then game, then normal tasks, then work stealing, with insane saved stacks quarantined on the way;. -/
def pickNext (env : SchedEnv) (s : Scheduler) (cpu : Cpu) : Option Task × Scheduler :=
  orPick (orPick (orPick (s.pickDeadlineGuarded env cpu) (pickGame cpu)) (pickNormal cpu))
    fun s => if !env.workStealing then (none, s) else steal cpu s (onlineCpus env)

/-! ## Blocking and switching -/

/-- Take the idle task of a CPU. -/
def takeIdle (s : Scheduler) (cpu : Cpu) : Option Task × Scheduler :=
  (s.idleTask cpu, s.setIdle cpu none)

/-- `pick_next(..).or_else(idle_task.take())`. -/
def pickOrIdle (env : SchedEnv) (s : Scheduler) (cpu : Cpu) : Option Task × Scheduler :=
  orPick (s.pickNext env cpu) (takeIdle · cpu)

/-- `block_current_task`: the current task goes to the stash in its new state,
the next one takes the CPU. `none` is one of the source's panics (no current
task, or nothing to switch to). -/
def blockCurrentTask (env : SchedEnv) (s : Scheduler) (cpu : Cpu) (state : TaskState) :
    Option Scheduler :=
  match s.currentTask cpu with
  | none => none
  | some current =>
    let current := { current with state := state }
    match (s.setCurrent cpu none).pickOrIdle env cpu with
    | (none, _) => none
    | (some next, s) =>
      if next.isIdle || next.savedStackIsSane then
        some ((s.setCurrent cpu (some next)).setStash cpu (some current))
      else
        match (s.quarantineInsaneStack next).takeIdle cpu with
        | (none, _) => none
        | (some idle, s) => some ((s.setCurrent cpu (some idle)).setStash cpu (some current))

/-- Set the stashed tasks that are blocked and satisfy `p` to ready, in place. -/
def markStashReadyIf (s : Scheduler) (p : Task → Bool) : Scheduler :=
  { s with
    switchStash := fun c => (s.switchStash c).map fun t =>
      if t.state.isBlocked && p t then { t with state := .ready } else t }

/-- Wake every task blocked in `state`: in place in the stash, and from
`blocked_tasks` onto a runqueue, in order (`enqueue` does not look at
`blocked_tasks`). -/
def unblock (env : SchedEnv) (s : Scheduler) (state : TaskState) : Scheduler :=
  let s := s.markStashReadyIf fun t => t.state = state
  let woken := s.blockedTasks.filter fun t => t.state = state
  let s := { s with blockedTasks := s.blockedTasks.filter fun t => t.state ≠ state }
  woken.foldl (fun s t => s.enqueue env { t with state := .ready }) s

def unblockReceivers (env : SchedEnv) (s : Scheduler) (chanId : Nat) : Scheduler :=
  s.unblock env (.blockedOnReceive chanId)

def unblockSenders (env : SchedEnv) (s : Scheduler) (chanId : Nat) : Scheduler :=
  s.unblock env (.blockedOnSend chanId)

def wakeWaitParents (env : SchedEnv) (s : Scheduler) (child : TaskId) : Scheduler :=
  s.unblock env (.blockedOnWait child)

/-- Is the parent of a stashed zombie still around to reap it? -/
def parentAlive (s : Scheduler) (task : Task) : Bool :=
  task.parentId.any fun pid =>
    (slotTasks s.currentTask).any (·.id = pid) ||
    s.blockedTasks.any (·.id = pid) ||
    (slotTasks s.switchStash).any (fun t => t.id = pid && !t.state.isZombie) ||
    (queuedTasks s.runqueues).any (·.id = pid)

/-- Drain the stash slot of a CPU, once its old stack is no longer in use. -/
def finishTaskSwitch (env : SchedEnv) (s : Scheduler) (cpu : Cpu) : Scheduler :=
  match s.switchStash cpu with
  | none => s
  | some task =>
    let s := s.setStash cpu none
    if task.state.isZombie then
      if s.parentAlive task then
        (s.pushBlocked task).wakeWaitParents env task.id
      else
        { s with deadTasks := s.deadTasks ++ [task] }
    else if task.state.isBlocked then
      s.pushBlocked task
    else
      s.enqueue env task

/-- Count a miss of the deadline task running on a CPU; a task that misses gets
a quarter more budget. -/
def checkMissOn (env : SchedEnv) (s : Scheduler) (cpu : Cpu) : Scheduler :=
  match s.currentTask cpu with
  | none => s
  | some t =>
    match t.deadline with
    | none => s
    | some dl =>
      match dl.checkMiss env.nowUs with
      | (false, _) => s
      | (true, dl) =>
        let budget := min (dl.runtimeUs + dl.runtimeUs / 4) (2 ^ 64 - 1)
        let stats :=
          { s.deadlineStats with
            totalMisses := s.deadlineStats.totalMisses + 1
            worstMissUs := max s.deadlineStats.worstMissUs (env.nowUs - dl.absoluteDeadline) }
        { s with deadlineStats := stats }.setCurrent cpu
          (some { t with deadline := some { dl with runtimeUs := budget } })

def checkDeadlineMisses (env : SchedEnv) (s : Scheduler) : Scheduler :=
  (List.finRange maxCpus).foldl (checkMissOn env) s

/-- The task `yield_task` takes off the CPU: the current one, else the idle
one, else a fresh idle task. -/
def takeRunning (env : SchedEnv) (s : Scheduler) (cpu : Cpu) : Task × Scheduler :=
  match s.currentTask cpu with
  | some t => (t, s.setCurrent cpu none)
  | none =>
    match s.idleTask cpu with
    | some t => (t, s.setIdle cpu none)
    | none => ({ Task.new env.freshId env.freshStack none with isIdle := true }, s)

/-- Account the slice a task has just used. -/
def chargeSlice (env : SchedEnv) (t : Task) : Task :=
  let t := { t with deadline := t.deadline.map (·.finish env.nowUs) }
  if !t.isIdle && t.priority = .normal then
    { t with vruntime := min (t.vruntime + minGranularityVns) (2 ^ 64 - 1) }
  else
    t

/-- Give up the CPU if another task can run. -/
def yieldTask (env : SchedEnv) (s : Scheduler) (cpu : Cpu) : Scheduler :=
  if cpu = 0 ∧ !env.bootComplete then s
  else
    let s := { s with tick := s.tick + 1, gameMode := s.gameMode.tickOnce }
    let (current, s) := (s.checkDeadlineMisses env).takeRunning env cpu
    let current := chargeSlice env current
    match s.pickNext env cpu with
    | (none, s) => s.setCurrent cpu (some current)
    | (some next, s) =>
      if next.id = current.id then
        s.setCurrent cpu (some next)
      else if !next.savedStackIsSane then
        (s.quarantineInsaneStack next).setCurrent cpu (some current)
      else if current.isIdle then
        (s.setCurrent cpu (some next)).setIdle cpu (some current)
      else
        (s.setCurrent cpu (some next)).setStash cpu (some current)

end Scheduler

end AthenaOS
