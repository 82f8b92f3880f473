import AthenaOS.Capability.Basic

/-!
# Tasks (`kernel/src/task.rs`)

The scheduler-visible part of a `Task`: its identity, its cap table, the state
the block and wake paths rewrite, and the fields `pick_next`, `enqueue` and
`yield_task` consult. Register state, page tables, descriptors and input ring
buffers are not read by any function modelled here and are left out.
-/

namespace AthenaOS

/-- `TaskState`: ready, blocked on something, or a retained exit code. -/
inductive TaskState where
  | ready
  | blockedOnReceive (chan : Nat)
  | blockedOnSend (chan : Nat)
  | blockedOnIrq (vector : UInt8)
  | blockedOnWait (child : TaskId)
  | blockedOnVirtio (req : UInt16)
  | blockedOnFutex (key : UInt64)
  | blockedOnDrm (req : UInt64)
  | zombie (code : UInt64)
  deriving DecidableEq

namespace TaskState

/-- True for every `BlockedOn*` variant. -/
def isBlocked : TaskState → Bool
  | blockedOnReceive _ | blockedOnSend _ | blockedOnIrq _ | blockedOnWait _
  | blockedOnVirtio _ | blockedOnFutex _ | blockedOnDrm _ => true
  | ready | zombie _ => false

def isZombie : TaskState → Bool
  | zombie _ => true
  | _ => false

end TaskState

inductive TaskPriority where
  | normal
  | game
  deriving DecidableEq

/-- Deadline scheduling parameters of a SCHED_BODY task; times in microseconds. -/
structure DeadlineTask where
  periodUs : Nat
  deadlineUs : Nat
  runtimeUs : Nat
  lastWake : Nat
  lastFinish : Nat
  deadlineMisses : Nat
  totalInvocations : Nat
  absoluteDeadline : Nat
  deriving DecidableEq

namespace DeadlineTask

/-- Start a new deadline period at `nowUs`. -/
def wake (d : DeadlineTask) (nowUs : Nat) : DeadlineTask :=
  { d with
    lastWake := nowUs
    absoluteDeadline := nowUs + d.deadlineUs
    totalInvocations := d.totalInvocations + 1 }

/-- The task finished its work for this period. -/
def finish (d : DeadlineTask) (nowUs : Nat) : DeadlineTask := { d with lastFinish := nowUs }

/-- Was the current period's deadline missed? Counts the miss. -/
def checkMiss (d : DeadlineTask) (nowUs : Nat) : Bool × DeadlineTask :=
  if d.lastWake > 0 && d.lastFinish < d.lastWake && nowUs > d.absoluteDeadline then
    (true, { d with deadlineMisses := d.deadlineMisses + 1 })
  else
    (false, d)

/-- Should a new period start (enough time has passed since the last wake)? -/
def needsNewPeriod (d : DeadlineTask) (nowUs : Nat) : Bool :=
  d.lastWake == 0 || nowUs - d.lastWake ≥ d.periodUs

end DeadlineTask

/-- `KERNEL_STACK_SIZE`: 64 KiB. -/
def kernelStackSize : Nat := 4096 * 16

structure Task where
  id : TaskId
  /-- The saved kernel stack pointer this task resumes on. -/
  stackPtr : Nat
  capTable : CapTable
  state : TaskState
  priority : TaskPriority
  stackBase : Nat
  isIdle : Bool
  parentId : Option TaskId
  vruntime : Nat
  deadline : Option DeadlineTask
  /-- `CpuAffinity::mask`: the cores this task may run on. -/
  affinity : BitVec 64
  lastRanTick : Nat
  /-- The core this task last ran on; `none` is the source's `u32::MAX`. -/
  lastCpu : Option Nat

namespace Task

/-- `Task::new`, given the id its counter hands out and its kernel stack: the
seven-word frame `switch_context` pops is already pushed. -/
def new (id : TaskId) (stackBase : Nat) (parentId : Option TaskId) : Task where
  id := id
  stackPtr := stackBase + kernelStackSize - 7 * 8
  capTable := CapTable.new
  state := .ready
  priority := .normal
  stackBase := stackBase
  isIdle := false
  parentId := parentId
  vruntime := 0
  deadline := none
  affinity := BitVec.allOnes 64
  lastRanTick := 0
  lastCpu := none

def kernelStackEnd (t : Task) : Nat := t.stackBase + kernelStackSize

/-- Does `stackPtr` point strictly inside the task's own kernel stack? -/
def savedStackIsSane (t : Task) : Bool :=
  let sp := t.stackPtr
  let top := t.kernelStackEnd
  let base := top - kernelStackSize
  sp != 0 && sp > base && sp < top

/-- `CpuAffinity::is_allowed`. -/
def isAllowed (t : Task) (cpu : Nat) : Bool := cpu < 64 && t.affinity.getLsbD cpu

/-- The task was just picked to run on `cpu` at scheduler `tick`. -/
def markScheduled (t : Task) (cpu tick : Nat) : Task :=
  { t with lastRanTick := tick, lastCpu := some cpu }

/-- `absolute_deadline`, with `u64::MAX` for a task without deadline. -/
def absoluteDeadline (t : Task) : Nat :=
  t.deadline.elim (2 ^ 64 - 1) (·.absoluteDeadline)

/-- Rewrite a task's cap table and nothing else. -/
def mapCaps (f : CapTable → CapTable) (t : Task) : Task := { t with capTable := f t.capTable }

end Task

end AthenaOS
