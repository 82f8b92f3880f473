import AthenaOS.Capability.Grant
import AthenaOS.Ipc.Channel
import AthenaOS.Sched.Waiting

/-!
# The send and receive arms (arms 2 and 3 of `kernel/src/syscall.rs`)

`SYS_SEND` and `SYS_RECV` go through three critical sections: the capability
check under the scheduler lock, the queue operation under the IPC lock, and
then, under the scheduler lock again, either waking the other side or blocking
the caller. Interrupts are off in between, so a CPU takes these steps in order,
but the steps of different CPUs interleave freely. A caller that blocks has its
user RIP moved back over the `syscall` instruction and retries when woken.
-/

namespace AthenaOS

/-- Where the arm running on a CPU stands. -/
inductive ArmPc where
  /-- No syscall is running. -/
  | user
  | sendIpc (chanId : Nat) (msg : Message)
  /-- The message is queued; `unblock_receivers` is next. -/
  | sendWake (chanId : Nat)
  /-- The send failed; `block_current_task(BlockedOnSend)` is next. -/
  | sendBlock (chanId : Nat)
  | recvIpc (chanId : Nat)
  /-- A message was taken; `unblock_senders` is next. -/
  | recvWake (chanId : Nat) (msg : Message)
  /-- The receive failed; `block_current_task(BlockedOnReceive)` is next. -/
  | recvBlock (chanId : Nat)
  /-- The CPU runs its next task; `finish_task_switch` is next. -/
  | switching
  deriving DecidableEq

/-- Is the arm about to wake the senders of `c`? -/
def ArmPc.wakesSenders (c : Nat) : ArmPc → Bool
  | .recvWake d _ => d = c
  | _ => false

structure IpcState where
  sched : Scheduler
  ipc : IpcSystem
  pc : Cpu → ArmPc
  /-- The register frame of the last syscall on each CPU. -/
  regs : Cpu → SyscallRegisters

inductive ArmLabel where
  /-- `SYS_SEND` enters and checks the capability. -/
  | sysSend (cpu : Cpu) (regs : SyscallRegisters)
  /-- `SYS_RECV` enters and checks the capability. -/
  | sysRecv (cpu : Cpu) (regs : SyscallRegisters)
  /-- The section under the IPC lock. -/
  | ipcSection (cpu : Cpu)
  | wake (cpu : Cpu) (env : SchedEnv)
  | block (cpu : Cpu) (env : SchedEnv)
  | finish (cpu : Cpu) (env : SchedEnv)
  /-- A running task gives up its CPU outside of any syscall. -/
  | yield (cpu : Cpu) (env : SchedEnv)

/-- The channel a handle of the running task gives `right` on. -/
def channelFor (s : Scheduler) (cpu : Cpu) (handle : CapHandle) (right : Rights) :
    Option Nat :=
  match s.currentTask cpu with
  | none => none
  | some task =>
    match task.capTable.get handle with
    | some (.channel chanId rights) =>
      if rights.contains right then some chanId.toNat else none
    | _ => none

namespace IpcState

def setPc (st : IpcState) (cpu : Cpu) (pc : ArmPc) : IpcState :=
  { st with pc := Function.update st.pc cpu pc }

def setRegs (st : IpcState) (cpu : Cpu) (regs : SyscallRegisters) : IpcState :=
  { st with regs := Function.update st.regs cpu regs }

/-- The message `SYS_SEND` reads from its registers. -/
def messageOf (regs : SyscallRegisters) : Message := ⟨regs.rsi, regs.rdx, regs.r10, regs.r8⟩

/-- The registers `SYS_RECV` returns a message in. -/
def deliver (regs : SyscallRegisters) (msg : Message) : SyscallRegisters :=
  { regs with
    rax := 0
    rsi := msg.msgType
    rdx := msg.arg1
    r10 := msg.arg2
    r8 := msg.arg3 }

/-- Move the user RIP back over the two-byte `syscall` instruction. -/
def retry (regs : SyscallRegisters) : SyscallRegisters := { regs with rcx := regs.rcx - 2 }

/-- The caller has no such capability: rax = `u64::MAX`. -/
def refuse (regs : SyscallRegisters) : SyscallRegisters :=
  { regs with rax := 0xFFFFFFFFFFFFFFFF }

/-- Block the task running on `cpu` in `state`, to retry its syscall later. -/
def blockOn (st : IpcState) (cpu : Cpu) (env : SchedEnv) (state : TaskState) :
    Option IpcState :=
  (st.sched.blockCurrentTask env cpu state).map fun sched =>
    ({ st with sched := sched }.setRegs cpu (retry (st.regs cpu))).setPc cpu .switching

/-- One critical section of the arm running on a CPU. -/
def exec (st : IpcState) : ArmLabel → Option IpcState
  | .sysSend cpu regs =>
    match st.pc cpu with
    | .user =>
      match channelFor st.sched cpu regs.rdi.toNat Rights.write with
      | some chanId =>
        some ((st.setRegs cpu regs).setPc cpu (.sendIpc chanId (messageOf regs)))
      | none => some (st.setRegs cpu (refuse regs))
    | _ => none
  | .sysRecv cpu regs =>
    match st.pc cpu with
    | .user =>
      match channelFor st.sched cpu regs.rdi.toNat Rights.read with
      | some chanId => some ((st.setRegs cpu regs).setPc cpu (.recvIpc chanId))
      | none => some (st.setRegs cpu (refuse regs))
    | _ => none
  | .ipcSection cpu =>
    match st.pc cpu with
    | .sendIpc chanId msg =>
      match st.ipc.send chanId msg with
      | (.ok (), ipc) => some ({ st with ipc := ipc }.setPc cpu (.sendWake chanId))
      -- `Err(_)`: a full channel and a missing one are not told apart
      | (.error _, ipc) => some ({ st with ipc := ipc }.setPc cpu (.sendBlock chanId))
    | .recvIpc chanId =>
      match st.ipc.tryRecv chanId with
      | (some msg, ipc) => some ({ st with ipc := ipc }.setPc cpu (.recvWake chanId msg))
      | (none, ipc) => some ({ st with ipc := ipc }.setPc cpu (.recvBlock chanId))
    | _ => none
  | .wake cpu env =>
    match st.pc cpu with
    | .sendWake chanId =>
      some (({ st with sched := st.sched.unblockReceivers env chanId }.setRegs cpu
        { st.regs cpu with rax := 0 }).setPc cpu .user)
    | .recvWake chanId msg =>
      some (({ st with sched := st.sched.unblockSenders env chanId }.setRegs cpu
        (deliver (st.regs cpu) msg)).setPc cpu .user)
    | _ => none
  | .block cpu env =>
    match st.pc cpu with
    | .sendBlock chanId => st.blockOn cpu env (.blockedOnSend chanId)
    | .recvBlock chanId => st.blockOn cpu env (.blockedOnReceive chanId)
    | _ => none
  | .finish cpu env =>
    match st.pc cpu with
    | .switching => some ({ st with sched := st.sched.finishTaskSwitch env cpu }.setPc cpu .user)
    | _ => none
  | .yield cpu env =>
    match st.pc cpu with
    | .user =>
      let sched := st.sched.yieldTask env cpu
      some ({ st with sched := sched }.setPc cpu
        (if (sched.switchStash cpu).isSome then .switching else .user))
    | _ => none

/-- A sender has queued a message on the channel and is about to wake its
receivers. -/
def SendWakePending (st : IpcState) (c : Nat) : Prop := ∃ cpu, st.pc cpu = .sendWake c

/-- A receiver has taken a message off the channel and is about to wake its
senders. -/
def RecvWakePending (st : IpcState) (c : Nat) : Prop := ∃ cpu msg, st.pc cpu = .recvWake c msg

/-- No CPU is inside a send or receive arm. -/
def NoneMidway (st : IpcState) : Prop := ∀ cpu, st.pc cpu = .user ∨ st.pc cpu = .switching

instance (st : IpcState) (c : Nat) : Decidable (st.SendWakePending c) :=
  inferInstanceAs (Decidable (∃ cpu, st.pc cpu = .sendWake c))

instance (st : IpcState) (c : Nat) : Decidable (st.RecvWakePending c) :=
  decidable_of_iff (∃ cpu, (st.pc cpu).wakesSenders c = true) (by
    refine exists_congr fun cpu => ?_
    cases h : st.pc cpu <;> simp [ArmPc.wakesSenders])

instance (st : IpcState) : Decidable st.NoneMidway :=
  inferInstanceAs (Decidable (∀ cpu, st.pc cpu = .user ∨ st.pc cpu = .switching))

variable {st st' : IpcState} {cpu : Cpu} {pc : ArmPc} {l : ArmLabel}

theorem NoneMidway.not_sendWakePending (h : st.NoneMidway) (c : Nat) : ¬ st.SendWakePending c := by
  rintro ⟨cpu, hpc⟩
  rcases h cpu with hu | hu <;> rw [hu] at hpc <;> cases hpc

theorem NoneMidway.not_recvWakePending (h : st.NoneMidway) (c : Nat) : ¬ st.RecvWakePending c := by
  rintro ⟨cpu, msg, hpc⟩
  rcases h cpu with hu | hu <;> rw [hu] at hpc <;> cases hpc

theorem pc_setPc_self (st : IpcState) (cpu : Cpu) (pc : ArmPc) : (st.setPc cpu pc).pc cpu = pc :=
  Function.update_self ..

theorem pc_setPc_of_ne {cpu' : Cpu} (h : cpu' ≠ cpu) :
    (st.setPc cpu pc).pc cpu' = st.pc cpu' := Function.update_of_ne h ..

/-! ## One section at a time

Everything the arms can do to what the invariants speak about: who waits, the
channel lengths and the two kinds of pending wakeups. -/

/-- No one starts to wait. -/
def NoNewWaits (st st' : IpcState) : Prop :=
  ∀ x, x.isBlocked = true → st'.sched.Waits x → st.sched.Waits x

/-- Wakeups of receivers that were on their way still are. -/
def KeepsSendWakes (st st' : IpcState) : Prop :=
  ∀ c, st.SendWakePending c → st'.SendWakePending c

/-- Wakeups of senders that were on their way still are. -/
def KeepsRecvWakes (st st' : IpcState) : Prop :=
  ∀ c, st.RecvWakePending c → st'.RecvWakePending c

/-- The effect of one section. -/
inductive Effect (st : IpcState) (l : ArmLabel) (st' : IpcState) : Prop
  /-- Entering an arm, a failed queue operation, a yield, the end of a switch. -/
  | quiet (ipc : st'.ipc = st.ipc) (waits : NoNewWaits st st') (sends : KeepsSendWakes st st')
      (recvs : KeepsRecvWakes st st')
  /-- A message is queued on `c`. -/
  | sent (c n : Nat) (room : n < ipcBufferSize) (before : st.ipc.channelLen c = some n)
      (after : ∀ d, st'.ipc.channelLen d = if d = c then some (n + 1) else st.ipc.channelLen d)
      (waits : NoNewWaits st st') (sends : KeepsSendWakes st st')
      (recvs : KeepsRecvWakes st st') (pending : st'.SendWakePending c)
  /-- A message is taken off `c`. -/
  | received (c n : Nat) (room : n + 1 ≤ ipcBufferSize)
      (before : st.ipc.channelLen c = some (n + 1))
      (after : ∀ d, st'.ipc.channelLen d = if d = c then some n else st.ipc.channelLen d)
      (waits : NoNewWaits st st') (sends : KeepsSendWakes st st')
      (recvs : KeepsRecvWakes st st') (pending : st'.RecvWakePending c)
  /-- The receivers waiting on `c` are woken. -/
  | wokeReceivers (c : Nat) (ipc : st'.ipc = st.ipc) (waits : NoNewWaits st st')
      (woken : ¬ st'.sched.Waits (.blockedOnReceive c))
      (sends : ∀ d ≠ c, st.SendWakePending d → st'.SendWakePending d)
      (recvs : KeepsRecvWakes st st')
  /-- The senders waiting on `c` are woken. -/
  | wokeSenders (c : Nat) (ipc : st'.ipc = st.ipc) (waits : NoNewWaits st st')
      (woken : ¬ st'.sched.Waits (.blockedOnSend c)) (sends : KeepsSendWakes st st')
      (recvs : ∀ d ≠ c, st.RecvWakePending d → st'.RecvWakePending d)
  /-- The caller blocks on a channel. -/
  | blocked (cpu : Cpu) (env : SchedEnv) (state : TaskState) (label : l = .block cpu env)
      (pc : (∃ c, st.pc cpu = .sendBlock c ∧ state = .blockedOnSend c) ∨
        ∃ c, st.pc cpu = .recvBlock c ∧ state = .blockedOnReceive c)
      (ipc : st'.ipc = st.ipc)
      (waits : ∀ x, x.isBlocked = true → st'.sched.Waits x → st.sched.Waits x ∨ x = state)
      (sends : KeepsSendWakes st st') (recvs : KeepsRecvWakes st st')

/-- A wakeup on its way is not lost by a step of a CPU that is not to perform
it. -/
theorem keepsSendWakes_of_pc (hpc : st'.pc = Function.update st.pc cpu pc)
    (hcpu : ∀ c, st.pc cpu ≠ .sendWake c) : KeepsSendWakes st st' := by
  rintro c ⟨cpu', h⟩
  have hne : cpu' ≠ cpu := by
    rintro rfl
    exact hcpu c h
  exact ⟨cpu', by rw [hpc, Function.update_of_ne hne, h]⟩

theorem keepsRecvWakes_of_pc (hpc : st'.pc = Function.update st.pc cpu pc)
    (hcpu : ∀ c msg, st.pc cpu ≠ .recvWake c msg) : KeepsRecvWakes st st' := by
  rintro c ⟨cpu', msg, h⟩
  have hne : cpu' ≠ cpu := by
    rintro rfl
    exact hcpu c msg h
  exact ⟨cpu', msg, by rw [hpc, Function.update_of_ne hne, h]⟩

/-- A step that leaves channels and sleepers alone. -/
theorem Effect.ofPc (hpc : st'.pc = Function.update st.pc cpu pc)
    (hsend : ∀ c, st.pc cpu ≠ .sendWake c) (hrecv : ∀ c msg, st.pc cpu ≠ .recvWake c msg)
    (hipc : st'.ipc = st.ipc) (hwait : NoNewWaits st st') : Effect st l st' :=
  .quiet hipc hwait (keepsSendWakes_of_pc hpc hsend) (keepsRecvWakes_of_pc hpc hrecv)

theorem blockOn_effect {env : SchedEnv} {state : TaskState} (ha : st.sched.Awake)
    (hpc : (∃ c, st.pc cpu = .sendBlock c ∧ state = .blockedOnSend c) ∨ ∃ c,
      st.pc cpu = .recvBlock c ∧ state = .blockedOnReceive c)
    (h : st.blockOn cpu env state = some st') :
    st'.sched.Awake ∧ Effect st (.block cpu env) st' := by
  obtain ⟨sched, hblock, rfl⟩ := Option.map_eq_some_iff.mp h
  obtain ⟨ha', hw, _⟩ := Scheduler.blockCurrentTask_spec ha hblock
  refine ⟨ha', .blocked cpu env state rfl hpc rfl hw (keepsSendWakes_of_pc rfl fun c hc => ?_)
    (keepsRecvWakes_of_pc rfl fun c msg hc => ?_)⟩
  · rcases hpc with ⟨d, hd, _⟩ | ⟨d, hd, _⟩ <;> rw [hd] at hc <;> cases hc
  · rcases hpc with ⟨d, hd, _⟩ | ⟨d, hd, _⟩ <;> rw [hd] at hc <;> cases hc

/-- **What one section can do.** -/
theorem exec_effect (ha : st.sched.Awake) (h : st.exec l = some st') :
    st'.sched.Awake ∧ Effect st l st' := by
  have hsame : ∀ {st₁ : IpcState}, st₁.sched = st.sched → NoNewWaits st st₁ :=
    fun heq x _ hw => heq ▸ hw
  cases l with
  | sysSend cpu regs | sysRecv cpu regs =>
    simp only [exec] at h
    split at h
    · rename_i hpc
      split at h
      · rw [← Option.some.inj h]
        exact ⟨ha, .ofPc rfl (fun c hc => by rw [hpc] at hc; cases hc)
          (fun c msg hc => by rw [hpc] at hc; cases hc) rfl (hsame rfl)⟩
      · rw [← Option.some.inj h]
        exact ⟨ha, .quiet rfl (hsame rfl) (fun _ => id) (fun _ => id)⟩
    · cases h
  | ipcSection cpu =>
    simp only [exec] at h
    split at h
    · rename_i c msg hpc
      have hs : ∀ d, st.pc cpu ≠ .sendWake d := fun d hd => by rw [hpc] at hd; cases hd
      have hr : ∀ d m, st.pc cpu ≠ .recvWake d m := fun d m hd => by rw [hpc] at hd; cases hd
      split at h
      · rename_i ipc hsend
        obtain ⟨n, hn, hbefore, hafter⟩ := IpcSystem.send_ok hsend
        rw [← Option.some.inj h]
        exact ⟨ha, .sent c n hn hbefore hafter (hsame rfl) (keepsSendWakes_of_pc rfl hs)
          (keepsRecvWakes_of_pc rfl hr) ⟨cpu, pc_setPc_self _ cpu _⟩⟩
      · rename_i ipc hsend
        rw [← Option.some.inj h]
        exact ⟨ha, .ofPc rfl hs hr (IpcSystem.send_error hsend).1 (hsame rfl)⟩
    · rename_i c hpc
      have hs : ∀ d, st.pc cpu ≠ .sendWake d := fun d hd => by rw [hpc] at hd; cases hd
      have hr : ∀ d m, st.pc cpu ≠ .recvWake d m := fun d m hd => by rw [hpc] at hd; cases hd
      split at h
      · rename_i msg ipc hrecv
        obtain ⟨n, hn, hbefore, hafter⟩ := IpcSystem.tryRecv_some hrecv
        rw [← Option.some.inj h]
        exact ⟨ha, .received c n hn hbefore hafter (hsame rfl) (keepsSendWakes_of_pc rfl hs)
          (keepsRecvWakes_of_pc rfl hr) ⟨cpu, msg, pc_setPc_self _ cpu _⟩⟩
      · rename_i ipc hrecv
        rw [← Option.some.inj h]
        exact ⟨ha, .ofPc rfl hs hr (IpcSystem.tryRecv_none hrecv).1 (hsame rfl)⟩
    · cases h
  | wake cpu env =>
    simp only [exec] at h
    split at h
    · rename_i c hpc
      obtain ⟨ha', hw, _⟩ := Scheduler.unblock_spec env (.blockedOnReceive c) ha
      rw [← Option.some.inj h]
      refine ⟨ha', .wokeReceivers c rfl (fun x hx hwx => (hw x hx hwx).1)
        (fun hwx => (hw _ rfl hwx).2 rfl) (fun d hd hp => ?_)
        (keepsRecvWakes_of_pc rfl fun d m hd => by rw [hpc] at hd; cases hd)⟩
      obtain ⟨cpu', hcpu'⟩ := hp
      have hne : cpu' ≠ cpu := by
        rintro rfl
        rw [hpc] at hcpu'
        exact hd (ArmPc.sendWake.inj hcpu').symm
      exact ⟨cpu', (pc_setPc_of_ne hne).trans hcpu'⟩
    · rename_i c msg hpc
      obtain ⟨ha', hw, _⟩ := Scheduler.unblock_spec env (.blockedOnSend c) ha
      rw [← Option.some.inj h]
      refine ⟨ha', .wokeSenders c rfl (fun x hx hwx => (hw x hx hwx).1)
        (fun hwx => (hw _ rfl hwx).2 rfl)
        (keepsSendWakes_of_pc rfl fun d hd => by rw [hpc] at hd; cases hd)
        (fun d hd hp => ?_)⟩
      obtain ⟨cpu', m, hcpu'⟩ := hp
      have hne : cpu' ≠ cpu := by
        rintro rfl
        rw [hpc] at hcpu'
        exact hd (ArmPc.recvWake.inj hcpu').1.symm
      exact ⟨cpu', m, (pc_setPc_of_ne hne).trans hcpu'⟩
    · cases h
  | block cpu env =>
    simp only [exec] at h
    split at h
    · rename_i c hpc
      exact blockOn_effect ha (Or.inl ⟨c, hpc, rfl⟩) h
    · rename_i c hpc
      exact blockOn_effect ha (Or.inr ⟨c, hpc, rfl⟩) h
    · cases h
  | finish cpu env =>
    simp only [exec] at h
    split at h
    · rename_i hpc
      obtain ⟨ha', hw, _⟩ := Scheduler.finishTaskSwitch_spec env cpu ha
      rw [← Option.some.inj h]
      exact ⟨ha', .ofPc rfl (fun c hc => by rw [hpc] at hc; cases hc)
        (fun c msg hc => by rw [hpc] at hc; cases hc) rfl hw⟩
    · cases h
  | yield cpu env =>
    simp only [exec] at h
    split at h
    · rename_i hpc
      obtain ⟨ha', hw, _⟩ := Scheduler.yieldTask_spec env cpu ha
      rw [← Option.some.inj h]
      exact ⟨ha', .ofPc rfl (fun c hc => by rw [hpc] at hc; cases hc)
        (fun c msg hc => by rw [hpc] at hc; cases hc) rfl hw⟩
    · cases h

end IpcState

end AthenaOS
