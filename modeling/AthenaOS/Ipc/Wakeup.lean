import AthenaOS.Lib.Machine
import AthenaOS.Ipc.Syscall

/-!
# Lost wakeups

A receiver that finds its channel empty, or a sender that finds it full, blocks
in a later critical section than the one that looked. In between, the other
side may queue or take a message and perform its wakeup.
-/

namespace AthenaOS

open Lib

namespace IpcState

/-- No task sleeps on a channel that has what it waits for. -/
def NoLostWakeup (st : IpcState) : Prop :=
  ∀ t ∈ st.sched.tasks, ∀ c n, st.ipc.channelLen c = some n →
    (t.state = .blockedOnReceive c → n = 0) ∧ (t.state = .blockedOnSend c → n = ipcBufferSize)

end IpcState

/-- All interleavings of sends and receives, from any state without a lost
wakeup in which no arm runs. -/
def ipcMachine : Machine IpcState ArmLabel where
  init st := st.sched.Awake ∧ (∀ cpu, st.pc cpu = .user) ∧ st.NoLostWakeup
  step st l st' := st.exec l = some st'

/-- A block comes in time: the channel is still missing, full (for a sender) or
empty (for a receiver), or a wakeup on it is on its way. -/
def BlockInTime (st : IpcState) : ArmLabel → Prop
  | .block cpu _ =>
    match st.pc cpu with
    | .sendBlock c =>
      st.ipc.channelLen c = none ∨ st.ipc.channelLen c = some ipcBufferSize ∨
        st.RecvWakePending c
    | .recvBlock c =>
      st.ipc.channelLen c = none ∨ st.ipc.channelLen c = some 0 ∨ st.SendWakePending c
    | _ => True
  | _ => True

instance (st : IpcState) (l : ArmLabel) : Decidable (BlockInTime st l) :=
  match l with
  | .block cpu _ =>
    match hpc : st.pc cpu with
    | .sendBlock c =>
      decidable_of_iff (st.ipc.channelLen c = none ∨ st.ipc.channelLen c = some ipcBufferSize ∨
        st.RecvWakePending c) (by rw [BlockInTime, hpc])
    | .recvBlock c =>
      decidable_of_iff (st.ipc.channelLen c = none ∨ st.ipc.channelLen c = some 0 ∨
        st.SendWakePending c) (by rw [BlockInTime, hpc])
    | .user | .sendIpc .. | .sendWake _ | .recvIpc _ | .recvWake .. | .switching =>
      isTrue (by rw [BlockInTime, hpc]; trivial)
  | .sysSend .. | .sysRecv .. | .ipcSection _ | .wake .. | .finish .. | .yield .. => isTrue trivial

/-- A sleeper whose channel has what it waits for is about to be woken. -/
structure WakeInv (st : IpcState) : Prop where
  awake : st.sched.Awake
  receivers : ∀ c n, st.sched.Waits (.blockedOnReceive c) → st.ipc.channelLen c = some n →
    n ≠ 0 → st.SendWakePending c
  senders : ∀ c n, st.sched.Waits (.blockedOnSend c) → st.ipc.channelLen c = some n →
    n ≠ ipcBufferSize → st.RecvWakePending c

namespace WakeInv

open IpcState

/-- A task that waits is one of the scheduler's tasks. -/
theorem mem_tasks_of_waits {s : Scheduler} {x : TaskState} (h : s.Waits x) :
    ∃ t ∈ s.tasks, t.state = x := by
  obtain ⟨t, ht, hx⟩ := h
  refine ⟨t, ?_, hx⟩
  simp only [Scheduler.tasks, List.mem_append, mem_slotTasks]
  rcases ht with ht | ht
  · exact Or.inr (Or.inl ht)
  · exact Or.inr (Or.inr (Or.inr ht))

theorem init {st : IpcState} (h : ipcMachine.init st) : WakeInv st := by
  obtain ⟨ha, _, hlost⟩ := h
  refine ⟨ha, fun c n hw hn hne => ?_, fun c n hw hn hne => ?_⟩
  · obtain ⟨t, ht, hx⟩ := mem_tasks_of_waits hw
    exact absurd ((hlost t ht c n hn).1 hx) hne
  · obtain ⟨t, ht, hx⟩ := mem_tasks_of_waits hw
    exact absurd ((hlost t ht c n hn).2 hx) hne

/-- One section of an arm, blocks in time, keeps every wakeup on its way. -/
theorem step {st st' : IpcState} {l : ArmLabel} (h : WakeInv st) (hg : BlockInTime st l)
    (hexec : st.exec l = some st') : WakeInv st' := by
  obtain ⟨ha, heff⟩ := exec_effect h.awake hexec
  refine ⟨ha, fun d m hw hm hne => ?_, fun d m hw hm hne => ?_⟩
  · -- receivers
    cases heff with
    | quiet ipc waits sends _ =>
      rw [ipc] at hm
      exact sends d (h.receivers d m (waits _ rfl hw) hm hne)
    | sent c n _ _ after waits sends _ pending =>
      rw [after] at hm
      by_cases hd : d = c
      · rw [hd]
        exact pending
      · rw [if_neg hd] at hm
        exact sends d (h.receivers d m (waits _ rfl hw) hm hne)
    | received c n _ before after waits sends _ _ =>
      rw [after] at hm
      by_cases hd : d = c
      · subst hd
        exact sends d (h.receivers d (n + 1) (waits _ rfl hw) before (Nat.succ_ne_zero n))
      · rw [if_neg hd] at hm
        exact sends d (h.receivers d m (waits _ rfl hw) hm hne)
    | wokeReceivers c ipc waits woken sends _ =>
      rw [ipc] at hm
      have hd : d ≠ c := by
        rintro rfl
        exact woken hw
      exact sends d hd (h.receivers d m (waits _ rfl hw) hm hne)
    | wokeSenders c ipc waits _ sends _ =>
      rw [ipc] at hm
      exact sends d (h.receivers d m (waits _ rfl hw) hm hne)
    | blocked cpu env state label pc ipc waits sends _ =>
      rw [ipc] at hm
      rcases waits _ rfl hw with hw | hstate
      · exact sends d (h.receivers d m hw hm hne)
      · rcases pc with ⟨c, _, hc⟩ | ⟨c, hpc, hc⟩
        · rw [hc] at hstate
          cases hstate
        · rw [hc] at hstate
          obtain rfl := TaskState.blockedOnReceive.inj hstate
          rw [label, BlockInTime, hpc] at hg
          rcases hg with hnone | hzero | hpend
          · rw [hnone] at hm
            cases hm
          · rw [hzero] at hm
            exact absurd (Option.some.inj hm).symm hne
          · exact sends d hpend
  · -- senders, the mirror image
    cases heff with
    | quiet ipc waits _ recvs =>
      rw [ipc] at hm
      exact recvs d (h.senders d m (waits _ rfl hw) hm hne)
    | sent c n room before after waits _ recvs _ =>
      rw [after] at hm
      by_cases hd : d = c
      · subst hd
        exact recvs d (h.senders d n (waits _ rfl hw) before room.ne)
      · rw [if_neg hd] at hm
        exact recvs d (h.senders d m (waits _ rfl hw) hm hne)
    | received c n _ _ after waits _ recvs pending =>
      rw [after] at hm
      by_cases hd : d = c
      · rw [hd]
        exact pending
      · rw [if_neg hd] at hm
        exact recvs d (h.senders d m (waits _ rfl hw) hm hne)
    | wokeReceivers c ipc waits _ _ recvs =>
      rw [ipc] at hm
      exact recvs d (h.senders d m (waits _ rfl hw) hm hne)
    | wokeSenders c ipc waits woken _ recvs =>
      rw [ipc] at hm
      have hd : d ≠ c := by
        rintro rfl
        exact woken hw
      exact recvs d hd (h.senders d m (waits _ rfl hw) hm hne)
    | blocked cpu env state label pc ipc waits _ recvs =>
      rw [ipc] at hm
      rcases waits _ rfl hw with hw | hstate
      · exact recvs d (h.senders d m hw hm hne)
      · rcases pc with ⟨c, hpc, hc⟩ | ⟨c, _, hc⟩
        · rw [hc] at hstate
          obtain rfl := TaskState.blockedOnSend.inj hstate
          rw [label, BlockInTime, hpc] at hg
          rcases hg with hnone | hfull | hpend
          · rw [hnone] at hm
            cases hm
          · rw [hfull] at hm
            exact absurd (Option.some.inj hm).symm hne
          · exact recvs d hpend
        · rw [hc] at hstate
          cases hstate

theorem noLostWakeup {st : IpcState} (h : WakeInv st) (hm : st.NoneMidway) :
    st.NoLostWakeup := by
  intro t ht c n hn
  constructor
  · intro hx
    by_contra hne
    have hw := h.awake.waits_of_mem ht (by rw [hx]; rfl)
    rw [hx] at hw
    exact hm.not_sendWakePending c (h.receivers c n hw hn hne)
  · intro hx
    by_contra hne
    have hw := h.awake.waits_of_mem ht (by rw [hx]; rfl)
    rw [hx] at hw
    exact hm.not_recvWakePending c (h.senders c n hw hn hne)

end WakeInv

/-- **No lost wakeup**, in every run whose blocks come in time. -/
theorem noLostWakeup_of_run {st : IpcState} (hrun : ipcMachine.Run BlockInTime st)
    (hm : st.NoneMidway) : st.NoLostWakeup := by
  have hinv : WakeInv st := hrun.invariant (fun _ => WakeInv.init)
    fun _ _ _ hs hg hstep => hs.step hg hstep
  exact hinv.noLostWakeup hm

/-! ### A wakeup that is lost

Task 1 on CPU 0 receives on channel 1, task 2 on CPU 1 sends on it. -/

/-- A frame whose handle argument is 1. -/
def handleOne : SyscallRegisters := ⟨0, 7, 5, 1, 0, 0, 0x400000⟩

/-- Two CPUs, no stealing. -/
def twoCpus : SchedEnv := ⟨0, false, 2, true, 9, 0x90000⟩

def channelTask (id : TaskId) (rights : Rights) : Task :=
  { Task.new id (0x10000 * id) none with
    capTable := (CapTable.new.insertRoot (.channel 1 rights)).2 }

/-- A reader on CPU 0, a writer on CPU 1, and channel 1 between them. -/
def rendezvous : IpcState where
  sched :=
    { Scheduler.new with
      currentTask := fun c =>
        if c = 0 then some (channelTask 1 Rights.read)
        else if c = 1 then some (channelTask 2 Rights.write)
        else none
      idleTask := fun c =>
        if c.val < 2 then some { Task.new (3 + c.val) 0x30000 none with isIdle := true }
        else none }
  ipc := (IpcSystem.new.createChannelOwned false none systemOwner).2
  pc _ := .user
  regs _ := handleOne

theorem rendezvous_awake : rendezvous.sched.Awake where
  current c t hc := by
    simp only [rendezvous] at hc
    split at hc
    · rw [← Option.some.inj hc]
      rfl
    · split at hc
      · rw [← Option.some.inj hc]
        rfl
      · cases hc
  idle c t hc := by
    simp only [rendezvous] at hc
    split at hc
    · rw [← Option.some.inj hc]
      rfl
    · cases hc
  queues c t ht := by cases ht

theorem rendezvous_init : ipcMachine.init rendezvous := by
  refine ⟨rendezvous_awake, fun _ => rfl, fun t ht c n _ => ?_⟩
  have hready : ∀ t ∈ rendezvous.sched.tasks, t.state = .ready := by decide
  rw [hready t ht]
  exact ⟨(fun h => by cases h), (fun h => by cases h)⟩

/-- The whole send falls between the reader's look at the queue and its block. -/
def sendBeforeBlock : List ArmLabel :=
  [.sysRecv 0 handleOne, .ipcSection 0, .sysSend 1 handleOne, .ipcSection 1,
    .wake 1 twoCpus, .block 0 twoCpus, .finish 0 twoCpus]

/-- No arm is midway, task 1 waits for a message and its channel has one. -/
theorem sendBeforeBlock_lost :
    ∃ st, ipcMachine.Reachable st ∧ (∀ cpu, st.pc cpu = .user) ∧ ¬ st.NoLostWakeup := by
  have hrun : (replay IpcState.exec rendezvous sendBeforeBlock).map (fun st =>
      (decide (∀ cpu, st.pc cpu = .user), st.ipc.channelLen 1,
        st.sched.tasks.any fun t => t.state = .blockedOnReceive 1)) =
      some (true, some 1, true) := by
    decide
  obtain ⟨st, hst, hval⟩ := Option.map_eq_some_iff.mp hrun
  simp only [Prod.mk.injEq, decide_eq_true_eq, List.any_eq_true] at hval
  obtain ⟨huser, hlen, t, ht, hstate⟩ := hval
  refine ⟨st, ?_, huser, fun hnone => ?_⟩
  · exact Machine.Run.replay (fun _ _ _ h => ⟨trivial, h⟩) (.start rendezvous_init) hst
  · exact absurd ((hnone t ht 1 1 hlen).1 hstate) one_ne_zero

/-- The reader is asleep before the send. -/
def blockBeforeSend : List ArmLabel :=
  [.sysRecv 0 handleOne, .ipcSection 0, .block 0 twoCpus, .finish 0 twoCpus,
    .sysSend 1 handleOne, .ipcSection 1, .wake 1 twoCpus]

theorem noLostWakeup_of_run_blockFirst :
    ∃ st, ipcMachine.Run BlockInTime st ∧ st.NoneMidway ∧
      st.ipc.channelLen 1 = some 1 ∧ st.NoLostWakeup := by
  have hrun : (replay (fun st l => if BlockInTime st l then st.exec l else none) rendezvous
      blockBeforeSend).map (fun st => (decide st.NoneMidway, st.ipc.channelLen 1)) =
      some (true, some 1) := by
    decide
  obtain ⟨st, hst, hval⟩ := Option.map_eq_some_iff.mp hrun
  simp only [Prod.mk.injEq, decide_eq_true_eq] at hval
  have hguarded : ipcMachine.Run BlockInTime st := by
    refine Machine.Run.replay (fun s l s' h => ?_) (.start rendezvous_init) hst
    split at h
    · rename_i hg
      exact ⟨hg, h⟩
    · cases h
  exact ⟨st, hguarded, hval.1, hval.2, noLostWakeup_of_run hguarded hval.1⟩

end AthenaOS
