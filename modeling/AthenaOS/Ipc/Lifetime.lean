import AthenaOS.Ipc.Wakeup

/-!
# Waiting on channels that are gone

Channels die with their owner (`cleanup_task_channels`) or on request
(`destroy_channel`) while other tasks hold capabilities to them. Neither wakes
the tasks parked on the channel, and both arms park a caller whose channel does
not exist.
-/

namespace AthenaOS

open Lib IpcState

/-- No task is parked on a channel that does not exist. -/
def IpcState.NoOrphanWaiter (st : IpcState) : Prop :=
  ∀ t ∈ st.sched.tasks, ∀ c, t.state = .blockedOnSend c ∨ t.state = .blockedOnReceive c →
    st.ipc.channelLen c ≠ none

inductive LifeLabel where
  | arm (l : ArmLabel)
  | createChannelOwned (withShmem : Bool) (frame : Option UInt64) (ownerPid : UInt64)
  | destroyChannel (chanId : Nat)
  /-- Run by the exit path of the task `pid`. -/
  | cleanupTaskChannels (pid : UInt64)

/-- One section of an arm, or one channel operation under the IPC lock. -/
def IpcState.execLife (st : IpcState) : LifeLabel → Option IpcState
  | .arm l => st.exec l
  | .createChannelOwned withShmem frame owner =>
    some { st with ipc := (st.ipc.createChannelOwned withShmem frame owner).2 }
  | .destroyChannel c => some { st with ipc := (st.ipc.destroyChannel c).2 }
  | .cleanupTaskChannels pid => some { st with ipc := st.ipc.cleanupTaskChannels pid }

/-- All interleavings of arms and channel operations, from any state without an
orphaned waiter in which no arm runs. -/
def lifeMachine : Machine IpcState LifeLabel where
  init st := st.sched.Awake ∧ (∀ cpu, st.pc cpu = .user) ∧ st.NoOrphanWaiter
  step st l st' := st.execLife l = some st'

/-- Nobody waits on the channel, but for wakeups on their way. -/
def Unwaited (st : IpcState) (c : Nat) : Prop :=
  (st.sched.Waits (.blockedOnReceive c) → st.SendWakePending c) ∧
    (st.sched.Waits (.blockedOnSend c) → st.RecvWakePending c)

/-- Blocks find their channel, and removals find nobody waiting. -/
def ChannelInUse (st : IpcState) : LifeLabel → Prop
  | .arm (.block cpu _) =>
    match st.pc cpu with
    | .sendBlock c => st.ipc.channelLen c ≠ none ∨ st.RecvWakePending c
    | .recvBlock c => st.ipc.channelLen c ≠ none ∨ st.SendWakePending c
    | _ => True
  | .destroyChannel c => Unwaited st c
  | .cleanupTaskChannels pid =>
    ∀ c, pid ≠ systemOwner ∧ st.ipc.ownerOf c = some pid → Unwaited st c
  | _ => True

instance (st : IpcState) (l : ArmLabel) : Decidable (ChannelInUse st (.arm l)) :=
  match l with
  | .block cpu _ =>
    match hpc : st.pc cpu with
    | .sendBlock c =>
      decidable_of_iff (st.ipc.channelLen c ≠ none ∨ st.RecvWakePending c)
        (by rw [ChannelInUse, hpc])
    | .recvBlock c =>
      decidable_of_iff (st.ipc.channelLen c ≠ none ∨ st.SendWakePending c)
        (by rw [ChannelInUse, hpc])
    | .user | .sendIpc .. | .sendWake _ | .recvIpc _ | .recvWake .. | .switching =>
      isTrue (by rw [ChannelInUse, hpc]; trivial)
  | .sysSend .. | .sysRecv .. | .ipcSection _ | .wake .. | .finish .. | .yield .. => isTrue trivial

/-- A task waits on an existing channel, or is about to be woken. -/
structure LifeInv (st : IpcState) : Prop where
  awake : st.sched.Awake
  receivers : ∀ c, st.sched.Waits (.blockedOnReceive c) →
    st.ipc.channelLen c ≠ none ∨ st.SendWakePending c
  senders : ∀ c, st.sched.Waits (.blockedOnSend c) →
    st.ipc.channelLen c ≠ none ∨ st.RecvWakePending c

namespace LifeInv

variable {st st' : IpcState}

theorem init (h : lifeMachine.init st) : LifeInv st := by
  obtain ⟨ha, _, hlive⟩ := h
  refine ⟨ha, fun c hw => ?_, fun c hw => ?_⟩
  · obtain ⟨t, ht, hx⟩ := WakeInv.mem_tasks_of_waits hw
    exact Or.inl (hlive t ht c (Or.inr hx))
  · obtain ⟨t, ht, hx⟩ := WakeInv.mem_tasks_of_waits hw
    exact Or.inl (hlive t ht c (Or.inl hx))

/-- A step that removes no channel and adds no waiter. -/
theorem frame (h : LifeInv st) (ha : st'.sched.Awake)
    (hlive : ∀ d, st.ipc.channelLen d ≠ none → st'.ipc.channelLen d ≠ none)
    (hwait : NoNewWaits st st') (hsend : KeepsSendWakes st st') (hrecv : KeepsRecvWakes st st') :
    LifeInv st' :=
  ⟨ha, fun c hw => (h.receivers c (hwait _ rfl hw)).imp (hlive c) (hsend c),
    fun c hw => (h.senders c (hwait _ rfl hw)).imp (hlive c) (hrecv c)⟩

/-- One section of an arm. -/
theorem arm {l : ArmLabel} (h : LifeInv st) (hg : ChannelInUse st (.arm l))
    (hexec : st.exec l = some st') : LifeInv st' := by
  obtain ⟨ha, heff⟩ := exec_effect h.awake hexec
  cases heff with
  | quiet ipc waits sends recvs =>
    exact h.frame ha (fun d hd => by rwa [ipc]) waits sends recvs
  | sent c n _ _ after waits sends recvs _ =>
    refine h.frame ha (fun d hd => ?_) waits sends recvs
    rw [after]
    split
    · exact Option.some_ne_none _
    · exact hd
  | received c n _ _ after waits sends recvs _ =>
    refine h.frame ha (fun d hd => ?_) waits sends recvs
    rw [after]
    split
    · exact Option.some_ne_none _
    · exact hd
  | wokeReceivers c ipc waits woken sends recvs =>
    refine ⟨ha, fun d hw => ?_, fun d hw => ?_⟩
    · have hd : d ≠ c := by
        rintro rfl
        exact woken hw
      rw [ipc]
      exact (h.receivers d (waits _ rfl hw)).imp_right (sends d hd)
    · rw [ipc]
      exact (h.senders d (waits _ rfl hw)).imp_right (recvs d)
  | wokeSenders c ipc waits woken sends recvs =>
    refine ⟨ha, fun d hw => ?_, fun d hw => ?_⟩
    · rw [ipc]
      exact (h.receivers d (waits _ rfl hw)).imp_right (sends d)
    · have hd : d ≠ c := by
        rintro rfl
        exact woken hw
      rw [ipc]
      exact (h.senders d (waits _ rfl hw)).imp_right (recvs d hd)
  | blocked cpu env state label pc ipc waits sends recvs =>
    rw [label] at hg
    refine ⟨ha, fun d hw => ?_, fun d hw => ?_⟩
    · rw [ipc]
      rcases waits _ rfl hw with hw | hstate
      · exact (h.receivers d hw).imp_right (sends d)
      · rcases pc with ⟨c, _, hc⟩ | ⟨c, hpc, hc⟩ <;> rw [hc] at hstate
        · cases hstate
        · obtain rfl := TaskState.blockedOnReceive.inj hstate
          rw [ChannelInUse, hpc] at hg
          exact hg.imp_right (sends d)
    · rw [ipc]
      rcases waits _ rfl hw with hw | hstate
      · exact (h.senders d hw).imp_right (recvs d)
      · rcases pc with ⟨c, hpc, hc⟩ | ⟨c, _, hc⟩ <;> rw [hc] at hstate
        · obtain rfl := TaskState.blockedOnSend.inj hstate
          rw [ChannelInUse, hpc] at hg
          exact hg.imp_right (recvs d)
        · cases hstate

/-- Removing channels nobody waits on. -/
theorem remove (h : LifeInv st) {ipc : IpcSystem} (gone : Nat → Prop)
    (hgone : ∀ d, gone d → Unwaited st d)
    (hkept : ∀ d, ¬ gone d → ipc.channelLen d = st.ipc.channelLen d) :
    LifeInv { st with ipc := ipc } := by
  refine ⟨h.awake, fun c hw => ?_, fun c hw => ?_⟩
  · by_cases hc : gone c
    · exact Or.inr ((hgone c hc).1 hw)
    · show ipc.channelLen c ≠ none ∨ _
      rw [hkept c hc]
      exact h.receivers c hw
  · by_cases hc : gone c
    · exact Or.inr ((hgone c hc).2 hw)
    · show ipc.channelLen c ≠ none ∨ _
      rw [hkept c hc]
      exact h.senders c hw

theorem step {l : LifeLabel} (h : LifeInv st) (hg : ChannelInUse st l)
    (hstep : st.execLife l = some st') : LifeInv st' := by
  cases l with
  | arm l => exact h.arm hg hstep
  | createChannelOwned withShmem frame owner =>
    rw [← Option.some.inj hstep]
    refine h.frame h.awake (fun d hd => ?_) (fun _ _ hw => hw) (fun _ => id) (fun _ => id)
    show (st.ipc.createChannelOwned withShmem frame owner).2.channelLen d ≠ none
    rw [IpcSystem.channelLen_createChannelOwned]
    split
    · exact Option.some_ne_none _
    · exact hd
  | destroyChannel c =>
    rw [← Option.some.inj hstep]
    refine h.remove (fun d => d = c) ?_ ?_
    · rintro d rfl
      exact hg
    · intro d hd
      rw [IpcSystem.channelLen_destroyChannel, if_neg hd]
  | cleanupTaskChannels pid =>
    rw [← Option.some.inj hstep]
    refine h.remove (fun d => pid ≠ systemOwner ∧ st.ipc.ownerOf d = some pid)
      (fun d hd => hg d hd) fun d hd => ?_
    rw [IpcSystem.channelLen_cleanupTaskChannels, if_neg hd]

theorem noOrphanWaiter (h : LifeInv st) (hm : st.NoneMidway) : st.NoOrphanWaiter := by
  intro t ht c hx
  have hb : t.state.isBlocked = true := by
    rcases hx with hx | hx <;> rw [hx] <;> rfl
  have hw := h.awake.waits_of_mem ht hb
  rcases hx with hx | hx <;> rw [hx] at hw
  · exact (h.senders c hw).resolve_right (hm.not_recvWakePending c)
  · exact (h.receivers c hw).resolve_right (hm.not_sendWakePending c)

end LifeInv

/-- **Nobody waits on a missing channel**, in every run that blocks on and keeps
the channels in use. -/
theorem noOrphanWaiter_of_run {st : IpcState} (hrun : lifeMachine.Run ChannelInUse st)
    (hm : st.NoneMidway) : st.NoOrphanWaiter := by
  have hinv : LifeInv st := hrun.invariant (fun _ => LifeInv.init)
    fun _ _ _ hs hg hstep => hs.step hg hstep
  exact hinv.noOrphanWaiter hm

/-! ### Sending to a task that has exited -/

/-- As `rendezvous`, with the channel owned by a third task, 5. -/
def ownedRendezvous : IpcState :=
  { rendezvous with ipc := (IpcSystem.new.createChannelOwned false none 5).2 }

theorem ownedRendezvous_init : lifeMachine.init ownedRendezvous := by
  refine ⟨rendezvous_awake, fun _ => rfl, fun t ht c hx => ?_⟩
  have hready : ∀ t ∈ ownedRendezvous.sched.tasks, t.state = .ready := by decide
  rw [hready t ht] at hx
  rcases hx with hx | hx <;> cases hx

/-- The owner exits, then task 2 sends on its channel. -/
def sendAfterExit : List LifeLabel :=
  [.cleanupTaskChannels 5, .arm (.sysSend 1 handleOne), .arm (.ipcSection 1),
    .arm (.block 1 twoCpus), .arm (.finish 1 twoCpus)]

/-- Task 2 is parked for good on a channel that does not exist. -/
theorem sendAfterExit_orphaned :
    ∃ st, lifeMachine.Reachable st ∧ (∀ cpu, st.pc cpu = .user) ∧ ¬ st.NoOrphanWaiter := by
  have hrun : (replay IpcState.execLife ownedRendezvous sendAfterExit).map (fun st =>
      (decide (∀ cpu, st.pc cpu = .user), st.ipc.channelLen 1,
        st.sched.tasks.any fun t => t.state = .blockedOnSend 1)) =
      some (true, none, true) := by
    decide
  obtain ⟨st, hst, hval⟩ := Option.map_eq_some_iff.mp hrun
  simp only [Prod.mk.injEq, decide_eq_true_eq, List.any_eq_true] at hval
  obtain ⟨huser, hlen, t, ht, hstate⟩ := hval
  refine ⟨st, ?_, huser, fun hnone => hnone t ht 1 (Or.inl hstate) hlen⟩
  exact Machine.Run.replay (fun _ _ _ h => ⟨trivial, h⟩) (.start ownedRendezvous_init) hst

/-- The reader parks on a live channel while another one is created. -/
def recvOnLive : List LifeLabel :=
  [.arm (.sysRecv 0 handleOne), .arm (.ipcSection 0), .createChannelOwned true (some 0x7000) 2,
    .arm (.block 0 twoCpus), .arm (.finish 0 twoCpus)]

/-- Execute a step that removes no channel, if it meets the condition. -/
def execKeeping (st : IpcState) (l : LifeLabel) : Option IpcState :=
  match l with
  | .arm l => if ChannelInUse st (.arm l) then st.exec l else none
  | .createChannelOwned .. => st.execLife l
  | .destroyChannel _ | .cleanupTaskChannels _ => none

theorem noOrphanWaiter_of_run_live :
    ∃ st, lifeMachine.Run ChannelInUse st ∧ st.NoneMidway ∧
      st.sched.blockedTasks.any (fun t => t.state = .blockedOnReceive 1) = true ∧
      st.NoOrphanWaiter := by
  have hrun : (replay execKeeping ownedRendezvous recvOnLive).map (fun st =>
      (decide st.NoneMidway,
        st.sched.blockedTasks.any fun t => t.state = .blockedOnReceive 1)) =
      some (true, true) := by
    decide
  obtain ⟨st, hst, hval⟩ := Option.map_eq_some_iff.mp hrun
  simp only [Prod.mk.injEq, decide_eq_true_eq] at hval
  have hguarded : lifeMachine.Run ChannelInUse st := by
    refine Machine.Run.replay (fun s l s' h => ?_) (.start ownedRendezvous_init) hst
    cases l with
    | arm l =>
      simp only [execKeeping] at h
      split at h
      · rename_i hg
        exact ⟨hg, h⟩
      · cases h
    | createChannelOwned withShmem frame owner => exact ⟨trivial, h⟩
    | destroyChannel c => cases h
    | cleanupTaskChannels pid => cases h
  exact ⟨st, hguarded, hval.1, hval.2, noOrphanWaiter_of_run hguarded hval.1⟩

end AthenaOS
