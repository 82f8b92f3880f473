import AthenaOS.Ipc.Channel

/-!
# What a channel delivers

Every operation on the table runs under the one `IPC` lock, so what the tasks of all CPUs do
with it is one list of operations.
-/

namespace AthenaOS

namespace Channel

variable {chan : Channel} {msg : Message}

/-- The slot `i` places behind `a`. -/
def slot (a : Fin ipcBufferSize) (i : Nat) : Fin ipcBufferSize := Fin.ofNat _ (a.val + i)

/-- The waiting messages, the oldest first. -/
def queue (chan : Channel) : List Message := (List.range chan.len).map fun i => chan.buffer (slot chan.head i)

/-- The next free slot is the one behind the waiting messages. -/
def Ring (chan : Channel) : Prop := chan.tail = slot chan.head chan.len

theorem Ring.push (h : chan.Ring) (hroom : chan.len ≠ ipcBufferSize) :
    (chan.push msg hroom).Ring ∧ (chan.push msg hroom).queue = chan.queue ++ [msg] := by
  have htail : chan.tail.val = (chan.head.val + chan.len) % 64 := congrArg Fin.val h
  have hlen : chan.len < 64 := Nat.lt_of_le_of_ne chan.len_le hroom
  constructor
  · refine Fin.ext ?_
    show (chan.tail.val + 1) % 64 = (chan.head.val + (chan.len + 1)) % 64
    omega
  · simp only [queue, Channel.push, List.range_succ, List.map_append, List.map_singleton,
      ← show chan.tail = _ from h, Function.update_self]
    congr 1
    refine List.map_congr_left fun i hi => Function.update_of_ne (fun heq => ?_) _ _
    -- a waiting message is never written over
    have hslot : (chan.head.val + i) % 64 = chan.tail.val := congrArg Fin.val heq
    have hwaits := List.mem_range.mp hi
    omega

theorem Ring.pop (h : chan.Ring) (hne : chan.len ≠ 0) :
    chan.pop.Ring ∧ chan.queue = chan.buffer chan.head :: chan.pop.queue := by
  obtain ⟨n, hn⟩ := Nat.exists_eq_succ_of_ne_zero hne
  have hhead : slot chan.head 0 = chan.head := Fin.ext (Nat.mod_eq_of_lt chan.head.isLt)
  have hslot (i : Nat) : slot (chan.head + 1) i = slot chan.head (i + 1) := by
    refine Fin.ext ?_
    show ((chan.head.val + 1) % 64 + i) % 64 = (chan.head.val + (i + 1)) % 64
    omega
  constructor
  · show chan.tail = slot (chan.head + 1) (chan.len - 1)
    rwa [hslot, Nat.sub_add_cancel (Nat.pos_of_ne_zero hne)]
  · simp [queue, Channel.pop, hn, List.range_succ_eq_map, hslot, hhead]

end Channel

inductive IpcOp where
  | createChannelOwned (withShmem : Bool) (frame : Option UInt64) (ownerPid : UInt64)
  | destroyChannel (chanId : Nat)
  | cleanupTaskChannels (pid : UInt64)
  | send (chanId : Nat) (msg : Message)
  | tryRecv (chanId : Nat)

/-- The table, what each channel has accepted, and what it has handed out. -/
structure IpcLog where
  sys : IpcSystem
  sent : Nat → List Message
  received : Nat → List Message

namespace IpcLog

/-- One operation under the lock. -/
def step (log : IpcLog) : IpcOp → IpcLog
  | .createChannelOwned shmem frame owner => { log with sys := (log.sys.createChannelOwned shmem frame owner).2 }
  | .destroyChannel d => { log with sys := (log.sys.destroyChannel d).2 }
  | .cleanupTaskChannels pid => { log with sys := log.sys.cleanupTaskChannels pid }
  | .send d msg =>
    match log.sys.send d msg with
    | (.ok (), sys) => { log with sys, sent := Function.update log.sent d (log.sent d ++ [msg]) }
    | (.error _, sys) => { log with sys }
  | .tryRecv d =>
    match log.sys.tryRecv d with
    | (some msg, sys) => { log with sys, received := Function.update log.received d (log.received d ++ [msg]) }
    | (none, sys) => { log with sys }

/-- The channel `c` is a queue as long as it is there. -/
structure Fifo (c : Nat) (log : IpcLog) : Prop where
  live : ∀ chan, log.sys.channels[c]? = some chan →
    c < log.sys.nextChanId ∧ chan.Ring ∧ log.sent c = log.received c ++ chan.queue
  order : log.received c <+: log.sent c
  unborn : log.sys.nextChanId ≤ c → log.sent c = []

variable {c d : Nat} {log : IpcLog}

theorem Fifo.destroyChannel (h : Fifo c log) (d : Nat) :
    Fifo c { log with sys := (log.sys.destroyChannel d).2 } := by
  have hnext : (log.sys.destroyChannel d).2.nextChanId = log.sys.nextChanId := by
    rw [IpcSystem.destroyChannel]
    split <;> rfl
  refine ⟨fun chan hchan => ?_, h.order, hnext ▸ h.unborn⟩
  rw [IpcSystem.channels_destroyChannel] at hchan
  split at hchan
  · cases hchan
  · exact hnext ▸ h.live chan hchan

/-- A live channel is replaced by one that is still a queue. -/
theorem Fifo.insert (h : Fifo c log) {chan : Channel} {sent received : List Message} (hlive : d < log.sys.nextChanId)
    (hring : chan.Ring) (hqueue : sent = received ++ chan.queue) :
    Fifo c { sys := { log.sys with channels := log.sys.channels.insert d chan }
             sent := Function.update log.sent d sent
             received := Function.update log.received d received } := by
  by_cases hc : c = d
  · subst hc
    exact ⟨by simp [hlive, hring, hqueue], by simp [hqueue], fun hle => absurd hlive (Nat.not_lt.mpr hle)⟩
  · constructor
    · simpa [Std.TreeMap.getElem?_insert, Ne.symm hc, hc] using h.live
    · simpa [hc] using h.order
    · simpa [hc] using h.unborn

theorem Fifo.step (h : ∀ c, Fifo c log) (op : IpcOp) (c : Nat) : Fifo c (log.step op) := by
  cases op with
  | createChannelOwned shmem frame owner =>
    refine ⟨fun chan hchan => ?_, (h c).order, fun hle => (h c).unborn (Nat.le_of_succ_le hle)⟩
    have hget : (log.sys.channels.insert log.sys.nextChanId _)[c]? = some chan := hchan
    rw [Std.TreeMap.getElem?_insert] at hget
    split at hget
    · -- nothing was ever sent to a fresh id
      rename_i heq
      obtain rfl := Nat.compare_eq_eq.mp heq
      obtain rfl := Option.some.inj hget
      have hsent := (h _).unborn (Nat.le_refl _)
      have hreceived := List.prefix_nil.mp (hsent ▸ (h _).order)
      exact ⟨Nat.lt_succ_self _, rfl, hsent.trans (by simp [hreceived, IpcLog.step]; rfl)⟩
    · exact (h c).live chan hget |>.imp_left Nat.lt_succ_of_lt
  | destroyChannel d => exact (h c).destroyChannel d
  | cleanupTaskChannels pid =>
    rw [IpcLog.step, IpcSystem.cleanupTaskChannels]
    split
    · exact h c
    · exact List.foldlRecOn _ _ (motive := fun sys => Fifo c { log with sys }) (h c) fun _ hsys d _ => hsys.destroyChannel d
  | send d msg =>
    rw [IpcLog.step, IpcSystem.send]
    cases hd : log.sys.channels[d]? with
    | none => exact h c
    | some chan =>
      obtain ⟨hlt, hring, hqueue⟩ := (h d).live chan hd
      dsimp only
      split_ifs with hfull
      · exact h c
      · obtain ⟨hring', hpush⟩ := @Channel.Ring.push chan msg hring hfull
        have hnext := (h c).insert hlt hring' (by rw [hpush, ← List.append_assoc, ← hqueue])
        rwa [Function.update_eq_self] at hnext
  | tryRecv d =>
    rw [IpcLog.step, IpcSystem.tryRecv]
    cases hd : log.sys.channels[d]? with
    | none => exact h c
    | some chan =>
      obtain ⟨hlt, hring, hqueue⟩ := (h d).live chan hd
      dsimp only
      split_ifs with hempty
      · exact h c
      · obtain ⟨hring', hpop⟩ := hring.pop hempty
        rw [hpop, List.append_cons] at hqueue
        have hnext := (h c).insert hlt hring' hqueue
        rwa [Function.update_eq_self] at hnext

/-- **A channel is a queue.** Whatever is done with the table, what a channel has handed out are the first messages
it accepted, in order, each of them once; and while it exists the others are waiting in it. -/
theorem delivery_of_run (ops : List IpcOp) (c : Nat) :
    let log := ops.foldl step ⟨.new, fun _ => [], fun _ => []⟩
    log.received c <+: log.sent c ∧
      ∀ chan, log.sys.channels[c]? = some chan → log.sent c = log.received c ++ chan.queue := by
  have hrun := List.foldlRecOn ops step (motive := fun log => ∀ c, Fifo c log) (b := ⟨.new, fun _ => [], fun _ => []⟩)
    (fun c => ⟨by simp [IpcSystem.new], List.prefix_rfl, fun _ => rfl⟩) fun log h op _ => Fifo.step h op
  exact ⟨(hrun c).order, fun chan hchan => ((hrun c).live chan hchan).2.2⟩

end IpcLog

end AthenaOS
