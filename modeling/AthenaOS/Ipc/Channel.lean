import Mathlib

/-!
# IPC channels (`kernel/src/ipc.rs`)

`IpcSystem` is a table of channels by id; a channel is a ring buffer of 64
messages with an owner. Every operation runs under the one `IPC` lock.

The proofs about the syscall arms only look at `channelLen`; the lemmas at the
end say what each operation does to it.
-/

namespace AthenaOS

structure Message where
  msgType : UInt64
  arg1 : UInt64
  arg2 : UInt64
  arg3 : UInt64
  deriving DecidableEq

/-- `IPC_BUFFER_SIZE`. -/
def ipcBufferSize : Nat := 64

instance : NeZero ipcBufferSize := ⟨by decide⟩

/-- Owner of channels created by the kernel itself. -/
def systemOwner : UInt64 := 0

/-- A ring buffer: the next message to read is at `head`, the next free slot at
`tail`. -/
structure Channel where
  buffer : Fin ipcBufferSize → Message
  head : Fin ipcBufferSize
  tail : Fin ipcBufferSize
  len : Nat
  sharedFrame : Option UInt64
  ownerPid : UInt64
  len_le : len ≤ ipcBufferSize

structure IpcSystem where
  channels : Std.TreeMap Nat Channel
  nextChanId : Nat

/-- Why a send fails. -/
inductive SendError where
  | full
  | invalid
  deriving DecidableEq

namespace Channel

/-- A fresh channel. -/
def new (sharedFrame : Option UInt64) (ownerPid : UInt64) : Channel where
  buffer _ := ⟨0, 0, 0, 0⟩
  head := 0
  tail := 0
  len := 0
  sharedFrame := sharedFrame
  ownerPid := ownerPid
  len_le := Nat.zero_le _

/-- Write at the tail of a channel that has room. -/
def push (chan : Channel) (msg : Message) (h : chan.len ≠ ipcBufferSize) : Channel :=
  { chan with
    buffer := Function.update chan.buffer chan.tail msg
    tail := chan.tail + 1
    len := chan.len + 1
    len_le := Nat.lt_of_le_of_ne chan.len_le h }

/-- Drop the message at the head. -/
def pop (chan : Channel) : Channel :=
  { chan with
    head := chan.head + 1
    len := chan.len - 1
    len_le := (Nat.sub_le _ _).trans chan.len_le }

end Channel

namespace IpcSystem

def new : IpcSystem := ⟨∅, 1⟩

/-- Create a channel owned by `ownerPid`. `frame` is what the frame allocator
hands out when shared memory is asked for. -/
def createChannelOwned (sys : IpcSystem) (withShmem : Bool) (frame : Option UInt64)
    (ownerPid : UInt64) : Nat × IpcSystem :=
  let id := sys.nextChanId
  let sharedFrame := if withShmem then frame else none
  (id, { channels := sys.channels.insert id (Channel.new sharedFrame ownerPid)
         nextChanId := sys.nextChanId + 1 })

/-- Remove a channel (its shared frame goes back to the frame allocator). -/
def destroyChannel (sys : IpcSystem) (chanId : Nat) : Bool × IpcSystem :=
  match sys.channels[chanId]? with
  | some _ => (true, { sys with channels := sys.channels.erase chanId })
  | none => (false, sys)

/-- Destroy every channel owned by `pid`; kernel channels are left alone. -/
def cleanupTaskChannels (sys : IpcSystem) (pid : UInt64) : IpcSystem :=
  if pid = systemOwner then sys
  else
    let owned := (sys.channels.toList.filter fun e => e.2.ownerPid = pid).map (·.1)
    owned.foldl (fun sys id => (sys.destroyChannel id).2) sys

def send (sys : IpcSystem) (chanId : Nat) (msg : Message) :
    Except SendError Unit × IpcSystem :=
  match sys.channels[chanId]? with
  | some chan =>
    if h : chan.len = ipcBufferSize then
      (.error .full, sys)
    else
      (.ok (), { sys with channels := sys.channels.insert chanId (chan.push msg h) })
  | none => (.error .invalid, sys)

def tryRecv (sys : IpcSystem) (chanId : Nat) : Option Message × IpcSystem :=
  match sys.channels[chanId]? with
  | some chan =>
    if chan.len = 0 then
      (none, sys)
    else
      (some (chan.buffer chan.head),
        { sys with channels := sys.channels.insert chanId chan.pop })
  | none => (none, sys)

/-- The number of queued messages, or `none` if there is no such channel. -/
def channelLen (sys : IpcSystem) (chanId : Nat) : Option Nat :=
  (sys.channels[chanId]?).map (·.len)

/-- The owner of a channel. -/
def ownerOf (sys : IpcSystem) (chanId : Nat) : Option UInt64 :=
  (sys.channels[chanId]?).map (·.ownerPid)

/-! ## What the operations do to the lengths -/

theorem channelLen_insert (sys : IpcSystem) (n c d : Nat) (chan : Channel) :
    channelLen ⟨sys.channels.insert c chan, n⟩ d =
      if d = c then some chan.len else sys.channelLen d := by
  by_cases h : d = c
  · simp [channelLen, h]
  · simp [channelLen, Std.TreeMap.getElem?_insert, h, Ne.symm h]

variable {sys sys' : IpcSystem} {c : Nat} {msg : Message}

/-- A send that succeeds adds one message to a channel with room. -/
theorem send_ok (h : sys.send c msg = (.ok (), sys')) :
    ∃ n, n < ipcBufferSize ∧ sys.channelLen c = some n ∧
      ∀ d, sys'.channelLen d = if d = c then some (n + 1) else sys.channelLen d := by
  unfold send at h
  split at h
  · rename_i chan hc
    split at h
    · cases h
    · rename_i hne
      simp only [Prod.mk.injEq, true_and] at h
      subst h
      exact ⟨chan.len, lt_of_le_of_ne chan.len_le hne, by rw [channelLen, hc]; rfl,
        fun d => channelLen_insert sys sys.nextChanId c d _⟩
  · cases h

/-- A send that fails changes nothing: the channel is full or missing. -/
theorem send_error {e : SendError} (h : sys.send c msg = (.error e, sys')) :
    sys' = sys ∧ ∀ n, sys.channelLen c = some n → n = ipcBufferSize := by
  unfold send at h
  split at h
  · rename_i chan hc
    split at h
    · rename_i hfull
      refine ⟨(congrArg Prod.snd h).symm, fun n hn => ?_⟩
      rw [channelLen, hc, Option.map_some, Option.some.injEq] at hn
      exact hn ▸ hfull
    · cases h
  · rename_i hc
    refine ⟨(congrArg Prod.snd h).symm, fun n hn => ?_⟩
    rw [channelLen, hc] at hn
    cases hn

/-- A receive that succeeds takes one message off a channel that has one. -/
theorem tryRecv_some (h : sys.tryRecv c = (some msg, sys')) :
    ∃ n, n + 1 ≤ ipcBufferSize ∧ sys.channelLen c = some (n + 1) ∧
      ∀ d, sys'.channelLen d = if d = c then some n else sys.channelLen d := by
  unfold tryRecv at h
  split at h
  · rename_i chan hc
    split at h
    · cases h
    · rename_i hne
      simp only [Prod.mk.injEq] at h
      obtain ⟨_, rfl⟩ := h
      have hlen : chan.len - 1 + 1 = chan.len := Nat.succ_pred_eq_of_ne_zero hne
      exact ⟨chan.len - 1, hlen.le.trans chan.len_le,
        by rw [channelLen, hc, Option.map_some, hlen],
        fun d => channelLen_insert sys sys.nextChanId c d _⟩
  · cases h

/-- A receive that fails changes nothing: the channel is empty or missing. -/
theorem tryRecv_none (h : sys.tryRecv c = (none, sys')) :
    sys' = sys ∧ ∀ n, sys.channelLen c = some n → n = 0 := by
  unfold tryRecv at h
  split at h
  · rename_i chan hc
    split at h
    · rename_i hempty
      refine ⟨(congrArg Prod.snd h).symm, fun n hn => ?_⟩
      rw [channelLen, hc, Option.map_some, Option.some.injEq] at hn
      exact hn ▸ hempty
    · cases h
  · rename_i hc
    refine ⟨(congrArg Prod.snd h).symm, fun n hn => ?_⟩
    rw [channelLen, hc] at hn
    cases hn

theorem channelLen_createChannelOwned (sys : IpcSystem) (withShmem : Bool)
    (frame : Option UInt64) (owner : UInt64) (d : Nat) :
    (sys.createChannelOwned withShmem frame owner).2.channelLen d =
      if d = sys.nextChanId then some 0 else sys.channelLen d :=
  channelLen_insert sys _ sys.nextChanId d _

theorem channels_destroyChannel (sys : IpcSystem) (c d : Nat) :
    (sys.destroyChannel c).2.channels[d]? = if d = c then none else sys.channels[d]? := by
  unfold destroyChannel
  split
  · by_cases h : d = c
    · simp [h]
    · simp [Std.TreeMap.getElem?_erase, h, Ne.symm h]
  · rename_i hc
    by_cases h : d = c
    · rw [if_pos h, h, hc]
    · rw [if_neg h]

theorem channelLen_destroyChannel (sys : IpcSystem) (c d : Nat) :
    (sys.destroyChannel c).2.channelLen d = if d = c then none else sys.channelLen d := by
  rw [channelLen, channels_destroyChannel]
  split
  · rfl
  · rfl

/-- Destroying a list of channels, one after the other. -/
theorem channels_foldl_destroyChannel (owned : List Nat) (sys : IpcSystem) (d : Nat) :
    (owned.foldl (fun sys id => (sys.destroyChannel id).2) sys).channels[d]? =
      if d ∈ owned then none else sys.channels[d]? := by
  induction owned generalizing sys with
  | nil => simp
  | cons c cs ih =>
    rw [List.foldl_cons, ih, channels_destroyChannel]
    by_cases h : d = c
    · simp [h]
    · simp [h]

/-- Cleaning up after a task removes its channels and keeps the others. -/
theorem channelLen_cleanupTaskChannels (sys : IpcSystem) (pid : UInt64) (d : Nat) :
    (sys.cleanupTaskChannels pid).channelLen d =
      if pid ≠ systemOwner ∧ sys.ownerOf d = some pid then none else sys.channelLen d := by
  unfold cleanupTaskChannels
  by_cases hsys : pid = systemOwner
  · rw [if_pos hsys, if_neg fun h => h.1 hsys]
  · have hmem : d ∈ (sys.channels.toList.filter fun e => e.2.ownerPid = pid).map (·.1) ↔
        sys.ownerOf d = some pid := by
      simp only [List.mem_map, List.mem_filter, decide_eq_true_eq, Prod.exists,
        Std.TreeMap.mem_toList_iff_getElem?_eq_some, ownerOf, Option.map_eq_some_iff]
      constructor
      · rintro ⟨_, chan, ⟨hc, howner⟩, rfl⟩
        exact ⟨chan, hc, howner⟩
      · rintro ⟨chan, hc, howner⟩
        exact ⟨d, chan, ⟨hc, howner⟩, rfl⟩
    rw [if_neg hsys]
    simp only
    rw [channelLen, channels_foldl_destroyChannel]
    by_cases hown : sys.ownerOf d = some pid
    · rw [if_pos (hmem.mpr hown), if_pos ⟨hsys, hown⟩]
      rfl
    · rw [if_neg fun h => hown (hmem.mp h), if_neg fun h => hown h.2]
      rfl

end IpcSystem

end AthenaOS
