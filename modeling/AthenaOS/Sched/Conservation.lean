import AthenaOS.Sched.Census
import AthenaOS.Sched.Slots

/-!
# No task is lost or duplicated

Invariants of the scheduler over every interleaving of its calls.
-/

namespace AthenaOS

open Scheduler
open Function (update update_of_ne update_self)

/-! ## One step of the machine -/

namespace SchedState

/-- What a call may do to a ledger beyond the moves `Lawful` speaks of: block
the task of a CPU, drop a task that is killed, free a corpse. -/
def Admits (W : Ledger) (s : SchedState) : SchedCall → Prop
  | .blockCurrentTask cpu state => ∀ t, s.sched.currentTask cpu = some t →
    W .stashed { t with state := state } ≤ W .running t
  | .killTask _ id => ∀ p t, t.id = id → 0 ≤ W p t
  | .drainDeadTask => ∀ t, s.sched.deadTasks.getLast? = some t → 0 ≤ W .dead t
  | _ => True

/-- The weight a call brings in with a new task. -/
def gain (W : Ledger) (s : SchedState) (env : SchedEnv) : SchedCall → ℤ
  | .spawn t => if t.state.isZombie then W .blocked t else W .queued t
  | .yieldTask cpu => if s.sched.yieldCreatesIdle env cpu then W .running (freshIdle env) else 0
  | _ => 0

/-- An id is held at most once, the stash slot of a CPU is empty unless the CPU is mid-switch, no zombie is queued, corpses are zombies. -/
structure Sound (s : SchedState) : Prop where
  idle : s.sched.IdleSlots
  stash : ∀ c, s.phase c ≠ .switching → s.sched.switchStash c = none
  once : ∀ id, s.sched.total (.tag id) ≤ 1
  fresh : ∀ id, id ∉ s.used → s.sched.total (.tag id) ≤ 0
  queues : s.sched.total .queuedZombie ≤ 0
  corpses : s.sched.total .livingCorpse ≤ 0

variable {s s' : SchedState} {l : SchedEnv × SchedCall}

theorem exec_cases (h : s.exec l = some s') :
    s.Enabled l.2 ∧ (∀ id ∈ s.newIds l.1 l.2, id ∉ s.used) ∧
      s'.used = s.newIds l.1 l.2 ++ s.used ∧
      ∃ s₁, s.call l.1 l.2 = some s₁ ∧ s'.sched = s₁.sched ∧ s'.phase = s₁.phase := by
  unfold exec at h
  split at h
  · next hen =>
    obtain ⟨s₁, hcall, rfl⟩ := Option.map_eq_some_iff.1 h
    exact ⟨hen.1, hen.2, rfl, s₁, hcall, rfl, rfl⟩
  · cases h

variable {W : Ledger}

/-- No step raises the total of a lawful ledger by more than what comes in. -/
theorem total_exec_le (hW : W.Lawful) (hs : s.Sound) (h : s.exec l = some s')
    (hadm : s.Admits W l.2) : s'.sched.total W ≤ s.sched.total W + s.gain W l.1 l.2 := by
  obtain ⟨hen, hnew, -, s₁, hcall, hsched, -⟩ := exec_cases h
  obtain ⟨env, call⟩ := l
  rw [hsched]
  dsimp only at hen hnew hcall hadm ⊢
  -- A call that only wakes or files tasks adds nothing.
  have hplain : ∀ {r : Scheduler}, r.total W ≤ s.sched.total W →
      (s.withSched r).sched.total W ≤ s.sched.total W + 0 := fun hr => by
    rw [add_zero]
    exact hr
  cases call with
  | spawn t =>
    rw [← Option.some.inj hcall]
    exact le_of_eq (total_spawn hW env s.sched t)
  | yieldTask cpu =>
    rw [← Option.some.inj hcall]
    have hphase : s.phase cpu = .running := hen
    refine total_yieldTask_le hW env hs.idle (hs.stash cpu (by rw [hphase]; decide)) hs.once
      fun hcreates => hs.fresh _ (hnew _ ?_)
    rw [newIds, if_pos hcreates]
    exact List.mem_singleton_self _
  | blockCurrentTask cpu state =>
    obtain ⟨r, hr, rfl⟩ := Option.map_eq_some_iff.1 hcall
    have hphase : s.phase cpu = .running := hen
    have hstash := hs.stash cpu (by rw [hphase]; decide)
    cases hcur : s.sched.currentTask cpu with
    | none =>
      unfold Scheduler.blockCurrentTask at hr
      rw [hcur] at hr
      cases hr
    | some t =>
      exact hplain (total_blockCurrentTask_le hW hs.idle hcur hstash (hadm t hcur) hr)
  | finishTaskSwitch cpu =>
    rw [← Option.some.inj hcall]
    exact hplain (total_finishTaskSwitch_le hW env s.sched cpu)
  | exitCurrentTask cpu code =>
    obtain ⟨r, hr, rfl⟩ := Option.map_eq_some_iff.1 hcall
    have hphase : s.phase cpu ≠ .switching := by
      rcases hen with hrun | ⟨hexit, -⟩
      · rw [hrun]
        decide
      · rw [hexit]
        decide
    exact hplain (total_exitCurrentTask_le hW hs.idle (hs.stash cpu hphase) hr)
  | killTask cpu id =>
    have hkill := total_killTask_le hW env s.sched cpu hadm
    rcases hr : s.sched.killTask env cpu id with ⟨outcome, r⟩
    rw [hr] at hkill
    rw [SchedState.call, hr] at hcall
    cases outcome with
    | returns ok =>
      rw [← Option.some.inj hcall]
      exact hplain hkill
    | exits =>
      rw [← Option.some.inj hcall]
      exact hplain hkill
  | tryWaitTask id =>
    rw [← Option.some.inj hcall]
    exact hplain (total_tryWaitTask_le hW s.sched id)
  | drainDeadTask =>
    rw [← Option.some.inj hcall]
    exact hplain (total_drainDeadTask_le s.sched hadm)
  | unblockReceivers chan =>
    rw [← Option.some.inj hcall]
    exact hplain (total_unblock_le hW env s.sched rfl)
  | unblockSenders chan =>
    rw [← Option.some.inj hcall]
    exact hplain (total_unblock_le hW env s.sched rfl)
  | unblockIrqWaiters vector =>
    rw [← Option.some.inj hcall]
    exact hplain (total_unblock_le hW env s.sched rfl)
  | unblockVirtioWaiters head =>
    rw [← Option.some.inj hcall]
    exact hplain ((total_wakeFiled_le hW env _ rfl).trans (total_markStashReadyIf_le hW s.sched _))
  | unblockFutexWaiter id =>
    rw [← Option.some.inj hcall]
    exact hplain (total_wakeById_le hW s.sched id fun r t ht => total_enqueue_ready env r ht)
  | wakeThread id =>
    rw [← Option.some.inj hcall]
    exact hplain (total_wakeById_le hW s.sched id fun r t ht => total_enqueue_ready env r ht)
  | wakeThreadDirect id =>
    rw [← Option.some.inj hcall]
    exact hplain (total_wakeById_le hW s.sched id fun r t _ => total_pushGameFront hW env r t)

/-- What a step does to the slots of the CPUs. -/
structure KeepsSlots (s s' : SchedState) : Prop where
  /-- A stashed task is taken out or stays; no other is put in its place. -/
  stash : ∀ c id, slotIds s.sched.switchStash c = some id →
    slotIds s'.sched.switchStash c = none ∨ slotIds s'.sched.switchStash c = some id
  /-- A running task that no longer runs was moved to a slot of its CPU. -/
  current : ∀ c id, slotIds s.sched.currentTask c = some id →
    slotIds s'.sched.currentTask c = some id ∨ slotIds s'.sched.switchStash c = some id ∨
      slotIds s'.sched.idleTask c = some id
  free : ∀ c, s'.phase c ≠ .switching → slotIds s'.sched.switchStash c = none

theorem keepsSlots_of_same (hs : s.Sound) (h : SameSlots s.sched s'.sched)
    (hphase : ∀ c, s'.phase c ≠ .switching → s.phase c ≠ .switching) : KeepsSlots s s' where
  stash c id hid := .inr (by rw [h.stash, hid])
  current c id hid := .inl (by rw [h.current, hid])
  free c hc := by
    rw [h.stash, slotIds_eq_none]
    exact hs.stash c (hphase c hc)

theorem keepsSlots_of_switched {cpu : Cpu} (hs : s.Sound)
    (hfree : s.phase cpu ≠ .switching) (h : Switched s.sched s'.sched cpu)
    (hothers : ∀ c ≠ cpu, s'.phase c = s.phase c)
    (hquiet : s'.phase cpu ≠ .switching →
      slotIds s'.sched.switchStash cpu = slotIds s.sched.switchStash cpu) : KeepsSlots s s' where
  stash c id hid := by
    by_cases hc : c = cpu
    · subst hc
      rw [slotIds_eq_none.2 (hs.stash c hfree)] at hid
      cases hid
    · exact .inr (by rw [(h.others c hc).2, hid])
  current c id hid := by
    by_cases hc : c = cpu
    · subst hc
      by_cases hsame : slotIds s'.sched.currentTask c = some id
      · exact .inl hsame
      · exact .inr (h.moved id hid hsame)
    · exact .inl (by rw [(h.others c hc).1, hid])
  free c hc := by
    by_cases heq : c = cpu
    · subst heq
      rw [hquiet hc, slotIds_eq_none]
      exact hs.stash c hfree
    · rw [(h.others c heq).2, slotIds_eq_none]
      exact hs.stash c (by rwa [← hothers c heq])

/-- What a call does to the slots and the phases. -/
inductive SlotStep (s s' : SchedState) : SchedCall → Prop
  /-- Both stay. -/
  | same {call : SchedCall} : SameSlots s.sched s'.sched → s'.phase = s.phase → SlotStep s s' call
  /-- A CPU switches, or finds that it need not. -/
  | switch {call : SchedCall} {cpu : Cpu} {phase : CpuPhase} : s.phase cpu = .running →
    Switched s.sched s'.sched cpu → s'.phase = update s.phase cpu phase →
    (phase ≠ .switching →
      slotIds s'.sched.switchStash cpu = slotIds s.sched.switchStash cpu) → SlotStep s s' call
  | exit {cpu : Cpu} {code : UInt64} : s.phase cpu ≠ .switching →
    Switched s.sched s'.sched cpu →
    slotIds s'.sched.switchStash cpu = slotIds s.sched.currentTask cpu →
    s'.phase = update s.phase cpu .switching → SlotStep s s' (.exitCurrentTask cpu code)
  | finish {cpu : Cpu} : s.phase cpu ≠ .exiting →
    slotIds s'.sched.currentTask = slotIds s.sched.currentTask →
    slotIds s'.sched.switchStash = update (slotIds s.sched.switchStash) cpu none →
    s'.phase = update s.phase cpu .running → SlotStep s s' (.finishTaskSwitch cpu)
  /-- A task kills itself. -/
  | suicide {cpu : Cpu} {id : TaskId} : s.phase cpu = .running → SameSlots s.sched s'.sched →
    s'.phase = update s.phase cpu .exiting → SlotStep s s' (.killTask cpu id)

theorem slotStep_call {env : SchedEnv} {call : SchedCall} (hen : s.Enabled call)
    (h : s.call env call = some s') : SlotStep s s' call := by
  have hplain : ∀ {r : Scheduler}, SameSlots s.sched r → s.withSched r = s' →
      SlotStep s s' call := by
    rintro r hr rfl
    exact .same hr rfl
  cases call with
  | spawn t =>
    refine hplain (SameSlots.trans ?_ (sameSlots_enqueue env _ _)) (Option.some.inj h)
    exact ⟨rfl, rfl⟩
  | yieldTask cpu =>
    obtain ⟨hsw, hquiet⟩ := switched_yieldTask env s.sched cpu
    rw [← Option.some.inj h]
    refine .switch hen hsw rfl fun hne => hquiet ?_
    by_contra hyes
    rw [Bool.not_eq_false] at hyes
    rw [if_pos hyes] at hne
    exact hne rfl
  | blockCurrentTask cpu state =>
    obtain ⟨r, hr, rfl⟩ := Option.map_eq_some_iff.1 h
    exact .switch hen (switched_blockCurrentTask hr) rfl fun hne => absurd rfl hne
  | finishTaskSwitch cpu =>
    obtain ⟨hcur, hstash⟩ := slots_finishTaskSwitch env s.sched cpu
    rw [← Option.some.inj h]
    exact .finish hen hcur hstash rfl
  | exitCurrentTask cpu code =>
    obtain ⟨r, hr, rfl⟩ := Option.map_eq_some_iff.1 h
    have hfree : s.phase cpu ≠ .switching := by
      rcases hen with hrun | ⟨hexit, -⟩
      · rw [hrun]
        decide
      · rw [hexit]
        decide
    exact .exit hfree (switched_exitCurrentTask hr) (stash_exitCurrentTask hr) rfl
  | killTask cpu id =>
    have hsame := sameSlots_killTask env s.sched cpu id
    rcases hr : s.sched.killTask env cpu id with ⟨outcome, r⟩
    rw [hr] at hsame
    rw [SchedState.call, hr] at h
    cases outcome with
    | returns ok => exact hplain hsame (Option.some.inj h)
    | exits =>
      rw [← Option.some.inj h]
      exact .suicide hen hsame rfl
  | tryWaitTask id => exact hplain (sameSlots_tryWaitTask s.sched id) (Option.some.inj h)
  | drainDeadTask =>
    have hsame : SameSlots s.sched s.sched.drainDeadTask := ⟨rfl, rfl⟩
    exact hplain hsame (Option.some.inj h)
  | unblockReceivers chan => exact hplain (sameSlots_unblock env _ _) (Option.some.inj h)
  | unblockSenders chan => exact hplain (sameSlots_unblock env _ _) (Option.some.inj h)
  | unblockIrqWaiters vector => exact hplain (sameSlots_unblock env _ _) (Option.some.inj h)
  | unblockVirtioWaiters head =>
    exact hplain ((sameSlots_markStashReadyIf s.sched _).trans (sameSlots_wakeFiled env _ _))
      (Option.some.inj h)
  | unblockFutexWaiter id =>
    exact hplain (sameSlots_wakeById _ _ (sameSlots_enqueue env)) (Option.some.inj h)
  | wakeThread id =>
    exact hplain (sameSlots_wakeById _ _ (sameSlots_enqueue env)) (Option.some.inj h)
  | wakeThreadDirect id =>
    exact hplain (sameSlots_wakeById _ _ (sameSlots_pushGameFront env)) (Option.some.inj h)

theorem slotStep_exec (h : s.exec l = some s') : SlotStep s s' l.2 := by
  obtain ⟨hen, -, -, s₁, hcall, hsched, hphases⟩ := exec_cases h
  have hstep := slotStep_call hen hcall
  generalize l.2 = call at hstep ⊢
  obtain ⟨sched, phase, used⟩ := s'
  obtain rfl : sched = s₁.sched := hsched
  obtain rfl : phase = s₁.phase := hphases
  -- The slots and the phases are all it speaks of.
  cases hstep with
  | same hr hp => exact .same hr hp
  | switch hrun hr hp hquiet => exact .switch hrun hr hp hquiet
  | exit hfree hr hstash hp => exact .exit hfree hr hstash hp
  | finish hen hcur hstash hp => exact .finish hen hcur hstash hp
  | suicide hrun hr hp => exact .suicide hrun hr hp

theorem keepsSlots_exec (hs : s.Sound) (h : s.exec l = some s') : KeepsSlots s s' := by
  obtain ⟨env, call⟩ := l
  have hstep : SlotStep s s' call := slotStep_exec h
  cases hstep with
  | same hr hp => exact keepsSlots_of_same hs hr fun c hc => hp ▸ hc
  | @switch _ cpu phase hrun hr hp hquiet =>
    refine keepsSlots_of_switched hs (by rw [hrun]; decide) hr (fun c hc => ?_) fun hne => ?_
    · rw [hp, update_of_ne hc]
    · rw [hp, update_self] at hne
      exact hquiet hne
  | exit hfree hr hstash hp =>
    refine keepsSlots_of_switched hs hfree hr (fun c hc => ?_) fun hne => ?_
    · rw [hp, update_of_ne hc]
    · rw [hp, update_self] at hne
      exact absurd rfl hne
  | @finish cpu hen hcur hstash hp =>
    refine ⟨fun c id hid => ?_, fun c id hid => .inl (by rw [hcur, hid]), fun c hc => ?_⟩
    · rw [hstash]
      by_cases hcc : c = cpu
      · subst hcc
        exact .inl (update_self ..)
      · rw [update_of_ne hcc]
        exact .inr hid
    · rw [hstash]
      by_cases hcc : c = cpu
      · subst hcc
        exact update_self ..
      · rw [hp, update_of_ne hcc] at hc
        rw [update_of_ne hcc, slotIds_eq_none]
        exact hs.stash c hc
  | @suicide cpu id hrun hr hp =>
    refine keepsSlots_of_same hs hr fun c hc => ?_
    by_cases hcc : c = cpu
    · rw [hcc, hrun]
      decide
    · rwa [hp, update_of_ne hcc] at hc

/-! ## The invariant -/

/-- A ledger of faults that looks at neither the state nor the place, or at a
place no call of the machine moves a bad task to. -/
theorem admits_of_nonneg (hW : ∀ p t, 0 ≤ W p t)
    (hblock : ∀ t state, W .stashed { t with state := state } ≤ W .running t) (call : SchedCall) :
    s.Admits W call := by
  cases call <;> first
    | exact trivial
    | exact fun t _ => hblock t _
    | exact fun p t _ => hW p t
    | exact fun t _ => hW .dead t

theorem tag_le_one (id : TaskId) (p : Place) (t : Task) : Ledger.tag id p t ≤ 1 := by
  unfold Ledger.tag
  split <;> omega

/-- A step brings an id in at most once, and only as one of its new ids. -/
theorem gain_tag_le (env : SchedEnv) (call : SchedCall) (id : TaskId) :
    s.gain (.tag id) env call ≤ 1 ∧
      (id ∉ s.newIds env call → s.gain (.tag id) env call ≤ 0) := by
  cases call with
  | spawn t =>
    have hgain : s.gain (.tag id) env (.spawn t) = Ledger.tag id .queued t := by
      rw [gain]
      split <;> rfl
    rw [hgain]
    refine ⟨tag_le_one id _ t, fun hnew => ?_⟩
    rw [newIds, List.mem_singleton] at hnew
    exact le_of_eq (if_neg fun h => hnew h.symm)
  | yieldTask cpu =>
    rw [gain, newIds]
    by_cases hc : s.sched.yieldCreatesIdle env cpu = true
    · rw [if_pos hc, if_pos hc]
      refine ⟨tag_le_one id _ _, fun hnew => ?_⟩
      rw [List.mem_singleton] at hnew
      exact le_of_eq (if_neg fun h => hnew h.symm)
    · rw [if_neg hc]
      exact ⟨Int.zero_le_ofNat 1, fun _ => le_rfl⟩
  | _ => exact ⟨Int.zero_le_ofNat 1, fun _ => le_rfl⟩

theorem gain_nonpos (hrunning : ∀ t : Task, W .running t ≤ 0)
    (hblocked : ∀ t : Task, W .blocked t ≤ 0)
    (hqueued : ∀ t : Task, t.state.isZombie = false → W .queued t ≤ 0) (env : SchedEnv)
    (call : SchedCall) : s.gain W env call ≤ 0 := by
  cases call with
  | spawn t =>
    rw [gain]
    split
    · exact hblocked t
    · next hz => exact hqueued t (Bool.eq_false_iff.2 hz)
  | yieldTask cpu =>
    rw [gain]
    split
    · exact hrunning _
    · exact le_rfl
  | _ => exact le_rfl

theorem idleSlots_iff (s : Scheduler) : s.IdleSlots ↔ s.total .notIdle ≤ 0 := by
  rw [Ledger.notIdle, s.faults_nonpos_iff]
  constructor
  · intro h p t ht
    cases p with
    | idle =>
      obtain ⟨c, hc⟩ := ht
      simp [h c t hc]
    | _ => rfl
  · intro h c t hc
    simpa using h .idle t ⟨c, hc⟩

/-- One step keeps the invariant. -/
theorem Sound.exec (hs : s.Sound) (h : s.exec l = some s') : s'.Sound := by
  obtain ⟨-, hnew, hused, -⟩ := exec_cases h
  have htag : ∀ id, s'.sched.total (.tag id) ≤
      s.sched.total (.tag id) + s.gain (.tag id) l.1 l.2 := fun id =>
    total_exec_le (Ledger.tag_lawful id) hs h
      (admits_of_nonneg (Ledger.tag_nonneg id) (fun _ _ => le_rfl) _)
  refine ⟨?_, fun c hc => slotIds_eq_none.1 ((keepsSlots_exec hs h).free c hc), fun id => ?_,
    fun id hid => ?_, ?_, ?_⟩
  · rw [idleSlots_iff]
    have hle := total_exec_le Ledger.notIdle_lawful hs h
      (admits_of_nonneg (Ledger.faults_nonneg _) (fun _ _ => le_rfl) _)
    have hgain := gain_nonpos (s := s) (W := .notIdle) (fun _ => le_rfl) (fun _ => le_rfl)
      (fun _ _ => le_rfl) l.1 l.2
    have := (idleSlots_iff s.sched).1 hs.idle
    omega
  · have hle := htag id
    obtain ⟨hone, hnone⟩ := gain_tag_le (s := s) l.1 l.2 id
    by_cases hmem : id ∈ s.newIds l.1 l.2
    · have := hs.fresh id (hnew id hmem)
      omega
    · have := hs.once id
      have := hnone hmem
      omega
  · rw [hused, List.mem_append, not_or] at hid
    have hle := htag id
    have := (gain_tag_le (s := s) l.1 l.2 id).2 hid.1
    have := hs.fresh id hid.2
    omega
  · have hle := total_exec_le Ledger.queuedZombie_lawful hs h
      (admits_of_nonneg (Ledger.faults_nonneg _) (fun _ _ => le_rfl) _)
    have hgain := gain_nonpos (s := s) (W := .queuedZombie) (fun _ => le_rfl) (fun _ => le_rfl)
      (fun t ht => by simp [Ledger.queuedZombie, Ledger.faults, ht]) l.1 l.2
    have := hs.queues
    omega
  · have hle := total_exec_le Ledger.livingCorpse_lawful hs h
      (admits_of_nonneg (Ledger.faults_nonneg _) (fun _ _ => le_rfl) _)
    have hgain := gain_nonpos (s := s) (W := .livingCorpse) (fun _ => le_rfl) (fun _ => le_rfl)
      (fun _ _ => le_rfl) l.1 l.2
    have := hs.corpses
    omega

theorem sound_init (h : s.Initial) : s.Sound := by
  obtain ⟨ids, stackBases, hinj, hsched, hphase, hused⟩ := h
  set idle : Cpu → Task := fun c =>
    { Task.new (ids c) (stackBases c) none with isIdle := true } with hidle
  -- Every CPU has its idle task, either running or in its slot.
  have htotal : ∀ w : Task → ℤ, s.sched.total (fun _ => w) = ∑ c, w (idle c) := by
    intro w
    have hempty : ∑ c : Cpu, Runqueue.sum w ⟨[], [], []⟩ = 0 := by
      simp [Runqueue.sum]
    have hstash : slotSum w (fun _ : Cpu => none) = 0 := by
      simp [slotSum]
    have hslots : slotSum w s.sched.currentTask + slotSum w s.sched.idleTask =
        ∑ c, w (idle c) := by
      rw [slotSum, slotSum, ← Finset.sum_add_distrib]
      refine Finset.sum_congr rfl fun c _ => ?_
      rw [hsched]
      by_cases hc : c = 0
      · simp [Scheduler.init, hc, hidle]
      · simp [Scheduler.init, hc, hidle]
    rw [total, show s.sched.switchStash = fun _ => none by rw [hsched]; rfl,
      show s.sched.runqueues = fun _ => ⟨[], [], []⟩ by rw [hsched]; rfl,
      show s.sched.blockedTasks = [] by rw [hsched]; rfl,
      show s.sched.deadTasks = [] by rw [hsched]; rfl, hempty, hstash]
    simp only [listSum_nil]
    omega
  have htag : ∀ id, s.sched.total (.tag id) = ∑ c, if ids c = id then 1 else 0 :=
    fun id => htotal fun t => if t.id = id then 1 else 0
  refine ⟨?_, fun c _ => by rw [hsched]; rfl, fun id => ?_, fun id hid => ?_, ?_, ?_⟩
  · intro c t ht
    rw [hsched] at ht
    unfold Scheduler.init at ht
    dsimp only at ht
    split at ht
    · cases ht
    · rw [← Option.some.inj ht]
  · rw [htag]
    by_cases hex : ∃ c, ids c = id
    · obtain ⟨c, rfl⟩ := hex
      simp [hinj.eq_iff]
    · rw [Finset.sum_eq_zero fun c _ => if_neg fun hc => hex ⟨c, hc⟩]
      exact Int.zero_le_ofNat 1
  · rw [htag, Finset.sum_eq_zero fun c _ => if_neg fun hc : ids c = id => hid (hc ▸ hused c)]
  · refine (s.sched.faults_nonpos_iff).2 fun p t ht => ?_
    cases p with
    | queued =>
      obtain ⟨c, hc⟩ := ht
      rw [hsched] at hc
      cases hc
    | _ => rfl
  · refine (s.sched.faults_nonpos_iff).2 fun p t ht => ?_
    cases p with
    | dead =>
      rw [Holds, hsched] at ht
      cases ht
    | _ => rfl

/-- The invariant holds in every run. -/
theorem sound_of_run {G : SchedState → SchedEnv × SchedCall → Prop} (h : schedMachine.Run G s) :
    s.Sound :=
  h.invariant (fun _ hi => sound_init hi) fun _ _ _ hs _ hstep => hs.exec hstep

/-! ## Conservation -/

/-- What may become of a task that is not idle in one step. -/
theorem stays_or_leaves (hs : s.Sound) (h : s.exec l = some s') {t : Task}
    (ht : t ∈ s.sched.resident) (hidle : t.isIdle = false) :
    (∃ t' ∈ s'.sched.resident, t'.id = t.id) ∨ (∃ cpu, l.2 = .killTask cpu t.id) ∨
      (l.2 = .drainDeadTask ∧ t ∈ s.sched.deadTasks ∧ t.state.isZombie = true) := by
  by_cases hkill : ∃ cpu, l.2 = .killTask cpu t.id
  · exact .inr (.inl hkill)
  obtain ⟨p, hp, hholds⟩ := mem_resident.1 ht
  -- A corpse with this id that is freed now is the task itself.
  by_cases hfreed : l.2 = .drainDeadTask ∧ ∃ u, s.sched.deadTasks.getLast? = some u ∧ u.id = t.id
  · obtain ⟨hdrain, u, hlast, hid⟩ := hfreed
    have hdead : s.sched.Holds u .dead := List.mem_of_getLast? hlast
    have heq : u = t := eq_of_once hs.once hdead hholds hid
    have hzombie := (s.sched.faults_nonpos_iff).1 hs.corpses .dead u hdead
    refine .inr (.inr ⟨hdrain, heq ▸ hdead, ?_⟩)
    rw [← heq]
    simpa using hzombie
  -- Otherwise the debt of the id is not paid.
  left
  have hadm : s.Admits (.debt t.id) l.2 := by
    cases hl : l.2 with
    | blockCurrentTask cpu state => exact fun u _ => by simp [Ledger.debt]
    | killTask cpu id =>
      intro q u hu
      have hne : u.id ≠ t.id := fun heq => hkill ⟨cpu, by rw [hl, ← heq, hu]⟩
      simp [Ledger.debt, hne]
    | drainDeadTask =>
      intro u hu
      have hne : u.id ≠ t.id := fun heq => hfreed ⟨hl, u, hu, heq⟩
      simp [Ledger.debt, hne]
    | _ => exact trivial
  have hdebt : ∀ q u, Ledger.debt t.id q u ≤ 0 := by
    intro q u
    unfold Ledger.debt
    split <;> omega
  have hle := total_exec_le (Ledger.debt_lawful t.id) hs h hadm
  have hgain := gain_nonpos (s := s) (hdebt .running) (hdebt .blocked)
    (fun u _ => hdebt .queued u) l.1 l.2
  have howes : s.sched.total (.debt t.id) < 0 := by
    have hself : Ledger.debt t.id p t = -1 := if_pos ⟨hp, rfl, hidle⟩
    have hneg := s.sched.le_total (W := fun q u => -Ledger.debt t.id q u)
      (fun q u => neg_nonneg.2 (hdebt q u)) hholds
    rw [total_neg, hself] at hneg
    omega
  by_contra hgone
  have hzero : s'.sched.total (fun q u => -Ledger.debt t.id q u) ≤ 0 := by
    refine s'.sched.total_nonpos fun q u hu => ?_
    unfold Ledger.debt
    split
    · next hq => exact absurd ⟨u, mem_resident.2 ⟨q, hq.1, hu⟩, hq.2.1⟩ hgone
    · exact le_of_eq neg_zero
  rw [total_neg] at hzero
  omega

/-- In every reachable state an id is held at most once, and every step keeps
the tasks: no slot is written over, and a task that is not idle is still held
afterwards, unless it was killed or was a corpse that was freed. -/
theorem task_conservation {s : SchedState} (h : schedMachine.Reachable s) :
    (s.sched.resident.map (·.id)).Nodup ∧
    ∀ l s', schedMachine.step s l s' → KeepsSlots s s' ∧
      ∀ t ∈ s.sched.resident, t.isIdle = false →
        (∃ t' ∈ s'.sched.resident, t'.id = t.id) ∨ (∃ cpu, l.2 = .killTask cpu t.id) ∨
          (l.2 = .drainDeadTask ∧ t ∈ s.sched.deadTasks ∧ t.state.isZombie = true) := by
  have hs : s.Sound := sound_of_run h
  have hnodup := nodup_of_once hs.once
  rw [List.map_append] at hnodup
  refine ⟨hnodup.of_append_left, fun l s' hstep => ⟨keepsSlots_exec hs hstep, fun t ht hidle => ?_⟩⟩
  exact stays_or_leaves hs hstep ht hidle

/-- The state after `init`, with the ids and stacks in order. -/
def boot : SchedState where
  sched := Scheduler.init (fun c => c.val) fun c => (c.val + 1) * kernelStackSize
  phase _ := .running
  used := (List.finRange maxCpus).map (·.val)

theorem boot_initial : boot.Initial :=
  ⟨fun c => c.val, fun c => (c.val + 1) * kernelStackSize, Fin.val_injective, rfl,
    fun _ => rfl, fun c => List.mem_map_of_mem (List.mem_finRange c)⟩

/-- Two CPUs, no work stealing. -/
def quietEnv : SchedEnv := ⟨0, false, 2, true, 0, 0⟩

def worker : Task := Task.new 100 (100 * kernelStackSize) none

/-- CPU 1 runs the worker, which blocks in a receive, and goes on with a second one. -/
def receiveRun : List (SchedEnv × SchedCall) :=
  [(quietEnv, .spawn worker), (quietEnv, .spawn (Task.new 101 (101 * kernelStackSize) none)),
    (quietEnv, .yieldTask 1), (quietEnv, .finishTaskSwitch 1),
    (quietEnv, .blockCurrentTask 1 (.blockedOnReceive 7)), (quietEnv, .finishTaskSwitch 1)]

/-- The worker is blocked, the second one is on CPU 1. -/
def workerReceives (r : SchedState) : Bool :=
  r.sched.blockedTasks.any (fun t => t.id = 100 && !t.isIdle) &&
    (r.sched.currentTask 1).any fun t => t.id = 101 && !t.isIdle

theorem task_conservation_receiving :
    ∃ r : SchedState, r.workerReceives = true ∧ (r.sched.resident.map (·.id)).Nodup ∧
      ∀ l s', schedMachine.step r l s' → KeepsSlots r s' ∧
        ∀ t ∈ r.sched.resident, t.isIdle = false →
          (∃ t' ∈ s'.sched.resident, t'.id = t.id) ∨ (∃ cpu, l.2 = .killTask cpu t.id) ∨
            (l.2 = .drainDeadTask ∧ t ∈ r.sched.deadTasks ∧ t.state.isZombie = true) := by
  have heval : (Lib.replay exec boot receiveRun).any workerReceives = true := by
    decide
  obtain ⟨r, hr, hreceives⟩ := (Option.any_eq_true _ _).1 heval
  exact ⟨r, hreceives,
    task_conservation (Lib.Machine.Run.replay (fun _ _ _ h => ⟨trivial, h⟩) (.start boot_initial) hr)⟩

end SchedState

end AthenaOS
