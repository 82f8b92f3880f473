import AthenaOS.Sched.Zombie
import AthenaOS.Sandbox.Table

/-!
# Killing a sandboxed task

`reclaim_task_resources` drops a task's sandbox entry, and `kill_task` calls it
for a task that runs on another CPU before that CPU has let go of the task. Up
to its next switch the killed task runs on, and the gate no longer knows it.
-/

namespace AthenaOS

open Scheduler

/-! ## The slots in a sound state -/

namespace SchedState

variable {s s' : SchedState} {l : SchedEnv × SchedCall} {id : TaskId} {c c' cpu : Cpu}

theorem slotIds_eq_some {slots : Cpu → Option Task} :
    slotIds slots c = some id ↔ ∃ t, slots c = some t ∧ t.id = id := Option.map_eq_some_iff

/-- A task runs on one CPU only. -/
theorem Sound.current_inj (hs : s.Sound) (h : slotIds s.sched.currentTask c = some id)
    (h' : slotIds s.sched.currentTask c' = some id) : c' = c := by
  by_contra hne
  obtain ⟨t, ht, hid⟩ := slotIds_eq_some.1 h
  obtain ⟨t', ht', hid'⟩ := slotIds_eq_some.1 h'
  -- Without the first CPU there is still the second.
  have hrest := total_setCurrent (.tag id) s.sched c none
  have hheld : (s.sched.setCurrent c none).Holds t' .running :=
    ⟨c', (Function.update_of_ne hne ..).trans ht'⟩
  have hone := le_total (Ledger.tag_nonneg id) _ hheld
  have honce := hs.once id
  rw [ht] at hrest
  simp only [Option.elim_some, Option.elim_none, Ledger.tag, if_pos hid, if_pos hid'] at hrest hone
  omega

/-- A stashed task does not run. -/
theorem Sound.current_of_stash (hs : s.Sound) (h : slotIds s.sched.switchStash c = some id) :
    slotIds s.sched.currentTask c' ≠ some id := by
  intro h'
  obtain ⟨t, ht, hid⟩ := slotIds_eq_some.1 h
  obtain ⟨t', ht', hid'⟩ := slotIds_eq_some.1 h'
  have hrest := total_setStash (.tag id) s.sched c none
  have hheld : (s.sched.setStash c none).Holds t' .running := ⟨c', ht'⟩
  have hone := le_total (Ledger.tag_nonneg id) _ hheld
  have honce := hs.once id
  rw [ht] at hrest
  simp only [Option.elim_some, Option.elim_none, Ledger.tag, if_pos hid, if_pos hid'] at hrest hone
  omega

/-- A CPU that is about to exit its task does nothing else first, and the other
CPUs leave it alone. -/
theorem exiting_exec (h : s.exec l = some s') (hexit : s.phase c = .exiting) :
    (s'.phase c = .exiting ∧ slotIds s'.sched.currentTask c = slotIds s.sched.currentTask c) ∨
      ∃ code, l.2 = .exitCurrentTask c code := by
  obtain ⟨env, call⟩ := l
  have hstep : SlotStep s s' call := slotStep_exec h
  have hrunning : ∀ {cpu : Cpu}, s.phase cpu = .running → c ≠ cpu := by
    rintro cpu hrun rfl
    rw [hexit] at hrun
    cases hrun
  cases hstep with
  | same hr hp => exact .inl ⟨hp ▸ hexit, congrFun hr.current c⟩
  | switch hrun hr hp _ =>
    have hne := hrunning hrun
    exact .inl ⟨by rw [hp, Function.update_of_ne hne, hexit], (hr.others c hne).1⟩
  | @exit cpu code hfree hr hstash hp =>
    by_cases hne : c = cpu
    · exact .inr ⟨code, by rw [hne]⟩
    · exact .inl ⟨by rw [hp, Function.update_of_ne hne, hexit], (hr.others c hne).1⟩
  | finish hen hcur hstash hp =>
    have hne : ∀ {cpu : Cpu}, s.phase cpu ≠ .exiting → c ≠ cpu := by
      rintro cpu hen rfl
      exact hen hexit
    exact .inl ⟨by rw [hp, Function.update_of_ne (hne hen), hexit], congrFun hcur c⟩
  | suicide hrun hr hp =>
    exact .inl ⟨by rw [hp, Function.update_of_ne (hrunning hrun), hexit],
      congrFun hr.current c⟩

/-- A task that runs on the killing CPU only is left to `exit_current_task`. -/
theorem killRunning_own (env : SchedEnv) (cpus : List Cpu) (killCurrent : Bool) (r : Scheduler)
    (hown : ∀ j, slotIds r.currentTask j = some id → j = cpu)
    (hdies : killCurrent = true ∨ (cpu ∈ cpus ∧ slotIds r.currentTask cpu = some id)) :
    (killRunning env cpu id cpus killCurrent r).1 = false ∧
      (killRunning env cpu id cpus killCurrent r).2.1 = true := by
  induction cpus generalizing killCurrent r with
  | nil => exact ⟨rfl, hdies.resolve_right fun h => List.not_mem_nil h.1⟩
  | cons i is ih =>
    unfold killRunning
    -- A CPU with another task, or none, is passed over.
    have hskip : slotIds r.currentTask i ≠ some id →
        killCurrent = true ∨ (cpu ∈ is ∧ slotIds r.currentTask cpu = some id) := by
      intro hne
      refine hdies.imp_right fun h => ⟨?_, h.2⟩
      refine (List.mem_cons.1 h.1).resolve_left fun heq => hne ?_
      rw [← heq, h.2]
    split
    · next hnone =>
      exact ih _ _ hown (hskip (by rw [slotIds, hnone]; rintro ⟨⟩))
    · next t hcur =>
      split
      · next hid =>
        have hcpu : i = cpu := hown i (slotIds_eq_some.2 ⟨t, hcur, hid⟩)
        have hsame : SameSlots r (r.setCurrent i (some { t with state := .zombie 0 })) :=
          sameSlots_setCurrent hcur rfl
        have hkill : (killCurrent || i == cpu) = true := by rw [hcpu]; simp
        dsimp only
        rw [hkill]
        exact ih _ _ (fun j hj => hown j (by rwa [hsame.current] at hj)) (.inl rfl)
      · next hid =>
        refine ih _ _ hown (hskip fun hcur' => hid ?_)
        obtain ⟨t', ht', hid'⟩ := slotIds_eq_some.1 hcur'
        rw [hcur] at ht'
        rw [Option.some.inj ht', hid']

theorem killTask_own (env : SchedEnv) {r : Scheduler}
    (hown : ∀ j, slotIds r.currentTask j = some id → j = cpu)
    (hcur : slotIds r.currentTask cpu = some id) : (r.killTask env cpu id).1 = .exits := by
  obtain ⟨hreturned, hdies⟩ := killRunning_own env (List.finRange maxCpus) false r hown
    (.inr ⟨List.mem_finRange cpu, hcur⟩)
  unfold killTask
  rcases hr : killRunning env cpu id (List.finRange maxCpus) false r with
    ⟨returned, killCurrent, r₁⟩
  rw [hr] at hreturned hdies
  dsimp only at hreturned hdies
  subst hreturned hdies
  rfl

/-- A kill moves nobody, and a task that kills itself is on its way out. -/
theorem killTask_exec {env : SchedEnv} (h : s.exec (env, .killTask cpu id) = some s') :
    s.phase cpu = .running ∧ SameSlots s.sched s'.sched ∧
      ((s.sched.killTask env cpu id).1 = .exits → s'.phase cpu = .exiting) := by
  obtain ⟨hen, -, -, s₁, hcall, hsched, hphases⟩ := exec_cases h
  have hsame := sameSlots_killTask env s.sched cpu id
  rcases hr : s.sched.killTask env cpu id with ⟨outcome, r⟩
  rw [hr] at hsame
  dsimp only at hcall
  rw [SchedState.call, hr] at hcall
  rw [hsched, hphases]
  cases outcome with
  | returns ok =>
    rw [← Option.some.inj hcall]
    exact ⟨hen, hsame, by rintro ⟨⟩⟩
  | exits =>
    rw [← Option.some.inj hcall]
    exact ⟨hen, hsame, fun _ => Function.update_self ..⟩

end SchedState

/-! ## The scheduler and the sandbox together -/

/-- The task whose resources a call reclaims. -/
def SchedState.reclaimed (s : SchedState) (env : SchedEnv) : SchedCall → Option TaskId
  | .killTask cpu id =>
    match (s.sched.killTask env cpu id).1 with
    | .returns false => none
    | .returns true | .exits => some id
  | .exitCurrentTask cpu _ => slotIds s.sched.currentTask cpu
  | _ => none

theorem SchedState.reclaimed_killTask {s : SchedState} {env : SchedEnv} {cpu : Cpu}
    {victim id : TaskId} (h : s.reclaimed env (.killTask cpu victim) = some id) : victim = id := by
  unfold reclaimed at h
  dsimp only at h
  split at h
  · cases h
  · exact Option.some.inj h
  · exact Option.some.inj h

/-- The scheduler, the sandbox statics, and which tasks are to be sandboxed. -/
structure SandboxState where
  sched : SchedState
  sandbox : Sandbox
  /-- The tasks that have been given a level other than `Trusted`, up to the
  reclaim after which they run on no CPU, or to `Trusted`. -/
  marked : List TaskId

inductive SandboxCall where
  | setTaskLevel (pid : TaskId) (level : SandboxLevel)
  | setTaskGrants (pid : TaskId) (grants : Grants)
  | sched (env : SchedEnv) (call : SchedCall)

namespace SandboxState

/-- Does the task run on no CPU? -/
def offCpu (sched : SchedState) (pid : TaskId) : Bool :=
  (List.finRange maxCpus).all fun c => slotIds sched.sched.currentTask c ≠ some pid

def exec (s : SandboxState) : SandboxCall → Option SandboxState
  | .setTaskLevel pid level =>
    some { s with
      sandbox := s.sandbox.setTaskLevel pid level
      marked := if level = .trusted then s.marked.filter (· ≠ pid) else pid :: s.marked }
  | .setTaskGrants pid grants => some { s with sandbox := s.sandbox.setTaskGrants pid grants }
  | .sched env call =>
    (s.sched.exec (env, call)).map fun sched =>
      match s.sched.reclaimed env call with
      | none => { s with sched := sched }
      | some id =>
        { sched := sched
          sandbox := s.sandbox.forgetTask id
          marked := if offCpu sched id then s.marked.filter (· ≠ id) else s.marked }

end SandboxState

def sandboxMachine : Lib.Machine SandboxState SandboxCall where
  init s := s.sched.Initial ∧ s.sandbox = Sandbox.init ∧ s.marked = []
  step s l s' := s.exec l = some s'

namespace SandboxState

/-- No sandboxed task is killed while it runs on another CPU. -/
def SparesSandboxed (s : SandboxState) : SandboxCall → Prop
  | .sched _ (.killTask cpu id) =>
    s.sandbox.levelOf id = .trusted ∨
      ∀ j ≠ cpu, slotIds s.sched.sched.currentTask j ≠ some id
  | _ => True

/-- What the runs keep: a marked task is in the table, or is on its way out. -/
structure Confined (s : SandboxState) : Prop where
  sound : s.sched.Sound
  count : s.sandbox.CountExact
  marked : ∀ pid ∈ s.marked, s.sandbox.levelOf pid ≠ .trusted ∨
    ∃ c, s.sched.phase c = .exiting ∧ slotIds s.sched.sched.currentTask c = some pid

variable {s s' : SandboxState} {l : SandboxCall}

theorem offCpu_iff {sched : SchedState} {pid : TaskId} :
    offCpu sched pid = true ↔ ∀ c, slotIds sched.sched.currentTask c ≠ some pid := by
  simp [offCpu]

theorem countExact_exec (hcount : s.sandbox.CountExact) (h : s.exec l = some s') :
    s'.sandbox.CountExact := by
  cases l with
  | setTaskLevel pid level =>
    rw [← Option.some.inj h]
    exact hcount.setTaskLevel pid level
  | setTaskGrants pid grants =>
    rw [← Option.some.inj h]
    exact hcount.setTaskGrants pid grants
  | sched env call =>
    obtain ⟨sched, -, rfl⟩ := Option.map_eq_some_iff.1 h
    split
    · exact hcount
    · next id _ => exact hcount.forgetTask id

/-- A task whose resources are reclaimed in a guarded step has no mark after it,
or is on its way out. -/
theorem reclaimed_leaves (hs : s.Confined) {env : SchedEnv} {call : SchedCall}
    (hg : s.SparesSandboxed (.sched env call)) {sched : SchedState}
    (h : s.sched.exec (env, call) = some sched) {id : TaskId}
    (hid : s.sched.reclaimed env call = some id) (hmarked : id ∈ s.marked) :
    offCpu sched id = true ∨
      ∃ c, sched.phase c = .exiting ∧ slotIds sched.sched.currentTask c = some id := by
  have hsound : sched.Sound := hs.sound.exec h
  cases call with
  | exitCurrentTask cpu code =>
    -- The task is in the stash.
    have hcur : slotIds s.sched.sched.currentTask cpu = some id := hid
    obtain ⟨-, -, -, s₁, hcall, hsched, -⟩ := SchedState.exec_cases h
    obtain ⟨r, hr, rfl⟩ := Option.map_eq_some_iff.1 hcall
    have hstash : slotIds sched.sched.switchStash cpu = some id := by
      rw [hsched]
      exact (stash_exitCurrentTask hr).trans hcur
    exact .inl (offCpu_iff.2 fun c => hsound.current_of_stash hstash)
  | killTask cpu victim =>
    obtain rfl : victim = id := SchedState.reclaimed_killTask hid
    obtain ⟨hrun, hsame, hexits⟩ := SchedState.killTask_exec h
    -- It was on its way out before, or runs on no other CPU.
    rcases hs.marked victim hmarked with hlevel | ⟨c, hexit, hcur⟩
    · have hothers : ∀ j, slotIds s.sched.sched.currentTask j = some victim → j = cpu := by
        intro j hj
        by_contra hne
        exact (hg.resolve_left hlevel) j hne hj
      by_cases hcur : slotIds s.sched.sched.currentTask cpu = some victim
      · refine .inr ⟨cpu, hexits (SchedState.killTask_own env hothers hcur), ?_⟩
        rw [hsame.current, hcur]
      · refine .inl (offCpu_iff.2 fun c hc => hcur ?_)
        rw [hsame.current] at hc
        rw [← hothers c hc, hc]
    · rcases SchedState.exiting_exec h hexit with ⟨hexit', hcur'⟩ | ⟨code, hcall⟩
      · exact .inr ⟨c, hexit', hcur'.trans hcur⟩
      · cases hcall
  | _ => cases hid

/-- One step keeps the marked tasks in. -/
theorem Confined.exec (hs : s.Confined) (hg : s.SparesSandboxed l) (h : s.exec l = some s') :
    s'.Confined := by
  have hcount := countExact_exec hs.count h
  cases l with
  | setTaskLevel pid level =>
    obtain rfl := (Option.some.inj h).symm
    refine ⟨hs.sound, hcount, fun q hq => ?_⟩
    dsimp only at hq ⊢
    rw [Sandbox.levelOf_setTaskLevel hs.count]
    by_cases hlevel : level = .trusted
    · rw [if_pos hlevel, List.mem_filter, decide_eq_true_eq] at hq
      rw [if_neg hq.2]
      exact hs.marked q hq.1
    · by_cases hqp : q = pid
      · rw [if_pos hqp]
        exact .inl hlevel
      · rw [if_neg hlevel, List.mem_cons] at hq
        rw [if_neg hqp]
        exact hs.marked q (hq.resolve_left hqp)
  | setTaskGrants pid grants =>
    obtain rfl := (Option.some.inj h).symm
    refine ⟨hs.sound, hcount, fun q hq => ?_⟩
    dsimp only at hq ⊢
    rw [Sandbox.levelOf_setTaskGrants]
    exact hs.marked q hq
  | sched env call =>
    obtain ⟨sched, hsched, heq⟩ := Option.map_eq_some_iff.1 h
    have hsound : sched.Sound := hs.sound.exec hsched
    -- Whoever is on its way out stays so until it exits.
    have hout : ∀ q c, s.sched.phase c = .exiting →
        slotIds s.sched.sched.currentTask c = some q → s.sched.reclaimed env call ≠ some q →
        ∃ c, sched.phase c = .exiting ∧ slotIds sched.sched.currentTask c = some q := by
      intro q c hexit hcur hother
      rcases SchedState.exiting_exec hsched hexit with ⟨hexit', hcur'⟩ | ⟨code, hcall⟩
      · exact ⟨c, hexit', hcur'.trans hcur⟩
      · refine absurd ?_ hother
        rw [show call = _ from hcall]
        exact hcur
    cases hid : s.sched.reclaimed env call with
    | none =>
      rw [hid] at heq hout
      obtain rfl := heq.symm
      refine ⟨hsound, hcount, fun q hq => ?_⟩
      rcases hs.marked q hq with hlevel | ⟨c, hexit, hcur⟩
      · exact .inl hlevel
      · exact .inr (hout q c hexit hcur nofun)
    | some id =>
      have hleaves := reclaimed_leaves hs hg hsched hid
      rw [hid] at heq hout
      obtain rfl := heq.symm
      refine ⟨hsound, hcount, fun q hq => ?_⟩
      dsimp only at hq ⊢
      rw [Sandbox.levelOf_forgetTask]
      by_cases hqid : q = id
      · subst hqid
        refine .inr ?_
        by_cases hoff : offCpu sched q = true
        · rw [if_pos hoff, List.mem_filter, decide_eq_true_eq] at hq
          exact absurd rfl hq.2
        · rw [if_neg hoff] at hq
          exact (hleaves hq).resolve_left hoff
      · have hmem : q ∈ s.marked := by
          split at hq
          · exact (List.mem_filter.1 hq).1
          · exact hq
        rw [if_neg hqid]
        rcases hs.marked q hmem with hlevel | ⟨c, hexit, hcur⟩
        · exact .inl hlevel
        · exact .inr (hout q c hexit hcur fun heq => hqid (Option.some.inj heq).symm)

theorem confined_init (h : sandboxMachine.init s) : s.Confined := by
  obtain ⟨hsched, hsandbox, hmarked⟩ := h
  refine ⟨SchedState.sound_init hsched, ?_, fun pid hpid => ?_⟩
  · rw [hsandbox]
    exact Sandbox.countExact_init
  · rw [hmarked] at hpid
    cases hpid

/-- The counter is exact in every run. If no sandboxed task is killed while it
runs on another CPU, the syscalls of a marked task do not take the early returns
of the gate. -/
theorem sandbox_kept_when_spared (s : SandboxState) :
    (sandboxMachine.Reachable s → s.sandbox.CountExact) ∧
    (sandboxMachine.Run SparesSandboxed s → ∀ cpu pid,
      s.sched.phase cpu = .running → slotIds s.sched.sched.currentTask cpu = some pid →
      pid ∈ s.marked → ∀ enforce gateClass,
        s.sandbox.gate enforce pid gateClass ≠ .countIsZero ∧
          s.sandbox.gate enforce pid gateClass ≠ .trusted) := by
  constructor
  · intro h
    refine h.invariant (I := fun s => s.sandbox.CountExact) (fun s hi => ?_)
      fun s l s' hs _ hstep => countExact_exec hs hstep
    exact (confined_init hi).count
  · intro h cpu pid hrun hcur hmarked enforce gateClass
    have hs : s.Confined := h.invariant (fun _ hi => confined_init hi)
      fun _ _ _ hs hg hstep => hs.exec hg hstep
    refine Sandbox.gate_of_sandboxed hs.count ?_ enforce gateClass
    rcases hs.marked pid hmarked with hlevel | ⟨c, hexit, hcur'⟩
    · exact hlevel
    · rw [hs.sound.current_inj hcur hcur', hrun] at hexit
      cases hexit

/-! ## Killed from another CPU -/

/-- The state after boot. -/
def boot : SandboxState where
  sched := SchedState.boot
  sandbox := Sandbox.init
  marked := []

theorem boot_init : sandboxMachine.init boot := ⟨SchedState.boot_initial, rfl, rfl⟩

/-- CPU 1 runs the worker, which is then sandboxed. -/
def sandboxRun : List SandboxCall :=
  [.sched SchedState.quietEnv (.spawn SchedState.worker),
    .sched SchedState.quietEnv (.yieldTask 1),
    .sched SchedState.quietEnv (.finishTaskSwitch 1),
    .setTaskLevel 100 .strict]

/-- The worker runs on CPU 1 and is to be sandboxed. -/
def workerMarked (s : SandboxState) : Bool :=
  s.sched.phase 1 = .running && slotIds s.sched.sched.currentTask 1 = some 100 &&
    s.marked.contains 100

theorem workerMarked_spec (h : s.workerMarked = true) :
    s.sched.phase 1 = .running ∧ slotIds s.sched.sched.currentTask 1 = some 100 ∧
      100 ∈ s.marked := by
  unfold workerMarked at h
  rw [Bool.and_eq_true, Bool.and_eq_true, decide_eq_true_eq, decide_eq_true_eq,
    List.contains_iff_mem] at h
  exact ⟨h.1.1, h.1.2, h.2⟩

/-- The steps that kill nobody. -/
def execNoKill (s : SandboxState) : SandboxCall → Option SandboxState
  | .sched _ (.killTask _ _) => none
  | l => s.exec l

theorem execNoKill_spec (s : SandboxState) (l : SandboxCall) (s' : SandboxState)
    (h : s.execNoKill l = some s') : s.SparesSandboxed l ∧ sandboxMachine.step s l s' := by
  unfold execNoKill at h
  split at h
  · cases h
  · next hno =>
    refine ⟨?_, h⟩
    unfold SparesSandboxed
    split
    · next env cpu id => exact absurd rfl (hno env cpu id)
    · exact trivial

theorem sandbox_kept_when_spared_worker :
    boot.sandbox.CountExact ∧
    ∃ s, sandboxMachine.Run SparesSandboxed s ∧
      slotIds s.sched.sched.currentTask 1 = some 100 ∧ 100 ∈ s.marked ∧
      ∀ enforce gateClass, s.sandbox.gate enforce 100 gateClass ≠ .countIsZero ∧
        s.sandbox.gate enforce 100 gateClass ≠ .trusted := by
  have heval : (Lib.replay execNoKill boot sandboxRun).any workerMarked = true := by
    decide
  obtain ⟨s, hs, hworker⟩ := (Option.any_eq_true _ _).1 heval
  obtain ⟨hphase, hcur, hmarked⟩ := workerMarked_spec hworker
  have hrun : sandboxMachine.Run SparesSandboxed s :=
    Lib.Machine.Run.replay execNoKill_spec (.start boot_init) hs
  exact ⟨(sandbox_kept_when_spared boot).1 (.start boot_init), s, hrun, hcur, hmarked,
    (sandbox_kept_when_spared s).2 hrun 1 100 hphase hcur hmarked⟩

/-- CPU 0 kills the worker, and until its next switch the worker is not
sandboxed. -/
theorem killed_task_unsandboxed :
    ∃ s, sandboxMachine.Reachable s ∧ s.sched.phase 1 = .running ∧
      slotIds s.sched.sched.currentTask 1 = some 100 ∧ 100 ∈ s.marked ∧
      ∀ enforce gateClass, s.sandbox.gate enforce 100 gateClass = .countIsZero := by
  have heval : (Lib.replay exec boot
      (sandboxRun ++ [.sched SchedState.quietEnv (.killTask 0 100)])).any (fun s =>
        s.workerMarked && s.sandbox.sandboxedCount == 0) = true := by
    decide
  obtain ⟨s, hs, hfacts⟩ := (Option.any_eq_true _ _).1 heval
  rw [Bool.and_eq_true, beq_iff_eq] at hfacts
  obtain ⟨hphase, hcur, hmarked⟩ := workerMarked_spec hfacts.1
  have hstep : ∀ s l s', exec s l = some s' → True ∧ sandboxMachine.step s l s' :=
    fun _ _ _ h => ⟨trivial, h⟩
  refine ⟨s, Lib.Machine.Run.replay hstep (.start boot_init) hs, hphase, hcur, hmarked,
    fun enforce gateClass => ?_⟩
  unfold Sandbox.gate
  rw [if_pos hfacts.2]

end SandboxState

end AthenaOS
