import AthenaOS.Sched.Conservation

/-!
# What is dead stays dead

`kill_task` marks a task that runs on another CPU as a zombie and leaves it
there. Yielding, switching and all wake paths respect the mark. Blocking does
not: `block_current_task_with` writes the new state over it.
-/

namespace AthenaOS

open Scheduler

/-- A task that is picked was queued. -/
theorem Scheduler.pickNext_queued {env : SchedEnv} {s : Scheduler} {cpu : Cpu} {u : Task}
    (h : (s.pickNext env cpu).1 = some u) : ∃ t, s.Holds t .queued ∧ t.id = u.id := by
  -- Count the id among the queued and the running tasks; the latter do not change.
  set W : Ledger := .faults fun p t => (p = .queued || p = .running) && t.id = u.id with hW
  have hpickable : W.Pickable := by
    refine ⟨fun t t' hsame p => ?_, fun t => ?_, fun t => ?_⟩
    · simp [hW, Ledger.faults, hsame.id]
    · exact le_rfl
    · exact Ledger.faults_nonneg _ .running t
  have htake := total_pickNext_le hpickable env s cpu
  obtain ⟨hcur, -, -⟩ := pickNext_frame env s cpu
  have hself : W .running u = 1 := by simp [hW, Ledger.faults]
  rw [Takes, h, Option.elim_some, hself] at htake
  by_contra hnone
  have hqueues : ∑ c, (s.runqueues c).sum (W .queued) ≤ 0 := by
    rw [queueSum_eq_listSum]
    have hlist : ∀ l : List Task, (∀ t ∈ l, s.Holds t .queued) → listSum (W .queued) l ≤ 0 := by
      intro l
      induction l with
      | nil => exact fun _ => le_rfl
      | cons t ts ih =>
        intro hl
        have hne : t.id ≠ u.id := fun heq => hnone ⟨t, hl t List.mem_cons_self, heq⟩
        have hzero : W .queued t = 0 := by simp [hW, Ledger.faults, hne]
        have := ih fun v hv => hl v (List.mem_cons_of_mem _ hv)
        rw [listSum_cons]
        omega
    exact hlist _ fun t ht => mem_queuedTasks.1 ht
  have hsplit : ∀ r : Scheduler, r.total W =
      slotSum (W .running) r.currentTask + ∑ c, (r.runqueues c).sum (W .queued) := by
    intro r
    have hother : ∀ p, p ≠ .queued → p ≠ .running → ∀ l, listSum (W p) l = 0 := by
      intro p hq hr l
      induction l with
      | nil => rfl
      | cons t ts ih =>
        rw [listSum_cons, ih]
        simp [hW, Ledger.faults, hq, hr]
    rw [total, slotSum_eq_listSum (W .stashed), slotSum_eq_listSum (W .idle),
      hother .stashed (by decide) (by decide), hother .idle (by decide) (by decide),
      hother .blocked (by decide) (by decide), hother .dead (by decide) (by decide)]
    ring
  have hafter : 0 ≤ ∑ c, ((s.pickNext env cpu).2.runqueues c).sum (W .queued) := by
    rw [queueSum_eq_listSum]
    exact listSum_nonneg (Ledger.faults_nonneg _ .queued) _
  rw [hsplit, hsplit, hcur] at htake
  omega

namespace SchedState

/-- A step does not block a task that has been killed. -/
def SparesZombies (s : SchedState) (l : SchedEnv × SchedCall) : Prop :=
  match l.2 with
  | .blockCurrentTask cpu _ =>
    ∀ t, s.sched.currentTask cpu = some t → t.state.isZombie = false
  | _ => True

variable {s s' : SchedState} {l : SchedEnv × SchedCall}

/-- Every task with the id is dead, and the id is not handed out again. -/
structure Dead (s : SchedState) (id : TaskId) : Prop where
  sound : s.Sound
  zombie : s.sched.total (.alive id) ≤ 0
  used : id ∈ s.used

theorem Dead.isZombie {id : TaskId} (h : s.Dead id) {t : Task} {p : Place}
    (ht : s.sched.Holds t p) (hid : t.id = id) : t.state.isZombie = true := by
  have hbad := (s.sched.faults_nonpos_iff).1 h.zombie p t ht
  simpa [hid] using hbad

/-- The step lemma: the dead stay dead. -/
theorem Dead.exec {id : TaskId} (hd : s.Dead id) (hg : s.SparesZombies l)
    (h : s.exec l = some s') : s'.Dead id := by
  obtain ⟨-, hnew, hused, -⟩ := exec_cases h
  have hother : id ∉ s.newIds l.1 l.2 := fun hmem => hnew id hmem hd.used
  have hadm : s.Admits (.alive id) l.2 := by
    unfold SparesZombies at hg
    cases hl : l.2 with
    | blockCurrentTask cpu state =>
      intro t ht
      rw [hl] at hg
      -- The task on the CPU is alive, so it is not the one in question.
      refine Ledger.faults_le fun hbad => ?_
      simp only [Bool.and_eq_true, decide_eq_true_eq] at hbad
      have hzombie := hd.isZombie (p := .running) ⟨cpu, ht⟩ hbad.1
      rw [hg t ht] at hzombie
      cases hzombie
    | killTask cpu i => exact fun p t _ => Ledger.faults_nonneg _ p t
    | drainDeadTask => exact fun t _ => Ledger.faults_nonneg _ .dead t
    | _ => exact trivial
  have hgain : s.gain (.alive id) l.1 l.2 ≤ 0 := by
    have hzero : ∀ (p : Place) (t : Task), t.id ≠ id → Ledger.alive id p t = 0 := by
      intro p t hne
      simp [Ledger.alive, Ledger.faults, hne]
    cases hl : l.2 with
    | spawn t =>
      rw [hl, newIds, List.mem_singleton] at hother
      rw [gain]
      split
      · exact le_of_eq (hzero _ t (Ne.symm hother))
      · exact le_of_eq (hzero _ t (Ne.symm hother))
    | yieldTask cpu =>
      rw [hl, newIds] at hother
      rw [gain]
      split
      · next hc =>
        rw [if_pos hc, List.mem_singleton] at hother
        exact le_of_eq (hzero _ (freshIdle l.1) (Ne.symm hother))
      · exact le_rfl
    | _ => exact le_rfl
  have hle := total_exec_le (Ledger.alive_lawful id) hd.sound h hadm
  refine ⟨hd.sound.exec h, ?_, ?_⟩
  · have := hd.zombie
    omega
  · rw [hused]
    exact List.mem_append_right _ hd.used

/-- A zombie makes its id dead: no other task has it. -/
theorem dead_of_zombie (hs : s.Sound) {t : Task} {p : Place} (ht : s.sched.Holds t p)
    (hz : t.state.isZombie = true) : s.Dead t.id := by
  refine ⟨hs, (s.sched.faults_nonpos_iff).2 fun p' t' ht' => ?_, ?_⟩
  · by_cases hid : t'.id = t.id
    · rw [eq_of_once hs.once ht' ht hid, hz]
      simp
    · simp [hid]
  · by_contra hunused
    have hzero := hs.fresh t.id hunused
    have hone := s.sched.le_total (Ledger.tag_nonneg t.id) ht
    have hself : Ledger.tag t.id p t = 1 := if_pos rfl
    omega

/-- Once a task is a zombie it remains one in every state the run goes on to,
and it is never picked, as long as no step blocks a zombie. -/
theorem zombie_stays_dead (hs : schedMachine.Run SparesZombies s)
    (hs' : (schedMachine.startingAt s).Run SparesZombies s') {t : Task} {p : Place}
    (ht : s.sched.Holds t p) (hz : t.state.isZombie = true) :
    (∀ t' p', s'.sched.Holds t' p' → t'.id = t.id → t'.state.isZombie = true) ∧
      ∀ env cpu u, (s'.sched.pickNext env cpu).1 = some u → u.id ≠ t.id := by
  have hstart : s.Dead t.id := dead_of_zombie (sound_of_run hs) ht hz
  have hdead : s'.Dead t.id := by
    refine hs'.invariant (I := fun r => r.Dead t.id) (fun r hr => ?_) fun r l r' hr hg hstep => ?_
    · rwa [show r = s from hr]
    · exact hr.exec hg hstep
  refine ⟨fun t' p' ht' hid => hdead.isZombie ht' hid, fun env cpu u hu hid => ?_⟩
  obtain ⟨v, hv, hvid⟩ := pickNext_queued hu
  have hzombie := hdead.isZombie hv (hvid.trans hid)
  have hqueue := (s'.sched.faults_nonpos_iff).1 hdead.sound.queues .queued v hv
  rw [hzombie] at hqueue
  cases hqueue

/-! ## A killed task that blocks -/

/-- CPU 1 runs the worker, then CPU 0 kills it. -/
def killRun : List (SchedEnv × SchedCall) :=
  [(quietEnv, .spawn worker), (quietEnv, .yieldTask 1), (quietEnv, .finishTaskSwitch 1),
    (quietEnv, .killTask 0 100)]

/-- CPU 1 blocks in a receive, as it was about to, and a message arrives. -/
def blockRun : List (SchedEnv × SchedCall) :=
  [(quietEnv, .blockCurrentTask 1 (.blockedOnReceive 7)), (quietEnv, .finishTaskSwitch 1),
    (quietEnv, .unblockReceivers 7)]

/-- The worker is a zombie on CPU 1. -/
def workerKilled (r : SchedState) : Bool :=
  (r.sched.currentTask 1).any fun t => t.id = 100 && t.state.isZombie

theorem workerKilled_holds {r : SchedState} (h : r.workerKilled = true) :
    ∃ t, r.sched.Holds t .running ∧ t.id = 100 ∧ t.state.isZombie = true := by
  unfold workerKilled at h
  cases hcur : r.sched.currentTask 1 with
  | none =>
    rw [hcur] at h
    cases h
  | some t =>
    rw [hcur, Option.any_some, Bool.and_eq_true, decide_eq_true_eq] at h
    exact ⟨t, ⟨1, hcur⟩, h⟩

/-- CPU 1 would pick the worker, which is ready. -/
def workerPicked (r : SchedState) : Bool :=
  (r.sched.pickNext quietEnv 1).1.any fun u => u.id = 100 && u.state = .ready

/-- The steps that do not block. -/
def execUnblocked (s : SchedState) (l : SchedEnv × SchedCall) : Option SchedState :=
  match l.2 with
  | .blockCurrentTask _ _ => none
  | _ => s.exec l

theorem execUnblocked_spec (s : SchedState) (l : SchedEnv × SchedCall) (s' : SchedState)
    (h : s.execUnblocked l = some s') : s.SparesZombies l ∧ schedMachine.step s l s' := by
  obtain ⟨env, call⟩ := l
  cases call with
  | blockCurrentTask cpu state => cases h
  | _ => exact ⟨trivial, h⟩

theorem zombie_stays_dead_worker :
    ∃ r t, schedMachine.Run SparesZombies r ∧ r.sched.Holds t .running ∧ t.id = 100 ∧
      (∀ t' p', r.sched.Holds t' p' → t'.id = t.id → t'.state.isZombie = true) ∧
      ∀ env cpu u, (r.sched.pickNext env cpu).1 = some u → u.id ≠ t.id := by
  have heval : (Lib.replay execUnblocked boot killRun).any workerKilled = true := by
    decide
  obtain ⟨r, hr, hkilled⟩ := (Option.any_eq_true _ _).1 heval
  obtain ⟨t, ht, hid, hz⟩ := workerKilled_holds hkilled
  have hrun : schedMachine.Run SparesZombies r :=
    Lib.Machine.Run.replay execUnblocked_spec (.start boot_initial) hr
  exact ⟨r, t, hrun, ht, hid, zombie_stays_dead hrun (.start rfl) ht hz⟩

/-- Blocking a killed task brings it back: it is woken, is ready, and is picked. -/
theorem killed_task_wakes :
    ∃ r r', schedMachine.Reachable r ∧ (schedMachine.startingAt r).Reachable r' ∧
      (∃ t, r.sched.Holds t .running ∧ t.id = 100 ∧ t.state.isZombie = true) ∧
      ∃ u, (r'.sched.pickNext quietEnv 1).1 = some u ∧ u.id = 100 ∧ u.state = .ready := by
  have heval : (Lib.replay exec boot killRun).any (fun r =>
      r.workerKilled && (Lib.replay exec r blockRun).any workerPicked) = true := by
    decide
  obtain ⟨r, hr, hfacts⟩ := (Option.any_eq_true _ _).1 heval
  rw [Bool.and_eq_true] at hfacts
  obtain ⟨r', hr', hpicked⟩ := (Option.any_eq_true _ _).1 hfacts.2
  have hstep : ∀ s l s', exec s l = some s' → True ∧ schedMachine.step s l s' :=
    fun _ _ _ h => ⟨trivial, h⟩
  refine ⟨r, r', Lib.Machine.Run.replay hstep (.start boot_initial) hr,
    Lib.Machine.Run.replay (M := schedMachine.startingAt r) hstep (.start rfl) hr',
    workerKilled_holds hfacts.1, ?_⟩
  unfold workerPicked at hpicked
  cases hu : (r'.sched.pickNext quietEnv 1).1 with
  | none =>
    rw [hu] at hpicked
    cases hpicked
  | some u =>
    rw [hu, Option.any_some, Bool.and_eq_true, decide_eq_true_eq, decide_eq_true_eq] at hpicked
    exact ⟨u, rfl, hpicked⟩

end SchedState

end AthenaOS
