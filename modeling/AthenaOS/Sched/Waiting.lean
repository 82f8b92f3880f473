import AthenaOS.Sched.Switch

/-!
# Who is waiting

For the wakeup arguments a scheduler state matters in two ways only: blocked
tasks are confined to `switch_stash` and `blocked_tasks` (`Awake`), and in which
blocked states some task there is (`Waits`). This file says once what each
scheduler operation does to the two.
-/

namespace AthenaOS

open Function (update_of_ne update_self)

namespace Scheduler

/-- No queued task is blocked. -/
def QueuesAwake (s : Scheduler) : Prop :=
  ∀ c, ∀ t ∈ (s.runqueues c).tasks, t.state.isBlocked = false

/-- Blocked tasks are in the stash or in `blocked_tasks`, nowhere else. -/
structure Awake (s : Scheduler) : Prop where
  current : ∀ c t, s.currentTask c = some t → t.state.isBlocked = false
  idle : ∀ c t, s.idleTask c = some t → t.state.isBlocked = false
  queues : s.QueuesAwake

/-- Some task in the stash or in `blocked_tasks` is in state `x`. -/
def Waits (s : Scheduler) (x : TaskState) : Prop :=
  ∃ t, ((∃ c, s.switchStash c = some t) ∨ t ∈ s.blockedTasks) ∧ t.state = x

variable {s s' : Scheduler} {t task : Task} {x : TaskState} {l dropped : List Task}
variable {r : Option Task × Scheduler} {env : SchedEnv} {cpu : Cpu} {o : Option Task}

/-- A blocked task, wherever it is, is one that waits. -/
theorem Awake.waits_of_mem (h : s.Awake) (ht : t ∈ s.tasks) (hb : t.state.isBlocked = true) :
    s.Waits t.state := by
  simp only [tasks, List.mem_append, mem_slotTasks, mem_queuedTasks] at ht
  rcases ht with ⟨c, hc⟩ | hstash | ⟨c, hc⟩ | hblk
  · rw [h.current c t hc] at hb
    cases hb
  · exact ⟨t, Or.inl hstash, rfl⟩
  · rw [h.queues c t hc] at hb
    cases hb
  · exact ⟨t, Or.inr hblk, rfl⟩

/-! ## Steady operations -/

/-- `s'` comes from `s` by moving awake tasks between the runqueues and
`blocked_tasks` and by changing counters. -/
structure Steady (s s' : Scheduler) : Prop where
  current : s'.currentTask = s.currentTask
  stash : s'.switchStash = s.switchStash
  idle : s'.idleTask = s.idleTask
  awake : s.QueuesAwake → s'.QueuesAwake
  asleep : s.QueuesAwake → ∀ t ∈ s'.blockedTasks, t.state.isBlocked = true → t ∈ s.blockedTasks

theorem Steady.refl (s : Scheduler) : Steady s s := ⟨rfl, rfl, rfl, id, fun _ _ ht _ => ht⟩

theorem Steady.trans {s s' s'' : Scheduler} (h : Steady s s') (h' : Steady s' s'') :
    Steady s s'' where
  current := h'.current.trans h.current
  stash := h'.stash.trans h.stash
  idle := h'.idle.trans h.idle
  awake hq := h'.awake (h.awake hq)
  asleep hq t ht hb := h.asleep hq t (h'.asleep (h.awake hq) t ht hb) hb

theorem Steady.keepsAwake {s s' : Scheduler} (h : Steady s s') (ha : s.Awake) : s'.Awake where
  current := by
    rw [h.current]
    exact ha.current
  idle := by
    rw [h.idle]
    exact ha.idle
  queues := h.awake ha.queues

theorem Steady.waits (h : Steady s s') (hq : s.QueuesAwake) (hx : x.isBlocked = true)
    (hw : s'.Waits x) : s.Waits x := by
  obtain ⟨t, ht, rfl⟩ := hw
  refine ⟨t, ?_, rfl⟩
  rw [h.stash] at ht
  exact ht.imp_right fun ht => h.asleep hq t ht hx

/-- Tasks already queued, or awake, may be put on a runqueue. -/
theorem steady_modifyQueue (s : Scheduler) (cpu : Cpu) {f : Runqueue → Runqueue}
    (hf : ∀ t ∈ (f (s.runqueues cpu)).tasks,
      t ∈ (s.runqueues cpu).tasks ∨ t.state.isBlocked = false) :
    Steady s (s.modifyQueue cpu f) where
  current := rfl
  stash := rfl
  idle := rfl
  awake hq c t ht := by
    simp only [modifyQueue] at ht
    by_cases hc : c = cpu
    · subst hc
      rw [update_self] at ht
      exact (hf t ht).elim (hq c t) id
    · rw [update_of_ne hc] at ht
      exact hq c t ht
  asleep _ _ ht _ := ht

/-- An awake task may be parked in `blocked_tasks`. -/
theorem Steady.pushBlocked {s s' : Scheduler} (h : Steady s s') {t : Task}
    (ht : s.QueuesAwake → t.state.isBlocked = false) : Steady s (s'.pushBlocked t) where
  current := h.current
  stash := h.stash
  idle := h.idle
  awake := h.awake
  asleep hq u hu hb := by
    rcases List.mem_append.mp hu with hu | hu
    · exact h.asleep hq u hu hb
    · rw [List.mem_singleton.mp hu, ht hq] at hb
      cases hb

theorem steady_setStreak (s : Scheduler) (cpu : Cpu) (n : Nat) : Steady s (s.setStreak cpu n) :=
  ⟨rfl, rfl, rfl, id, fun _ _ ht _ => ht⟩

theorem mem_insertBefore {p : Task → Bool} : t ∈ insertBefore p task l ↔ t = task ∨ t ∈ l := by
  induction l with
  | nil => simp [insertBefore]
  | cons u us ih =>
    unfold insertBefore
    split
    · simp
    · rw [List.mem_cons, ih, List.mem_cons]
      tauto

/-- An awake task can be enqueued. -/
theorem steady_enqueue (env : SchedEnv) (s : Scheduler) (ht : task.state.isBlocked = false) :
    Steady s (s.enqueue env task) := by
  have hnew : ∀ {t : Task} {l : List Task}, t = task ∨ t ∈ l →
      t ∈ l ∨ t.state.isBlocked = false := by
    rintro t l (rfl | hmem)
    · exact Or.inr ht
    · exact Or.inl hmem
  unfold enqueue
  split
  · exact (Steady.refl s).pushBlocked fun _ => ht
  · simp only
    split
    · refine steady_modifyQueue s _ fun t hmem => hnew ?_
      simp only [Runqueue.tasks, List.mem_append, mem_insertBefore] at hmem ⊢
      tauto
    · split
      · refine steady_modifyQueue s _ fun t hmem => hnew ?_
        simp only [Runqueue.tasks, List.mem_append, List.mem_singleton] at hmem ⊢
        tauto
      · refine steady_modifyQueue s _ fun t hmem => hnew ?_
        simp only [Runqueue.tasks, List.mem_append, mem_insertBefore] at hmem ⊢
        tauto

/-! ## Picking -/

/-- A pick is steady, and what it picks is awake. -/
structure Picks (s : Scheduler) (r : Option Task × Scheduler) : Prop where
  steady : Steady s r.2
  awake : s.QueuesAwake → ∀ t, r.1 = some t → t.state.isBlocked = false

theorem Picks.none (h : Steady s s') : Picks s (none, s') :=
  ⟨h, fun _ _ hp => by cases hp⟩

theorem Picks.some (h : Steady s s') (ht : s.QueuesAwake → t.state.isBlocked = false) :
    Picks s (some t, s') :=
  ⟨h, fun hq u hu => by
    rw [← Option.some.inj hu]
    exact ht hq⟩

/-- Picking after a steady move. -/
theorem Picks.after (h : Steady s s') (hr : Picks s' r) : Picks s r :=
  ⟨h.trans hr.steady, fun hq => hr.awake (h.awake hq)⟩

theorem startPeriod_spec (env : SchedEnv) (s : Scheduler) (t : Task) :
    Steady s (startPeriod env s t).2 ∧ (startPeriod env s t).1.state = t.state := by
  unfold startPeriod
  split
  · split
    · exact ⟨⟨rfl, rfl, rfl, id, fun _ _ ht _ => ht⟩, rfl⟩
    · exact ⟨Steady.refl s, rfl⟩
  · exact ⟨Steady.refl s, rfl⟩

theorem picks_pickDeadline (env : SchedEnv) (cpu : Cpu) (normalRunnable : Bool) :
    ∀ (rounds : Nat) (s : Scheduler), Picks s (pickDeadline env cpu normalRunnable rounds s)
  | 0, s => Picks.none (Steady.refl s)
  | rounds + 1, s => by
    unfold pickDeadline
    simp only
    split
    · exact .none (Steady.refl s)
    · rename_i idx _
      split
      · exact .none (Steady.refl s)
      · rename_i t hget
        have hmem : t ∈ (s.runqueues cpu).tasksDeadline := List.mem_of_getElem? hget
        have herase : Steady s (s.modifyQueue cpu fun rq =>
            { rq with tasksDeadline := (s.runqueues cpu).tasksDeadline.eraseIdx idx }) := by
          refine steady_modifyQueue s cpu fun u hu => Or.inl ?_
          simp only [Runqueue.tasks, List.mem_append] at hu ⊢
          exact hu.imp_left fun hu => hu.imp_left List.mem_of_mem_eraseIdx
        obtain ⟨hperiod, hstate⟩ := startPeriod_spec env (s.modifyQueue cpu fun rq =>
          { rq with tasksDeadline := (s.runqueues cpu).tasksDeadline.eraseIdx idx }) t
        have hmoved := herase.trans hperiod
        have hawake : s.QueuesAwake → _ = false := fun hq =>
          (congrArg TaskState.isBlocked hstate).trans
            (hq cpu t (by simp [Runqueue.tasks, hmem]))
        split
        · exact .after (hmoved.pushBlocked hawake)
            (picks_pickDeadline env cpu normalRunnable rounds _)
        · exact .some (hmoved.trans (steady_setStreak _ cpu _)) hawake

/-- The pop loop takes its tasks from the queue. -/
theorem popSane_mem {rest : List Task} {picked : Option Task}
    (h : popSane l = (dropped, picked, rest)) :
    (∀ t ∈ dropped, t ∈ l) ∧ (∀ t, picked = some t → t ∈ l) ∧ ∀ t ∈ rest, t ∈ l := by
  induction l generalizing dropped with
  | nil =>
    simp only [popSane, Prod.mk.injEq] at h
    obtain ⟨rfl, rfl, rfl⟩ := h
    simp
  | cons u us ih =>
    unfold popSane at h
    split at h
    · simp only [Prod.mk.injEq] at h
      obtain ⟨rfl, rfl, rfl⟩ := h
      obtain ⟨hd, hp, hr⟩ := ih rfl
      refine ⟨fun t ht => ?_, fun t ht => List.mem_cons_of_mem u (hp t ht),
        fun t ht => List.mem_cons_of_mem u (hr t ht)⟩
      exact List.mem_cons.mpr ((List.mem_cons.mp ht).imp_right (hd t))
    · simp only [Prod.mk.injEq] at h
      obtain ⟨rfl, rfl, rfl⟩ := h
      simp only [List.not_mem_nil, false_implies, implies_true, Option.some.injEq, true_and]
      exact ⟨fun t ht => ht ▸ List.mem_cons_self, fun t ht => List.mem_cons_of_mem u ht⟩

/-- Parking a list of awake tasks. -/
theorem Steady.quarantineAll (h : Steady s s')
    (hd : s.QueuesAwake → ∀ t ∈ dropped, t.state.isBlocked = false) :
    Steady s (dropped.foldl quarantineInsaneStack s') := by
  induction dropped generalizing s' with
  | nil => exact h
  | cons t ts ih =>
    refine ih (h.pushBlocked fun hq => hd hq t List.mem_cons_self) fun hq u hu => ?_
    exact hd hq u (List.mem_cons_of_mem t hu)

theorem picks_pickGame (cpu : Cpu) (s : Scheduler) : Picks s (pickGame cpu s) := by
  unfold pickGame
  rcases hpop : popSane (s.runqueues cpu).tasksGame with ⟨dropped, picked, rest⟩
  obtain ⟨hd, hp, hr⟩ := popSane_mem hpop
  have hawake : s.QueuesAwake → ∀ t ∈ (s.runqueues cpu).tasksGame, t.state.isBlocked = false :=
    fun hq t ht => hq cpu t (by simp [Runqueue.tasks, ht])
  have hmoved : Steady s (dropped.foldl quarantineInsaneStack
      (s.modifyQueue cpu fun rq => { rq with tasksGame := rest })) := by
    refine Steady.quarantineAll (steady_modifyQueue s cpu fun t ht => Or.inl ?_)
      fun hq t ht => hawake hq t (hd t ht)
    simp only [Runqueue.tasks, List.mem_append] at ht ⊢
    exact ht.imp_left fun ht => ht.imp_right (hr t)
  cases picked with
  | none => exact .none hmoved
  | some t =>
    exact .some (hmoved.trans (steady_setStreak _ cpu 0)) fun hq => hawake hq t (hp t rfl)

theorem picks_pickNormal (cpu : Cpu) (s : Scheduler) : Picks s (pickNormal cpu s) := by
  unfold pickNormal
  split
  · rcases hpop : popSane (s.runqueues cpu).tasksNormal with ⟨dropped, picked, rest⟩
    obtain ⟨hd, hp, hr⟩ := popSane_mem hpop
    have hawake : s.QueuesAwake → ∀ t ∈ (s.runqueues cpu).tasksNormal,
        t.state.isBlocked = false := fun hq t ht => hq cpu t (by simp [Runqueue.tasks, ht])
    have hmoved : Steady s (dropped.foldl quarantineInsaneStack
        (s.modifyQueue cpu fun rq => { rq with tasksNormal := rest })) := by
      refine Steady.quarantineAll (steady_modifyQueue s cpu fun t ht => Or.inl ?_)
        fun hq t ht => hawake hq t (hd t ht)
      simp only [Runqueue.tasks, List.mem_append] at ht ⊢
      exact ht.imp_right (hr t)
    cases picked with
    | none => exact .none hmoved
    | some t =>
      refine .some (hmoved.trans ?_) fun hq => hawake hq t (hp t rfl)
      split
      · exact ⟨rfl, rfl, rfl, id, fun _ _ ht _ => ht⟩
      · exact steady_setStreak _ cpu 0
  · exact .none (Steady.refl s)

theorem picks_steal (cpu : Cpu) (s : Scheduler) : ∀ l : List Cpu, Picks s (steal cpu s l)
  | [] => Picks.none (Steady.refl s)
  | i :: is => by
    unfold steal
    split
    · exact picks_steal cpu s is
    · simp only
      split
      · exact picks_steal cpu s is
      · rename_i pos _
        split
        · exact picks_steal cpu s is
        · rename_i t hget
          have hmem : t ∈ (s.runqueues i).tasksNormal := List.mem_of_getElem? hget
          refine .some (steady_modifyQueue s i fun u hu => Or.inl ?_)
            fun hq => hq i t (by simp [Runqueue.tasks, hmem])
          simp only [Runqueue.tasks, List.mem_append] at hu ⊢
          exact hu.imp_right List.mem_of_mem_eraseIdx

theorem Picks.orPick {next : Scheduler → Option Task × Scheduler} (h : Picks s r)
    (hnext : ∀ s, Picks s (next s)) : Picks s (orPick r next) := by
  unfold Scheduler.orPick
  split
  · rename_i t heq
    exact .some h.steady fun hq => h.awake hq t heq
  · exact .after h.steady (hnext r.2)

theorem picks_pickDeadlineGuarded (env : SchedEnv) (s : Scheduler) (cpu : Cpu) :
    Picks s (s.pickDeadlineGuarded env cpu) := by
  unfold pickDeadlineGuarded
  simp only
  split
  · exact .none (steady_setStreak s cpu 0)
  · exact picks_pickDeadline env cpu _ _ s

/-- `pick_next` is steady and picks an awake task. -/
theorem picks_pickNext (env : SchedEnv) (s : Scheduler) (cpu : Cpu) :
    Picks s (s.pickNext env cpu) := by
  refine (((picks_pickDeadlineGuarded env s cpu).orPick
    (picks_pickGame cpu)).orPick (picks_pickNormal cpu)).orPick fun s => ?_
  split
  · exact .none (Steady.refl s)
  · exact picks_steal cpu s _

/-! ## The operations of the IPC arms -/

/-- Taking the next task or the idle one: awake tasks stay awake, and no one
starts to wait. -/
theorem pickOrIdle_spec (h : s.Awake) (hpick : s.pickOrIdle env cpu = (o, s')) :
    s'.Awake ∧ (∀ t, o = some t → t.state.isBlocked = false) ∧
      s'.switchStash = s.switchStash ∧
      ∀ x, x.isBlocked = true → s'.Waits x → s.Waits x := by
  have hp := picks_pickNext env s cpu
  have ha := hp.steady.keepsAwake h
  unfold pickOrIdle orPick at hpick
  split at hpick
  · rename_i t heq
    simp only [Prod.mk.injEq] at hpick
    obtain ⟨rfl, rfl⟩ := hpick
    exact ⟨ha, fun u hu => hp.awake h.queues u (heq.trans hu), hp.steady.stash,
      fun x hx => hp.steady.waits h.queues hx⟩
  · simp only [takeIdle, Prod.mk.injEq] at hpick
    obtain ⟨rfl, rfl⟩ := hpick
    refine ⟨⟨ha.current, fun c t hc => ?_, ha.queues⟩, fun t ht => ha.idle cpu t ht,
      hp.steady.stash, fun x hx => hp.steady.waits h.queues hx⟩
    simp only [setIdle] at hc
    by_cases hcpu : c = cpu
    · subst hcpu
      rw [update_self] at hc
      cases hc
    · rw [update_of_ne hcpu] at hc
      exact ha.idle c t hc

/-- Giving the CPU to an awake task. -/
theorem Awake.setCurrent {s : Scheduler} (h : s.Awake) (cpu : Cpu) {o : Option Task}
    (ho : ∀ t, o = some t → t.state.isBlocked = false) : (s.setCurrent cpu o).Awake where
  current c t hc := by
    simp only [Scheduler.setCurrent] at hc
    by_cases hcpu : c = cpu
    · subst hcpu
      rw [update_self] at hc
      exact ho t hc
    · rw [update_of_ne hcpu] at hc
      exact h.current c t hc
  idle := h.idle
  queues := h.queues

theorem Awake.setIdle {s : Scheduler} (h : s.Awake) (cpu : Cpu) {o : Option Task}
    (ho : ∀ t, o = some t → t.state.isBlocked = false) : (s.setIdle cpu o).Awake where
  current := h.current
  idle c t hc := by
    simp only [Scheduler.setIdle] at hc
    by_cases hcpu : c = cpu
    · subst hcpu
      rw [update_self] at hc
      exact ho t hc
    · rw [update_of_ne hcpu] at hc
      exact h.idle c t hc
  queues := h.queues

theorem Awake.setStash (h : s.Awake) (cpu : Cpu) (o : Option Task) :
    (s.setStash cpu o).Awake := ⟨h.current, h.idle, h.queues⟩

/-- Who waits after a stash slot is rewritten. -/
theorem waits_setStash (hw : (s.setStash cpu o).Waits x) :
    s.Waits x ∨ ∃ t, o = some t ∧ t.state = x := by
  obtain ⟨t, ⟨c, hc⟩ | ht, hx⟩ := hw
  · simp only [setStash] at hc
    by_cases hcpu : c = cpu
    · subst hcpu
      rw [update_self] at hc
      exact Or.inr ⟨t, hc, hx⟩
    · rw [update_of_ne hcpu] at hc
      exact Or.inl ⟨t, Or.inl ⟨c, hc⟩, hx⟩
  · exact Or.inl ⟨t, Or.inr ht, hx⟩

theorem switchStash_setStash_of_ne {c : Cpu} (h : c ≠ cpu) :
    (s.setStash cpu o).switchStash c = s.switchStash c :=
  update_of_ne h ..

/-- **Blocking**: the current task starts to wait, in the stash of its CPU, and
no one else does. -/
theorem blockCurrentTask_spec {state : TaskState} (h : s.Awake)
    (hb : s.blockCurrentTask env cpu state = some s') :
    s'.Awake ∧ (∀ x, x.isBlocked = true → s'.Waits x → s.Waits x ∨ x = state) ∧
      ∀ c ≠ cpu, s'.switchStash c = s.switchStash c := by
  have hnone : (s.setCurrent cpu none).Awake := h.setCurrent cpu fun t ht => by cases ht
  -- both exits of the function: some awake task `t` gets the CPU of `s₁`
  have hfinal : ∀ {s₁ : Scheduler} {t current : Task}, s₁.Awake → t.state.isBlocked = false →
      s₁.switchStash = s.switchStash →
      (∀ x, x.isBlocked = true → s₁.Waits x → s.Waits x) → current.state = state →
      ((s₁.setCurrent cpu (some t)).setStash cpu (some current)).Awake ∧
        (∀ x, x.isBlocked = true →
          ((s₁.setCurrent cpu (some t)).setStash cpu (some current)).Waits x →
          s.Waits x ∨ x = state) ∧
        ∀ c ≠ cpu, ((s₁.setCurrent cpu (some t)).setStash cpu (some current)).switchStash c =
          s.switchStash c := by
    intro s₁ t current ha ht hstash hw hcur
    refine ⟨(ha.setCurrent cpu fun u hu => Option.some.inj hu ▸ ht).setStash cpu _,
      fun x hx hwx => ?_, fun c hc => ?_⟩
    · rcases waits_setStash hwx with hwx | ⟨u, hu, hux⟩
      · exact Or.inl (hw x hx hwx)
      · rw [← Option.some.inj hu, hcur] at hux
        exact Or.inr hux.symm
    · rw [switchStash_setStash_of_ne hc]
      exact congrFun hstash c
  unfold blockCurrentTask at hb
  split at hb
  · cases hb
  · rename_i current _
    simp only at hb
    split at hb
    · cases hb
    · rename_i next s₁ hpick
      obtain ⟨ha, hnext, hstash, hw⟩ := pickOrIdle_spec hnone hpick
      have hawake := hnext next rfl
      split at hb
      · rw [← Option.some.inj hb]
        exact hfinal ha hawake hstash hw rfl
      · have hpush := (Steady.refl s₁).pushBlocked (t := next) fun _ => hawake
        split at hb
        · cases hb
        · rename_i idle s₂ hidle
          simp only [takeIdle, Prod.mk.injEq] at hidle
          obtain ⟨hidle, rfl⟩ := hidle
          rw [← Option.some.inj hb]
          have ha' := hpush.keepsAwake ha
          refine hfinal (ha'.setIdle cpu fun u hu => by cases hu) (ha'.idle cpu idle hidle)
            hstash (fun x hx hwx => hw x hx (hpush.waits ha.queues hx hwx)) rfl

/-- Enqueueing a list of tasks, each set to ready. -/
theorem steady_enqueueReady (env : SchedEnv) (woken : List Task) : ∀ s : Scheduler,
    Steady s (woken.foldl (fun s t => s.enqueue env { t with state := .ready }) s) := by
  induction woken with
  | nil => exact Steady.refl
  | cons t ts ih => exact fun s => (steady_enqueue env s rfl).trans (ih _)

/-- **Waking**: no one is left waiting in the given state, and no one starts to
wait. -/
theorem unblock_spec (env : SchedEnv) (state : TaskState) (h : s.Awake) :
    (s.unblock env state).Awake ∧
      (∀ x, x.isBlocked = true → (s.unblock env state).Waits x → s.Waits x ∧ x ≠ state) ∧
      ∀ c, s.switchStash c = none → (s.unblock env state).switchStash c = none := by
  have hsteady := steady_enqueueReady env
    ((s.markStashReadyIf fun t => t.state = state).blockedTasks.filter fun t => t.state = state)
    { s.markStashReadyIf (fun t => t.state = state) with
      blockedTasks := (s.markStashReadyIf fun t => t.state = state).blockedTasks.filter
        fun t => t.state ≠ state }
  refine ⟨hsteady.keepsAwake ⟨h.current, h.idle, h.queues⟩, fun x hx hw => ?_, fun c hc => ?_⟩
  · obtain ⟨t, ⟨c, hc⟩ | ht, rfl⟩ := hsteady.waits h.queues hx hw
    · -- a stashed task that is still blocked was not rewritten
      simp only [markStashReadyIf, Option.map_eq_some_iff] at hc
      obtain ⟨u, hu, rfl⟩ := hc
      split at hx
      · cases hx
      · rename_i hne
        rw [if_neg hne]
        rw [Bool.and_eq_true, not_and, decide_eq_true_eq] at hne
        exact ⟨⟨u, Or.inl ⟨c, hu⟩, rfl⟩, hne hx⟩
    · obtain ⟨hmem, hne⟩ := List.mem_filter.mp ht
      exact ⟨⟨t, Or.inr hmem, rfl⟩, by simpa using hne⟩
  · show (List.foldl _ _ _ : Scheduler).switchStash c = none
    rw [hsteady.stash]
    simp only [markStashReadyIf, hc, Option.map_none]

/-- **Finishing a switch**: the slot is drained, and no one starts to wait. -/
theorem finishTaskSwitch_spec (env : SchedEnv) (cpu : Cpu) (h : s.Awake) :
    (s.finishTaskSwitch env cpu).Awake ∧
      (∀ x, x.isBlocked = true → (s.finishTaskSwitch env cpu).Waits x → s.Waits x) ∧
      (s.finishTaskSwitch env cpu).switchStash cpu = none ∧
      ∀ c, s.switchStash c = none → (s.finishTaskSwitch env cpu).switchStash c = none := by
  unfold finishTaskSwitch
  split
  · rename_i hnone
    exact ⟨h, fun _ _ hw => hw, hnone, fun _ hc => hc⟩
  · rename_i task htask
    have hself : (s.setStash cpu none).switchStash cpu = none := update_self ..
    have hother : ∀ c, s.switchStash c = none → (s.setStash cpu none).switchStash c = none := by
      intro c hc
      by_cases hcpu : c = cpu
      · rw [hcpu]
        exact hself
      · rw [switchStash_setStash_of_ne hcpu, hc]
    have hdrain : ∀ x, (s.setStash cpu none).Waits x → s.Waits x := by
      intro x hw
      rcases waits_setStash hw with hw | ⟨t, ht, _⟩
      · exact hw
      · cases ht
    have ha := h.setStash cpu none
    -- filing the task in `blocked_tasks` makes it wait where it already waited
    have hfile : ∀ x, ((s.setStash cpu none).pushBlocked task).Waits x → s.Waits x := by
      rintro x ⟨t, hstash | ht, rfl⟩
      · exact hdrain _ ⟨t, Or.inl hstash, rfl⟩
      · rcases List.mem_append.mp ht with ht | ht
        · exact hdrain _ ⟨t, Or.inr ht, rfl⟩
        · rw [List.mem_singleton.mp ht]
          exact ⟨task, Or.inl ⟨cpu, htask⟩, rfl⟩
    simp only
    split
    · split
      · obtain ⟨ha', hw, hs⟩ := unblock_spec env (.blockedOnWait task.id)
          (s := (s.setStash cpu none).pushBlocked task) ⟨ha.current, ha.idle, ha.queues⟩
        exact ⟨ha', fun x hx hwx => hfile x (hw x hx hwx).1, hs cpu hself,
          fun c hc => hs c (hother c hc)⟩
      · exact ⟨⟨ha.current, ha.idle, ha.queues⟩, fun x _ hw => hdrain x hw, hself, hother⟩
    · split
      · exact ⟨⟨ha.current, ha.idle, ha.queues⟩, fun x _ hw => hfile x hw, hself, hother⟩
      · rename_i hblk
        have hst := steady_enqueue env (s.setStash cpu none) (Bool.eq_false_of_not_eq_true hblk)
        rw [hst.stash]
        exact ⟨hst.keepsAwake ha, fun x hx hw => hdrain x (hst.waits ha.queues hx hw), hself,
          hother⟩

/-! ## Yielding -/

theorem checkMissOn_spec (env : SchedEnv) (cpu : Cpu) (h : s.Awake) :
    (checkMissOn env s cpu).Awake ∧ (checkMissOn env s cpu).switchStash = s.switchStash ∧
      (checkMissOn env s cpu).blockedTasks = s.blockedTasks := by
  unfold checkMissOn
  split
  · exact ⟨h, rfl, rfl⟩
  · rename_i t ht
    split
    · exact ⟨h, rfl, rfl⟩
    · split
      · exact ⟨h, rfl, rfl⟩
      · have hstats : ∀ stats, ({ s with deadlineStats := stats } : Scheduler).Awake :=
          fun _ => ⟨h.current, h.idle, h.queues⟩
        refine ⟨(hstats _).setCurrent cpu fun u hu => ?_, rfl, rfl⟩
        rw [← Option.some.inj hu]
        exact h.current cpu t ht

theorem checkDeadlineMisses_spec (env : SchedEnv) (h : s.Awake) :
    (s.checkDeadlineMisses env).Awake ∧
      (s.checkDeadlineMisses env).switchStash = s.switchStash ∧
      (s.checkDeadlineMisses env).blockedTasks = s.blockedTasks := by
  unfold checkDeadlineMisses
  generalize List.finRange maxCpus = cpus
  induction cpus generalizing s with
  | nil => exact ⟨h, rfl, rfl⟩
  | cons cpu cpus ih =>
    obtain ⟨ha, hs, hb⟩ := checkMissOn_spec env cpu h
    obtain ⟨ha', hs', hb'⟩ := ih ha
    exact ⟨ha', hs'.trans hs, hb'.trans hb⟩

theorem takeRunning_spec (env : SchedEnv) (cpu : Cpu) (h : s.Awake) :
    (s.takeRunning env cpu).2.Awake ∧
      (s.takeRunning env cpu).1.state.isBlocked = false ∧
      (s.takeRunning env cpu).2.switchStash = s.switchStash ∧
      (s.takeRunning env cpu).2.blockedTasks = s.blockedTasks := by
  unfold takeRunning
  split
  · rename_i t ht
    exact ⟨h.setCurrent cpu (fun u hu => by cases hu), h.current cpu t ht, rfl, rfl⟩
  · split
    · rename_i t ht
      exact ⟨h.setIdle cpu (fun u hu => by cases hu), h.idle cpu t ht, rfl, rfl⟩
    · exact ⟨h, rfl, rfl, rfl⟩

theorem chargeSlice_state (env : SchedEnv) (t : Task) : (chargeSlice env t).state = t.state := by
  unfold chargeSlice
  simp only
  split <;> rfl

/-- **Yielding**: no one starts to wait, and only the slot of the yielding CPU
may be filled. -/
theorem yieldTask_spec (env : SchedEnv) (cpu : Cpu) (h : s.Awake) :
    (s.yieldTask env cpu).Awake ∧
      (∀ x, x.isBlocked = true → (s.yieldTask env cpu).Waits x → s.Waits x) ∧
      ∀ c ≠ cpu, (s.yieldTask env cpu).switchStash c = s.switchStash c := by
  unfold yieldTask
  split
  · exact ⟨h, fun _ _ hw => hw, fun _ _ => rfl⟩
  simp only
  obtain ⟨ha₁, hs₁, hb₁⟩ := checkDeadlineMisses_spec env
    (s := { s with tick := s.tick + 1, gameMode := s.gameMode.tickOnce })
    ⟨h.current, h.idle, h.queues⟩
  obtain ⟨ha₂, hcur, hs₂, hb₂⟩ := takeRunning_spec env cpu ha₁
  generalize (Scheduler.checkDeadlineMisses env
    { s with tick := s.tick + 1, gameMode := s.gameMode.tickOnce }).takeRunning env cpu = r at *
  rw [← chargeSlice_state env] at hcur
  have hp := picks_pickNext env r.2 cpu
  have ha₃ := hp.steady.keepsAwake ha₂
  have hstash : (r.2.pickNext env cpu).2.switchStash = s.switchStash :=
    hp.steady.stash.trans (hs₂.trans hs₁)
  have hwait : ∀ x, x.isBlocked = true → (r.2.pickNext env cpu).2.Waits x → s.Waits x := by
    intro x hx hw
    obtain ⟨t, ht, hxt⟩ := hp.steady.waits ha₂.queues hx hw
    rw [hs₂.trans hs₁, hb₂.trans hb₁] at ht
    exact ⟨t, ht, hxt⟩
  have hself : ∀ t, some (chargeSlice env r.1) = some t → t.state.isBlocked = false :=
    fun t ht => Option.some.inj ht ▸ hcur
  split
  · rename_i s₁ heq
    rw [heq] at ha₃ hstash hwait
    exact ⟨ha₃.setCurrent cpu hself, hwait, fun c _ => congrFun hstash c⟩
  · rename_i next s₁ heq
    have hnext : ∀ t, some next = some t → t.state.isBlocked = false :=
      fun t ht => hp.awake ha₂.queues t (by rw [heq]; exact ht)
    rw [heq] at ha₃ hstash hwait
    split
    · exact ⟨ha₃.setCurrent cpu hnext, hwait, fun c _ => congrFun hstash c⟩
    split
    · have hpush := (Steady.refl s₁).pushBlocked (t := next) fun _ => hnext next rfl
      exact ⟨(hpush.keepsAwake ha₃).setCurrent cpu hself,
        fun x hx hw => hwait x hx (hpush.waits ha₃.queues hx hw), fun c _ => congrFun hstash c⟩
    split
    · exact ⟨(ha₃.setCurrent cpu hnext).setIdle cpu hself, hwait, fun c _ => congrFun hstash c⟩
    · refine ⟨(ha₃.setCurrent cpu hnext).setStash cpu _, fun x hx hw => ?_, fun c hc => ?_⟩
      · rcases waits_setStash hw with hw | ⟨t, ht, rfl⟩
        · exact hwait x hx hw
        · rw [hself t ht] at hx
          cases hx
      · rw [switchStash_setStash_of_ne hc]
        exact congrFun hstash c

end Scheduler

end AthenaOS
