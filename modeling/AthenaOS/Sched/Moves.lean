import AthenaOS.Sched.Ledger

/-!
# What the scheduler calls do to a ledger

One lemma per call: no call raises the total of a lawful ledger, apart from the
weight of the task it creates, blocks, kills or frees.
-/

namespace AthenaOS

open Scheduler

namespace Scheduler

/-! ## Switching away from a task -/

/-- Only idle tasks are in the idle slots. -/
def IdleSlots (s : Scheduler) : Prop := ∀ c t, s.idleTask c = some t → t.isIdle = true

theorem IdleSlots.setIdle {s : Scheduler} (h : s.IdleSlots) {c : Cpu} {o : Option Task}
    (ho : ∀ t, o = some t → t.isIdle = true) : (s.setIdle c o).IdleSlots := by
  intro c' t ht
  by_cases hc : c' = c
  · subst hc
    simp only [Scheduler.setIdle, Function.update_self] at ht
    exact ho t ht
  · simp only [Scheduler.setIdle, Function.update_of_ne hc] at ht
    exact h c' t ht

theorem pickNext_frame (env : SchedEnv) (s : Scheduler) (cpu : Cpu) :
    (s.pickNext env cpu).2.currentTask = s.currentTask ∧
      (s.pickNext env cpu).2.switchStash = s.switchStash ∧
      (s.pickNext env cpu).2.idleTask = s.idleTask :=
  have h := (picks_pickNext env s cpu).steady
  ⟨h.current, h.stash, h.idle⟩

theorem pickOrIdle_frame (env : SchedEnv) (s : Scheduler) (cpu : Cpu) :
    (s.pickOrIdle env cpu).2.currentTask = s.currentTask ∧
      (s.pickOrIdle env cpu).2.switchStash = s.switchStash ∧
      (s.IdleSlots → (s.pickOrIdle env cpu).2.IdleSlots) := by
  obtain ⟨hcur, hstash, hidle⟩ := pickNext_frame env s cpu
  have hslots : s.IdleSlots → (s.pickNext env cpu).2.IdleSlots := fun h => by
    rwa [IdleSlots, hidle]
  unfold pickOrIdle Scheduler.orPick
  split
  · exact ⟨hcur, hstash, hslots⟩
  · exact ⟨hcur, hstash, fun h => (hslots h).setIdle fun _ ht => by cases ht⟩

section Switching

variable {W : Ledger} (hW : W.Lawful)

include hW

variable {s s' : Scheduler} {env : SchedEnv} {cpu : Cpu}

/-- Taking the idle task of a CPU. -/
theorem takes_takeIdle (hidle : s.IdleSlots) (cpu : Cpu) : Takes W s (s.takeIdle cpu) := by
  show (s.setIdle cpu none).total W + (s.idleTask cpu).elim 0 (W .running) ≤ _
  rw [total_setIdle]
  cases hslot : s.idleTask cpu with
  | none => simp
  | some t =>
    have hrise := hW.rise t (hidle cpu t hslot)
    simp only [Option.elim_some, Option.elim_none]
    omega

theorem takes_pickOrIdle (env : SchedEnv) (hidle : s.IdleSlots) (cpu : Cpu) :
    Takes W s (s.pickOrIdle env cpu) := by
  have hpick := total_pickNext_le hW.toPickable env s cpu
  obtain ⟨-, -, hsame⟩ := pickNext_frame env s cpu
  unfold pickOrIdle Scheduler.orPick
  split
  · next t ht =>
    rw [Takes, ht] at hpick
    exact hpick
  · next ht =>
    rw [Takes, ht, Option.elim_none, add_zero] at hpick
    have hslots : (s.pickNext env cpu).2.IdleSlots := by rwa [IdleSlots, hsame]
    exact (takes_takeIdle hW hslots cpu).trans hpick

/-- The task on the CPU may block: `hstate` is the one move `Lawful` does not
promise. -/
theorem total_blockCurrentTask_le {state : TaskState} {t : Task} (hidle : s.IdleSlots)
    (hcur : s.currentTask cpu = some t) (hstash : s.switchStash cpu = none)
    (hstate : W .stashed { t with state := state } ≤ W .running t)
    (h : s.blockCurrentTask env cpu state = some s') : s'.total W ≤ s.total W := by
  have htake := takes_pickOrIdle hW env (s := s.setCurrent cpu none) hidle cpu
  obtain ⟨hfcur, hfstash, hfidle⟩ := pickOrIdle_frame env (s.setCurrent cpu none) cpu
  have hgone : (s.setCurrent cpu none).total W = s.total W - W .running t := by
    rw [total_setCurrent, hcur]
    simp
  unfold blockCurrentTask at h
  rw [hcur] at h
  dsimp only at h
  rcases hr : (s.setCurrent cpu none).pickOrIdle env cpu with ⟨o, s₁⟩
  rw [hr] at h htake hfcur hfstash hfidle
  -- The CPU and its stash slot are free while the next task is chosen.
  have hfree : ∀ {r : Scheduler} (next : Task), r.currentTask = s₁.currentTask →
      r.switchStash = s₁.switchStash →
      ((r.setCurrent cpu (some next)).setStash cpu (some { t with state := state })).total W =
        r.total W + W .running next + W .stashed { t with state := state } := by
    intro r next hc hs
    have hcpu : r.currentTask cpu = none := by
      rw [hc, hfcur]
      exact Function.update_self ..
    have hslot : (r.setCurrent cpu (some next)).switchStash cpu = none := by
      show r.switchStash cpu = none
      rw [hs, hfstash]
      exact hstash
    rw [total_setStash, hslot, total_setCurrent, hcpu]
    simp
  cases o with
  | none => cases h
  | some next =>
    rw [Takes] at htake
    dsimp only [Option.elim_some] at h htake
    split at h
    · rw [Option.some.injEq] at h
      rw [← h, hfree next rfl rfl]
      omega
    · have hpark := hW.quarantine next
      have hfall := takes_takeIdle hW (s := s₁.quarantineInsaneStack next) (hfidle hidle) cpu
      rw [Takes, quarantineInsaneStack, total_pushBlocked] at hfall
      split at h
      · cases h
      · next idle s₂ htaken =>
        rw [quarantineInsaneStack] at htaken
        rw [htaken] at hfall
        dsimp only [Option.elim_some] at hfall
        rw [Option.some.injEq] at h
        have heq : s₂ = (s₁.pushBlocked next).setIdle cpu none :=
          (congrArg Prod.snd htaken).symm
        rw [← h, hfree idle (by rw [heq]; rfl) (by rw [heq]; rfl)]
        omega

theorem total_exitCurrentTask_le {code : UInt64} (hidle : s.IdleSlots)
    (hstash : s.switchStash cpu = none) (h : s.exitCurrentTask env cpu code = some s') :
    s'.total W ≤ s.total W := by
  unfold exitCurrentTask at h
  split at h
  · cases h
  · next t hcur =>
    dsimp only at h
    set dying := { t with state := .zombie code } with hdying
    have hexit : W .stashed dying ≤ W .running t := hW.exit t code
    have hmoved : ((s.setCurrent cpu none).setStash cpu (some dying)).total W =
        s.total W - W .running t + W .stashed dying := by
      rw [total_setStash, total_setCurrent, hcur]
      simp [setCurrent, hstash]
    have htake := takes_pickOrIdle hW env
      (s := (s.setCurrent cpu none).setStash cpu (some dying)) hidle cpu
    obtain ⟨hfcur, -, -⟩ :=
      pickOrIdle_frame env ((s.setCurrent cpu none).setStash cpu (some dying)) cpu
    split at h
    · cases h
    · next next s₁ hr =>
      rw [Takes, hr, hmoved] at htake
      rw [hr] at hfcur
      have hcpu : s₁.currentTask cpu = none := by
        rw [hfcur]
        exact Function.update_self ..
      rw [Option.some.injEq] at h
      rw [← h, total_setCurrent, hcpu]
      dsimp only [Option.elim_some, Option.elim_none] at htake ⊢
      omega

/-! ## Yielding -/

theorem total_checkMissOn (env : SchedEnv) (s : Scheduler) (cpu : Cpu) :
    (checkMissOn env s cpu).total W = s.total W := by
  unfold checkMissOn
  split
  · rfl
  · next t hcur =>
    split
    · rfl
    · split
      · rfl
      · next dl _ _ =>
        have hsame : ∀ d, W .running { t with deadline := d } = W .running t := fun d =>
          hW.same t { t with deadline := d } ⟨rfl, rfl, rfl⟩ .running
        rw [total_setCurrent]
        show s.total W - (s.currentTask cpu).elim 0 (W .running) + W .running _ = _
        rw [hcur, hsame]
        simp

theorem total_checkDeadlineMisses (env : SchedEnv) (s : Scheduler) :
    (s.checkDeadlineMisses env).total W = s.total W := by
  unfold checkDeadlineMisses
  generalize List.finRange maxCpus = cpus
  induction cpus generalizing s with
  | nil => rfl
  | cons c cs ih => rw [List.foldl_cons, ih, total_checkMissOn hW]

theorem weight_chargeSlice (env : SchedEnv) (t : Task) (p : Place) :
    W p (chargeSlice env t) = W p t := by
  have hsame : t.Same (chargeSlice env t) := by
    unfold chargeSlice
    dsimp only
    split
    · exact ⟨rfl, rfl, rfl⟩
    · exact ⟨rfl, rfl, rfl⟩
  exact hW.same t _ hsame p

omit hW in
theorem chargeSlice_id (env : SchedEnv) (t : Task) : (chargeSlice env t).id = t.id := by
  unfold chargeSlice
  dsimp only
  split <;> rfl

omit hW in

/-- The idle task `yield_task` creates for want of another. -/
def freshIdle (env : SchedEnv) : Task :=
  { Task.new env.freshId env.freshStack none with isIdle := true }

/-- What a fresh idle task adds to a ledger, if there is one. -/
def freshWeight (W : Ledger) (env : SchedEnv) (s : Scheduler) (cpu : Cpu) : ℤ :=
  if (s.currentTask cpu).isNone && (s.idleTask cpu).isNone then W .running (freshIdle env) else 0

theorem takeRunning_ledger (env : SchedEnv) (hidle : s.IdleSlots) (cpu : Cpu) :
    (s.takeRunning env cpu).2.total W + W .running (s.takeRunning env cpu).1 ≤
      s.total W + freshWeight W env s cpu := by
  unfold takeRunning freshWeight
  cases hcur : s.currentTask cpu with
  | some t =>
    dsimp only
    rw [total_setCurrent, hcur]
    simp
  | none =>
    cases hslot : s.idleTask cpu with
    | some t =>
      have hrise := hW.rise t (hidle cpu t hslot)
      dsimp only
      rw [total_setIdle, hslot]
      simp only [Option.elim_some, Option.elim_none, Option.isNone_none, Option.isNone_some,
        Bool.and_false, Bool.false_eq_true, if_false]
      omega
    | none => exact le_rfl

omit hW in
theorem takeRunning_frame (env : SchedEnv) (s : Scheduler) (cpu : Cpu) :
    (s.takeRunning env cpu).2.currentTask cpu = none ∧
      (s.takeRunning env cpu).2.switchStash = s.switchStash ∧
      (s.IdleSlots → (s.takeRunning env cpu).2.IdleSlots) := by
  unfold takeRunning
  split
  · exact ⟨Function.update_self .., rfl, id⟩
  · next hcur =>
    split
    · exact ⟨hcur, rfl, fun h => h.setIdle fun _ ht => by cases ht⟩
    · exact ⟨hcur, rfl, id⟩

omit hW in
theorem checkDeadlineMisses_frame (env : SchedEnv) (s : Scheduler) :
    (s.checkDeadlineMisses env).switchStash = s.switchStash ∧
      (s.checkDeadlineMisses env).idleTask = s.idleTask ∧
      ∀ c, ((s.checkDeadlineMisses env).currentTask c).isNone = (s.currentTask c).isNone := by
  unfold checkDeadlineMisses
  generalize List.finRange maxCpus = cpus
  induction cpus generalizing s with
  | nil => exact ⟨rfl, rfl, fun _ => rfl⟩
  | cons i is ih =>
    obtain ⟨hstash, hidle, hcur⟩ := ih (checkMissOn env s i)
    have hone : (checkMissOn env s i).switchStash = s.switchStash ∧
        (checkMissOn env s i).idleTask = s.idleTask ∧
        ∀ c, ((checkMissOn env s i).currentTask c).isNone = (s.currentTask c).isNone := by
      unfold checkMissOn
      split
      · exact ⟨rfl, rfl, fun _ => rfl⟩
      · next t ht =>
        split
        · exact ⟨rfl, rfl, fun _ => rfl⟩
        · split
          · exact ⟨rfl, rfl, fun _ => rfl⟩
          · refine ⟨rfl, rfl, fun c => ?_⟩
            by_cases hc : c = i
            · subst hc
              simp [setCurrent, ht]
            · simp [setCurrent, Function.update_of_ne hc]
    exact ⟨hstash.trans hone.1, hidle.trans hone.2.1, fun c => (hcur c).trans (hone.2.2 c)⟩

/-- What a yield does after it has taken its own task off the CPU. -/
def yieldTo (env : SchedEnv) (cpu : Cpu) (current : Task) (s : Scheduler) : Scheduler :=
  match s.pickNext env cpu with
  | (none, s) => s.setCurrent cpu (some current)
  | (some next, s) =>
    if next.id = current.id then
      s.setCurrent cpu (some next)
    else if !next.savedStackIsSane then
      (s.quarantineInsaneStack next).setCurrent cpu (some current)
    else if current.isIdle then
      (s.setCurrent cpu (some next)).setIdle cpu (some current)
    else
      (s.setCurrent cpu (some next)).setStash cpu (some current)

/-- If the id of the task that yields is not also queued, nothing is lost. -/
theorem total_yieldTo_le (env : SchedEnv) {current : Task} (hidle : s.IdleSlots)
    (hcur : s.currentTask cpu = none) (hstash : s.switchStash cpu = none)
    (honce : s.total (Ledger.tag current.id) ≤ 0) :
    (yieldTo env cpu current s).total W ≤ s.total W + W .running current := by
  have htake := total_pickNext_le hW.toPickable env s cpu
  have hcount := total_pickNext_le (Ledger.tag_lawful current.id).toPickable env s cpu
  obtain ⟨hfcur, hfstash, hfidle⟩ := pickNext_frame env s cpu
  unfold yieldTo
  rcases hpick : s.pickNext env cpu with ⟨o, s₁⟩
  rw [hpick] at hfcur hfstash hfidle
  rw [Takes, hpick] at htake hcount
  have hcpu : s₁.currentTask cpu = none := by rw [hfcur, hcur]
  have hslot : s₁.switchStash cpu = none := by rw [hfstash, hstash]
  cases o with
  | none =>
    dsimp only [Option.elim_none] at htake ⊢
    rw [total_setCurrent, hcpu]
    dsimp only [Option.elim_some, Option.elim_none]
    omega
  | some next =>
    dsimp only [Option.elim_some] at htake hcount ⊢
    split
    · next hid =>
      -- The id would be counted twice.
      exfalso
      have hpos : Ledger.tag current.id .running next = 1 := if_pos hid
      have hrest := total_nonneg (Ledger.tag_nonneg current.id) s₁
      omega
    · split
      · have hpark := hW.quarantine next
        have hcpu' : (s₁.quarantineInsaneStack next).currentTask cpu = none := hcpu
        rw [total_setCurrent, hcpu', quarantineInsaneStack, total_pushBlocked]
        dsimp only [Option.elim_some, Option.elim_none]
        omega
      · split
        · next hisIdle =>
          have hrest := hW.rest current hisIdle
          have hlost : 0 ≤ (s₁.idleTask cpu).elim 0 (W .idle) := by
            cases ht : s₁.idleTask cpu with
            | none => exact le_rfl
            | some t => exact hW.lost t (hidle cpu t (by rw [← hfidle, ht]))
          rw [total_setIdle, total_setCurrent, hcpu]
          show _ - (s₁.idleTask cpu).elim 0 (W .idle) + _ ≤ _
          dsimp only [Option.elim_some, Option.elim_none]
          omega
        · have hstay := hW.stash current
          have hslot' : (s₁.setCurrent cpu (some next)).switchStash cpu = none := hslot
          rw [total_setStash, hslot', total_setCurrent, hcpu]
          dsimp only [Option.elim_some, Option.elim_none]
          omega

/-- A yield moves tasks about, unless it is the one that creates an idle task. -/
theorem total_yieldTask_le (env : SchedEnv) (hidle : s.IdleSlots)
    (hstash : s.switchStash cpu = none) (honce : ∀ id, s.total (Ledger.tag id) ≤ 1)
    (hfresh : s.yieldCreatesIdle env cpu = true → s.total (Ledger.tag env.freshId) ≤ 0) :
    (s.yieldTask env cpu).total W ≤
      s.total W + if s.yieldCreatesIdle env cpu then W .running (freshIdle env) else 0 := by
  unfold yieldTask
  split
  · next hboot =>
    have hno : s.yieldCreatesIdle env cpu = false := by simp [yieldCreatesIdle, hboot]
    rw [hno]
    simp
  · next hboot =>
    set s₁ : Scheduler :=
      Scheduler.checkDeadlineMisses env { s with tick := s.tick + 1, gameMode := s.gameMode.tickOnce }
      with hs₁
    obtain ⟨hfstash, hfidle, hfcur⟩ := checkDeadlineMisses_frame env
      { s with tick := s.tick + 1, gameMode := s.gameMode.tickOnce }
    have hsum : ∀ {V : Ledger}, V.Lawful → s₁.total V = s.total V := fun hV =>
      total_checkDeadlineMisses hV env _
    have hslots : s₁.IdleSlots := by rwa [IdleSlots, hs₁, hfidle]
    have hcreates : ∀ V : Ledger, freshWeight V env s₁ cpu =
        if s.yieldCreatesIdle env cpu then V .running (freshIdle env) else 0 := by
      intro V
      have hcond : ((s₁.currentTask cpu).isNone && (s₁.idleTask cpu).isNone) =
          s.yieldCreatesIdle env cpu := by
        rw [hs₁, hfcur, hfidle, yieldCreatesIdle, decide_eq_false hboot]
        simp
      rw [freshWeight, hcond]
    have htaken := takeRunning_ledger hW env hslots cpu
    obtain ⟨hnone, htstash, htslots⟩ := takeRunning_frame env s₁ cpu
    rw [hsum hW, hcreates] at htaken
    dsimp only
    rcases hrun : s₁.takeRunning env cpu with ⟨current, s₂⟩
    rw [hrun] at htaken hnone htstash htslots
    -- The id that leaves the CPU is nowhere else.
    have hgone : s₂.total (Ledger.tag (chargeSlice env current).id) ≤ 0 := by
      have htag := takeRunning_ledger (Ledger.tag_lawful current.id) env hslots cpu
      rw [hsum (Ledger.tag_lawful _), hcreates, hrun] at htag
      have hself : Ledger.tag current.id .running current = 1 := if_pos rfl
      rw [chargeSlice_id]
      dsimp only at htag
      rw [hself] at htag
      split at htag
      · next hc =>
        by_cases hid : current.id = env.freshId
        · have hnew := hfresh hc
          rw [← hid] at hnew
          have : Ledger.tag current.id .running (freshIdle env) ≤ 1 := by
            unfold Ledger.tag
            split <;> omega
          omega
        · have hother : Ledger.tag current.id .running (freshIdle env) = 0 :=
            if_neg fun h => hid h.symm
          have := honce current.id
          omega
      · have := honce current.id
        omega
    refine (total_yieldTo_le hW env (htslots hslots) hnone ?_ hgone).trans ?_
    · rw [htstash, hs₁, hfstash]
      exact hstash
    · rw [weight_chargeSlice hW]
      exact htaken

end Switching

/-! ## Waking, finishing, ending -/

section Waking

variable {W : Ledger} (hW : W.Lawful)

include hW

theorem total_markStashReadyIf_le (s : Scheduler) (p : Task → Bool) :
    (s.markStashReadyIf p).total W ≤ s.total W := by
  have hstash : slotSum (W .stashed) (s.markStashReadyIf p).switchStash ≤
      slotSum (W .stashed) s.switchStash := by
    refine Finset.sum_le_sum fun c _ => ?_
    show ((s.switchStash c).map _).elim 0 (W .stashed) ≤ _
    cases s.switchStash c with
    | none => exact le_rfl
    | some t =>
      rw [Option.map_some, Option.elim_some, Option.elim_some]
      split
      · next h => exact hW.wakeStash t (Bool.and_eq_true _ _ ▸ h).1
      · exact le_rfl
  simp only [total, markStashReadyIf] at hstash ⊢
  omega

omit hW in
theorem total_enqueueReady (env : SchedEnv) (s : Scheduler) (woken : List Task) :
    (woken.foldl (fun s t => s.enqueue env { t with state := .ready }) s).total W =
      s.total W + listSum (fun t => W .queued { t with state := .ready }) woken := by
  induction woken generalizing s with
  | nil => simp
  | cons t ts ih =>
    rw [List.foldl_cons, ih, total_enqueue, listSum_cons]
    simp only [TaskState.isZombie, Bool.false_eq_true, if_false]
    ring

variable {state : TaskState} {w : Task → ℤ} {id : TaskId}

theorem total_wakeFiled_le (env : SchedEnv) (s : Scheduler) (hstate : state.isBlocked = true) :
    (s.wakeFiled env state).total W ≤ s.total W := by
  have hwoken : ∀ l : List Task, (∀ t ∈ l, t.state = state) →
      listSum (fun t => W .queued { t with state := .ready }) l ≤ listSum (W .blocked) l := by
    intro l
    induction l with
    | nil => exact fun _ => le_rfl
    | cons t ts ih =>
      intro hl
      have hhead := hW.wake t (by rw [hl t List.mem_cons_self]; exact hstate)
      have htail := ih fun u hu => hl u (List.mem_cons_of_mem _ hu)
      rw [listSum_cons, listSum_cons]
      omega
  have hfiltered := hwoken (s.blockedTasks.filter fun t => t.state = state)
    fun t ht => of_decide_eq_true (List.mem_filter.1 ht).2
  have hsplit := listSum_filter (w := W .blocked) (fun t => t.state = state) s.blockedTasks
  unfold wakeFiled
  rw [total_enqueueReady, total_withBlocked]
  simp only [ne_eq] at *
  omega

theorem total_unblock_le (env : SchedEnv) (s : Scheduler) (hstate : state.isBlocked = true) :
    (s.unblock env state).total W ≤ s.total W := by
  rw [unblock_eq_wakeFiled]
  exact (total_wakeFiled_le hW env _ hstate).trans (total_markStashReadyIf_le hW s _)

theorem total_wakeById_le (s : Scheduler) (id : TaskId) {push : Scheduler → Task → Scheduler}
    (hpush : ∀ s t, t.state = .ready → (push s t).total W ≤ s.total W + W .queued t) :
    (s.wakeById id push).total W ≤ s.total W := by
  have hmark := total_markStashReadyIf_le hW s fun t => t.id = id
  unfold wakeById
  dsimp only
  split
  · next t hfind =>
    split
    · next hblocked =>
      have hwake := hW.wake t hblocked
      refine (hpush _ _ rfl).trans ?_
      rw [total_withBlocked, listSum_eraseP hfind]
      omega
    · exact hmark
  · exact hmark

omit hW in
theorem total_enqueue_ready (env : SchedEnv) (s : Scheduler) {t : Task} (h : t.state = .ready) :
    (s.enqueue env t).total W ≤ s.total W + W .queued t := by
  rw [total_enqueue, h]
  exact le_rfl

theorem total_pushGameFront (env : SchedEnv) (s : Scheduler) (t : Task) :
    (s.pushGameFront env t).total W ≤ s.total W + W .queued t := by
  have hsame : W .queued { t with priority := .game } = W .queued t :=
    hW.same t { t with priority := .game } ⟨rfl, rfl, rfl⟩ .queued
  unfold pushGameFront
  rw [total_modifyQueue]
  simp only [Runqueue.sum, listSum_cons, hsame]
  omega

theorem total_finishTaskSwitch_le (env : SchedEnv) (s : Scheduler) (cpu : Cpu) :
    (s.finishTaskSwitch env cpu).total W ≤ s.total W := by
  unfold finishTaskSwitch
  split
  · exact le_rfl
  · next t hslot =>
    have hgone : (s.setStash cpu none).total W = s.total W - W .stashed t := by
      rw [total_setStash, hslot]
      simp
    dsimp only
    split
    · next hzombie =>
      split
      · have hfile := hW.file t
        refine (total_unblock_le hW env _ rfl).trans ?_
        rw [total_pushBlocked]
        omega
      · have hbury := hW.bury t hzombie
        rw [total_withDead, listSum_append, listSum_cons, listSum_nil]
        omega
    · next hzombie =>
      split
      · have hfile := hW.file t
        rw [total_pushBlocked]
        omega
      · have hready := hW.ready t (Bool.eq_false_iff.2 hzombie)
        rw [total_enqueue, if_neg hzombie]
        omega

theorem weight_spawnedTask (env : SchedEnv) (s : Scheduler) (t : Task) (p : Place) :
    W p (s.spawnedTask env t) = W p t := by
  have hsame : t.Same (s.spawnedTask env t) := by
    unfold spawnedTask
    dsimp only
    split
    · exact ⟨rfl, rfl, rfl⟩
    · exact ⟨rfl, rfl, rfl⟩
  exact hW.same t _ hsame p

theorem total_spawn (env : SchedEnv) (s : Scheduler) (t : Task) :
    (s.spawn env t).total W =
      s.total W + if t.state.isZombie then W .blocked t else W .queued t := by
  have hstate : (s.spawnedTask env t).state = t.state := by
    unfold spawnedTask
    dsimp only
    split <;> rfl
  unfold spawn
  rw [total_enqueue, hstate, weight_spawnedTask hW, weight_spawnedTask hW]
  rfl

theorem total_tryWaitTask_le (s : Scheduler) (id : TaskId) :
    (s.tryWaitTask id).2.total W ≤ s.total W := by
  unfold tryWaitTask
  split
  · next t hfind =>
    split
    · next code hcode =>
      have hreap := hW.reap t (by rw [hcode]; rfl)
      simp only [total, listSum_eraseP hfind, listSum_append, listSum_cons, listSum_nil]
      omega
    · exact le_rfl
  · split
    · exact le_rfl
    · exact le_rfl

omit hW in
/-- Freeing a corpse takes its weight away. -/
theorem total_drainDeadTask_le (s : Scheduler)
    (h : ∀ t, s.deadTasks.getLast? = some t → 0 ≤ W .dead t) :
    s.drainDeadTask.total W ≤ s.total W := by
  unfold drainDeadTask
  rw [total_withDead]
  cases hlast : s.deadTasks.getLast? with
  | none =>
    rw [List.getLast?_eq_none_iff] at hlast
    rw [hlast]
    simp
  | some t =>
    have hsplit := List.dropLast_append_getLast? t hlast
    have hsum : listSum (W .dead) s.deadTasks =
        listSum (W .dead) s.deadTasks.dropLast + W .dead t := by
      conv_lhs => rw [← hsplit]
      simp
    have := h t hlast
    omega

theorem total_killRunning_le (env : SchedEnv) (cpu : Cpu) (id : TaskId) (cpus : List Cpu)
    (killCurrent : Bool) (s : Scheduler) :
    (killRunning env cpu id cpus killCurrent s).2.2.total W ≤ s.total W := by
  induction cpus generalizing killCurrent s with
  | nil => exact le_rfl
  | cons i is ih =>
    unfold killRunning
    split
    · exact ih _ _
    · next t hcur =>
      split
      · have hkill := hW.kill t
        have hmarked : (s.setCurrent i (some { t with state := .zombie 0 })).total W ≤
            s.total W := by
          rw [total_setCurrent, hcur]
          dsimp only [Option.elim_some]
          omega
        dsimp only
        split
        · exact (total_unblock_le hW env _ rfl).trans hmarked
        · exact (ih _ _).trans hmarked
      · exact ih _ _

omit hW in
theorem listSum_eraseP_le {p : Task → Bool} (h : ∀ t, p t = true → 0 ≤ w t) (l : List Task) :
    listSum w (l.eraseP p) ≤ listSum w l := by
  induction l with
  | nil => exact le_rfl
  | cons t ts ih =>
    by_cases ht : p t = true
    · have := h t ht
      rw [List.eraseP_cons_of_pos ht, listSum_cons]
      omega
    · rw [List.eraseP_cons_of_neg ht, listSum_cons, listSum_cons]
      omega

omit hW in
theorem sum_removeTask_le (h : ∀ t, t.id = id → 0 ≤ w t) (rq : Runqueue) :
    (rq.removeTask id).sum w ≤ rq.sum w := by
  have hclass := listSum_eraseP_le (w := w) (p := fun t => t.id = id)
    fun t ht => h t (of_decide_eq_true ht)
  have hd := hclass rq.tasksDeadline
  have hg := hclass rq.tasksGame
  have hn := hclass rq.tasksNormal
  unfold Runqueue.removeTask
  split
  · simp only [Runqueue.sum]
    omega
  · split
    · simp only [Runqueue.sum]
      omega
    · simp only [Runqueue.sum]
      omega

/-- Killing a task takes its own weight away. -/
theorem total_killTask_le (env : SchedEnv) (s : Scheduler) (cpu : Cpu)
    (h : ∀ p t, t.id = id → 0 ≤ W p t) : (s.killTask env cpu id).2.total W ≤ s.total W := by
  have hrunning := total_killRunning_le hW env cpu id (List.finRange maxCpus) false s
  unfold killTask
  rcases hr : killRunning env cpu id (List.finRange maxCpus) false s with
    ⟨returned, killCurrent, s₁⟩
  rw [hr] at hrunning
  dsimp only at hrunning
  cases returned with
  | true => exact hrunning
  | false =>
    cases killCurrent with
    | true => exact hrunning
    | false =>
      dsimp only
      split
      · next c _ =>
        have hqueue := sum_removeTask_le (h .queued) (s₁.runqueues c)
        refine (total_unblock_le hW env _ rfl).trans ?_
        rw [total_modifyQueue]
        omega
      · split
        · have hfiled := listSum_eraseP_le (w := W .blocked) (p := fun t => t.id = id)
            (fun t ht => h .blocked t (of_decide_eq_true ht)) s₁.blockedTasks
          refine (total_unblock_le hW env _ rfl).trans ?_
          rw [total_withBlocked]
          omega
        · exact hrunning

end Waking

end Scheduler

end AthenaOS
