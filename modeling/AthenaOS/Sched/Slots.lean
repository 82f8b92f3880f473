import AthenaOS.Sched.Moves

/-!
# The slots of the CPUs

Which ids run and which are stashed, before and after a call.
-/

namespace AthenaOS

open Scheduler
open Function (update update_of_ne)

/-! ## The slots of the CPUs -/

/-- The ids in a per-CPU array of slots. -/
def slotIds (slots : Cpu → Option Task) (c : Cpu) : Option TaskId := (slots c).map (·.id)

theorem slotIds_eq_none {slots : Cpu → Option Task} {c : Cpu} :
    slotIds slots c = none ↔ slots c = none := Option.map_eq_none_iff

/-- The same ids run and are stashed. -/
structure Scheduler.SameSlots (s s' : Scheduler) : Prop where
  current : slotIds s'.currentTask = slotIds s.currentTask
  stash : slotIds s'.switchStash = slotIds s.switchStash

namespace Scheduler

theorem SameSlots.refl (s : Scheduler) : SameSlots s s := ⟨rfl, rfl⟩

variable {s s' : Scheduler} {c cpu : Cpu} {env : SchedEnv} {code : UInt64}

theorem SameSlots.trans {s'' : Scheduler} (h : SameSlots s s') (h' : SameSlots s' s'') :
    SameSlots s s'' := ⟨h'.current.trans h.current, h'.stash.trans h.stash⟩

theorem sameSlots_enqueue (env : SchedEnv) (s : Scheduler) (t : Task) :
    SameSlots s (s.enqueue env t) := by
  unfold enqueue
  split
  · exact ⟨rfl, rfl⟩
  · dsimp only
    split
    · exact ⟨rfl, rfl⟩
    · split
      · exact ⟨rfl, rfl⟩
      · exact ⟨rfl, rfl⟩

theorem sameSlots_markStashReadyIf (s : Scheduler) (p : Task → Bool) :
    SameSlots s (s.markStashReadyIf p) := by
  refine ⟨rfl, funext fun c => ?_⟩
  show ((s.switchStash c).map _).map _ = _
  rw [slotIds, Option.map_map]
  congr 1
  funext t
  show (if _ then _ else t).id = t.id
  split <;> rfl

theorem sameSlots_wakeFiled (env : SchedEnv) (s : Scheduler) (state : TaskState) :
    SameSlots s (s.wakeFiled env state) := by
  have hall : ∀ (l : List Task) (r : Scheduler),
      SameSlots r (l.foldl (fun s t => s.enqueue env { t with state := .ready }) r) := by
    intro l
    induction l with
    | nil => exact SameSlots.refl
    | cons t ts ih => exact fun r => (sameSlots_enqueue env r _).trans (ih _)
  have hstart : SameSlots s
      { s with blockedTasks := s.blockedTasks.filter fun t => t.state ≠ state } := ⟨rfl, rfl⟩
  exact hstart.trans (hall _ _)

theorem sameSlots_unblock (env : SchedEnv) (s : Scheduler) (state : TaskState) :
    SameSlots s (s.unblock env state) := by
  rw [unblock_eq_wakeFiled]
  exact (sameSlots_markStashReadyIf s _).trans (sameSlots_wakeFiled env _ state)

theorem sameSlots_pushGameFront (env : SchedEnv) (s : Scheduler) (t : Task) :
    SameSlots s (s.pushGameFront env t) := ⟨rfl, rfl⟩

theorem sameSlots_wakeById (s : Scheduler) (id : TaskId) {push : Scheduler → Task → Scheduler}
    (hpush : ∀ s t, SameSlots s (push s t)) : SameSlots s (s.wakeById id push) := by
  have hmark := sameSlots_markStashReadyIf s fun t => t.id = id
  unfold wakeById
  dsimp only
  split
  · split
    · refine hmark.trans (SameSlots.trans ?_ (hpush _ _))
      exact ⟨rfl, rfl⟩
    · exact hmark
  · exact hmark

theorem sameSlots_tryWaitTask (s : Scheduler) (id : TaskId) :
    SameSlots s (s.tryWaitTask id).2 := by
  unfold tryWaitTask
  split
  · split
    · exact ⟨rfl, rfl⟩
    · exact .refl s
  · split
    · exact .refl s
    · exact .refl s

theorem sameSlots_setCurrent {t t' : Task} (hc : s.currentTask c = some t) (hid : t'.id = t.id) :
    SameSlots s (s.setCurrent c (some t')) := by
  refine ⟨funext fun i => ?_, rfl⟩
  by_cases hi : i = c
  · subst hi
    simp [slotIds, setCurrent, hc, hid]
  · simp [slotIds, setCurrent, update_of_ne hi]

theorem sameSlots_killRunning (env : SchedEnv) (cpu : Cpu) (id : TaskId) (cpus : List Cpu)
    (killCurrent : Bool) (s : Scheduler) :
    SameSlots s (killRunning env cpu id cpus killCurrent s).2.2 := by
  induction cpus generalizing killCurrent s with
  | nil => exact .refl s
  | cons i is ih =>
    unfold killRunning
    split
    · exact ih _ _
    · next t hcur =>
      split
      · have hmarked : SameSlots s (s.setCurrent i (some { t with state := .zombie 0 })) :=
          sameSlots_setCurrent hcur rfl
        dsimp only
        split
        · exact hmarked.trans (sameSlots_unblock env _ _)
        · exact hmarked.trans (ih _ _)
      · exact ih _ _

theorem sameSlots_killTask (env : SchedEnv) (s : Scheduler) (cpu : Cpu) (id : TaskId) :
    SameSlots s (s.killTask env cpu id).2 := by
  have hrunning := sameSlots_killRunning env cpu id (List.finRange maxCpus) false s
  unfold killTask
  rcases hr : killRunning env cpu id (List.finRange maxCpus) false s with
    ⟨returned, killCurrent, s₁⟩
  rw [hr] at hrunning
  cases returned with
  | true => exact hrunning
  | false =>
    cases killCurrent with
    | true => exact hrunning
    | false =>
      dsimp only
      split
      · refine hrunning.trans (SameSlots.trans ?_ (sameSlots_unblock env _ _))
        exact ⟨rfl, rfl⟩
      · split
        · refine hrunning.trans (SameSlots.trans ?_ (sameSlots_unblock env _ _))
          exact ⟨rfl, rfl⟩
        · exact hrunning

theorem sameSlots_checkDeadlineMisses (env : SchedEnv) (s : Scheduler) :
    SameSlots s (s.checkDeadlineMisses env) := by
  unfold checkDeadlineMisses
  generalize List.finRange maxCpus = cpus
  induction cpus generalizing s with
  | nil => exact .refl s
  | cons i is ih =>
    refine SameSlots.trans ?_ (ih _)
    unfold checkMissOn
    split
    · exact .refl s
    · next t hcur =>
      split
      · exact .refl s
      · split
        · exact .refl s
        · exact ⟨(sameSlots_setCurrent hcur (by rfl)).current, rfl⟩

/-- The slots after a switch on one CPU: what ran there has been moved to its
stash or idle slot, and the other CPUs are as they were. -/
structure Switched (s s' : Scheduler) (cpu : Cpu) : Prop where
  others : ∀ c ≠ cpu, slotIds s'.currentTask c = slotIds s.currentTask c ∧
    slotIds s'.switchStash c = slotIds s.switchStash c
  moved : ∀ id, slotIds s.currentTask cpu = some id → slotIds s'.currentTask cpu ≠ some id →
    slotIds s'.switchStash cpu = some id ∨ slotIds s'.idleTask cpu = some id

theorem slotIds_update_self (slots : Cpu → Option Task) (c : Cpu) (t : Task) :
    slotIds (update slots c (some t)) c = some t.id := by
  simp [slotIds]

theorem slotIds_update_of_ne (slots : Cpu → Option Task) {c' : Cpu} (h : c' ≠ c) (o : Option Task) :
    slotIds (update slots c o) c' = slotIds slots c' := by
  simp [slotIds, update_of_ne h]

theorem switched_blockCurrentTask {state : TaskState}
    (h : s.blockCurrentTask env cpu state = some s') : Switched s s' cpu := by
  obtain ⟨hfcur, hfstash, -⟩ := pickOrIdle_frame env (s.setCurrent cpu none) cpu
  unfold blockCurrentTask at h
  split at h
  · cases h
  · next t hcur =>
    dsimp only at h
    rcases hr : (s.setCurrent cpu none).pickOrIdle env cpu with ⟨o, s₁⟩
    rw [hr] at h hfcur hfstash
    have hdone : ∀ {r : Scheduler} (next : Task), r.currentTask = s₁.currentTask →
        r.switchStash = s₁.switchStash →
        Switched s
          ((r.setCurrent cpu (some next)).setStash cpu (some { t with state := state })) cpu := by
      intro r next hc hs
      refine ⟨fun c hne => ⟨?_, ?_⟩, fun id hid _ => .inl ?_⟩
      · rw [setStash, setCurrent, slotIds_update_of_ne _ hne, hc, hfcur]
        exact slotIds_update_of_ne _ hne none
      · rw [setStash, setCurrent, slotIds_update_of_ne _ hne]
        exact congrArg (slotIds · c) (hs.trans hfstash)
      · rw [slotIds, hcur] at hid
        rw [setStash, slotIds_update_self]
        exact hid
    cases o with
    | none => cases h
    | some next =>
      dsimp only at h
      split at h
      · rw [← Option.some.inj h]
        exact hdone next rfl rfl
      · split at h
        · cases h
        · next idle s₂ htaken =>
          have heq : s₂ = (s₁.pushBlocked next).setIdle cpu none :=
            (congrArg Prod.snd htaken).symm
          rw [← Option.some.inj h]
          exact hdone idle (by rw [heq]; rfl) (by rw [heq]; rfl)

theorem switched_exitCurrentTask (h : s.exitCurrentTask env cpu code = some s') :
    Switched s s' cpu := by
  unfold exitCurrentTask at h
  split at h
  · cases h
  · next t hcur =>
    dsimp only at h
    obtain ⟨hfcur, hfstash, -⟩ := pickOrIdle_frame env
      ((s.setCurrent cpu none).setStash cpu (some { t with state := .zombie code })) cpu
    split at h
    · cases h
    · next next s₁ hr =>
      rw [hr] at hfcur hfstash
      rw [← Option.some.inj h]
      refine ⟨fun c hne => ⟨?_, ?_⟩, fun id hid _ => .inl ?_⟩
      · rw [setCurrent, slotIds_update_of_ne _ hne, hfcur]
        exact slotIds_update_of_ne _ hne none
      · show slotIds s₁.switchStash c = _
        rw [hfstash]
        exact slotIds_update_of_ne _ hne _
      · rw [slotIds, hcur] at hid
        show slotIds s₁.switchStash cpu = _
        rw [hfstash]
        exact (slotIds_update_self _ _ _).trans hid

/-- The task that exits is stashed. -/
theorem stash_exitCurrentTask (h : s.exitCurrentTask env cpu code = some s') :
    slotIds s'.switchStash cpu = slotIds s.currentTask cpu := by
  unfold exitCurrentTask at h
  split at h
  · cases h
  · next t hcur =>
    dsimp only at h
    obtain ⟨-, hfstash, -⟩ := pickOrIdle_frame env
      ((s.setCurrent cpu none).setStash cpu (some { t with state := .zombie code })) cpu
    split at h
    · cases h
    · next next s₁ hr =>
      rw [hr] at hfstash
      rw [← Option.some.inj h]
      show slotIds s₁.switchStash cpu = _
      rw [hfstash, slotIds, slotIds, hcur]
      exact slotIds_update_self ..

/-- The scheduler in which a yield takes its own task off the CPU. -/
def ticked (env : SchedEnv) (s : Scheduler) : Scheduler :=
  Scheduler.checkDeadlineMisses env
    { s with tick := s.tick + 1, gameMode := s.gameMode.tickOnce }

theorem sameSlots_ticked (env : SchedEnv) (s : Scheduler) : SameSlots s (s.ticked env) :=
  (⟨rfl, rfl⟩ : SameSlots s
    { s with tick := s.tick + 1, gameMode := s.gameMode.tickOnce }).trans
    (sameSlots_checkDeadlineMisses env _)

theorem yieldTask_eq (s : Scheduler) (hboot : ¬ (cpu = 0 ∧ (!env.bootComplete) = true)) :
    s.yieldTask env cpu = yieldTo env cpu
      (chargeSlice env ((s.ticked env).takeRunning env cpu).1)
      ((s.ticked env).takeRunning env cpu).2 := by
  unfold yieldTask
  rw [if_neg hboot]
  rfl

theorem yieldSwitches_eq (s : Scheduler) (hboot : ¬ (cpu = 0 ∧ (!env.bootComplete) = true)) :
    s.yieldSwitches env cpu =
      match (((s.ticked env).takeRunning env cpu).2.pickNext env cpu).1 with
      | none => false
      | some next => next.id != (chargeSlice env ((s.ticked env).takeRunning env cpu).1).id &&
          next.savedStackIsSane := by
  unfold yieldSwitches
  rw [if_neg hboot]
  rfl

/-- Where the yielding task goes. -/
theorem yieldTo_slots (env : SchedEnv) (cpu : Cpu) (current : Task) (s : Scheduler) :
    (∀ c ≠ cpu, slotIds (yieldTo env cpu current s).currentTask c = slotIds s.currentTask c ∧
      slotIds (yieldTo env cpu current s).switchStash c = slotIds s.switchStash c) ∧
    (slotIds (yieldTo env cpu current s).currentTask cpu = some current.id ∨
      slotIds (yieldTo env cpu current s).switchStash cpu = some current.id ∨
      slotIds (yieldTo env cpu current s).idleTask cpu = some current.id) ∧
    ((match (s.pickNext env cpu).1 with
      | none => false
      | some next => next.id != current.id && next.savedStackIsSane) = false →
      (yieldTo env cpu current s).switchStash = s.switchStash) := by
  obtain ⟨hfcur, hfstash, -⟩ := pickNext_frame env s cpu
  unfold yieldTo
  rcases hr : s.pickNext env cpu with ⟨o, s₁⟩
  rw [hr] at hfcur hfstash
  have hcur : ∀ t, ∀ c ≠ cpu,
      slotIds (update s₁.currentTask cpu (some t)) c = slotIds s.currentTask c :=
    fun t c hc => (slotIds_update_of_ne _ hc _).trans (by rw [hfcur])
  have hstash : ∀ c, slotIds s₁.switchStash c = slotIds s.switchStash c :=
    fun c => by rw [hfstash]
  cases o with
  | none => exact ⟨fun c hc => ⟨hcur _ c hc, hstash c⟩, .inl (slotIds_update_self ..),
      fun _ => hfstash⟩
  | some next =>
    dsimp only
    split
    · next hid =>
      exact ⟨fun c hc => ⟨hcur _ c hc, hstash c⟩,
        .inl ((slotIds_update_self ..).trans (congrArg some hid)), fun _ => hfstash⟩
    · next hid =>
      split
      · exact ⟨fun c hc => ⟨hcur _ c hc, hstash c⟩, .inl (slotIds_update_self ..),
          fun _ => hfstash⟩
      · next hsane =>
        have hreal : (next.id != current.id && next.savedStackIsSane) = true := by
          rw [Bool.and_eq_true, bne_iff_ne]
          exact ⟨hid, by simpa using hsane⟩
        split
        · exact ⟨fun c hc => ⟨hcur _ c hc, hstash c⟩,
            .inr (.inr (slotIds_update_self ..)), fun _ => hfstash⟩
        · refine ⟨fun c hc => ⟨hcur _ c hc, (slotIds_update_of_ne _ hc _).trans (hstash c)⟩,
            .inr (.inl (slotIds_update_self ..)), fun hno => ?_⟩
          rw [hreal] at hno
          cases hno

theorem takeRunning_slots (env : SchedEnv) (s : Scheduler) (cpu : Cpu) :
    (∀ c ≠ cpu, slotIds (s.takeRunning env cpu).2.currentTask c = slotIds s.currentTask c) ∧
      ∀ id, slotIds s.currentTask cpu = some id → (s.takeRunning env cpu).1.id = id := by
  unfold takeRunning
  split
  · next t hcur =>
    refine ⟨fun c hc => slotIds_update_of_ne _ hc _, fun id hid => ?_⟩
    rw [slotIds, hcur] at hid
    exact Option.some.inj hid
  · next hcur =>
    have hnone : ∀ id, slotIds s.currentTask cpu = some id → False := fun id hid => by
      rw [slotIds, hcur] at hid
      cases hid
    split
    · exact ⟨fun _ _ => rfl, fun id hid => (hnone id hid).elim⟩
    · exact ⟨fun _ _ => rfl, fun id hid => (hnone id hid).elim⟩

theorem switched_yieldTask (env : SchedEnv) (s : Scheduler) (cpu : Cpu) :
    Switched s (s.yieldTask env cpu) cpu ∧
      (s.yieldSwitches env cpu = false →
        slotIds (s.yieldTask env cpu).switchStash cpu = slotIds s.switchStash cpu) := by
  by_cases hboot : cpu = 0 ∧ (!env.bootComplete) = true
  · have hsame : s.yieldTask env cpu = s := by
      unfold yieldTask
      rw [if_pos hboot]
    rw [hsame]
    exact ⟨⟨fun _ _ => ⟨rfl, rfl⟩, fun id h hn => absurd h hn⟩, fun _ => rfl⟩
  · have htick := sameSlots_ticked env s
    obtain ⟨hothers, hself⟩ := takeRunning_slots env (s.ticked env) cpu
    obtain ⟨-, hstash, -⟩ := takeRunning_frame env (s.ticked env) cpu
    rw [yieldTask_eq s hboot, yieldSwitches_eq s hboot]
    generalize (s.ticked env).takeRunning env cpu = r at hothers hself hstash ⊢
    obtain ⟨hto, hmoved, hquiet⟩ := yieldTo_slots env cpu (chargeSlice env r.1) r.2
    refine ⟨⟨fun c hc => ⟨?_, ?_⟩, fun id hid hne => ?_⟩, fun hno => ?_⟩
    · rw [(hto c hc).1, hothers c hc, htick.current]
    · rw [(hto c hc).2, hstash, htick.stash]
    · have hidr : (chargeSlice env r.1).id = id := by
        rw [chargeSlice_id]
        exact hself id (by rw [htick.current, hid])
      rw [hidr] at hmoved
      exact hmoved.resolve_left hne
    · rw [hquiet hno, hstash, htick.stash]

/-- Finishing a switch empties one stash slot. -/
theorem slots_finishTaskSwitch (env : SchedEnv) (s : Scheduler) (cpu : Cpu) :
    slotIds (s.finishTaskSwitch env cpu).currentTask = slotIds s.currentTask ∧
      slotIds (s.finishTaskSwitch env cpu).switchStash =
        update (slotIds s.switchStash) cpu none := by
  have hdrained : slotIds (s.setStash cpu none).switchStash =
      update (slotIds s.switchStash) cpu none := by
    funext c
    by_cases hc : c = cpu
    · subst hc
      simp [slotIds, setStash]
    · simp [slotIds, setStash, update_of_ne hc]
  have hafter : ∀ {r : Scheduler}, SameSlots (s.setStash cpu none) r →
      slotIds r.currentTask = slotIds s.currentTask ∧
        slotIds r.switchStash = update (slotIds s.switchStash) cpu none :=
    fun h => ⟨h.current, h.stash.trans hdrained⟩
  unfold finishTaskSwitch
  split
  · next hnone =>
    refine ⟨rfl, ?_⟩
    funext c
    by_cases hc : c = cpu
    · subst hc
      rw [Function.update_self, slotIds_eq_none, hnone]
    · rw [update_of_ne hc]
  · dsimp only
    split
    · split
      · refine hafter (SameSlots.trans ?_ (sameSlots_unblock env _ _))
        exact ⟨rfl, rfl⟩
      · exact hafter ⟨rfl, rfl⟩
    · split
      · exact hafter ⟨rfl, rfl⟩
      · exact hafter (sameSlots_enqueue env _ _)

end Scheduler

end AthenaOS
