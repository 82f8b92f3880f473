import AthenaOS.Sched.Ledger

/-!
# What a ledger counts

The ledgers of the scheduler's invariants, with their laws. A total of faults is zero exactly when
no held task is bad for its place, and ids that are counted at most once are listed at most once.
-/

namespace AthenaOS

open Scheduler

/-! ## Counting faults -/

/-- One for every task that is bad for its place. -/
def Ledger.faults (bad : Place → Task → Bool) : Ledger := fun p t => if bad p t then 1 else 0

theorem Ledger.faults_nonneg (bad : Place → Task → Bool) (p : Place) (t : Task) :
    0 ≤ Ledger.faults bad p t := by
  unfold faults
  split
  · exact Int.one_nonneg
  · exact le_rfl

variable {bad : Place → Task → Bool}

theorem Ledger.faults_le {p p' : Place} {t t' : Task} (h : bad p' t' = true → bad p t = true) :
    Ledger.faults bad p' t' ≤ Ledger.faults bad p t := by
  unfold faults
  split
  · next hbad => rw [if_pos (h hbad)]
  · split
    · exact Int.one_nonneg
    · exact le_rfl

/-- Where the scheduler holds a task. -/
def Scheduler.Holds (s : Scheduler) (t : Task) : Place → Prop
  | .running => ∃ c, s.currentTask c = some t
  | .stashed => ∃ c, s.switchStash c = some t
  | .queued => ∃ c, t ∈ (s.runqueues c).tasks
  | .blocked => t ∈ s.blockedTasks
  | .dead => t ∈ s.deadTasks
  | .idle => ∃ c, s.idleTask c = some t

section Bounds

variable {w : Task → ℤ} {W : Ledger} {t : Task}

theorem le_listSum (h : ∀ t, 0 ≤ w t) {l : List Task} (ht : t ∈ l) : w t ≤ listSum w l := by
  induction l with
  | nil => cases ht
  | cons u us ih =>
    rw [listSum_cons]
    rcases List.mem_cons.1 ht with rfl | ht
    · have := listSum_nonneg h us
      omega
    · have := ih ht
      have := h u
      omega

theorem le_slotSum (h : ∀ t, 0 ≤ w t) {slots : Cpu → Option Task} {c : Cpu}
    (ht : slots c = some t) : w t ≤ slotSum w slots := by
  have hle := Finset.single_le_sum (f := fun c => (slots c).elim 0 w) (fun c _ => by
    cases slots c with
    | none => exact le_rfl
    | some t => exact h t) (Finset.mem_univ c)
  rw [ht] at hle
  exact hle

theorem le_queueSum (h : ∀ t, 0 ≤ w t) {rq : Runqueue} (ht : t ∈ rq.tasks) : w t ≤ rq.sum w := by
  have hd := listSum_nonneg h rq.tasksDeadline
  have hg := listSum_nonneg h rq.tasksGame
  have hn := listSum_nonneg h rq.tasksNormal
  rw [Runqueue.tasks, List.mem_append, List.mem_append] at ht
  rw [Runqueue.sum]
  rcases ht with (ht | ht) | ht
  · have := le_listSum h ht
    omega
  · have := le_listSum h ht
    omega
  · have := le_listSum h ht
    omega

/-- A task weighs no more than everything together. -/
theorem Scheduler.le_total (h : ∀ p t, 0 ≤ W p t) (s : Scheduler) {p : Place}
    (ht : s.Holds t p) : W p t ≤ s.total W := by
  have hcur := slotSum_nonneg (h .running) s.currentTask
  have hstash := slotSum_nonneg (h .stashed) s.switchStash
  have hone : ∀ c, 0 ≤ (s.runqueues c).sum (W .queued) := fun c => add_nonneg
    (add_nonneg (listSum_nonneg (h _) _) (listSum_nonneg (h _) _)) (listSum_nonneg (h _) _)
  have hqueues : 0 ≤ ∑ c, (s.runqueues c).sum (W .queued) := Finset.sum_nonneg fun c _ => hone c
  have hblocked := listSum_nonneg (h .blocked) s.blockedTasks
  have hdead := listSum_nonneg (h .dead) s.deadTasks
  have hidle := slotSum_nonneg (h .idle) s.idleTask
  rw [total]
  cases p with
  | running =>
    obtain ⟨c, hc⟩ := ht
    have := le_slotSum (h .running) hc
    omega
  | stashed =>
    obtain ⟨c, hc⟩ := ht
    have := le_slotSum (h .stashed) hc
    omega
  | queued =>
    obtain ⟨c, hc⟩ := ht
    have hqueue := le_queueSum (h .queued) hc
    have := Finset.single_le_sum (f := fun c => (s.runqueues c).sum (W .queued))
      (fun c _ => hone c) (Finset.mem_univ c)
    omega
  | blocked =>
    have := le_listSum (h .blocked) ht
    omega
  | dead =>
    have := le_listSum (h .dead) ht
    omega
  | idle =>
    obtain ⟨c, hc⟩ := ht
    have := le_slotSum (h .idle) hc
    omega

/-- If nothing held weighs anything, the total is nothing. -/
theorem Scheduler.total_nonpos (s : Scheduler) (h : ∀ p t, s.Holds t p → W p t ≤ 0) :
    s.total W ≤ 0 := by
  have hslots : ∀ {slots : Cpu → Option Task} {w : Task → ℤ},
      (∀ c t, slots c = some t → w t ≤ 0) → slotSum w slots ≤ 0 := by
    intro slots w hw
    refine Finset.sum_nonpos fun c _ => ?_
    cases hc : slots c with
    | none => exact le_rfl
    | some t => exact hw c t hc
  have hlist : ∀ {l : List Task} {w : Task → ℤ}, (∀ t ∈ l, w t ≤ 0) → listSum w l ≤ 0 := by
    intro l w hw
    induction l with
    | nil => exact le_rfl
    | cons t ts ih =>
      have hhead := hw t List.mem_cons_self
      have htail := ih fun u hu => hw u (List.mem_cons_of_mem _ hu)
      rw [listSum_cons]
      omega
  have hcur := hslots fun c t ht => h .running t ⟨c, ht⟩
  have hstash := hslots fun c t ht => h .stashed t ⟨c, ht⟩
  have hidle := hslots fun c t ht => h .idle t ⟨c, ht⟩
  have hblocked := hlist fun t ht => h .blocked t ht
  have hdead := hlist fun t ht => h .dead t ht
  have hqueues : ∑ c, (s.runqueues c).sum (W .queued) ≤ 0 := by
    refine Finset.sum_nonpos fun c _ => ?_
    have hd := hlist fun t (ht : t ∈ (s.runqueues c).tasksDeadline) =>
      h .queued t ⟨c, by simp [Runqueue.tasks, ht]⟩
    have hg := hlist fun t (ht : t ∈ (s.runqueues c).tasksGame) =>
      h .queued t ⟨c, by simp [Runqueue.tasks, ht]⟩
    have hn := hlist fun t (ht : t ∈ (s.runqueues c).tasksNormal) =>
      h .queued t ⟨c, by simp [Runqueue.tasks, ht]⟩
    rw [Runqueue.sum]
    omega
  rw [total]
  omega

end Bounds

/-- No fault is counted exactly when no held task is bad. -/
theorem Scheduler.faults_nonpos_iff (s : Scheduler) :
    s.total (Ledger.faults bad) ≤ 0 ↔ ∀ p t, s.Holds t p → bad p t = false := by
  constructor
  · intro h p t ht
    have hle := s.le_total (Ledger.faults_nonneg bad) ht
    unfold Ledger.faults at hle h
    split at hle
    · omega
    · next hbad => exact Bool.eq_false_iff.2 hbad
  · intro h
    refine s.total_nonpos fun p t ht => ?_
    rw [Ledger.faults, h p t ht]
    exact le_rfl

/-! ## Counting ids -/

namespace Scheduler

/-- Every task the scheduler holds, the idle slots apart. -/
def resident (s : Scheduler) : List Task :=
  slotTasks s.currentTask ++ (slotTasks s.switchStash ++ (queuedTasks s.runqueues ++
    (s.blockedTasks ++ s.deadTasks)))

variable {s : Scheduler}

theorem mem_resident {t : Task} : t ∈ s.resident ↔ ∃ p, p ≠ .idle ∧ s.Holds t p := by
  simp only [resident, List.mem_append, mem_slotTasks, mem_queuedTasks]
  constructor
  · rintro (h | h | h | h | h)
    · exact ⟨.running, by decide, h⟩
    · exact ⟨.stashed, by decide, h⟩
    · exact ⟨.queued, by decide, h⟩
    · exact ⟨.blocked, by decide, h⟩
    · exact ⟨.dead, by decide, h⟩
  · rintro ⟨p, hp, h⟩
    cases p with
    | running => exact .inl h
    | stashed => exact .inr (.inl h)
    | queued => exact .inr (.inr (.inl h))
    | blocked => exact .inr (.inr (.inr (.inl h)))
    | dead => exact .inr (.inr (.inr (.inr h)))
    | idle => exact absurd rfl hp

theorem slotSum_eq_listSum (w : Task → ℤ) (slots : Cpu → Option Task) :
    slotSum w slots = listSum w (slotTasks slots) := by
  have hlist : ∀ l : List Cpu,
      (l.map fun c => (slots c).elim 0 w).sum = listSum w (l.filterMap slots) := by
    intro l
    induction l with
    | nil => rfl
    | cons c cs ih =>
      rw [List.map_cons, List.sum_cons, ih]
      cases hc : slots c with
      | none => rw [List.filterMap_cons_none hc, Option.elim_none, zero_add]
      | some t => rw [List.filterMap_cons_some hc, listSum_cons, Option.elim_some]
  rw [slotSum, Fin.sum_univ_def]
  exact hlist _

theorem queueSum_eq_listSum (w : Task → ℤ) (rqs : Cpu → Runqueue) :
    ∑ c, (rqs c).sum w = listSum w (queuedTasks rqs) := by
  have hlist : ∀ l : List Cpu,
      (l.map fun c => (rqs c).sum w).sum = listSum w (l.flatMap fun c => (rqs c).tasks) := by
    intro l
    induction l with
    | nil => rfl
    | cons c cs ih =>
      rw [List.map_cons, List.sum_cons, ih, List.flatMap_cons, listSum_append, Runqueue.tasks,
        listSum_append, listSum_append]
      rfl
  rw [Fin.sum_univ_def]
  exact hlist _

theorem listSum_neg (w : Task → ℤ) (l : List Task) :
    listSum (fun t => -w t) l = -listSum w l := by
  induction l with
  | nil => rfl
  | cons t ts ih =>
    rw [listSum_cons, listSum_cons, ih]
    ring

theorem total_neg (W : Ledger) (s : Scheduler) :
    s.total (fun p t => -W p t) = -s.total W := by
  simp only [total, slotSum_eq_listSum, queueSum_eq_listSum, listSum_neg]
  ring

/-- The total of a ledger that does not look at the place. -/
theorem total_eq_listSum (w : Task → ℤ) (s : Scheduler) :
    s.total (fun _ => w) = listSum w (s.resident ++ slotTasks s.idleTask) := by
  simp only [total, resident, listSum_append, slotSum_eq_listSum, queueSum_eq_listSum]
  ring

theorem count_eq_listSum (id : TaskId) (l : List Task) :
    ((l.map (·.id)).count id : ℤ) = listSum (fun t => if t.id = id then 1 else 0) l := by
  induction l with
  | nil => rfl
  | cons t ts ih =>
    rw [List.map_cons, List.count_cons, listSum_cons, ← ih]
    by_cases h : t.id = id
    · simp [h]
      ring
    · simp [h]

/-- Ids that are counted at most once are listed at most once. -/
theorem nodup_of_once (h : ∀ id, s.total (.tag id) ≤ 1) :
    ((s.resident ++ slotTasks s.idleTask).map (·.id)).Nodup := by
  rw [List.nodup_iff_count_le_one]
  intro id
  have hcount := count_eq_listSum id (s.resident ++ slotTasks s.idleTask)
  have htotal := total_eq_listSum (fun t => if t.id = id then 1 else 0) s
  have honce := h id
  have hsame : s.total (.tag id) = s.total fun _ t => if t.id = id then 1 else 0 := rfl
  omega

/-- The same id is the same task. -/
theorem eq_of_once (h : ∀ id, s.total (.tag id) ≤ 1) {t t' : Task} {p p' : Place} (ht : s.Holds t p)
    (ht' : s.Holds t' p') (hid : t.id = t'.id) : t = t' := by
  have hmem : ∀ {u : Task} {q : Place}, s.Holds u q →
      u ∈ s.resident ++ slotTasks s.idleTask := by
    intro u q hu
    rw [List.mem_append]
    by_cases hq : q = .idle
    · subst hq
      exact .inr (mem_slotTasks.2 hu)
    · exact .inl (mem_resident.2 ⟨q, hq, hu⟩)
  exact List.inj_on_of_nodup_map (nodup_of_once h) (hmem ht) (hmem ht') hid

end Scheduler

/-! ## The ledgers of the invariants -/

namespace Ledger

/-- A task in an idle slot that is not an idle task. -/
def notIdle : Ledger := faults fun p t => p = .idle && !t.isIdle

theorem notIdle_lawful : notIdle.Lawful where
  same t t' h p := by simp [notIdle, faults, h.isIdle]
  pick _ := le_rfl
  quarantine _ := le_rfl
  stash _ := le_rfl
  exit _ _ := le_rfl
  kill _ := le_rfl
  file _ := le_rfl
  ready _ _ := le_rfl
  bury _ _ := le_rfl
  reap _ _ := le_rfl
  wakeStash _ _ := le_rfl
  wake _ _ := le_rfl
  rest t h := by simp [notIdle, faults, h]
  rise t h := by simp [notIdle, faults, h]
  lost t _ := faults_nonneg _ _ t

/-- A zombie on a runqueue. -/
def queuedZombie : Ledger := faults fun p t => p = .queued && t.state.isZombie

theorem queuedZombie_lawful : queuedZombie.Lawful where
  same t t' h p := by simp [queuedZombie, faults, h.state]
  pick t := faults_nonneg _ .queued t
  quarantine _ := le_rfl
  stash _ := le_rfl
  exit _ _ := le_rfl
  kill _ := le_rfl
  file _ := le_rfl
  ready t h := by simp [queuedZombie, faults, h]
  bury _ _ := le_rfl
  reap _ _ := le_rfl
  wakeStash _ _ := le_rfl
  wake t _ := by simp [queuedZombie, faults, TaskState.isZombie]
  rest _ _ := le_rfl
  rise _ _ := le_rfl
  lost _ _ := le_rfl

/-- A corpse that is not a zombie. -/
def livingCorpse : Ledger := faults fun p t => p = .dead && !t.state.isZombie

theorem livingCorpse_lawful : livingCorpse.Lawful where
  same t t' h p := by simp [livingCorpse, faults, h.state]
  pick _ := le_rfl
  quarantine _ := le_rfl
  stash _ := le_rfl
  exit _ _ := le_rfl
  kill _ := le_rfl
  file _ := le_rfl
  ready _ _ := le_rfl
  bury t h := by simp [livingCorpse, faults, h]
  reap t h := by simp [livingCorpse, faults, h]
  wakeStash _ _ := le_rfl
  wake _ _ := le_rfl
  rest _ _ := le_rfl
  rise _ _ := le_rfl
  lost _ _ := le_rfl

/-- A task with the id that is alive. -/
def alive (id : TaskId) : Ledger := faults fun _ t => t.id = id && !t.state.isZombie

theorem isZombie_of_isBlocked {state : TaskState} (h : state.isBlocked = true) :
    state.isZombie = false := by
  cases state <;> first | rfl | cases h

theorem alive_lawful (id : TaskId) : (alive id).Lawful where
  same t t' h p := by simp [alive, faults, h.state, h.id]
  pick _ := le_rfl
  quarantine _ := le_rfl
  stash _ := le_rfl
  exit t code := faults_le fun h => by simp [TaskState.isZombie] at h
  kill t := faults_le fun h => by simp [TaskState.isZombie] at h
  file _ := le_rfl
  ready _ _ := le_rfl
  bury _ _ := le_rfl
  reap _ _ := le_rfl
  wakeStash t hb := faults_le fun h => by
    simp only [Bool.and_eq_true] at h ⊢
    exact ⟨h.1, by rw [isZombie_of_isBlocked hb]; rfl⟩
  wake t hb := faults_le fun h => by
    simp only [Bool.and_eq_true] at h ⊢
    exact ⟨h.1, by rw [isZombie_of_isBlocked hb]; rfl⟩
  rest _ _ := le_rfl
  rise _ _ := le_rfl
  lost t _ := faults_nonneg _ .idle t

/-- The debt of a non-idle task with the id: a total that does not rise says
that the task is still there. -/
def debt (id : TaskId) : Ledger := fun p t =>
  if p ≠ .idle ∧ t.id = id ∧ t.isIdle = false then -1 else 0

theorem debt_lawful (id : TaskId) : (debt id).Lawful where
  same t t' h p := by simp only [debt, h.id, h.isIdle]
  pick t := by simp [debt]
  quarantine t := by simp [debt]
  stash t := by simp [debt]
  exit t _ := by simp [debt]
  kill t := by simp [debt]
  file t := by simp [debt]
  ready t _ := by simp [debt]
  bury t _ := by simp [debt]
  reap t _ := by simp [debt]
  wakeStash t _ := by simp [debt]
  wake t _ := by simp [debt]
  rest t h := by simp [debt, h]
  rise t h := by simp [debt, h]
  lost t h := by simp [debt]

end Ledger

end AthenaOS
