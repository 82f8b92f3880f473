import AthenaOS.Sched.Lifecycle
import AthenaOS.Sched.Waiting

/-!
# A ledger over the scheduler's containers

Tasks are moved by value between six kinds of place. A *ledger* gives every task
a weight that depends on where it is, and `Scheduler.total` adds the weights up.
A ledger is `Lawful` when no move the code makes raises the weight of the task
that is moved. Then no call raises the total, whatever it does inside.

One such lemma per call serves every invariant of the containers: how often an
id occurs, that no zombie is queued, that corpses are zombies, and that a task
once dead stays dead are all totals of suitable ledgers.
-/

namespace AthenaOS

open Scheduler

/-- The kinds of container a task can be in. -/
inductive Place where
  | running
  | stashed
  | queued
  | blocked
  | dead
  | idle
  deriving DecidableEq

/-- A weight for every task in every place. -/
abbrev Ledger : Type := Place → Task → ℤ

/-- The weights of a per-CPU array of slots. -/
def slotSum (w : Task → ℤ) (slots : Cpu → Option Task) : ℤ := ∑ c, (slots c).elim 0 w

def listSum (w : Task → ℤ) (l : List Task) : ℤ := (l.map w).sum

def Runqueue.sum (w : Task → ℤ) (rq : Runqueue) : ℤ :=
  listSum w rq.tasksDeadline + listSum w rq.tasksGame + listSum w rq.tasksNormal

/-- The weight of everything the scheduler holds. -/
def Scheduler.total (W : Ledger) (s : Scheduler) : ℤ :=
  slotSum (W .running) s.currentTask + slotSum (W .stashed) s.switchStash +
    (∑ c, (s.runqueues c).sum (W .queued)) + listSum (W .blocked) s.blockedTasks +
    listSum (W .dead) s.deadTasks + slotSum (W .idle) s.idleTask

/-- The same task as far as identity and state go. -/
structure Task.Same (t t' : Task) : Prop where
  id : t'.id = t.id
  isIdle : t'.isIdle = t.isIdle
  state : t'.state = t.state

/-- Picking a task does not raise a weight. -/
structure Ledger.Pickable (W : Ledger) : Prop where
  same : ∀ t t' : Task, t.Same t' → ∀ p, W p t' = W p t
  pick : ∀ t, W .running t ≤ W .queued t
  quarantine : ∀ t, W .blocked t ≤ W .running t

/-- No move of the code raises a weight. -/
structure Ledger.Lawful (W : Ledger) : Prop extends W.Pickable where
  stash : ∀ t, W .stashed t ≤ W .running t
  exit : ∀ t code, W .stashed { t with state := .zombie code } ≤ W .running t
  kill : ∀ t, W .running { t with state := .zombie 0 } ≤ W .running t
  file : ∀ t, W .blocked t ≤ W .stashed t
  ready : ∀ t : Task, t.state.isZombie = false → W .queued t ≤ W .stashed t
  bury : ∀ t : Task, t.state.isZombie = true → W .dead t ≤ W .stashed t
  reap : ∀ t : Task, t.state.isZombie = true → W .dead t ≤ W .blocked t
  wakeStash : ∀ t : Task, t.state.isBlocked = true →
    W .stashed { t with state := .ready } ≤ W .stashed t
  wake : ∀ t : Task, t.state.isBlocked = true →
    W .queued { t with state := .ready } ≤ W .blocked t
  rest : ∀ t : Task, t.isIdle = true → W .idle t ≤ W .running t
  rise : ∀ t : Task, t.isIdle = true → W .running t ≤ W .idle t
  /-- An idle task that is replaced in its slot is lost. -/
  lost : ∀ t : Task, t.isIdle = true → 0 ≤ W .idle t

/-- How often an id occurs, counting every place. -/
def Ledger.tag (id : TaskId) : Ledger := fun _ t => if t.id = id then 1 else 0

theorem Ledger.tag_same (id : TaskId) {t t' : Task} (h : t'.id = t.id) (p p' : Place) :
    Ledger.tag id p' t' = Ledger.tag id p t := by
  rw [tag, tag, h]

theorem Ledger.tag_nonneg (id : TaskId) (p : Place) (t : Task) : 0 ≤ Ledger.tag id p t := by
  unfold tag
  split
  · exact Int.one_nonneg
  · exact le_rfl

theorem Ledger.tag_lawful (id : TaskId) : (Ledger.tag id).Lawful where
  same _ _ h p := tag_same id h.id p p
  pick _ := le_rfl
  quarantine _ := le_rfl
  stash _ := le_rfl
  exit _ _ := le_rfl
  kill _ := le_rfl
  file _ := le_rfl
  ready _ _ := le_rfl
  bury _ _ := le_rfl
  reap _ _ := le_rfl
  wakeStash _ _ := le_rfl
  wake _ _ := le_rfl
  rest _ _ := le_rfl
  rise _ _ := le_rfl
  lost t _ := tag_nonneg id .idle t

/-! ## Sums over lists and slots -/

section Sums

variable {w : Task → ℤ} {t : Task} {l l' : List Task}

@[simp] theorem listSum_nil : listSum w [] = 0 := rfl

@[simp] theorem listSum_cons : listSum w (t :: l) = w t + listSum w l := List.sum_cons

@[simp] theorem listSum_append : listSum w (l ++ l') = listSum w l + listSum w l' := by
  rw [listSum, List.map_append, List.sum_append]
  rfl

theorem listSum_insertBefore (p : Task → Bool) (t : Task) (l : List Task) :
    listSum w (insertBefore p t l) = listSum w l + w t := by
  induction l with
  | nil => simp [insertBefore]
  | cons u us ih =>
    unfold insertBefore
    split
    · rw [listSum_cons]
      ring
    · rw [listSum_cons, listSum_cons, ih]
      ring

theorem listSum_eraseIdx {i : Nat} (h : l[i]? = some t) :
    listSum w (l.eraseIdx i) = listSum w l - w t := by
  induction l generalizing i with
  | nil => cases h
  | cons u us ih =>
    cases i with
    | zero =>
      rw [List.getElem?_cons_zero, Option.some.injEq] at h
      rw [List.eraseIdx_cons_zero, listSum_cons, h]
      ring
    | succ i =>
      rw [List.getElem?_cons_succ] at h
      rw [List.eraseIdx_cons_succ, listSum_cons, listSum_cons, ih h]
      ring

theorem listSum_eraseP {p : Task → Bool} (h : l.find? p = some t) :
    listSum w (l.eraseP p) = listSum w l - w t := by
  induction l with
  | nil => cases h
  | cons u us ih =>
    by_cases hu : p u = true
    · rw [List.find?_cons_of_pos hu, Option.some.injEq] at h
      rw [List.eraseP_cons_of_pos hu, listSum_cons, h]
      ring
    · rw [List.find?_cons_of_neg hu] at h
      rw [List.eraseP_cons_of_neg hu, listSum_cons, listSum_cons, ih h]
      ring

theorem listSum_filter (p : Task → Prop) [DecidablePred p] (l : List Task) :
    listSum w (l.filter fun t => ¬ p t) = listSum w l - listSum w (l.filter fun t => p t) := by
  induction l with
  | nil => rfl
  | cons u us ih =>
    by_cases hu : p u
    · rw [List.filter_cons_of_neg (by simpa using hu), List.filter_cons_of_pos (by simpa using hu),
        ih, listSum_cons, listSum_cons]
      ring
    · rw [List.filter_cons_of_pos (by simpa using hu), List.filter_cons_of_neg (by simpa using hu),
        listSum_cons, ih, listSum_cons]
      ring

/-- One entry of a family is replaced. -/
theorem sum_update {α : Type} (g : α → ℤ) (F : Cpu → α) (c : Cpu) (v : α) :
    ∑ i, g (Function.update F c v i) = (∑ i, g (F i)) - g (F c) + g v := by
  have hcomp : (fun i => g (Function.update F c v i)) =
      Function.update (fun i => g (F i)) c (g v) := by
    funext i
    by_cases hi : i = c
    · subst hi
      simp
    · simp [Function.update_of_ne hi]
  rw [hcomp, Finset.sum_update_of_mem (Finset.mem_univ c),
    ← Finset.sum_sdiff (Finset.subset_univ {c}) (f := fun i => g (F i)), Finset.sum_singleton]
  ring

theorem slotSum_update (slots : Cpu → Option Task) (c : Cpu) (o : Option Task) :
    slotSum w (Function.update slots c o) =
      slotSum w slots - (slots c).elim 0 w + o.elim 0 w :=
  sum_update (fun o : Option Task => o.elim 0 w) slots c o

theorem listSum_nonneg (h : ∀ t, 0 ≤ w t) (l : List Task) : 0 ≤ listSum w l := by
  induction l with
  | nil => exact le_rfl
  | cons t ts ih =>
    rw [listSum_cons]
    exact add_nonneg (h t) ih

theorem slotSum_nonneg (h : ∀ t, 0 ≤ w t) (slots : Cpu → Option Task) : 0 ≤ slotSum w slots := by
  refine Finset.sum_nonneg fun c _ => ?_
  cases slots c with
  | none => exact le_rfl
  | some t => exact h t

end Sums

theorem Scheduler.total_nonneg {W : Ledger} (h : ∀ p t, 0 ≤ W p t) (s : Scheduler) :
    0 ≤ s.total W := by
  have hqueues : 0 ≤ ∑ c, (s.runqueues c).sum (W .queued) :=
    Finset.sum_nonneg fun c _ => add_nonneg
      (add_nonneg (listSum_nonneg (h _) _) (listSum_nonneg (h _) _)) (listSum_nonneg (h _) _)
  have hcur := slotSum_nonneg (h .running) s.currentTask
  have hstash := slotSum_nonneg (h .stashed) s.switchStash
  have hblocked := listSum_nonneg (h .blocked) s.blockedTasks
  have hdead := listSum_nonneg (h .dead) s.deadTasks
  have hidle := slotSum_nonneg (h .idle) s.idleTask
  rw [total]
  omega

namespace Scheduler

/-! ## Totals after the primitive updates -/

section Primitives

variable (W : Ledger) (s : Scheduler)

theorem total_setCurrent (c : Cpu) (o : Option Task) :
    (s.setCurrent c o).total W =
      s.total W - (s.currentTask c).elim 0 (W .running) + o.elim 0 (W .running) := by
  simp only [total, setCurrent, slotSum_update]
  ring

theorem total_setStash (c : Cpu) (o : Option Task) :
    (s.setStash c o).total W =
      s.total W - (s.switchStash c).elim 0 (W .stashed) + o.elim 0 (W .stashed) := by
  simp only [total, setStash, slotSum_update]
  ring

theorem total_setIdle (c : Cpu) (o : Option Task) :
    (s.setIdle c o).total W =
      s.total W - (s.idleTask c).elim 0 (W .idle) + o.elim 0 (W .idle) := by
  simp only [total, setIdle, slotSum_update]
  ring

theorem total_modifyQueue (c : Cpu) (f : Runqueue → Runqueue) :
    (s.modifyQueue c f).total W =
      s.total W - (s.runqueues c).sum (W .queued) + (f (s.runqueues c)).sum (W .queued) := by
  simp only [total, modifyQueue, sum_update (Runqueue.sum (W .queued))]
  ring

theorem total_pushBlocked (t : Task) : (s.pushBlocked t).total W = s.total W + W .blocked t := by
  simp only [total, pushBlocked, listSum_append, listSum_cons, listSum_nil]
  ring

theorem total_setStreak (c : Cpu) (n : Nat) : (s.setStreak c n).total W = s.total W := rfl

theorem total_withBlocked (l : List Task) :
    ({ s with blockedTasks := l } : Scheduler).total W =
      s.total W - listSum (W .blocked) s.blockedTasks + listSum (W .blocked) l := by
  simp only [total]
  ring

theorem total_withDead (l : List Task) :
    ({ s with deadTasks := l } : Scheduler).total W =
      s.total W - listSum (W .dead) s.deadTasks + listSum (W .dead) l := by
  simp only [total]
  ring

/-- Where `enqueue` puts a task. -/
theorem total_enqueue (env : SchedEnv) (t : Task) :
    (s.enqueue env t).total W =
      s.total W + if t.state.isZombie then W .blocked t else W .queued t := by
  unfold enqueue
  split
  · next hz => rw [total_pushBlocked]
  · simp only
    split
    · rw [insertDeadlineSorted, total_modifyQueue]
      simp only [Runqueue.sum, listSum_insertBefore]
      ring
    · split
      · rw [total_modifyQueue]
        simp only [Runqueue.sum, listSum_append, listSum_cons, listSum_nil]
        ring
      · rw [insertNormalSorted, total_modifyQueue]
        simp only [Runqueue.sum, listSum_insertBefore]
        ring

theorem total_quarantineAll (dropped : List Task) :
    (dropped.foldl quarantineInsaneStack s).total W =
      s.total W + listSum (W .blocked) dropped := by
  induction dropped generalizing s with
  | nil => simp
  | cons t ts ih =>
    rw [List.foldl_cons, ih, quarantineInsaneStack, total_pushBlocked, listSum_cons]
    ring

end Primitives

/-! ## Picking -/

/-- The picked task and what is left weigh no more than what was there. -/
def Takes (W : Ledger) (s : Scheduler) (r : Option Task × Scheduler) : Prop :=
  r.2.total W + r.1.elim 0 (W .running) ≤ s.total W

section Picking

variable {W : Ledger} (hW : W.Pickable)

include hW

theorem weight_markScheduled (p : Place) (t : Task) (c k : Nat) :
    W p (t.markScheduled c k) = W p t := hW.same t (t.markScheduled c k) ⟨rfl, rfl, rfl⟩ p

theorem startPeriod_ledger (env : SchedEnv) (s : Scheduler) (t : Task) :
    (startPeriod env s t).2.total W = s.total W ∧
      ∀ p, W p (startPeriod env s t).1 = W p t := by
  unfold startPeriod
  split
  · split
    · exact ⟨rfl, hW.same t _ ⟨rfl, rfl, rfl⟩⟩
    · exact ⟨rfl, fun _ => rfl⟩
  · exact ⟨rfl, fun _ => rfl⟩

theorem takes_pickDeadline (env : SchedEnv) (cpu : Cpu) (normalRunnable : Bool) (rounds : Nat)
    (s : Scheduler) : Takes W s (pickDeadline env cpu normalRunnable rounds s) := by
  induction rounds generalizing s with
  | zero => exact le_of_eq (add_zero _)
  | succ rounds ih =>
    unfold pickDeadline
    simp only
    split
    · exact le_of_eq (add_zero _)
    · next idx _ =>
      split
      · exact le_of_eq (add_zero _)
      · next t ht =>
        -- One entry leaves the deadline queue; it is quarantined or picked.
        have hleft : (s.modifyQueue cpu fun rq =>
            { rq with tasksDeadline := (s.runqueues cpu).tasksDeadline.eraseIdx idx }).total W =
              s.total W - W .queued t := by
          rw [total_modifyQueue]
          simp only [Runqueue.sum, listSum_eraseIdx ht]
          ring
        obtain ⟨htotal, hweight⟩ := startPeriod_ledger hW env (s.modifyQueue cpu fun rq =>
          { rq with tasksDeadline := (s.runqueues cpu).tasksDeadline.eraseIdx idx }) t
        have hpick := hW.pick t
        have hpark := hW.quarantine t
        split
        · refine (ih _).trans ?_
          rw [quarantineInsaneStack, total_pushBlocked, htotal, hleft, hweight]
          omega
        · show (setStreak _ _ _).total W + W .running _ ≤ _
          rw [total_setStreak, htotal, hleft, weight_markScheduled hW, hweight]
          omega

omit hW in
theorem popSane_sum {w : Task → ℤ} {l dropped rest : List Task} {picked : Option Task}
    (h : popSane l = (dropped, picked, rest)) :
    listSum w l = listSum w dropped + picked.elim 0 w + listSum w rest := by
  induction l generalizing dropped with
  | nil =>
    rw [popSane] at h
    obtain ⟨rfl, rfl, rfl⟩ : [] = dropped ∧ none = picked ∧ [] = rest := by simpa using h
    rfl
  | cons t ts ih =>
    unfold popSane at h
    split at h
    · rcases hpop : popSane ts with ⟨dropped', picked', rest'⟩
      rw [hpop] at h
      obtain ⟨rfl, rfl, rfl⟩ : t :: dropped' = dropped ∧ picked' = picked ∧ rest' = rest := by
        simpa using h
      rw [listSum_cons, listSum_cons, ih hpop]
      ring
    · obtain ⟨rfl, rfl, rfl⟩ : [] = dropped ∧ some t = picked ∧ ts = rest := by simpa using h
      rw [listSum_cons, listSum_nil, Option.elim_some]
      ring

theorem listSum_quarantine_le (l : List Task) :
    listSum (W .blocked) l ≤ listSum (W .queued) l := by
  induction l with
  | nil => exact le_rfl
  | cons t ts ih =>
    have hpick := hW.pick t
    have hpark := hW.quarantine t
    rw [listSum_cons, listSum_cons]
    omega

theorem takes_pickGame (cpu : Cpu) (s : Scheduler) : Takes W s (pickGame cpu s) := by
  unfold pickGame
  rcases hpop : popSane (s.runqueues cpu).tasksGame with ⟨dropped, picked, rest⟩
  have hsum := popSane_sum (w := W .queued) hpop
  have hdrop := listSum_quarantine_le hW dropped
  have hleft : (dropped.foldl quarantineInsaneStack
      (s.modifyQueue cpu fun rq => { rq with tasksGame := rest })).total W +
        picked.elim 0 (W .queued) ≤ s.total W := by
    rw [total_quarantineAll, total_modifyQueue]
    simp only [Runqueue.sum, hsum]
    omega
  cases picked with
  | none => exact hleft
  | some t =>
    have hpick := hW.pick t
    show (setStreak _ _ _).total W + W .running _ ≤ _
    rw [Option.elim_some] at hleft
    rw [total_setStreak, weight_markScheduled hW]
    omega

theorem takes_pickNormal (cpu : Cpu) (s : Scheduler) : Takes W s (pickNormal cpu s) := by
  unfold pickNormal
  split
  · rcases hpop : popSane (s.runqueues cpu).tasksNormal with ⟨dropped, picked, rest⟩
    have hsum := popSane_sum (w := W .queued) hpop
    have hdrop := listSum_quarantine_le hW dropped
    have hleft : (dropped.foldl quarantineInsaneStack
        (s.modifyQueue cpu fun rq => { rq with tasksNormal := rest })).total W +
          picked.elim 0 (W .queued) ≤ s.total W := by
      rw [total_quarantineAll, total_modifyQueue]
      simp only [Runqueue.sum, hsum]
      omega
    dsimp only
    generalize dropped.foldl quarantineInsaneStack
      (s.modifyQueue cpu fun rq => { rq with tasksNormal := rest }) = left at hleft ⊢
    cases picked with
    | none => exact hleft
    | some t =>
      have hpick := hW.pick t
      rw [Option.elim_some] at hleft
      -- Charging the background budget moves no task.
      have hcharge : ∀ mode n, (setStreak { left with gameMode := mode } cpu n).total W =
          left.total W := fun _ _ => rfl
      simp only
      split
      · show (setStreak _ _ _).total W + W .running _ ≤ _
        rw [hcharge, weight_markScheduled hW]
        omega
      · show (setStreak _ _ _).total W + W .running _ ≤ _
        rw [total_setStreak, weight_markScheduled hW]
        omega
  · exact le_of_eq (add_zero _)

theorem takes_steal (cpu : Cpu) (s : Scheduler) (cpus : List Cpu) :
    Takes W s (steal cpu s cpus) := by
  induction cpus with
  | nil => exact le_of_eq (add_zero _)
  | cons i is ih =>
    unfold steal
    split
    · exact ih
    · simp only
      split
      · exact ih
      · next pos _ =>
        split
        · exact ih
        · next t ht =>
          have hpick := hW.pick t
          show (modifyQueue _ _ _).total W + W .running _ ≤ _
          rw [total_modifyQueue, weight_markScheduled hW]
          simp only [Runqueue.sum, listSum_eraseIdx ht]
          omega

omit hW in
theorem Takes.orPick {s : Scheduler} {r : Option Task × Scheduler}
    {next : Scheduler → Option Task × Scheduler} (h : Takes W s r)
    (hnext : ∀ s, Takes W s (next s)) : Takes W s (orPick r next) := by
  unfold Scheduler.orPick
  split
  · next t ht =>
    rw [Takes, ht] at h
    exact h
  · next ht =>
    rw [Takes, ht] at h
    exact (hnext _).trans (le_trans (le_of_eq (add_zero _).symm) h)

theorem total_pickNext_le (env : SchedEnv) (s : Scheduler) (cpu : Cpu) :
    Takes W s (s.pickNext env cpu) := by
  have hdeadline : Takes W s (s.pickDeadlineGuarded env cpu) := by
    unfold pickDeadlineGuarded
    simp only
    split
    · exact le_of_eq (add_zero _)
    · exact takes_pickDeadline hW env cpu _ _ s
  refine ((hdeadline.orPick (takes_pickGame hW cpu)).orPick (takes_pickNormal hW cpu)).orPick
    fun s => ?_
  split
  · exact le_of_eq (add_zero _)
  · exact takes_steal hW cpu s _

end Picking

end Scheduler

end AthenaOS
