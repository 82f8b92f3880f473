import AthenaOS.Sched.Waiting

/-!
# What a pick takes, class by class (`kernel/src/scheduler.rs`)

`pick_next` tries four classes in order and returns the first task one of them
has. The starvation guard, the game-mode budget and the EDF order are about
which class that is and what it does to its counters, so this file says it once.
-/

namespace AthenaOS

open Function (update update_eq_self update_idem update_of_ne update_self)

namespace Scheduler

/-! ## The five ways a pick ends -/

/-- The classes of `pick_next`, in the order it tries them. -/
inductive PickClass where
  | deadline
  | game
  | normal
  | stolen
  deriving DecidableEq

/-- The last class: a normal task of another CPU. -/
def pickStolen (env : SchedEnv) (cpu : Cpu) (s : Scheduler) : Option Task × Scheduler :=
  if !env.workStealing then (none, s) else steal cpu s (onlineCpus env)

/-- The class `pick_next` returns a task from, if it returns one. -/
def pickClass (env : SchedEnv) (s : Scheduler) (cpu : Cpu) : Option PickClass :=
  let deadline := s.pickDeadlineGuarded env cpu
  let game := pickGame cpu deadline.2
  let normal := pickNormal cpu game.2
  if deadline.1.isSome then some .deadline
  else if game.1.isSome then some .game
  else if normal.1.isSome then some .normal
  else if (pickStolen env cpu normal.2).1.isSome then some .stolen
  else none

/-- How a call of `pick_next` ends, and the states it goes through until then. -/
inductive PickCase (env : SchedEnv) (s : Scheduler) (cpu : Cpu) :
    Option PickClass → Option Task × Scheduler → Prop
  | deadline {t : Task} {s' : Scheduler} :
    s.pickDeadlineGuarded env cpu = (some t, s') → PickCase env s cpu (some .deadline) (some t, s')
  | game {t : Task} {s₁ s' : Scheduler} :
    s.pickDeadlineGuarded env cpu = (none, s₁) → pickGame cpu s₁ = (some t, s') →
    PickCase env s cpu (some .game) (some t, s')
  | normal {t : Task} {s₁ s₂ s' : Scheduler} :
    s.pickDeadlineGuarded env cpu = (none, s₁) → pickGame cpu s₁ = (none, s₂) →
    pickNormal cpu s₂ = (some t, s') → PickCase env s cpu (some .normal) (some t, s')
  | stolen {t : Task} {s₁ s₂ s₃ s' : Scheduler} :
    s.pickDeadlineGuarded env cpu = (none, s₁) → pickGame cpu s₁ = (none, s₂) →
    pickNormal cpu s₂ = (none, s₃) → pickStolen env cpu s₃ = (some t, s') →
    PickCase env s cpu (some .stolen) (some t, s')
  | nothing {s₁ s₂ s₃ s' : Scheduler} :
    s.pickDeadlineGuarded env cpu = (none, s₁) → pickGame cpu s₁ = (none, s₂) →
    pickNormal cpu s₂ = (none, s₃) → pickStolen env cpu s₃ = (none, s') →
    PickCase env s cpu none (none, s')

theorem pickCase_pickNext (env : SchedEnv) (s : Scheduler) (cpu : Cpu) :
    PickCase env s cpu (s.pickClass env cpu) (s.pickNext env cpu) := by
  rcases hd : s.pickDeadlineGuarded env cpu with ⟨_ | t, s₁⟩
  · rcases hg : pickGame cpu s₁ with ⟨_ | t, s₂⟩
    · rcases hn : pickNormal cpu s₂ with ⟨_ | t, s₃⟩
      · have hlast : s.pickNext env cpu = pickStolen env cpu s₃ := by
          simp [pickNext, orPick, pickStolen, hd, hg, hn]
        rw [hlast]
        rcases hw : pickStolen env cpu s₃ with ⟨_ | t, s₄⟩
        · rw [show s.pickClass env cpu = none by simp [pickClass, hd, hg, hn, hw]]
          exact .nothing hd hg hn hw
        · rw [show s.pickClass env cpu = some .stolen by simp [pickClass, hd, hg, hn, hw]]
          exact .stolen hd hg hn hw
      · rw [show s.pickClass env cpu = some .normal by simp [pickClass, hd, hg, hn],
          show s.pickNext env cpu = (some t, s₃) by simp [pickNext, orPick, hd, hg, hn]]
        exact .normal hd hg hn
    · rw [show s.pickClass env cpu = some .game by simp [pickClass, hd, hg],
        show s.pickNext env cpu = (some t, s₂) by simp [pickNext, orPick, hd, hg]]
      exact .game hd hg
  · rw [show s.pickClass env cpu = some .deadline by simp [pickClass, hd],
      show s.pickNext env cpu = (some t, s₁) by simp [pickNext, orPick, hd]]
    exact .deadline hd

/-! ## The deadline class -/

/-- The guard of `pick_next`: skip the deadline class for one pick. -/
def forceNormal (s : Scheduler) (cpu : Cpu) : Bool :=
  !(s.runqueues cpu).tasksNormal.isEmpty && s.dlStarveStreak cpu ≥ dlStarvationLimit

theorem runqueues_modifyQueue (s : Scheduler) (cpu : Cpu) (f : Runqueue → Runqueue) :
    (s.modifyQueue cpu f).runqueues = update s.runqueues cpu (f (s.runqueues cpu)) := rfl

/-- The task with a new period started, if one is due. -/
def startedAt (nowUs : Nat) (t : Task) : Task :=
  { t with
    deadline := t.deadline.map fun dl => if dl.needsNewPeriod nowUs then dl.wake nowUs else dl }

/-- The EDF loop on a queue: the entry it takes and what it leaves. Ready tasks
with an insane stack are dropped on the way. -/
def edfScan (nowUs : Nat) : List Task → Option Task × List Task
  | [] => (none, [])
  | t :: ts =>
    if runnableThisPeriod nowUs t then
      if t.savedStackIsSane then (some t, ts) else edfScan nowUs ts
    else
      ((edfScan nowUs ts).1, t :: (edfScan nowUs ts).2)

variable {nowUs : Nat} {l : List Task} {p : Task → Bool} {env : SchedEnv} {s : Scheduler}
variable {cpu : Cpu} {r : Option Task × Scheduler}

theorem edfScan_append {pre : List Task} (hpre : ∀ t ∈ pre, runnableThisPeriod nowUs t = false)
    (l : List Task) :
    edfScan nowUs (pre ++ l) = ((edfScan nowUs l).1, pre ++ (edfScan nowUs l).2) := by
  induction pre with
  | nil => rfl
  | cons t ts ih =>
    have ih := ih fun u hu => hpre u (List.mem_cons_of_mem t hu)
    have ht : ¬ runnableThisPeriod nowUs t = true := by simp [hpre t List.mem_cons_self]
    rw [List.cons_append, edfScan, if_neg ht, ih]
    rfl

theorem edfScan_of_none (hl : ∀ t ∈ l, runnableThisPeriod nowUs t = false) :
    edfScan nowUs l = (none, l) := by
  have h := edfScan_append hl []
  simpa [edfScan] using h

/-- An entry found by index, and the lists around it. -/
theorem split_of_findIdx {idx : Nat} {t : Task} (hidx : l.findIdx? p = some idx)
    (ht : l[idx]? = some t) :
    ∃ pre post, l = pre ++ t :: post ∧ l.eraseIdx idx = pre ++ post ∧ p t = true ∧
      ∀ u ∈ pre, p u = false := by
  obtain ⟨hlt, hp, hbefore⟩ := List.findIdx?_eq_some_iff_getElem.mp hidx
  rw [List.getElem?_eq_getElem hlt, Option.some.injEq] at ht
  refine ⟨l.take idx, l.drop (idx + 1), ?_, List.eraseIdx_eq_take_drop_succ .., ht ▸ hp, ?_⟩
  · rw [← ht, List.cons_getElem_drop_succ, List.take_append_drop]
  · intro u hu
    obtain ⟨j, hj, rfl⟩ := List.mem_take_iff_getElem.mp hu
    rw [Nat.lt_min] at hj
    simpa using hbefore j hj.1

theorem startPeriod_fst (env : SchedEnv) (s : Scheduler) (t : Task) :
    (startPeriod env s t).1 = startedAt env.nowUs t := by
  unfold startPeriod startedAt
  rcases t with ⟨_, _, _, _, _, _, _, _, _, _ | dl, _, _, _⟩
  · rfl
  · dsimp only [Option.map_some]
    split <;> rfl

/-- Starting a period only counts an invocation. -/
theorem startPeriod_snd (env : SchedEnv) (s : Scheduler) (t : Task) :
    ∃ stats, (startPeriod env s t).2 = { s with deadlineStats := stats } := by
  unfold startPeriod
  split
  · split
    · exact ⟨_, rfl⟩
    · exact ⟨s.deadlineStats, rfl⟩
  · exact ⟨s.deadlineStats, rfl⟩

/-- The deadline class of `cpu` took what `edfScan` takes and left what it
leaves; `n` is the streak after a pick. -/
structure DeadlinePick (env : SchedEnv) (cpu : Cpu) (n : Nat) (s : Scheduler)
    (r : Option Task × Scheduler) : Prop where
  picked : r.1 = (edfScan env.nowUs (s.runqueues cpu).tasksDeadline).1.map fun t =>
    (startedAt env.nowUs t).markScheduled cpu s.tick
  queues : r.2.runqueues = update s.runqueues cpu
    { s.runqueues cpu with
      tasksDeadline := (edfScan env.nowUs (s.runqueues cpu).tasksDeadline).2 }
  streak : r.2.dlStarveStreak =
    if r.1.isSome then update s.dlStarveStreak cpu n else s.dlStarveStreak
  gameMode : r.2.gameMode = s.gameMode
  tick : r.2.tick = s.tick

theorem pickDeadline_spec (env : SchedEnv) (cpu : Cpu) (normalRunnable : Bool) :
    ∀ (rounds : Nat) (s : Scheduler), (s.runqueues cpu).tasksDeadline.length ≤ rounds →
      DeadlinePick env cpu
        (if normalRunnable then min (s.dlStarveStreak cpu + 1) (2 ^ 32 - 1) else 0) s
        (pickDeadline env cpu normalRunnable rounds s)
  | 0, s, hlen => by
    have hnil : (s.runqueues cpu).tasksDeadline = [] := by simpa using hlen
    have hscan : edfScan env.nowUs (s.runqueues cpu).tasksDeadline = (none, []) := by
      rw [hnil]
      rfl
    refine ⟨?_, ?_, rfl, rfl, rfl⟩
    · rw [hscan]
      rfl
    · rw [hscan, ← hnil]
      exact (update_eq_self cpu s.runqueues).symm
  | rounds + 1, s, hlen => by
    unfold pickDeadline
    simp only
    rcases hidx : (s.runqueues cpu).tasksDeadline.findIdx? (runnableThisPeriod env.nowUs) with
      _ | idx
    · -- nothing is ready
      have hscan : edfScan env.nowUs (s.runqueues cpu).tasksDeadline =
          (none, (s.runqueues cpu).tasksDeadline) := edfScan_of_none (by simpa using hidx)
      refine ⟨?_, ?_, rfl, rfl, rfl⟩
      · rw [hscan]
        rfl
      · rw [hscan]
        exact (update_eq_self cpu s.runqueues).symm
    · obtain ⟨hlt, -, -⟩ := List.findIdx?_eq_some_iff_getElem.mp hidx
      have hget := List.getElem?_eq_getElem hlt
      obtain ⟨pre, post, hsplit, herase, hready, hpre⟩ := split_of_findIdx hidx hget
      generalize (s.runqueues cpu).tasksDeadline[idx] = t at hget hsplit hready
      dsimp only
      rw [hget]
      dsimp only
      set s₁ := s.modifyQueue cpu fun rq =>
        { rq with tasksDeadline := (s.runqueues cpu).tasksDeadline.eraseIdx idx } with hs₁
      obtain ⟨stats, hstats⟩ := startPeriod_snd env s₁ t
      have hqueue : (s₁.runqueues cpu).tasksDeadline = pre ++ post := by
        rw [hs₁, runqueues_modifyQueue, update_self]
        exact herase
      have hrest : ∀ left : List Task,
          update s₁.runqueues cpu { s₁.runqueues cpu with tasksDeadline := left } =
            update s.runqueues cpu { s.runqueues cpu with tasksDeadline := left } := by
        intro left
        rw [hs₁, runqueues_modifyQueue, update_self, update_idem]
      have hsane : (startedAt env.nowUs t).savedStackIsSane = t.savedStackIsSane := rfl
      rw [startPeriod_fst, hstats, hsane]
      by_cases hstack : t.savedStackIsSane = true
      · -- taken
        have hscan : edfScan env.nowUs (s.runqueues cpu).tasksDeadline =
            (some t, pre ++ post) := by
          rw [hsplit, edfScan_append hpre, edfScan, if_pos hready, if_pos hstack]
        rw [if_neg (show ¬ (!t.savedStackIsSane) = true by simpa using hstack)]
        refine ⟨?_, ?_, rfl, rfl, rfl⟩
        · rw [hscan]
          rfl
        · rw [hscan, ← herase]
          rfl
      · -- dropped: the scan of what is left is the scan of the queue
        rw [if_pos (show (!t.savedStackIsSane) = true by simpa using hstack)]
        have hscan : edfScan env.nowUs (pre ++ post) =
            edfScan env.nowUs (s.runqueues cpu).tasksDeadline := by
          rw [hsplit, edfScan_append hpre, edfScan_append hpre, edfScan, if_pos hready,
            if_neg hstack]
        have hlen' : (s₁.runqueues cpu).tasksDeadline.length ≤ rounds := by
          rw [hsplit, List.length_append, List.length_cons] at hlen
          rw [hqueue, List.length_append]
          omega
        have ih := pickDeadline_spec env cpu normalRunnable rounds
          (quarantineInsaneStack { s₁ with deadlineStats := stats } (startedAt env.nowUs t)) hlen'
        refine ⟨?_, ?_, ih.streak, ih.gameMode, ih.tick⟩
        · have hpicked := ih.picked
          change _ = (edfScan env.nowUs (s₁.runqueues cpu).tasksDeadline).1.map _ at hpicked
          rw [hqueue, hscan] at hpicked
          exact hpicked
        · have hqueues := ih.queues
          change _ = update s₁.runqueues cpu { s₁.runqueues cpu with
            tasksDeadline := (edfScan env.nowUs (s₁.runqueues cpu).tasksDeadline).2 } at hqueues
          rw [hqueue, hscan, hrest] at hqueues
          exact hqueues

theorem pickDeadlineGuarded_of_force (h : s.forceNormal cpu = true) :
    s.pickDeadlineGuarded env cpu = (none, s.setStreak cpu 0) :=
  if_pos h

/-- The streak after a pick of the deadline class. -/
def nextStreak (s : Scheduler) (cpu : Cpu) : Nat :=
  if (s.runqueues cpu).tasksNormal.isEmpty then 0
  else min (s.dlStarveStreak cpu + 1) (2 ^ 32 - 1)

theorem pickDeadlineGuarded_spec (env : SchedEnv) (h : s.forceNormal cpu = false) :
    DeadlinePick env cpu (s.nextStreak cpu) s (s.pickDeadlineGuarded env cpu) := by
  have hskip : s.pickDeadlineGuarded env cpu = pickDeadline env cpu
      (!(s.runqueues cpu).tasksNormal.isEmpty) (s.runqueues cpu).tasksDeadline.length s :=
    if_neg (show ¬ s.forceNormal cpu = true by simp [h])
  rw [hskip]
  have hspec := pickDeadline_spec env cpu (!(s.runqueues cpu).tasksNormal.isEmpty)
    (s.runqueues cpu).tasksDeadline.length s le_rfl
  rw [nextStreak]
  cases hempty : (s.runqueues cpu).tasksNormal.isEmpty with
  | true => simpa [hempty] using hspec
  | false => simpa [hempty] using hspec

/-! ## The game and normal classes -/

theorem foldl_quarantineInsaneStack (l : List Task) (s : Scheduler) :
    l.foldl quarantineInsaneStack s = { s with blockedTasks := s.blockedTasks ++ l } := by
  induction l generalizing s with
  | nil => simp
  | cons t ts ih =>
    rw [List.foldl_cons, ih]
    simp [quarantineInsaneStack, pushBlocked]

/-- The pop loop takes the first task with a sane stack. -/
theorem popSane_picked (l : List Task) : (popSane l).2.1 = l.find? Task.savedStackIsSane := by
  induction l with
  | nil => rfl
  | cons t ts ih =>
    unfold popSane
    cases hsane : t.savedStackIsSane with
    | true => simp [hsane]
    | false => simpa [hsane] using ih

/-- The class of `cpu` whose queue `put` writes handed out `first` and left some
rest; a pick ends the streak. -/
structure ClassPick (cpu : Cpu) (put : Runqueue → List Task → Runqueue) (first : Option Task)
    (s : Scheduler) (r : Option Task × Scheduler) : Prop where
  picked : r.1 = first.map fun t => t.markScheduled cpu s.tick
  queues : ∃ rest, r.2.runqueues =
    update s.runqueues cpu (put (s.runqueues cpu) rest)
  streak : r.2.dlStarveStreak =
    if r.1.isSome then update s.dlStarveStreak cpu 0 else s.dlStarveStreak
  tick : r.2.tick = s.tick

def putGame (rq : Runqueue) (rest : List Task) : Runqueue := { rq with tasksGame := rest }

def putNormal (rq : Runqueue) (rest : List Task) : Runqueue := { rq with tasksNormal := rest }

theorem pickGame_spec (h : pickGame cpu s = r) :
    ClassPick cpu putGame ((s.runqueues cpu).tasksGame.find? Task.savedStackIsSane) s r ∧
      r.2.gameMode = s.gameMode := by
  subst h
  have hpicked := popSane_picked (s.runqueues cpu).tasksGame
  unfold pickGame
  rcases hpop : popSane (s.runqueues cpu).tasksGame with ⟨dropped, picked, rest⟩
  rw [hpop] at hpicked
  dsimp only at hpicked ⊢
  rw [foldl_quarantineInsaneStack, ← hpicked]
  cases picked with
  | none => exact ⟨⟨rfl, ⟨rest, rfl⟩, rfl, rfl⟩, rfl⟩
  | some t => exact ⟨⟨rfl, ⟨rest, rfl⟩, rfl, rfl⟩, rfl⟩

/-- May the normal class run: outside game mode, or with budget left. -/
def backgroundRuns (s : Scheduler) : Bool := !s.gameMode.active || s.gameMode.canRunBackground

theorem pickNormal_spec (h : pickNormal cpu s = r) :
    ClassPick cpu putNormal
        (if s.backgroundRuns then (s.runqueues cpu).tasksNormal.find? Task.savedStackIsSane
          else none) s r ∧
      r.2.gameMode =
        if r.1.isSome && s.gameMode.active then s.gameMode.chargeBackground else s.gameMode := by
  subst h
  have hpicked := popSane_picked (s.runqueues cpu).tasksNormal
  have hsame : update s.runqueues cpu
      (putNormal (s.runqueues cpu) (s.runqueues cpu).tasksNormal) = s.runqueues :=
    update_eq_self cpu s.runqueues
  unfold pickNormal backgroundRuns
  cases hruns : !s.gameMode.active || s.gameMode.canRunBackground with
  | false => exact ⟨⟨rfl, ⟨_, hsame.symm⟩, rfl, rfl⟩, rfl⟩
  | true =>
    rcases hpop : popSane (s.runqueues cpu).tasksNormal with ⟨dropped, picked, rest⟩
    rw [hpop] at hpicked
    dsimp only at hpicked
    rw [if_pos rfl, if_pos rfl, ← hpicked]
    cases picked with
    | none =>
      simp only [foldl_quarantineInsaneStack]
      exact ⟨⟨rfl, ⟨rest, rfl⟩, rfl, rfl⟩, rfl⟩
    | some t =>
      simp only [foldl_quarantineInsaneStack, modifyQueue]
      cases hactive : s.gameMode.active with
      | true => exact ⟨⟨rfl, ⟨rest, rfl⟩, rfl, rfl⟩, rfl⟩
      | false => exact ⟨⟨rfl, ⟨rest, rfl⟩, rfl, rfl⟩, rfl⟩

/-! ## Work stealing -/

theorem rposition_eq_none (h : rposition p l = none) : ∀ t ∈ l, p t = false := by
  simpa [rposition] using h

theorem rposition_eq_some {i : Nat} (h : rposition p l = some i) :
    ∃ t, l[i]? = some t ∧ p t = true := by
  unfold rposition at h
  obtain ⟨j, hj, rfl⟩ := Option.map_eq_some_iff.mp h
  obtain ⟨hlt, hp, -⟩ := List.findIdx?_eq_some_iff_getElem.mp hj
  rw [List.getElem_reverse] at hp
  rw [List.length_reverse] at hlt
  exact ⟨_, List.getElem?_eq_getElem (by omega), hp⟩

/-- Stealing takes a stealable task of another CPU, or finds none and changes
nothing. -/
theorem steal_spec (cpu : Cpu) (s : Scheduler) (l : List Cpu) :
    (∃ i ∈ l, i ≠ cpu ∧ ∃ t ∈ (s.runqueues i).tasksNormal, s.stealable cpu t = true ∧
        ∃ rest, steal cpu s l = (some (t.markScheduled cpu s.tick),
          s.modifyQueue i (putNormal · rest))) ∨
      (steal cpu s l = (none, s) ∧
        ∀ i ∈ l, i ≠ cpu → ∀ t ∈ (s.runqueues i).tasksNormal, s.stealable cpu t = false) := by
  induction l with
  | nil => exact Or.inr ⟨rfl, by simp⟩
  | cons i is ih =>
    unfold steal
    by_cases hi : i = cpu
    · rw [if_pos hi]
      rcases ih with ⟨j, hj, hne, rest⟩ | ⟨hnone, hall⟩
      · exact Or.inl ⟨j, List.mem_cons_of_mem i hj, hne, rest⟩
      · refine Or.inr ⟨hnone, fun j hj hne => ?_⟩
        rcases List.mem_cons.mp hj with rfl | hj
        · exact absurd hi hne
        · exact hall j hj hne
    · rw [if_neg hi]
      dsimp only
      rcases hpos : rposition (s.stealable cpu) (s.runqueues i).tasksNormal with _ | pos
      · dsimp only
        rcases ih with ⟨j, hj, hne, rest⟩ | ⟨hnone, hall⟩
        · exact Or.inl ⟨j, List.mem_cons_of_mem i hj, hne, rest⟩
        · refine Or.inr ⟨hnone, fun j hj hne => ?_⟩
          rcases List.mem_cons.mp hj with rfl | hj
          · exact rposition_eq_none hpos
          · exact hall j hj hne
      · obtain ⟨t, hget, hsteal⟩ := rposition_eq_some hpos
        dsimp only
        rw [hget]
        exact Or.inl ⟨i, List.mem_cons_self, hi, t, List.mem_of_getElem? hget, hsteal, _, rfl⟩

/-- Is there a task another online CPU would lose to `cpu`? -/
def canSteal (env : SchedEnv) (s : Scheduler) (cpu : Cpu) : Prop :=
  env.workStealing = true ∧
    ∃ i ∈ onlineCpus env, i ≠ cpu ∧ ∃ t ∈ (s.runqueues i).tasksNormal, s.stealable cpu t = true

theorem pickStolen_spec (h : pickStolen env cpu s = r) :
    (∃ i ∈ onlineCpus env, env.workStealing = true ∧ i ≠ cpu ∧
        ∃ t ∈ (s.runqueues i).tasksNormal, s.stealable cpu t = true ∧
        ∃ rest, r = (some (t.markScheduled cpu s.tick), s.modifyQueue i (putNormal · rest))) ∨
      (r = (none, s) ∧ ¬ s.canSteal env cpu) := by
  subst h
  unfold pickStolen canSteal
  cases env.workStealing with
  | false => exact Or.inr ⟨rfl, fun h => nomatch h.1⟩
  | true =>
    rcases steal_spec cpu s (onlineCpus env) with ⟨i, hi, hne, rest⟩ | ⟨hnone, hall⟩
    · exact Or.inl ⟨i, hi, rfl, hne, rest⟩
    · refine Or.inr ⟨hnone, ?_⟩
      rintro ⟨-, i, hi, hne, t, ht, hsteal⟩
      rw [hall i hi hne t ht] at hsteal
      cases hsteal

/-! ## The pick as a whole -/

section Whole

variable {env : SchedEnv} {s : Scheduler} {cpu : Cpu}

/-- What the guard leaves of the streak: a forced pick clears it. -/
def streakAfterGuard (s : Scheduler) (cpu : Cpu) : Cpu → Nat :=
  if s.forceNormal cpu then update s.dlStarveStreak cpu 0 else s.dlStarveStreak

/-- The classes below get the other two queues of `cpu`, and all queues of the
other CPUs, as they were. -/
structure PassedOn (s s' : Scheduler) (cpu : Cpu) : Prop where
  game : (s'.runqueues cpu).tasksGame = (s.runqueues cpu).tasksGame
  normal : ∀ c, (s'.runqueues c).tasksNormal = (s.runqueues c).tasksNormal
  gameMode : s'.gameMode = s.gameMode
  tick : s'.tick = s.tick
  streak : s'.dlStarveStreak = s.streakAfterGuard cpu

variable {s₁ s₂ s₃ : Scheduler} {put : Runqueue → List Task → Runqueue} {first : Option Task}
variable {r : Option Task × Scheduler}

theorem passedOn_of_guarded (h : s.pickDeadlineGuarded env cpu = (none, s₁)) :
    PassedOn s s₁ cpu := by
  cases hforce : s.forceNormal cpu with
  | true =>
    rw [pickDeadlineGuarded_of_force hforce, Prod.mk.injEq] at h
    obtain ⟨-, rfl⟩ := h
    exact ⟨rfl, fun _ => rfl, rfl, rfl, by simp [streakAfterGuard, hforce, setStreak]⟩
  | false =>
    have hspec := pickDeadlineGuarded_spec env hforce
    rw [h] at hspec
    refine ⟨?_, fun c => ?_, hspec.gameMode, hspec.tick, ?_⟩
    · rw [hspec.queues, update_self]
    · rw [hspec.queues]
      by_cases hc : c = cpu
      · rw [hc, update_self]
      · rw [update_of_ne hc]
    · have hstreak := hspec.streak
      simpa [streakAfterGuard, hforce] using hstreak

/-- A class that has nothing passes the rest on. -/
theorem ClassPick.none_frame (h : ClassPick cpu put first s₁ (none, s₂)) :
    first = none ∧ s₂.dlStarveStreak = s₁.dlStarveStreak ∧ s₂.tick = s₁.tick ∧
      ∀ c ≠ cpu, s₂.runqueues c = s₁.runqueues c := by
  obtain ⟨rest, hrest⟩ := h.queues
  refine ⟨Option.map_eq_none_iff.mp h.picked.symm, h.streak, h.tick, fun c hc => ?_⟩
  rw [hrest, update_of_ne hc]

/-- What is left of `s` when no class of `cpu` itself has anything to run. -/
structure StealPoint (s s' : Scheduler) (cpu : Cpu) : Prop where
  normal : ∀ c ≠ cpu, (s'.runqueues c).tasksNormal = (s.runqueues c).tasksNormal
  gameMode : s'.gameMode = s.gameMode
  tick : s'.tick = s.tick
  streak : s'.dlStarveStreak = s.streakAfterGuard cpu
  current : s'.currentTask = s.currentTask
  stash : s'.switchStash = s.switchStash

theorem stealPoint (hd : s.pickDeadlineGuarded env cpu = (none, s₁))
    (hg : pickGame cpu s₁ = (none, s₂)) (hn : pickNormal cpu s₂ = (none, s₃)) :
    StealPoint s s₃ cpu := by
  have hpassed := passedOn_of_guarded hd
  obtain ⟨hgame, hgameMode⟩ := pickGame_spec hg
  obtain ⟨hnormal, hnormalMode⟩ := pickNormal_spec hn
  obtain ⟨-, hstreak₂, htick₂, hqueues₂⟩ := hgame.none_frame
  obtain ⟨-, hstreak₃, htick₃, hqueues₃⟩ := hnormal.none_frame
  have hsteady : Steady s s₃ := by
    have h₁ := (picks_pickDeadlineGuarded env s cpu).steady
    have h₂ := (picks_pickGame cpu s₁).steady
    have h₃ := (picks_pickNormal cpu s₂).steady
    rw [hd] at h₁
    rw [hg] at h₂
    rw [hn] at h₃
    exact (h₁.trans h₂).trans h₃
  refine ⟨fun c hc => ?_, ?_, ?_, ?_, hsteady.current, hsteady.stash⟩
  · rw [hqueues₃ c hc, hqueues₂ c hc, hpassed.normal c]
  · exact hnormalMode.trans (hgameMode.trans hpassed.gameMode)
  · rw [htick₃, htick₂, hpassed.tick]
  · rw [hstreak₃, hstreak₂, hpassed.streak]

/-- Stealing moves one task and touches no counter. -/
theorem pickStolen_frame (h : pickStolen env cpu s₁ = r) :
    r.2.dlStarveStreak = s₁.dlStarveStreak ∧ r.2.gameMode = s₁.gameMode ∧
      ∀ c, (r.2.runqueues c).tasksDeadline = (s₁.runqueues c).tasksDeadline := by
  rcases pickStolen_spec h with ⟨i, -, -, -, t, -, -, rest, rfl⟩ | ⟨rfl, -⟩
  · refine ⟨rfl, rfl, fun c => ?_⟩
    by_cases hc : c = i
    · rw [hc, runqueues_modifyQueue, update_self]
      rfl
    · rw [runqueues_modifyQueue, update_of_ne hc]
  · exact ⟨rfl, rfl, fun _ => rfl⟩

theorem forceNormal_of_guarded {t : Task} (h : s.pickDeadlineGuarded env cpu = r)
    (hr : r.1 = some t) : s.forceNormal cpu = false := by
  by_contra hforce
  rw [← h, pickDeadlineGuarded_of_force (by simpa using hforce)] at hr
  cases hr

/-- The streak after a pick, by the class it took from. -/
theorem pickNext_streak (env : SchedEnv) (s : Scheduler) (cpu : Cpu) :
    (s.pickNext env cpu).2.dlStarveStreak =
      match s.pickClass env cpu with
      | some .deadline => update s.dlStarveStreak cpu (s.nextStreak cpu)
      | some .game | some .normal => update s.dlStarveStreak cpu 0
      | some .stolen | none => s.streakAfterGuard cpu := by
  have hclear : update (s.streakAfterGuard cpu) cpu 0 =
      update s.dlStarveStreak cpu 0 := by
    unfold streakAfterGuard
    split
    · exact update_idem ..
    · rfl
  have hcase := pickCase_pickNext env s cpu
  generalize s.pickClass env cpu = class?, s.pickNext env cpu = r at hcase
  cases hcase with
  | deadline hd =>
    have hspec := pickDeadlineGuarded_spec env (forceNormal_of_guarded hd rfl)
    rw [hd] at hspec
    exact hspec.streak
  | game hd hg =>
    have hstreak := (pickGame_spec hg).1.streak
    rw [(passedOn_of_guarded hd).streak] at hstreak
    exact hstreak.trans hclear
  | normal hd hg hn =>
    have hstreak := (pickNormal_spec hn).1.streak
    rw [(pickGame_spec hg).1.none_frame.2.1, (passedOn_of_guarded hd).streak] at hstreak
    exact hstreak.trans hclear
  | stolen hd hg hn hw => exact (pickStolen_frame hw).1.trans (stealPoint hd hg hn).streak
  | nothing hd hg hn hw => exact (pickStolen_frame hw).1.trans (stealPoint hd hg hn).streak

/-- Only a normal pick in game mode is charged. -/
theorem pickNext_gameMode (env : SchedEnv) (s : Scheduler) (cpu : Cpu) :
    (s.pickNext env cpu).2.gameMode =
      if s.pickClass env cpu = some .normal ∧ s.gameMode.active = true then
        s.gameMode.chargeBackground
      else s.gameMode := by
  have hcase := pickCase_pickNext env s cpu
  generalize s.pickClass env cpu = class?, s.pickNext env cpu = r at hcase
  cases hcase with
  | deadline hd =>
    have hspec := pickDeadlineGuarded_spec env (forceNormal_of_guarded hd rfl)
    rw [hd] at hspec
    simpa using hspec.gameMode
  | game hd hg => simpa using (pickGame_spec hg).2.trans (passedOn_of_guarded hd).gameMode
  | normal hd hg hn =>
    have hmode := (pickNormal_spec hn).2
    rw [(pickGame_spec hg).2.trans (passedOn_of_guarded hd).gameMode] at hmode
    simpa using hmode
  | stolen hd hg hn hw =>
    simpa using (pickStolen_frame hw).2.1.trans (stealPoint hd hg hn).gameMode
  | nothing hd hg hn hw =>
    simpa using (pickStolen_frame hw).2.1.trans (stealPoint hd hg hn).gameMode

/-- A normal pick was within the budget. -/
theorem backgroundRuns_of_normal (h : s.pickClass env cpu = some .normal) :
    s.backgroundRuns = true := by
  have hcase := pickCase_pickNext env s cpu
  rw [h] at hcase
  generalize s.pickNext env cpu = r at hcase
  cases hcase with
  | normal hd hg hn =>
    have hpicked := (pickNormal_spec hn).1.picked
    rw [backgroundRuns, (pickGame_spec hg).2.trans (passedOn_of_guarded hd).gameMode] at hpicked
    by_contra hruns
    rw [← backgroundRuns, if_neg hruns] at hpicked
    cases hpicked

/-- The EDF loop finds nothing only if no task is ready and sane. -/
theorem not_ready_of_edfScan {nowUs : Nat} {l : List Task} (h : (edfScan nowUs l).1 = none) :
    ∀ t ∈ l, ¬ (runnableThisPeriod nowUs t = true ∧ t.savedStackIsSane = true) := by
  induction l with
  | nil => simp
  | cons u us ih =>
    rintro t ht ⟨hready, hsane⟩
    unfold edfScan at h
    rcases List.mem_cons.mp ht with rfl | ht
    · rw [if_pos hready, if_pos hsane] at h
      cases h
    · split at h
      · split at h
        · cases h
        · exact ih h t ht ⟨hready, hsane⟩
      · exact ih h t ht ⟨hready, hsane⟩

/-- Has one of the CPU's own classes a task to run? -/
def localRunnable (env : SchedEnv) (s : Scheduler) (cpu : Cpu) : Bool :=
  (!s.forceNormal cpu && (s.runqueues cpu).tasksDeadline.any fun t =>
      runnableThisPeriod env.nowUs t && t.savedStackIsSane) ||
    (s.runqueues cpu).tasksGame.any Task.savedStackIsSane ||
    (s.backgroundRuns && (s.runqueues cpu).tasksNormal.any Task.savedStackIsSane)

/-- A CPU goes past its own classes only when none of them has a task. -/
theorem localRunnable_of_stealPoint (hd : s.pickDeadlineGuarded env cpu = (none, s₁))
    (hg : pickGame cpu s₁ = (none, s₂)) (hn : pickNormal cpu s₂ = (none, s₃)) :
    s.localRunnable env cpu = false := by
  have hpassed := passedOn_of_guarded hd
  obtain ⟨hgame, hgameMode⟩ := pickGame_spec hg
  have hgameNone := hgame.none_frame.1
  have hnormalNone := (pickNormal_spec hn).1.none_frame.1
  rw [hpassed.game, List.find?_eq_none] at hgameNone
  have hruns : s₂.backgroundRuns = s.backgroundRuns := by
    rw [backgroundRuns, hgameMode.trans hpassed.gameMode, backgroundRuns]
  have hqueue : (s₂.runqueues cpu).tasksNormal = (s.runqueues cpu).tasksNormal := by
    obtain ⟨rest, hrest⟩ := hgame.queues
    rw [← hpassed.normal cpu, hrest, update_self]
    rfl
  rw [hruns, hqueue] at hnormalNone
  have hdeadline : s.forceNormal cpu = false →
      ∀ t ∈ (s.runqueues cpu).tasksDeadline,
        ¬ (runnableThisPeriod env.nowUs t = true ∧ t.savedStackIsSane = true) := by
    intro hforce
    have hpicked := (pickDeadlineGuarded_spec env hforce).picked
    rw [hd] at hpicked
    exact not_ready_of_edfScan (Option.map_eq_none_iff.mp hpicked.symm)
  unfold localRunnable
  simp only [Bool.or_eq_false_iff, Bool.and_eq_false_imp, Bool.not_eq_true', List.any_eq_false]
  refine ⟨⟨fun hforce t ht => ?_, fun t ht => hgameNone t ht⟩, fun hback t ht => ?_⟩
  · simpa using hdeadline hforce t ht
  · rw [if_pos hback, List.find?_eq_none] at hnormalNone
    exact hnormalNone t ht

theorem edfScan_sublist (nowUs : Nat) (l : List Task) : (edfScan nowUs l).2.Sublist l := by
  induction l with
  | nil => exact List.Sublist.refl []
  | cons t ts ih =>
    unfold edfScan
    split
    · split
      · exact List.sublist_cons_self t ts
      · exact ih.cons t
    · exact ih.cons_cons t

theorem DeadlinePick.tasksDeadline {n : Nat} (h : DeadlinePick env cpu n s r) (c : Cpu) :
    ((r.2.runqueues c).tasksDeadline).Sublist (s.runqueues c).tasksDeadline := by
  rw [h.queues]
  by_cases hc : c = cpu
  · rw [hc, update_self]
    exact edfScan_sublist env.nowUs _
  · rw [update_of_ne hc]

theorem guarded_tasksDeadline (h : s.pickDeadlineGuarded env cpu = r) (c : Cpu) :
    ((r.2.runqueues c).tasksDeadline).Sublist (s.runqueues c).tasksDeadline := by
  cases hforce : s.forceNormal cpu with
  | true =>
    rw [← h, pickDeadlineGuarded_of_force hforce]
    exact List.Sublist.refl _
  | false =>
    have hspec := pickDeadlineGuarded_spec env hforce
    rw [h] at hspec
    exact hspec.tasksDeadline c

/-- The classes below keep the deadline queues. -/
theorem ClassPick.tasksDeadline (h : ClassPick cpu put first s₁ r)
    (hput : ∀ rq rest, (put rq rest).tasksDeadline = rq.tasksDeadline) (c : Cpu) :
    (r.2.runqueues c).tasksDeadline = (s₁.runqueues c).tasksDeadline := by
  obtain ⟨rest, hrest⟩ := h.queues
  rw [hrest]
  by_cases hc : c = cpu
  · rw [hc, update_self, hput]
  · rw [update_of_ne hc]

/-- No pick adds to a deadline queue or reorders one. -/
theorem pickNext_tasksDeadline (env : SchedEnv) (s : Scheduler) (cpu c : Cpu) :
    (((s.pickNext env cpu).2.runqueues c).tasksDeadline).Sublist
      (s.runqueues c).tasksDeadline := by
  have hgame : ∀ {s₁ : Scheduler} {r : Option Task × Scheduler}, pickGame cpu s₁ = r →
      (r.2.runqueues c).tasksDeadline = (s₁.runqueues c).tasksDeadline := fun h =>
    (pickGame_spec h).1.tasksDeadline (fun _ _ => rfl) c
  have hnormal : ∀ {s₁ : Scheduler} {r : Option Task × Scheduler}, pickNormal cpu s₁ = r →
      (r.2.runqueues c).tasksDeadline = (s₁.runqueues c).tasksDeadline := fun h =>
    (pickNormal_spec h).1.tasksDeadline (fun _ _ => rfl) c
  have hcase := pickCase_pickNext env s cpu
  generalize s.pickClass env cpu = class?, s.pickNext env cpu = r at hcase
  cases hcase with
  | deadline hd => exact guarded_tasksDeadline hd c
  | game hd hg =>
    rw [hgame hg]
    exact guarded_tasksDeadline hd c
  | normal hd hg hn =>
    rw [hnormal hn, hgame hg]
    exact guarded_tasksDeadline hd c
  | stolen hd hg hn hw =>
    rw [(pickStolen_frame hw).2.2 c, hnormal hn, hgame hg]
    exact guarded_tasksDeadline hd c
  | nothing hd hg hn hw =>
    rw [(pickStolen_frame hw).2.2 c, hnormal hn, hgame hg]
    exact guarded_tasksDeadline hd c

end Whole

/-! ## The pick of a yield -/

/-- The state in which `yield_task` calls `pick_next`. -/
def yieldPoint (env : SchedEnv) (s : Scheduler) (cpu : Cpu) : Scheduler :=
  ((checkDeadlineMisses env
    { s with tick := s.tick + 1, gameMode := s.gameMode.tickOnce }).takeRunning env cpu).2

/-- Before the boot is complete, CPU 0 does not yield. -/
def yieldsEarly (env : SchedEnv) (cpu : Cpu) : Bool := cpu = 0 ∧ !env.bootComplete

theorem checkDeadlineMisses_meters (env : SchedEnv) (s : Scheduler) :
    (s.checkDeadlineMisses env).runqueues = s.runqueues ∧
      (s.checkDeadlineMisses env).gameMode = s.gameMode ∧
      (s.checkDeadlineMisses env).dlStarveStreak = s.dlStarveStreak := by
  unfold checkDeadlineMisses
  generalize List.finRange maxCpus = cpus
  induction cpus generalizing s with
  | nil => exact ⟨rfl, rfl, rfl⟩
  | cons i is ih =>
    obtain ⟨hqueues, hmode, hstreak⟩ := ih (checkMissOn env s i)
    have hone : (checkMissOn env s i).runqueues = s.runqueues ∧
        (checkMissOn env s i).gameMode = s.gameMode ∧
        (checkMissOn env s i).dlStarveStreak = s.dlStarveStreak := by
      unfold checkMissOn
      split
      · exact ⟨rfl, rfl, rfl⟩
      · split
        · exact ⟨rfl, rfl, rfl⟩
        · split
          · exact ⟨rfl, rfl, rfl⟩
          · exact ⟨rfl, rfl, rfl⟩
    exact ⟨hqueues.trans hone.1, hmode.trans hone.2.1, hstreak.trans hone.2.2⟩

/-- Up to its pick a yield only counts a tick. -/
theorem yieldPoint_meters (env : SchedEnv) (s : Scheduler) (cpu : Cpu) :
    (s.yieldPoint env cpu).runqueues = s.runqueues ∧
      (s.yieldPoint env cpu).gameMode = s.gameMode.tickOnce ∧
      (s.yieldPoint env cpu).dlStarveStreak = s.dlStarveStreak := by
  have hmeters := checkDeadlineMisses_meters env
    { s with tick := s.tick + 1, gameMode := s.gameMode.tickOnce }
  unfold yieldPoint takeRunning
  split
  · exact hmeters
  · split
    · exact hmeters
    · exact hmeters

/-- After its pick a yield leaves queues and counters alone. -/
theorem yieldTask_meters (h : yieldsEarly env cpu = false) :
    (s.yieldTask env cpu).runqueues = ((s.yieldPoint env cpu).pickNext env cpu).2.runqueues ∧
      (s.yieldTask env cpu).gameMode = ((s.yieldPoint env cpu).pickNext env cpu).2.gameMode ∧
      (s.yieldTask env cpu).dlStarveStreak =
        ((s.yieldPoint env cpu).pickNext env cpu).2.dlStarveStreak := by
  have hearly : ¬ (cpu = 0 ∧ (!env.bootComplete) = true) := by
    simpa [yieldsEarly] using h
  unfold yieldTask
  rw [if_neg hearly]
  dsimp only
  rw [← yieldPoint]
  split
  · next s' hpick =>
    rw [hpick]
    exact ⟨rfl, rfl, rfl⟩
  · next next s' hpick =>
    rw [hpick]
    split
    · exact ⟨rfl, rfl, rfl⟩
    · split
      · exact ⟨rfl, rfl, rfl⟩
      · split
        · exact ⟨rfl, rfl, rfl⟩
        · exact ⟨rfl, rfl, rfl⟩

theorem yieldTask_of_early (h : yieldsEarly env cpu = true) : s.yieldTask env cpu = s :=
  if_pos (by simpa [yieldsEarly] using h)

end Scheduler

end AthenaOS
