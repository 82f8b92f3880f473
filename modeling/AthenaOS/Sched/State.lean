import AthenaOS.Sched.Task

/-!
# The scheduler's containers (`kernel/src/scheduler.rs`)

`SCHEDULER` owns every task, in one of several places: running on a CPU
(`current_task`), handed over between two stacks (`switch_stash`), queued
(`runqueues`, three classes per CPU) or asleep (`blocked_tasks`). Two functions
walk these places on behalf of the capability code, and they do not walk the
same ones:

- `Scheduler.withTaskById` scans `current_task`, `switch_stash`, the runqueues
  and `blocked_tasks`, and runs its closure on the first task with the id;
- `Scheduler.findCapChildren` scans `current_task`, the runqueues and
  `blocked_tasks`, but **not** `switch_stash`.

`Scheduler.tasks` lists the tasks in the first order; `Scheduler.capsOf` is the
cap table found there, and `capsOf_updateTask` says that an update through
`withTaskById` is an update of that map.
-/

namespace AthenaOS

open Function (update update_of_ne update_self)

/-- `gdt::MAX_CPUS`. -/
def maxCpus : Nat := 64

instance : NeZero maxCpus := ⟨by decide⟩

abbrev Cpu := Fin maxCpus

structure Runqueue where
  tasksDeadline : List Task
  tasksGame : List Task
  tasksNormal : List Task

/-- The tasks of a runqueue, in the order every scan visits them. -/
def Runqueue.tasks (rq : Runqueue) : List Task :=
  rq.tasksDeadline ++ rq.tasksGame ++ rq.tasksNormal

/-- Apply `g` to every task of a runqueue, where it is. -/
def Runqueue.map (g : Task → Task) (rq : Runqueue) : Runqueue where
  tasksDeadline := rq.tasksDeadline.map g
  tasksGame := rq.tasksGame.map g
  tasksNormal := rq.tasksNormal.map g

structure GameModeState where
  active : Bool
  gameTicks : Nat
  bgTicksAllowed : Nat
  bgTicksUsed : Nat

structure DeadlineStats where
  totalTasks : Nat
  totalInvocations : Nat
  totalMisses : Nat
  worstMissUs : Nat

structure Scheduler where
  runqueues : Cpu → Runqueue
  /-- The outgoing task of a CPU while `switch_context` runs unlocked. -/
  switchStash : Cpu → Option Task
  blockedTasks : List Task
  /-- Corpses waiting for the idle thread to free them. -/
  deadTasks : List Task
  currentTask : Cpu → Option Task
  idleTask : Cpu → Option Task
  tick : Nat
  minVruntime : Nat
  gameMode : GameModeState
  deadlineStats : DeadlineStats
  dlStarveStreak : Cpu → Nat

/-- The tasks held by a per-CPU array of slots (`iter().flatten()`). -/
def slotTasks (slots : Cpu → Option Task) : List Task :=
  (List.finRange maxCpus).filterMap slots

/-- The tasks of all runqueues, CPU by CPU. -/
def queuedTasks (rqs : Cpu → Runqueue) : List Task :=
  (List.finRange maxCpus).flatMap fun c => (rqs c).tasks

variable {slots : Cpu → Option Task} {t t' : Task} {rqs : Cpu → Runqueue} {id : TaskId}
variable {f : Task → Task} {c c' : Cpu} {rq : Runqueue}

theorem mem_slotTasks : t ∈ slotTasks slots ↔ ∃ c, slots c = some t := by
  simp [slotTasks, List.mem_filterMap]

theorem mem_queuedTasks : t ∈ queuedTasks rqs ↔ ∃ c, t ∈ (rqs c).tasks := by
  simp [queuedTasks, List.mem_flatMap]

/-! ## Updating the first task with an id -/

/-- Run `f` on the first task of a list with the given id. -/
def updateFirst (id : TaskId) (f : Task → Task) : List Task → List Task
  | [] => []
  | t :: ts => if t.id = id then f t :: ts else t :: updateFirst id f ts

/-- The first CPU whose slot holds the task with the given id. -/
def slotOf (slots : Cpu → Option Task) (id : TaskId) : Option Cpu :=
  (List.finRange maxCpus).find? fun c => (slots c).any (·.id = id)

/-- The first CPU whose runqueue holds the task with the given id. -/
def queueOf (rqs : Cpu → Runqueue) (id : TaskId) : Option Cpu :=
  (List.finRange maxCpus).find? fun c => (rqs c).tasks.any (·.id = id)

/-- Run `f` on the task with the given id in a per-CPU array of slots. -/
def updateSlot (slots : Cpu → Option Task) (c : Cpu) (f : Task → Task) : Cpu → Option Task :=
  update slots c ((slots c).map f)

/-- Run `f` on the first task with the given id in one runqueue: the deadline
class is scanned first, then the game class, then the normal class. -/
def Runqueue.updateTask (rq : Runqueue) (id : TaskId) (f : Task → Task) : Runqueue :=
  if rq.tasksDeadline.any (·.id = id) then
    { rq with tasksDeadline := updateFirst id f rq.tasksDeadline }
  else if rq.tasksGame.any (·.id = id) then
    { rq with tasksGame := updateFirst id f rq.tasksGame }
  else
    { rq with tasksNormal := updateFirst id f rq.tasksNormal }

namespace Scheduler

/-- `Scheduler::new`: no task anywhere. -/
def new : Scheduler where
  runqueues _ := ⟨[], [], []⟩
  switchStash _ := none
  blockedTasks := []
  deadTasks := []
  currentTask _ := none
  idleTask _ := none
  tick := 0
  minVruntime := 0
  gameMode := ⟨false, 0, 0, 0⟩
  deadlineStats := ⟨0, 0, 0, 0⟩
  dlStarveStreak _ := 0

/-- Every task `with_task_by_id` can find, in its scan order. -/
def tasks (s : Scheduler) : List Task :=
  slotTasks s.currentTask ++ (slotTasks s.switchStash ++
    (queuedTasks s.runqueues ++ s.blockedTasks))

/-- Every task `find_cap_children` looks at, in its scan order. -/
def scannedTasks (s : Scheduler) : List Task :=
  slotTasks s.currentTask ++ (queuedTasks s.runqueues ++ s.blockedTasks)

/-- The task `with_task_by_id` would hand to its closure. -/
def taskById (s : Scheduler) (id : TaskId) : Option Task :=
  s.tasks.find? (·.id = id)

/-- Rewrite the task `with_task_by_id` would hand to its closure. -/
def updateTask (s : Scheduler) (id : TaskId) (f : Task → Task) : Scheduler :=
  match slotOf s.currentTask id with
  | some c => { s with currentTask := updateSlot s.currentTask c f }
  | none =>
    match slotOf s.switchStash id with
    | some c => { s with switchStash := updateSlot s.switchStash c f }
    | none =>
      match queueOf s.runqueues id with
      | some c =>
        { s with
          runqueues := update s.runqueues c ((s.runqueues c).updateTask id f) }
      | none => { s with blockedTasks := updateFirst id f s.blockedTasks }

/-- `with_task_by_id`: run `f` on the first task with the id and return its
result, or `none` if no container holds the id. -/
def withTaskById {α : Type} (s : Scheduler) (id : TaskId) (f : Task → α × Task) :
    Option α × Scheduler :=
  match s.taskById id with
  | some t => (some (f t).1, s.updateTask id fun t => (f t).2)
  | none => (none, s)

/-- `find_cap_children`: the handles granted from `(owner, handle)`. The stash
is not among the containers it scans. -/
def findCapChildren (s : Scheduler) (owner : TaskId) (handle : CapHandle) :
    List (TaskId × CapHandle) :=
  s.scannedTasks.flatMap fun t =>
    t.capTable.iterParents.filterMap fun (h, p) =>
      if p.granterTask = owner ∧ p.granterHandle = handle then some (t.id, h) else none

/-- `current_task_id` on a CPU. -/
def currentTaskId (s : Scheduler) (cpu : Cpu) : Option TaskId :=
  (s.currentTask cpu).map (·.id)

/-- The cap table `with_task_by_id` finds under an id. -/
def capsOf (s : Scheduler) (id : TaskId) : Option CapTable :=
  (s.taskById id).map (·.capTable)

/-- No two resident tasks share an id (`TaskId::new` is a counter and a task
is moved between containers, never copied). -/
def UniqueIds (s : Scheduler) : Prop := (s.tasks.map (·.id)).Nodup

/-- Apply `g` to every resident task, where it is. -/
def mapTasks (g : Task → Task) (s : Scheduler) : Scheduler :=
  { s with
    currentTask := fun c => (s.currentTask c).map g
    switchStash := fun c => (s.switchStash c).map g
    runqueues := fun c => (s.runqueues c).map g
    blockedTasks := s.blockedTasks.map g }

end Scheduler

/-! ## An update by id is a map over all tasks

With unique ids, rewriting the first task found under an id is the same as
rewriting, in place, every task with that id. Everything the capability code
needs about `with_task_by_id` follows from this form. -/

/-- `f` on the tasks with the given id, the identity elsewhere. -/
def onId (id : TaskId) (f : Task → Task) (t : Task) : Task :=
  if t.id = id then f t else t

theorem map_onId_of_ne {l : List Task} (h : ∀ t ∈ l, t.id ≠ id) : l.map (onId id f) = l := by
  have hid : l.map (onId id f) = l.map fun t => t :=
    List.map_congr_left fun t ht => if_neg (h t ht)
  rw [hid, List.map_id']

theorem slot_map_onId_of_ne {o : Option Task} (h : ∀ t, o = some t → t.id ≠ id) :
    o.map (onId id f) = o := by
  cases o with
  | none => rfl
  | some t => rw [Option.map_some, onId, if_neg (h t rfl)]

/-- Rewriting the first hit rewrites every hit when ids are distinct. -/
theorem updateFirst_eq_map :
    ∀ {l : List Task}, (l.map (·.id)).Nodup → updateFirst id f l = l.map (onId id f)
  | [], _ => rfl
  | t :: ts, hnd => by
    rw [List.map_cons, List.nodup_cons] at hnd
    by_cases ht : t.id = id
    · have hne : ∀ u ∈ ts, u.id ≠ id := by
        intro u hu heq
        exact hnd.1 (List.mem_map.mpr ⟨u, hu, heq.trans ht.symm⟩)
      rw [updateFirst, if_pos ht, List.map_cons, map_onId_of_ne hne, onId, if_pos ht]
    · rw [updateFirst, if_neg ht, List.map_cons, onId, if_neg ht,
        updateFirst_eq_map hnd.2]

theorem slotOf_eq_none (h : slotOf slots id = none) (hc : slots c = some t) : t.id ≠ id := by
  have := List.find?_eq_none.mp h c (List.mem_finRange c)
  simpa [hc] using this

theorem slotOf_eq_some (h : slotOf slots id = some c) : ∃ t, slots c = some t ∧ t.id = id := by
  have := List.find?_some h
  simpa [Option.any_eq_true] using this

theorem queueOf_eq_none (h : queueOf rqs id = none) (ht : t ∈ (rqs c).tasks) : t.id ≠ id := by
  have := List.find?_eq_none.mp h c (List.mem_finRange c)
  simp only [List.any_eq_true, decide_eq_true_eq, not_exists, not_and] at this
  exact this t ht

theorem queueOf_eq_some (h : queueOf rqs id = some c) : ∃ t ∈ (rqs c).tasks, t.id = id := by
  have := List.find?_some h
  simpa [List.any_eq_true] using this

/-- Two slots of one array never hold the same id. -/
theorem slot_inj (hnd : ((slotTasks slots).map (·.id)).Nodup) (hc : slots c = some t)
    (hc' : slots c' = some t') (hid : t.id = t'.id) : c = c' := by
  by_contra hne
  rw [slotTasks, List.Nodup, List.pairwise_map, List.pairwise_filterMap] at hnd
  have : Std.Symm fun a a' : Cpu =>
      ∀ b, slots a = some b → ∀ b', slots a' = some b' → b.id ≠ b'.id :=
    ⟨fun a a' h b hb b' hb' heq => h b' hb' b hb heq.symm⟩
  exact hnd.forall (List.mem_finRange c) (List.mem_finRange c') hne t hc t' hc' hid

/-- Two runqueues never hold the same id. -/
theorem queue_inj (hnd : ((queuedTasks rqs).map (·.id)).Nodup) (hc : t ∈ (rqs c).tasks)
    (hc' : t' ∈ (rqs c').tasks) (hid : t.id = t'.id) : c = c' := by
  by_contra hne
  rw [queuedTasks, List.Nodup, List.pairwise_map, List.pairwise_flatMap] at hnd
  have : Std.Symm fun a a' : Cpu =>
      ∀ x ∈ (rqs a).tasks, ∀ y ∈ (rqs a').tasks, x.id ≠ y.id :=
    ⟨fun a a' h x hx y hy heq => h y hy x hx heq.symm⟩
  exact hnd.2.forall (List.mem_finRange c) (List.mem_finRange c') hne t hc t' hc' hid

theorem Runqueue.updateTask_eq_map (hnd : (rq.tasks.map (·.id)).Nodup) :
    rq.updateTask id f = rq.map (onId id f) := by
  rw [Runqueue.tasks, List.map_append, List.map_append, List.nodup_append,
    List.nodup_append] at hnd
  obtain ⟨⟨hd, hg, hdg⟩, hn, hdn⟩ := hnd
  -- a hit in one class rules out hits in the others
  have hne : ∀ {l l' : List Task}, (∀ a ∈ l.map (·.id), ∀ b ∈ l'.map (·.id), a ≠ b) →
      l.any (·.id = id) = true → ∀ t ∈ l', t.id ≠ id := by
    intro l l' hll hany t ht heq
    simp only [List.any_eq_true, decide_eq_true_eq] at hany
    obtain ⟨u, hu, hid⟩ := hany
    exact hll u.id (List.mem_map_of_mem hu) t.id (List.mem_map_of_mem ht)
      (hid.trans heq.symm)
  have hmiss : ∀ {l : List Task}, ¬ l.any (·.id = id) = true → ∀ t ∈ l, t.id ≠ id := by
    intro l hany t ht heq
    exact hany (List.any_eq_true.mpr ⟨t, ht, by simpa using heq⟩)
  unfold Runqueue.updateTask Runqueue.map
  split
  · rename_i hany
    have hgame := hne hdg hany
    have hnorm : ∀ t ∈ rq.tasksNormal, t.id ≠ id :=
      hne (fun a ha b hb => hdn a (List.mem_append_left _ ha) b hb) hany
    rw [updateFirst_eq_map hd, map_onId_of_ne hgame, map_onId_of_ne hnorm]
  · rename_i hdead
    split
    · rename_i hany
      have hnorm : ∀ t ∈ rq.tasksNormal, t.id ≠ id :=
        hne (fun a ha b hb => hdn a (List.mem_append_right _ ha) b hb) hany
      rw [updateFirst_eq_map hg, map_onId_of_ne (hmiss hdead), map_onId_of_ne hnorm]
    · rename_i hgame
      rw [updateFirst_eq_map hn, map_onId_of_ne (hmiss hdead), map_onId_of_ne (hmiss hgame)]

theorem slots_map_onId_of_ne (h : ∀ t ∈ slotTasks slots, t.id ≠ id) :
    (fun c => (slots c).map (onId id f)) = slots :=
  funext fun c => slot_map_onId_of_ne fun t hc => h t (mem_slotTasks.mpr ⟨c, hc⟩)

theorem Runqueue.map_onId_of_ne (h : ∀ t ∈ rq.tasks, t.id ≠ id) : rq.map (onId id f) = rq := by
  have hd : ∀ t ∈ rq.tasksDeadline, t.id ≠ id := fun t ht => h t (by simp [tasks, ht])
  have hg : ∀ t ∈ rq.tasksGame, t.id ≠ id := fun t ht => h t (by simp [tasks, ht])
  have hn : ∀ t ∈ rq.tasksNormal, t.id ≠ id := fun t ht => h t (by simp [tasks, ht])
  rw [Runqueue.map, AthenaOS.map_onId_of_ne hd, AthenaOS.map_onId_of_ne hg,
    AthenaOS.map_onId_of_ne hn]

theorem queues_map_onId_of_ne (h : ∀ t ∈ queuedTasks rqs, t.id ≠ id) :
    (fun c => (rqs c).map (onId id f)) = rqs :=
  funext fun c => Runqueue.map_onId_of_ne fun t ht => h t (mem_queuedTasks.mpr ⟨c, ht⟩)

theorem updateSlot_eq_map (hnd : ((slotTasks slots).map (·.id)).Nodup)
    (h : slotOf slots id = some c) : updateSlot slots c f = fun c => (slots c).map (onId id f) := by
  obtain ⟨t, hc, hid⟩ := slotOf_eq_some h
  funext c'
  by_cases hcc : c' = c
  · subst hcc
    rw [updateSlot, update_self, hc, Option.map_some, Option.map_some, onId,
      if_pos hid]
  · rw [updateSlot, update_of_ne hcc, slot_map_onId_of_ne]
    intro t' hc' hid'
    exact hcc (slot_inj hnd hc' hc (hid'.trans hid.symm))

theorem updateQueue_eq_map (hnd : ((queuedTasks rqs).map (·.id)).Nodup)
    (h : queueOf rqs id = some c) :
    update rqs c ((rqs c).updateTask id f) = fun c => (rqs c).map (onId id f) := by
  obtain ⟨t, hc, hid⟩ := queueOf_eq_some h
  funext c'
  by_cases hcc : c' = c
  · subst hcc
    have hndc : (((rqs c').tasks).map (·.id)).Nodup := by
      rw [queuedTasks, List.Nodup, List.pairwise_map, List.pairwise_flatMap] at hnd
      rw [List.Nodup, List.pairwise_map]
      exact hnd.1 c' (List.mem_finRange c')
    rw [update_self, Runqueue.updateTask_eq_map hndc]
  · rw [update_of_ne hcc, Runqueue.map_onId_of_ne]
    intro t' hc' hid'
    exact hcc (queue_inj hnd hc' hc (hid'.trans hid.symm))

namespace Scheduler

variable {s : Scheduler} {id : TaskId} {t : Task} {f : Task → Task}

theorem uniqueIds_parts (h : s.UniqueIds) :
    ((slotTasks s.currentTask).map (·.id)).Nodup ∧
    ((slotTasks s.switchStash).map (·.id)).Nodup ∧
    ((queuedTasks s.runqueues).map (·.id)).Nodup ∧
    (s.blockedTasks.map (·.id)).Nodup := by
  rw [UniqueIds, tasks, List.map_append, List.map_append, List.map_append,
    List.nodup_append, List.nodup_append, List.nodup_append] at h
  exact ⟨h.1, h.2.1.1, h.2.1.2.1.1, h.2.1.2.1.2.1⟩

/-- A hit in one part of the scan rules out hits in the rest of it. -/
theorem ne_of_nodup_append {l l' : List Task} (h : ((l ++ l').map (·.id)).Nodup) (ht : t ∈ l)
    (hid : t.id = id) : ∀ u ∈ l', u.id ≠ id := by
  intro u hu heq
  rw [List.map_append, List.nodup_append] at h
  exact h.2.2 t.id (List.mem_map_of_mem ht) u.id (List.mem_map_of_mem hu)
    (hid.trans heq.symm)

/-- **An update by id is a map**: with unique ids, `with_task_by_id` rewrites
in place exactly the tasks with that id. -/
theorem updateTask_eq_mapTasks (h : s.UniqueIds) (id : TaskId) (f : Task → Task) :
    s.updateTask id f = s.mapTasks (onId id f) := by
  obtain ⟨hcur, hstash, hrq, hblk⟩ := uniqueIds_parts h
  have hrest : ((slotTasks s.switchStash ++
      (queuedTasks s.runqueues ++ s.blockedTasks)).map (·.id)).Nodup := by
    rw [UniqueIds, tasks, List.map_append, List.nodup_append] at h
    exact h.2.1
  have hrest' : ((queuedTasks s.runqueues ++ s.blockedTasks).map (·.id)).Nodup := by
    rw [List.map_append, List.nodup_append] at hrest
    exact hrest.2.1
  unfold updateTask mapTasks
  split
  · -- running on some CPU
    rename_i c hc
    obtain ⟨t, ht, hid⟩ := slotOf_eq_some hc
    have hne := ne_of_nodup_append h (mem_slotTasks.mpr ⟨c, ht⟩) hid
    have hs' : (fun c => (s.switchStash c).map (onId id f)) = s.switchStash :=
      slots_map_onId_of_ne fun u hu => hne u (List.mem_append_left _ hu)
    have hq' : (fun c => (s.runqueues c).map (onId id f)) = s.runqueues :=
      queues_map_onId_of_ne fun u hu => hne u (by simp [hu])
    rw [updateSlot_eq_map hcur hc, hs', hq', map_onId_of_ne]
    exact fun u hu => hne u (by simp [hu])
  · rename_i hcn
    have hcn' : (fun c => (s.currentTask c).map (onId id f)) = s.currentTask := by
      refine slots_map_onId_of_ne fun t ht => ?_
      obtain ⟨c, hc⟩ := mem_slotTasks.mp ht
      exact slotOf_eq_none hcn hc
    split
    · -- between two stacks
      rename_i c hc
      obtain ⟨t, ht, hid⟩ := slotOf_eq_some hc
      have hne := ne_of_nodup_append hrest (mem_slotTasks.mpr ⟨c, ht⟩) hid
      have hq' : (fun c => (s.runqueues c).map (onId id f)) = s.runqueues :=
        queues_map_onId_of_ne fun u hu => hne u (List.mem_append_left _ hu)
      rw [hcn', updateSlot_eq_map hstash hc, hq', map_onId_of_ne]
      exact fun u hu => hne u (by simp [hu])
    · rename_i hsn
      have hsn' : (fun c => (s.switchStash c).map (onId id f)) = s.switchStash := by
        refine slots_map_onId_of_ne fun t ht => ?_
        obtain ⟨c, hc⟩ := mem_slotTasks.mp ht
        exact slotOf_eq_none hsn hc
      split
      · -- queued
        rename_i c hc
        obtain ⟨t, ht, hid⟩ := queueOf_eq_some hc
        have hne := ne_of_nodup_append hrest' (mem_queuedTasks.mpr ⟨c, ht⟩) hid
        rw [hcn', hsn', updateQueue_eq_map hrq hc, map_onId_of_ne hne]
      · -- asleep, or not there at all
        rename_i hqn
        have hqn' : (fun c => (s.runqueues c).map (onId id f)) = s.runqueues := by
          refine queues_map_onId_of_ne fun t ht => ?_
          obtain ⟨c, hc⟩ := mem_queuedTasks.mp ht
          exact queueOf_eq_none hqn hc
        rw [hcn', hsn', hqn', updateFirst_eq_map hblk]

/-! ### Consequences for the scans -/

theorem slotTasks_map (slots : Cpu → Option Task) (g : Task → Task) :
    slotTasks (fun c => (slots c).map g) = (slotTasks slots).map g := by
  rw [slotTasks, slotTasks, List.map_filterMap]

theorem queuedTasks_map (rqs : Cpu → Runqueue) (g : Task → Task) :
    queuedTasks (fun c => (rqs c).map g) = (queuedTasks rqs).map g := by
  rw [queuedTasks, queuedTasks, List.map_flatMap]
  simp [Runqueue.tasks, Runqueue.map]

@[simp] theorem tasks_mapTasks (g : Task → Task) (s : Scheduler) :
    (s.mapTasks g).tasks = s.tasks.map g := by
  simp [tasks, mapTasks, slotTasks_map, queuedTasks_map]

@[simp] theorem slotTasks_switchStash_mapTasks (g : Task → Task) (s : Scheduler) :
    slotTasks (s.mapTasks g).switchStash = (slotTasks s.switchStash).map g :=
  slotTasks_map s.switchStash g

/-- The scan of `with_task_by_id` is the scan of `find_cap_children` and the
stash. -/
theorem mem_tasks : t ∈ s.tasks ↔ t ∈ s.scannedTasks ∨ t ∈ slotTasks s.switchStash := by
  simp only [tasks, scannedTasks, List.mem_append]
  tauto

/-- The task with a given id is the same task wherever a scan finds it. -/
theorem UniqueIds.eq_of_id (h : s.UniqueIds) {u : Task} (ht : t ∈ s.tasks) (hu : u ∈ s.tasks)
    (hid : t.id = u.id) : t = u :=
  List.inj_on_of_nodup_map h ht hu hid

theorem taskById_eq_some (h : s.UniqueIds) : s.taskById id = some t ↔ t ∈ s.tasks ∧ t.id = id := by
  constructor
  · intro hf
    exact ⟨List.mem_of_find?_eq_some hf, by simpa using List.find?_some hf⟩
  · rintro ⟨ht, hid⟩
    cases hf : s.taskById id with
    | none =>
      have := List.find?_eq_none.mp hf t ht
      simp [hid] at this
    | some u =>
      have hu := List.mem_of_find?_eq_some hf
      have hid' : u.id = id := by simpa using List.find?_some hf
      rw [h.eq_of_id hu ht (hid'.trans hid.symm)]

/-- The ids are where they were after an update that keeps them. -/
theorem UniqueIds.mapTasks (h : s.UniqueIds) {g : Task → Task} (hg : ∀ t, (g t).id = t.id) :
    (s.mapTasks g).UniqueIds := by
  rw [UniqueIds, tasks_mapTasks, List.map_map]
  have : ((·.id) ∘ g : Task → TaskId) = (·.id) := funext hg
  rw [this]
  exact h

theorem onId_id (hf : ∀ t, (f t).id = t.id) (t : Task) : (onId id f t).id = t.id := by
  unfold onId
  split
  · exact hf t
  · rfl

/-! ### The cap tables by id -/

theorem capsOf_eq_some (h : s.UniqueIds) {tbl : CapTable} :
    s.capsOf id = some tbl ↔ ∃ t ∈ s.tasks, t.id = id ∧ t.capTable = tbl := by
  rw [capsOf, Option.map_eq_some_iff]
  constructor
  · rintro ⟨t, ht, rfl⟩
    obtain ⟨hmem, hid⟩ := (taskById_eq_some h).mp ht
    exact ⟨t, hmem, hid, rfl⟩
  · rintro ⟨t, hmem, hid, rfl⟩
    exact ⟨t, (taskById_eq_some h).mpr ⟨hmem, hid⟩, rfl⟩

/-- Finding by id after an in-place update. -/
theorem taskById_mapTasks (g : Task → Task) (hg : ∀ t, (g t).id = t.id) (id : TaskId) :
    (s.mapTasks g).taskById id = (s.taskById id).map g := by
  rw [taskById, tasks_mapTasks, List.find?_map]
  have : ((fun t : Task => decide (t.id = id)) ∘ g) = fun t => decide (t.id = id) :=
    funext fun t => by simp [hg t]
  rw [this]
  rfl

/-- Rewriting one task's cap table updates the map of cap tables at its id. -/
theorem capsOf_updateTask (h : s.UniqueIds) (id : TaskId) (f : CapTable → CapTable) :
    (s.updateTask id (Task.mapCaps f)).capsOf = update s.capsOf id ((s.capsOf id).map f) := by
  have hid : ∀ t, (Task.mapCaps f t).id = t.id := fun _ => rfl
  funext id'
  rw [updateTask_eq_mapTasks h, capsOf, taskById_mapTasks _ (onId_id hid), Option.map_map]
  by_cases hne : id' = id
  · subst hne
    rw [update_self, capsOf, Option.map_map]
    cases ht : s.taskById id' with
    | none => rfl
    | some t =>
      have heq : t.id = id' := ((taskById_eq_some h).mp ht).2
      simp [onId, heq, Task.mapCaps]
  · rw [update_of_ne hne, capsOf]
    cases ht : s.taskById id' with
    | none => rfl
    | some t =>
      have heq : t.id = id' := ((taskById_eq_some h).mp ht).2
      have hne' : ¬ t.id = id := fun hc => hne (heq.symm.trans hc)
      simp [onId, hne']

theorem UniqueIds.updateTask (h : s.UniqueIds) (id : TaskId) (hf : ∀ t, (f t).id = t.id) :
    (s.updateTask id f).UniqueIds := by
  rw [updateTask_eq_mapTasks h]
  exact h.mapTasks (onId_id hf)

/-- The ids in the middle of a context switch. -/
def stashIds (s : Scheduler) : List TaskId := (slotTasks s.switchStash).map (·.id)

theorem stashIds_updateTask (h : s.UniqueIds) (id : TaskId) (hf : ∀ t, (f t).id = t.id) :
    (s.updateTask id f).stashIds = s.stashIds := by
  rw [updateTask_eq_mapTasks h, stashIds, slotTasks_switchStash_mapTasks, List.map_map,
    stashIds]
  exact List.map_congr_left fun t _ => onId_id hf t

/-- A task is scanned for children exactly when it is not in the stash. -/
theorem mem_scannedTasks (h : s.UniqueIds) :
    t ∈ s.scannedTasks ↔ t ∈ s.tasks ∧ t.id ∉ s.stashIds := by
  rw [mem_tasks]
  constructor
  · intro ht
    refine ⟨Or.inl ht, fun hid => ?_⟩
    obtain ⟨u, hu, huid⟩ := List.mem_map.mp hid
    have hut : u = t := h.eq_of_id (mem_tasks.mpr (Or.inr hu)) (mem_tasks.mpr (Or.inl ht)) huid
    subst hut
    -- `u` would be listed twice: once in the stash and once elsewhere
    have hnd : (s.tasks).Nodup := List.Nodup.of_map _ h
    rw [tasks, List.nodup_append, List.nodup_append] at hnd
    rw [scannedTasks, List.mem_append] at ht
    rcases ht with ht | ht
    · exact hnd.2.2 u ht u (List.mem_append_left _ hu) rfl
    · exact hnd.2.1.2.2 u hu u ht rfl
  · rintro ⟨ht | ht, hid⟩
    · exact ht
    · exact absurd (List.mem_map_of_mem ht) hid

/-- What `find_cap_children` finds: the records naming `(owner, handle)` in the
tables of tasks that are not mid-switch. -/
theorem mem_findCapChildren (h : s.UniqueIds) {owner : TaskId} {handle k : CapHandle} :
    (id, k) ∈ s.findCapChildren owner handle ↔
      id ∉ s.stashIds ∧ ∃ tbl, s.capsOf id = some tbl ∧
        tbl.parentOf k = some ⟨owner, handle⟩ := by
  simp only [findCapChildren, List.mem_flatMap, List.mem_filterMap, mem_scannedTasks h]
  constructor
  · rintro ⟨t, ⟨ht, hstash⟩, ⟨k', g⟩, hmem, hif⟩
    split at hif
    · rename_i hg
      simp only [Option.some.injEq, Prod.mk.injEq] at hif
      obtain ⟨rfl, rfl⟩ := hif
      refine ⟨hstash, t.capTable, (capsOf_eq_some h).mpr ⟨t, ht, rfl, rfl⟩, ?_⟩
      rw [CapTable.mem_iterParents.mp hmem]
      obtain ⟨h₁, h₂⟩ := hg
      cases g
      simp_all
    · cases hif
  · rintro ⟨hstash, tbl, hcaps, hpar⟩
    obtain ⟨t, ht, rfl, rfl⟩ := (capsOf_eq_some h).mp hcaps
    exact ⟨t, ⟨ht, hstash⟩, (k, ⟨owner, handle⟩), CapTable.mem_iterParents.mpr hpar, by simp⟩

end Scheduler

end AthenaOS
