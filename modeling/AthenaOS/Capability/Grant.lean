import AthenaOS.Sched.State

/-!
# Grant and revoke (`kernel/src/capability.rs`, arms 4 and 5 of `kernel/src/syscall.rs`)

Both operations take the scheduler lock several times: `grant` once to read the
parent cap and once to insert the child, `revoke` once to read the grant record
and then twice per worklist entry, to remove a handle and to list its children.
Each such critical section is a definition of its own here, and the sequential
`grant` and `revoke` are composed from them.

`CapNode` is a slot of some task's table; `capAt` and `parentAt` are the cap
and the grant record at a slot, and the lemmas at the end of the file say what
each critical section does to them.
-/

namespace AthenaOS

open Function (update update_of_ne)

/-- `CapError`. -/
inductive CapError where
  | noSuchHandle
  | insufficientRights
  /-- The requested cap is not a subset of the parent. -/
  | invalidDerivation
  | noSuchTask
  | wrongFlavor
  deriving DecidableEq

/-- Error codes as userspace sees them in rax. -/
def CapError.asU64 : CapError → UInt64
  | noSuchHandle => 0xFFFFFFFFFFFFFFFE
  | insufficientRights => 0xFFFFFFFFFFFFFFFD
  | invalidDerivation => 0xFFFFFFFFFFFFFFFC
  | noSuchTask => 0xFFFFFFFFFFFFFFFB
  | wrongFlavor => 0xFFFFFFFFFFFFFFFA

/-- The registers of a syscall frame that the arms modelled here use. -/
structure SyscallRegisters where
  rax : UInt64
  rdx : UInt64
  rsi : UInt64
  rdi : UInt64
  r8 : UInt64
  r10 : UInt64
  /-- The user RIP. -/
  rcx : UInt64
  deriving DecidableEq

/-- A slot of some task's cap table. -/
abbrev CapNode := TaskId × CapHandle

/-- The slot a grant record names. -/
def GrantRecord.node (g : GrantRecord) : CapNode := (g.granterTask, g.granterHandle)

/-- The grant record that names a slot. -/
def GrantRecord.ofNode (n : CapNode) : GrantRecord := ⟨n.1, n.2⟩

namespace Scheduler

/-- `with_task_by_id` for a closure that only reads. -/
def readTaskById {α : Type} (s : Scheduler) (id : TaskId) (f : Task → α) : Option α :=
  (s.taskById id).map f

/-- `with_task_by_id` for a closure that works on the task's cap table. -/
def withCapTable {α : Type} (s : Scheduler) (id : TaskId) (f : CapTable → α × CapTable) :
    Option α × Scheduler :=
  s.withTaskById id fun t => ((f t.capTable).1, t.mapCaps fun tbl => (f tbl).2)

/-! ## Critical sections -/

/-- The first section of `grant`: read the parent cap, check the GRANT right
and check the derivation. -/
def grantCheck (s : Scheduler) (granterId : TaskId) (srcHandle : CapHandle) (derived : Cap) :
    Except CapError Unit :=
  match s.readTaskById granterId (·.capTable.get srcHandle) with
  | none => .error .noSuchTask
  | some none => .error .noSuchHandle
  | some (some parent) =>
    if !parent.rights.contains Rights.grant then
      .error .insufficientRights
    else if !isValidDerivation parent derived then
      .error .invalidDerivation
    else
      .ok ()

/-- The second section of `grant`: insert the derived cap into the target's
table. The source slot is not looked at again. -/
def grantInsert (s : Scheduler) (granterId : TaskId) (srcHandle : CapHandle)
    (targetId : TaskId) (derived : Cap) : Except CapError CapHandle × Scheduler :=
  match s.withCapTable targetId (·.insertDerived derived ⟨granterId, srcHandle⟩) with
  | (some newHandle, s') => (.ok newHandle, s')
  | (none, s') => (.error .noSuchTask, s')

/-- Grant a derived cap from `granterId`'s handle `srcHandle` to `targetId`. -/
def grant (s : Scheduler) (granterId : TaskId) (srcHandle : CapHandle) (targetId : TaskId)
    (derived : Cap) : Except CapError CapHandle × Scheduler :=
  match s.grantCheck granterId srcHandle derived with
  | .error e => (.error e, s)
  | .ok () => s.grantInsert granterId srcHandle targetId derived

/-- The first section of `revoke`: the revoker must be the recorded granter. -/
def revokeCheck (s : Scheduler) (revokerId targetId : TaskId) (targetHandle : CapHandle) :
    Except CapError Unit :=
  match s.readTaskById targetId (·.capTable.parentOf targetHandle) with
  | none => .error .noSuchTask
  | some none => .error .noSuchHandle
  | some (some parent) =>
    if parent.granterTask != revokerId then .error .insufficientRights else .ok ()

/-- The section of `revoke` that removes one handle. -/
def removeCap (s : Scheduler) (n : CapNode) : Scheduler :=
  (s.withCapTable n.1 fun tbl => ((), tbl.remove n.2)).2

/-- The worklist loop of `revoke`, with a bound on the number of rounds. The
head of the list is the end of the source's vector: `pop` takes it off, and
`extend` puts the last child found on top. -/
def revokeLoop : Nat → List CapNode → Scheduler → Option Scheduler
  | _, [], s => some s
  | 0, _ :: _, _ => none
  | fuel + 1, n :: toRevoke, s =>
    let s' := s.removeCap n
    let children := s'.findCapChildren n.1 n.2
    revokeLoop fuel (children.reverse ++ toRevoke) s'

/-- Revoke a cap from `targetId`, with everything derived from it. `none` means
that the loop needs more than `fuel` rounds. -/
def revoke (fuel : Nat) (s : Scheduler) (revokerId targetId : TaskId)
    (targetHandle : CapHandle) : Option (Except CapError Unit × Scheduler) :=
  match s.revokeCheck revokerId targetId targetHandle with
  | .error e => some (.error e, s)
  | .ok () =>
    (revokeLoop fuel [(targetId, targetHandle)] s).map fun s' => (.ok (), s')

end Scheduler

/-! ## Syscall arms -/

/-- The derived cap `SYS_CAP_GRANT` builds from the parent and the registers:
rights from rdx, and for ranges an offset from r10 and a size from r8, where a
zero size means the parent's. -/
def deriveCap (parent : Cap) (newRights : Rights) (derive0 derive1 : UInt64) : Cap :=
  match parent with
  | .channel chanId _ => .channel chanId newRights
  | .mmio startPhys len _ =>
    .mmio (satAdd64 startPhys derive0) (if derive1 = 0 then len else derive1) newRights
  | .irq vector _ => .irq vector newRights
  | .port base count _ =>
    .port (satAdd16 base derive0.toUInt16)
      (if derive1 = 0 then count else derive1.toUInt16) newRights
  | .filesystem rootInode _ => .filesystem rootInode newRights
  | .network rangeStart rangeEnd _ => .network rangeStart rangeEnd newRights
  | .gpu deviceId _ => .gpu deviceId newRights
  | .audio deviceId _ => .audio deviceId newRights
  | .camera deviceId _ => .camera deviceId newRights
  | .process targetPid _ => .process targetPid newRights
  | .cryptoKey keyId _ => .cryptoKey keyId newRights
  | .hypervisor vmId _ => .hypervisor vmId newRights
  | .attestation sessionId _ => .attestation sessionId newRights
  | .debug scope _ => .debug scope newRights
  | .system _ => .system newRights
  | .screenCapture _ => .screenCapture newRights
  | .accessibility _ => .accessibility newRights

/-- `SYS_CAP_GRANT` (arm 4), on the CPU that took the syscall. -/
def sysCapGrant (s : Scheduler) (cpu : Cpu) (regs : SyscallRegisters) :
    SyscallRegisters × Scheduler :=
  let target : TaskId := regs.rdi.toNat
  let src : CapHandle := regs.rsi.toNat
  let newRights := Rights.fromBitsTruncate regs.rdx.toUInt32.toBitVec
  match s.currentTaskId cpu with
  | none => ({ regs with rax := CapError.noSuchTask.asU64 }, s)
  | some granter =>
    match (s.readTaskById granter (·.capTable.get src)).join with
    | none => ({ regs with rax := CapError.noSuchHandle.asU64 }, s)
    | some parent =>
      match s.grant granter src target (deriveCap parent newRights regs.r10 regs.r8) with
      | (.ok newHandle, s') => ({ regs with rax := UInt64.ofNat newHandle }, s')
      | (.error e, s') => ({ regs with rax := e.asU64 }, s')

/-- `SYS_CAP_REVOKE` (arm 5), on the CPU that took the syscall. -/
def sysCapRevoke (fuel : Nat) (s : Scheduler) (cpu : Cpu) (regs : SyscallRegisters) :
    Option (SyscallRegisters × Scheduler) :=
  let target : TaskId := regs.rdi.toNat
  let handle : CapHandle := regs.rsi.toNat
  match s.currentTaskId cpu with
  | none => some ({ regs with rax := CapError.noSuchTask.asU64 }, s)
  | some revoker =>
    (s.revoke fuel revoker target handle).map fun
      | (.ok (), s') => ({ regs with rax := 0 }, s')
      | (.error e, s') => ({ regs with rax := e.asU64 }, s')

/-! ## What the sections do to the slots -/

namespace Scheduler

/-- The cap at a slot. -/
def capAt (s : Scheduler) (n : CapNode) : Option Cap := (s.capsOf n.1).bind (·.get n.2)

/-- The slot that the grant record at a slot names. -/
def parentAt (s : Scheduler) (n : CapNode) : Option CapNode :=
  (s.capsOf n.1).bind fun tbl => (tbl.parentOf n.2).map (·.node)

/-- The next handle a task's table will use. -/
def nextAt (s : Scheduler) (id : TaskId) : Option Nat := (s.capsOf id).map (·.next)

theorem capAt_eq_some {s : Scheduler} {n : CapNode} {c : Cap} :
    s.capAt n = some c ↔ ∃ tbl, s.capsOf n.1 = some tbl ∧ tbl.get n.2 = some c := by
  rw [capAt, Option.bind_eq_some_iff]

theorem parentAt_eq_some {s : Scheduler} {n p : CapNode} :
    s.parentAt n = some p ↔
      ∃ tbl, s.capsOf n.1 = some tbl ∧ tbl.parentOf n.2 = some (.ofNode p) := by
  simp only [parentAt, Option.bind_eq_some_iff, Option.map_eq_some_iff]
  constructor
  · rintro ⟨tbl, htbl, g, hg, rfl⟩
    exact ⟨tbl, htbl, hg⟩
  · rintro ⟨tbl, htbl, hg⟩
    exact ⟨tbl, htbl, _, hg, rfl⟩

/-- A slot with a grant record holds a cap. -/
theorem capAt_of_parentAt {s : Scheduler} {n p : CapNode} (h : s.parentAt n = some p) :
    ∃ c, s.capAt n = some c := by
  obtain ⟨tbl, htbl, hg⟩ := parentAt_eq_some.mp h
  obtain ⟨c, hc⟩ := CapTable.get_of_parentOf hg
  exact ⟨c, capAt_eq_some.mpr ⟨tbl, htbl, hc⟩⟩

/-- A held handle is below the next one. -/
theorem lt_of_capAt {s : Scheduler} {n : CapNode} {c : Cap} {k : Nat}
    (hc : s.capAt n = some c) (hk : s.nextAt n.1 = some k) : n.2 < k := by
  obtain ⟨tbl, htbl, hget⟩ := capAt_eq_some.mp hc
  rw [nextAt, htbl, Option.map_some, Option.some.injEq] at hk
  exact hk ▸ CapTable.lt_next_of_get hget

/-- Two schedulers with the same cap tables have the same slots. -/
theorem capAt_congr {s s' : Scheduler} (h : s'.capsOf = s.capsOf) : s'.capAt = s.capAt := by
  funext n
  rw [capAt, capAt, h]

theorem parentAt_congr {s s' : Scheduler} (h : s'.capsOf = s.capsOf) :
    s'.parentAt = s.parentAt := by
  funext n
  rw [parentAt, parentAt, h]

/-- What a closure on the cap table returns, and what it leaves behind. -/
theorem withCapTable_spec {α : Type} {s : Scheduler} (h : s.UniqueIds) (id : TaskId)
    (f : CapTable → α × CapTable) :
    (s.withCapTable id f).1 = (s.capsOf id).map (fun tbl => (f tbl).1) ∧
      (s.withCapTable id f).2.capsOf =
        update s.capsOf id ((s.capsOf id).map fun tbl => (f tbl).2) ∧
      (s.withCapTable id f).2.UniqueIds ∧ (s.withCapTable id f).2.stashIds = s.stashIds := by
  cases ht : s.taskById id with
  | none =>
    have hcaps : s.capsOf id = none := by rw [capsOf, ht, Option.map_none]
    have hw : s.withCapTable id f = (none, s) := by rw [withCapTable, withTaskById, ht]
    rw [hw, hcaps]
    refine ⟨rfl, ?_, h, rfl⟩
    rw [Option.map_none, ← hcaps, Function.update_eq_self]
  | some t =>
    have hcaps : s.capsOf id = some t.capTable := by rw [capsOf, ht, Option.map_some]
    have hw : s.withCapTable id f = (some (f t.capTable).1,
        s.updateTask id (Task.mapCaps fun tbl => (f tbl).2)) := by
      rw [withCapTable, withTaskById, ht]
    rw [hw]
    exact ⟨by rw [hcaps, Option.map_some], capsOf_updateTask h id fun tbl => (f tbl).2,
      h.updateTask id fun _ => rfl, stashIds_updateTask h id fun _ => rfl⟩

section Remove

variable {s : Scheduler} (h : s.UniqueIds) (n : CapNode)

include h

theorem removeCap_spec :
    (s.removeCap n).capsOf =
        update s.capsOf n.1 ((s.capsOf n.1).map fun tbl => tbl.remove n.2) ∧
      (s.removeCap n).UniqueIds ∧ (s.removeCap n).stashIds = s.stashIds :=
  (withCapTable_spec h n.1 fun tbl => ((), tbl.remove n.2)).2

/-- Removing a handle empties its slot and no other. -/
theorem capAt_removeCap (m : CapNode) :
    (s.removeCap n).capAt m = if m = n then none else s.capAt m := by
  obtain ⟨i, k⟩ := m
  rw [capAt, (removeCap_spec h n).1]
  by_cases hid : i = n.1
  · subst hid
    cases hc : s.capsOf n.1 with
    | none => simp [capAt, hc]
    | some tbl => simp [capAt, hc, Prod.ext_iff]
  · have hne : (i, k) ≠ n := fun heq => hid (congrArg Prod.fst heq)
    rw [update_of_ne hid, if_neg hne, capAt]

/-- Removing a handle drops its record and no other. -/
theorem parentAt_removeCap (m : CapNode) :
    (s.removeCap n).parentAt m = if m = n then none else s.parentAt m := by
  obtain ⟨i, k⟩ := m
  rw [parentAt, (removeCap_spec h n).1]
  by_cases hid : i = n.1
  · subst hid
    cases hc : s.capsOf n.1 with
    | none => simp [parentAt, hc]
    | some tbl =>
      by_cases hk : k = n.2
      · simp [hk]
      · have hne : (n.1, k) ≠ n := fun heq => hk (congrArg Prod.snd heq)
        simp [parentAt, hc, hk, if_neg hne]
  · have hne : (i, k) ≠ n := fun heq => hid (congrArg Prod.fst heq)
    rw [update_of_ne hid, if_neg hne, parentAt]

/-- Removing a handle does not bring it back into circulation. -/
theorem nextAt_removeCap (id : TaskId) : (s.removeCap n).nextAt id = s.nextAt id := by
  rw [nextAt, (removeCap_spec h n).1]
  by_cases hid : id = n.1
  · subst hid
    rw [Function.update_self, Option.map_map]
    rfl
  · rw [update_of_ne hid, nextAt]

/-- The children scan finds the records naming the slot, stash excepted. -/
theorem mem_children {c : CapNode} :
    c ∈ s.findCapChildren n.1 n.2 ↔ c.1 ∉ s.stashIds ∧ s.parentAt c = some n := by
  obtain ⟨i, k⟩ := c
  rw [mem_findCapChildren h, parentAt_eq_some]
  rfl

/-- The children scan lists no slot twice. -/
theorem nodup_children : (s.findCapChildren n.1 n.2).Nodup := by
  have hnd : s.scannedTasks.Pairwise fun t u => t.id ≠ u.id := by
    have htasks : s.tasks.Pairwise fun t u => t.id ≠ u.id := List.pairwise_map.mp h
    refine htasks.sublist ?_
    rw [tasks, scannedTasks]
    exact List.Sublist.append (List.Sublist.refl _) (List.sublist_append_right _ _)
  rw [findCapChildren, List.nodup_flatMap]
  constructor
  · intro t _
    have hkeys : t.capTable.iterParents.Pairwise fun a b => a.1 ≠ b.1 := by
      have := Std.TreeMap.distinct_keys_toList (t := t.capTable.parents)
      exact this.imp fun hab heq => hab (by simp [heq])
    refine List.Pairwise.filterMap _ ?_ hkeys
    rintro ⟨k, g⟩ ⟨k', g'⟩ hne c hc c' hc' rfl
    simp only at hc hc' hne
    split at hc
    · split at hc'
      · simp only [Option.some.injEq] at hc hc'
        exact hne (congrArg Prod.snd (hc.trans hc'.symm))
      · cases hc'
    · cases hc
  · refine hnd.imp ?_
    intro t u hne c hc hc'
    simp only [List.mem_filterMap] at hc hc'
    obtain ⟨⟨k, g⟩, _, hk⟩ := hc
    obtain ⟨⟨k', g'⟩, _, hk'⟩ := hc'
    simp only at hk hk'
    split at hk
    · split at hk'
      · simp only [Option.some.injEq] at hk hk'
        exact hne (congrArg Prod.fst (hk.trans hk'.symm))
      · cases hk'
    · cases hk

end Remove

/-- When the first section of `grant` lets a derivation through. -/
theorem grantCheck_eq_ok {s : Scheduler} {g : TaskId} {src : CapHandle} {d : Cap} :
    s.grantCheck g src d = .ok () ↔ ∃ parent, s.capAt (g, src) = some parent ∧
      parent.rights.contains Rights.grant = true ∧ isValidDerivation parent d = true := by
  have hread : s.readTaskById g (·.capTable.get src) = (s.capsOf g).map (·.get src) := by
    rw [readTaskById, capsOf, Option.map_map]
    rfl
  rw [grantCheck, hread, capAt]
  cases hc : s.capsOf g with
  | none => simp
  | some tbl =>
    cases hp : tbl.get src with
    | none => simp [hp]
    | some p => cases hr : p.rights.contains Rights.grant <;> simp [hp, hr]

/-- When the first section of `revoke` lets the revoker through. -/
theorem revokeCheck_eq_ok {s : Scheduler} {revoker : TaskId} {n : CapNode} :
    s.revokeCheck revoker n.1 n.2 = .ok () ↔
      ∃ p, s.parentAt n = some p ∧ p.1 = revoker := by
  have hread : s.readTaskById n.1 (·.capTable.parentOf n.2) =
      (s.capsOf n.1).map (·.parentOf n.2) := by
    rw [readTaskById, capsOf, Option.map_map]
    rfl
  rw [revokeCheck, hread, parentAt]
  cases hc : s.capsOf n.1 with
  | none => simp
  | some tbl =>
    cases hp : tbl.parentOf n.2 with
    | none => simp [hp]
    | some g => simp [hp, GrantRecord.node]

/-- The second section of `grant`: either the target does not exist, or it
gains one slot under a handle it never used. -/
theorem grantInsert_spec {s : Scheduler} (h : s.UniqueIds) (g : TaskId) (src : CapHandle)
    (target : TaskId) (d : Cap) :
    (s.capsOf target = none ∧ s.grantInsert g src target d = (.error .noSuchTask, s)) ∨
    ∃ tbl s', s.capsOf target = some tbl ∧ s.grantInsert g src target d = (.ok tbl.next, s') ∧
      s'.capsOf = update s.capsOf target (some (tbl.insertDerived d ⟨g, src⟩).2) ∧
      s'.UniqueIds ∧ s'.stashIds = s.stashIds := by
  obtain ⟨hres, hcaps, hids, hstash⟩ :=
    withCapTable_spec h target (·.insertDerived d ⟨g, src⟩)
  cases hc : s.capsOf target with
  | none =>
    have ht : s.taskById target = none := by
      rw [capsOf, Option.map_eq_none_iff] at hc
      exact hc
    refine Or.inl ⟨rfl, ?_⟩
    rw [grantInsert, withCapTable, withTaskById, ht]
  | some tbl =>
    rw [hc] at hres hcaps
    refine Or.inr ⟨tbl, _, rfl, ?_, hcaps, hids, hstash⟩
    unfold grantInsert
    split
    · rename_i k s' heq
      rw [heq] at hres ⊢
      rw [Option.some.inj hres]
      rfl
    · rename_i s' heq
      rw [heq] at hres
      cases hres

section Insert

variable {s s' : Scheduler} {g target : TaskId} {src : CapHandle} {d : Cap} {tbl : CapTable}
  (htbl : s.capsOf target = some tbl)
  (hcaps : s'.capsOf = update s.capsOf target (some (tbl.insertDerived d ⟨g, src⟩).2))

include htbl hcaps

/-- The slots after an insertion. -/
theorem capAt_grantInsert (n : CapNode) :
    s'.capAt n = if n = (target, tbl.next) then some d else s.capAt n := by
  obtain ⟨i, k⟩ := n
  rw [capAt, hcaps]
  by_cases hid : i = target
  · subst hid
    simp [capAt, htbl, Prod.ext_iff]
  · have hne : (i, k) ≠ (target, tbl.next) := fun heq => hid (congrArg Prod.fst heq)
    rw [update_of_ne hid, if_neg hne, capAt]

/-- The records after an insertion. -/
theorem parentAt_grantInsert (n : CapNode) :
    s'.parentAt n = if n = (target, tbl.next) then some (g, src) else s.parentAt n := by
  obtain ⟨i, k⟩ := n
  rw [parentAt, hcaps]
  by_cases hid : i = target
  · subst hid
    by_cases hk : k = tbl.next <;> simp [parentAt, htbl, hk, Prod.ext_iff, GrantRecord.node]
  · have hne : (i, k) ≠ (target, tbl.next) := fun heq => hid (congrArg Prod.fst heq)
    rw [update_of_ne hid, if_neg hne, parentAt]

theorem nextAt_grantInsert (id : TaskId) :
    s'.nextAt id = if id = target then some (tbl.next + 1) else s.nextAt id := by
  rw [nextAt, hcaps]
  by_cases hid : id = target
  · subst hid
    simp
  · rw [update_of_ne hid, if_neg hid, nextAt]

end Insert

/-- A property that every single removal keeps is kept by the worklist loop. -/
theorem revokeLoop_keeps {P : Scheduler → Prop} (hP : ∀ s n, P s → P (s.removeCap n)) :
    ∀ {fuel : Nat} {work : List CapNode} {s s' : Scheduler},
      P s → revokeLoop fuel work s = some s' → P s'
  | _, [], s, s', hs, hrun => by
    rw [revokeLoop, Option.some.injEq] at hrun
    exact hrun ▸ hs
  | 0, _ :: _, _, _, _, hrun => by cases hrun
  | fuel + 1, n :: work, s, s', hs, hrun => by
    rw [revokeLoop] at hrun
    exact revokeLoop_keeps hP (hP s n hs) hrun

end Scheduler

/-! ## What the arms do -/

/-- `SYS_CAP_GRANT` changes nothing, or inserts a checked derivation of a cap
the calling task holds. -/
theorem sysCapGrant_cases (s : Scheduler) (cpu : Cpu) (regs : SyscallRegisters) :
    (sysCapGrant s cpu regs).2 = s ∨
    ∃ g src target d, s.grantCheck g src d = .ok () ∧
      (sysCapGrant s cpu regs).2 = (s.grantInsert g src target d).2 := by
  unfold sysCapGrant
  simp only
  split
  · exact Or.inl rfl
  · rename_i granter _
    split
    · exact Or.inl rfl
    · rename_i parent _
      cases hcheck : s.grantCheck granter regs.rsi.toNat (deriveCap parent
        (Rights.fromBitsTruncate regs.rdx.toUInt32.toBitVec) regs.r10 regs.r8) with
      | error e =>
        left
        simp only [Scheduler.grant, hcheck]
      | ok _ =>
        right
        refine ⟨granter, regs.rsi.toNat, regs.rdi.toNat, _, hcheck, ?_⟩
        simp only [Scheduler.grant, hcheck]
        split
        · rename_i heq
          rw [heq]
        · rename_i heq
          rw [heq]

/-- `SYS_CAP_REVOKE` changes nothing, or runs the worklist loop. -/
theorem sysCapRevoke_cases {fuel : Nat} {s s' : Scheduler} {cpu : Cpu}
    {regs regs' : SyscallRegisters} (h : sysCapRevoke fuel s cpu regs = some (regs', s')) :
    s' = s ∨ ∃ work, Scheduler.revokeLoop fuel work s = some s' := by
  unfold sysCapRevoke at h
  simp only at h
  split at h
  · simp only [Option.some.injEq, Prod.mk.injEq] at h
    exact Or.inl h.2.symm
  · rename_i revoker _
    obtain ⟨⟨result, s₁⟩, hrev, hval⟩ := Option.map_eq_some_iff.mp h
    have hs : s₁ = s' := by
      cases result <;> exact congrArg Prod.snd hval
    subst hs
    unfold Scheduler.revoke at hrev
    split at hrev
    · simp only [Option.some.injEq, Prod.mk.injEq] at hrev
      exact Or.inl hrev.2.symm
    · obtain ⟨s₂, hloop, heq⟩ := Option.map_eq_some_iff.mp hrev
      obtain ⟨_, rfl⟩ := Prod.mk.inj heq
      exact Or.inr ⟨_, hloop⟩

end AthenaOS
