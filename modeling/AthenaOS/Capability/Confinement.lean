import AthenaOS.Lib.Machine
import AthenaOS.Capability.Grant

/-!
# Capability confinement

From tables that hold only kernel-minted caps, any sequence of `SYS_CAP_GRANT`
and `SYS_CAP_REVOKE` should leave every held cap inside one of the minted ones:
same flavor, a part of its resource, a subset of its rights.
-/

namespace AthenaOS

open Lib

/-! ## Resources -/

/-- What a cap gives access to. Mmio and port ranges are half-open, network
port ranges include both ends, and the last three flavors stand for one
facility each. -/
def Cap.resource : Cap → Set Nat
  | channel chanId _ => {chanId.toNat}
  | mmio startPhys len _ => {a | startPhys.toNat ≤ a ∧ a < startPhys.toNat + len.toNat}
  | irq vector _ => {vector.toNat}
  | port base count _ => {p | base.toNat ≤ p ∧ p < base.toNat + count.toNat}
  | filesystem rootInode _ => {rootInode.toNat}
  | network rangeStart rangeEnd _ => {p | rangeStart.toNat ≤ p ∧ p ≤ rangeEnd.toNat}
  | gpu deviceId _ | audio deviceId _ | camera deviceId _ => {deviceId.toNat}
  | process targetPid _ => {targetPid.toNat}
  | cryptoKey keyId _ => {keyId.toNat}
  | hypervisor vmId _ => {vmId.toNat}
  | attestation sessionId _ => {sessionId.toNat}
  | debug scope _ => {scope.toNat}
  | system _ | screenCapture _ | accessibility _ => Set.univ

/-- `c` gives no more than `root` does. -/
structure Cap.Within (c root : Cap) : Prop where
  flavor : c.flavorId = root.flavorId
  resource : c.resource ⊆ root.resource
  rights : c.rights.isSubsetOf root.rights = true

theorem Cap.Within.refl (c : Cap) : c.Within c :=
  ⟨rfl, Set.Subset.refl _, Rights.isSubsetOf_refl _⟩

variable {c d : Cap} {s s' s₀ : Scheduler} {g target : TaskId} {src : CapHandle}
variable {startPhys : UInt64}

theorem Cap.Within.trans {a b : Cap} (hab : a.Within b) (hbc : b.Within c) : a.Within c :=
  ⟨hab.flavor.trans hbc.flavor, hab.resource.trans hbc.resource,
    Rights.isSubsetOf_trans hab.rights hbc.rights⟩

/-- A grantable Mmio cap whose end, as `saturating_add` computes it, is
`u64::MAX`: a longer child then has the same end. -/
def Cap.GrantableToTop : Cap → Prop
  | mmio startPhys len rights =>
    rights.contains Rights.grant = true ∧ 2 ^ 64 - 1 ≤ startPhys.toNat + len.toNat
  | _ => False

/-- An Mmio range that stays below `2 ^ 64`, as `start_phys + len` without wrap. -/
def Cap.InAddressSpace : Cap → Prop
  | mmio startPhys len _ => startPhys.toNat + len.toNat < 2 ^ 64
  | _ => True

instance : DecidablePred Cap.InAddressSpace
  | .mmio startPhys len _ => inferInstanceAs (Decidable (startPhys.toNat + len.toNat < 2 ^ 64))
  | .channel .. | .irq .. | .port .. | .filesystem .. | .network .. | .gpu .. | .audio ..
  | .camera .. | .process .. | .cryptoKey .. | .hypervisor .. | .attestation .. | .debug ..
  | .system .. | .screenCapture .. | .accessibility .. => isTrue trivial

/-- **One derivation**: a child that passes the check is within its parent, and
is itself harmless if the parent was. -/
theorem within_of_isValidDerivation {parent child : Cap}
    (hgrant : parent.rights.contains Rights.grant = true) (htop : ¬ parent.GrantableToTop)
    (hvalid : isValidDerivation parent child = true) :
    child.Within parent ∧ ¬ child.GrantableToTop := by
  unfold isValidDerivation at hvalid
  split at hvalid
  case h_2 pa la ra pb lb rb =>
    -- the parent's end is not saturated, so neither is the child's
    simp only [Bool.and_eq_true, decide_eq_true_eq, ge_iff_le, UInt64.le_iff_toNat_le,
      toNat_satAdd64] at hvalid
    obtain ⟨⟨hstart, hend⟩, hrights⟩ := hvalid
    have hlt : pa.toNat + la.toNat < 2 ^ 64 - 1 := by
      by_contra hge
      exact htop ⟨hgrant, by omega⟩
    have hend' : pb.toNat + lb.toNat ≤ pa.toNat + la.toNat := by omega
    refine ⟨⟨rfl, fun a ha => ?_, hrights⟩, fun hc => ?_⟩
    · obtain ⟨h₁, h₂⟩ := ha
      exact ⟨by omega, by omega⟩
    · exact absurd hc.2 (by omega)
  case h_4 ba ca ra bb cb rb =>
    simp only [Bool.and_eq_true, decide_eq_true_eq, ge_iff_le, UInt16.le_iff_toNat_le] at hvalid
    obtain ⟨⟨hstart, hend⟩, hrights⟩ := hvalid
    refine ⟨⟨rfl, fun p hp => ?_, hrights⟩, id⟩
    obtain ⟨h₁, h₂⟩ := hp
    exact ⟨by omega, by omega⟩
  case h_6 sa ea ra sb eb rb =>
    simp only [Bool.and_eq_true, decide_eq_true_eq, ge_iff_le, UInt16.le_iff_toNat_le] at hvalid
    obtain ⟨⟨hstart, hend⟩, hrights⟩ := hvalid
    refine ⟨⟨rfl, fun p hp => ?_, hrights⟩, id⟩
    obtain ⟨h₁, h₂⟩ := hp
    exact ⟨by omega, by omega⟩
  case h_18 => cases hvalid
  case h_15 | h_16 | h_17 => exact ⟨⟨rfl, Set.Subset.refl _, hvalid⟩, id⟩
  -- the flavors with a single resource id
  all_goals
    simp only [Bool.and_eq_true, beq_iff_eq] at hvalid
    obtain ⟨rfl, hrights⟩ := hvalid
    exact ⟨⟨rfl, Set.Subset.refl _, hrights⟩, id⟩

/-! ## The runs -/

/-- A table filled by `insert_root` alone. -/
inductive CapTable.RootOnly : CapTable → Prop
  | new : RootOnly CapTable.new
  | insertRoot {t : CapTable} (c : Cap) : RootOnly t → RootOnly (t.insertRoot c).2

theorem CapTable.RootOnly.parentOf {t : CapTable} (h : RootOnly t) (k : CapHandle) :
    t.parentOf k = none := by
  induction h with
  | new => exact CapTable.parentOf_new k
  | insertRoot c _ ih => rw [CapTable.parentOf_insertRoot, ih]

/-- Where the runs start: distinct tasks with minted caps only, ids and handles
in their 64-bit types, and no Mmio range beyond the address space. -/
structure RootState (s : Scheduler) : Prop where
  ids : s.UniqueIds
  ids_lt : ∀ t ∈ s.tasks, t.id < 2 ^ 64
  next_le : ∀ t ∈ s.tasks, t.capTable.next ≤ 2 ^ 64
  roots : ∀ t ∈ s.tasks, t.capTable.RootOnly
  ranges : ∀ n c, s.capAt n = some c → c.InAddressSpace

inductive CapLabel where
  | sysCapGrant (cpu : Cpu) (regs : SyscallRegisters)
  | sysCapRevoke (cpu : Cpu) (regs : SyscallRegisters)
  /-- Tasks move between containers; their cap tables go with them. -/
  | reschedule

/-- All sequences of the two syscalls, by whichever tasks are running. -/
def capMachine (s₀ : Scheduler) : Machine Scheduler CapLabel where
  init s := s = s₀
  step s l s' :=
    match l with
    | .sysCapGrant cpu regs => s' = (sysCapGrant s cpu regs).2
    | .sysCapRevoke cpu regs => ∃ fuel regs', sysCapRevoke fuel s cpu regs = some (regs', s')
    | .reschedule => s'.capsOf = s.capsOf ∧ s'.UniqueIds

/-- Every held cap is within some initial one. -/
def Confined (s₀ s : Scheduler) : Prop :=
  ∀ n c, s.capAt n = some c → ∃ m root, s₀.capAt m = some root ∧ c.Within root

/-- Every cap whose grant record names a slot that still exists is a valid
derivation of the cap there. -/
def RecordsValid (s : Scheduler) : Prop :=
  ∀ n p parent c, s.parentAt n = some p → s.capAt p = some parent → s.capAt n = some c →
    isValidDerivation parent c = true

/-! ## The invariant -/

/-- What every run keeps. `fresh` is why a record never comes to name a
different cap: the named handle has been used up. -/
structure RecordsInv (s : Scheduler) : Prop where
  ids : s.UniqueIds
  valid : RecordsValid s
  fresh : ∀ n p k, s.parentAt n = some p → s.nextAt p.1 = some k → p.2 < k

theorem RecordsInv.congr (h : RecordsInv s) (hcaps : s'.capsOf = s.capsOf) (hids : s'.UniqueIds) :
    RecordsInv s' := by
  obtain ⟨_, hvalid, hfresh⟩ := h
  refine ⟨hids, ?_, ?_⟩
  · rw [RecordsValid, Scheduler.capAt_congr hcaps, Scheduler.parentAt_congr hcaps]
    exact hvalid
  · simp only [Scheduler.parentAt_congr hcaps, Scheduler.nextAt, hcaps]
    exact hfresh

theorem RecordsInv.removeCap {s : Scheduler} (h : RecordsInv s) (n : CapNode) :
    RecordsInv (s.removeCap n) where
  ids := (Scheduler.removeCap_spec h.ids n).2.1
  valid m p parent c hp hparent hc := by
    rw [Scheduler.parentAt_removeCap h.ids] at hp
    rw [Scheduler.capAt_removeCap h.ids] at hparent hc
    split at hp <;> split at hparent <;> split at hc <;> simp_all
    exact h.valid m p parent c hp hparent hc
  fresh m p k hp hk := by
    rw [Scheduler.parentAt_removeCap h.ids] at hp
    rw [Scheduler.nextAt_removeCap h.ids] at hk
    split at hp
    · cases hp
    · exact h.fresh m p k hp hk

theorem RecordsInv.grantInsert (h : RecordsInv s) (hcheck : s.grantCheck g src d = .ok ()) :
    RecordsInv (s.grantInsert g src target d).2 := by
  obtain ⟨parent, hparent, _, hvalid⟩ := Scheduler.grantCheck_eq_ok.mp hcheck
  rcases Scheduler.grantInsert_spec h.ids g src target d with
    ⟨_, hres⟩ | ⟨tbl, s', htbl, hres, hcaps, hids, _⟩
  · rw [hres]
    exact h
  rw [hres]
  have hnext : s.nextAt target = some tbl.next := by rw [Scheduler.nextAt, htbl, Option.map_some]
  have hcap := Scheduler.capAt_grantInsert htbl hcaps
  have hpar := Scheduler.parentAt_grantInsert htbl hcaps
  have hnxt := Scheduler.nextAt_grantInsert htbl hcaps
  -- no slot in use, and no record, names the new handle
  have hsrc : (g, src) ≠ (target, tbl.next) := by
    rintro heq
    obtain ⟨rfl, rfl⟩ := Prod.mk.inj heq
    exact absurd (Scheduler.lt_of_capAt hparent hnext) (lt_irrefl _)
  have hnamed : ∀ n p, s.parentAt n = some p → p ≠ (target, tbl.next) := by
    rintro n _ hp rfl
    exact absurd (h.fresh n _ _ hp hnext) (lt_irrefl _)
  refine ⟨hids, fun n p q c hp hq hc => ?_, fun n p k hp hk => ?_⟩
  · rw [hpar] at hp
    rw [hcap] at hq hc
    by_cases hn : n = (target, tbl.next)
    · rw [if_pos hn, Option.some.injEq] at hp hc
      rw [← hp, if_neg hsrc, hparent, Option.some.injEq] at hq
      rw [← hq, ← hc]
      exact hvalid
    · rw [if_neg hn] at hp hc
      rw [if_neg (hnamed n p hp)] at hq
      exact h.valid n p q c hp hq hc
  · rw [hpar] at hp
    have hlt : ∀ k', s.nextAt p.1 = some k' → p.2 < k' := by
      by_cases hn : n = (target, tbl.next)
      · rw [if_pos hn, Option.some.injEq] at hp
        subst hp
        exact fun k' hk' => Scheduler.lt_of_capAt hparent hk'
      · rw [if_neg hn] at hp
        exact fun k' hk' => h.fresh n p k' hp hk'
    rw [hnxt] at hk
    split at hk
    · rename_i hid
      rw [← Option.some.inj hk]
      exact Nat.lt_succ_of_lt (hlt tbl.next (by rw [hid]; exact hnext))
    · exact hlt k hk

/-- Confinement, with what the next derivation needs of the parent. -/
def Tame (s₀ s : Scheduler) : Prop :=
  ∀ n c, s.capAt n = some c →
    ¬ c.GrantableToTop ∧ ∃ m root, s₀.capAt m = some root ∧ c.Within root

theorem Tame.removeCap (hids : s.UniqueIds) (h : Tame s₀ s) (n : CapNode) :
    Tame s₀ (s.removeCap n) := by
  intro m c hc
  rw [Scheduler.capAt_removeCap hids] at hc
  split at hc
  · cases hc
  · exact h m c hc

theorem Tame.grantInsert (hids : s.UniqueIds) (h : Tame s₀ s)
    (hcheck : s.grantCheck g src d = .ok ()) : Tame s₀ (s.grantInsert g src target d).2 := by
  obtain ⟨parent, hparent, hgrant, hvalid⟩ := Scheduler.grantCheck_eq_ok.mp hcheck
  rcases Scheduler.grantInsert_spec hids g src target d with
    ⟨_, hres⟩ | ⟨tbl, s', htbl, hres, hcaps, _, _⟩
  · rw [hres]
    exact h
  rw [hres]
  intro n c hc
  rw [Scheduler.capAt_grantInsert htbl hcaps] at hc
  split at hc
  · rw [← Option.some.inj hc]
    obtain ⟨htop, m, root, hroot, hwithin⟩ := h _ parent hparent
    obtain ⟨hchild, htop'⟩ := within_of_isValidDerivation hgrant htop hvalid
    exact ⟨htop', m, root, hroot, hchild.trans hwithin⟩
  · exact h n c hc

/-- Any property of the tables kept by a single removal, by a checked insertion
and by moving tasks is kept by a step. -/
theorem capMachine_step {l : CapLabel} {P : Scheduler → Prop}
    (hremove : ∀ s n, P s → P (s.removeCap n)) (hinsert : ∀ s g src target d, P s →
      s.grantCheck g src d = .ok () → P (s.grantInsert g src target d).2)
    (hmove : ∀ s s', P s → s'.capsOf = s.capsOf → s'.UniqueIds → P s') (hs : P s)
    (hstep : (capMachine s₀).step s l s') : P s' := by
  cases l with
  | sysCapGrant cpu regs =>
    obtain rfl : s' = _ := hstep
    rcases sysCapGrant_cases s cpu regs with heq | ⟨g, src, target, d, hcheck, heq⟩
    · rw [heq]
      exact hs
    · rw [heq]
      exact hinsert s g src target d hs hcheck
  | sysCapRevoke cpu regs =>
    obtain ⟨fuel, regs', hrun⟩ := hstep
    rcases sysCapRevoke_cases hrun with rfl | ⟨work, hloop⟩
    · exact hs
    · exact Scheduler.revokeLoop_keeps hremove hs hloop
  | reschedule => exact hmove s s' hs hstep.1 hstep.2

/-- The records stay valid in every run from minted tables. -/
theorem recordsInv_of_reachable (h : RootState s₀) (hs : (capMachine s₀).Reachable s) :
    RecordsInv s := by
  refine hs.invariant ?_ ?_
  · rintro s₁ rfl
    have hnone : ∀ n p, s₁.parentAt n ≠ some p := by
      intro n p hp
      obtain ⟨tbl, htbl, hg⟩ := Scheduler.parentAt_eq_some.mp hp
      obtain ⟨t, ht, _, rfl⟩ := (Scheduler.capsOf_eq_some h.ids).mp htbl
      rw [(h.roots t ht).parentOf] at hg
      cases hg
    exact ⟨h.ids, fun n p _ _ hp => absurd hp (hnone n p), fun n p _ hp => absurd hp (hnone n p)⟩
  · intro s l s' hinv _ hstep
    exact capMachine_step (fun s n hs => hs.removeCap n)
      (fun s g src target d hs hcheck => hs.grantInsert hcheck)
      (fun s s' hs hcaps hids => hs.congr hcaps hids) hinv hstep

/-- Without a minted range that ends at the top, every run is confined. -/
theorem tame_of_reachable (h : RootState s₀)
    (htop : ∀ n c, s₀.capAt n = some c → ¬ c.GrantableToTop) (hs : (capMachine s₀).Reachable s) :
    Tame s₀ s := by
  have hinv : s.UniqueIds ∧ Tame s₀ s := by
    refine hs.invariant (I := fun s => s.UniqueIds ∧ Tame s₀ s) ?_ ?_
    · rintro s₁ rfl
      exact ⟨h.ids, fun n c hc => ⟨htop n c hc, n, c, hc, Cap.Within.refl c⟩⟩
    · intro s l s' hinv _ hstep
      refine capMachine_step (P := fun s => s.UniqueIds ∧ Tame s₀ s) ?_ ?_ ?_ hinv hstep
      · exact fun s n hs => ⟨(Scheduler.removeCap_spec hs.1 n).2.1, hs.2.removeCap hs.1 n⟩
      · intro s g src target d hs hcheck
        refine ⟨?_, hs.2.grantInsert hs.1 hcheck⟩
        rcases Scheduler.grantInsert_spec hs.1 g src target d with
          ⟨_, hres⟩ | ⟨_, _, _, hres, _, hids, _⟩
        · rw [hres]
          exact hs.1
        · rw [hres]
          exact hids
      · intro s s' hs hcaps hids
        refine ⟨hids, ?_⟩
        rw [Tame, Scheduler.capAt_congr hcaps]
        exact hs.2
  exact hinv.2

/-! ## A range that ends at the top

One grant is enough: the child starts one byte further and asks for
`u64::MAX` bytes, both ends saturate to the same value, and the check passes. -/

namespace Scheduler

/-- The same tasks with `t` running on CPU 0 and the others asleep. -/
def soloRunning (s : Scheduler) (t : Task) : Scheduler :=
  { Scheduler.new with
    currentTask := fun c => if c = 0 then some t else none
    blockedTasks := s.tasks.filter (·.id ≠ t.id) }

theorem tasks_soloRunning (s : Scheduler) (t : Task) :
    (s.soloRunning t).tasks = t :: s.tasks.filter (·.id ≠ t.id) := rfl

variable {s : Scheduler}

theorem soloRunning_uniqueIds (h : s.UniqueIds) (t : Task) : (s.soloRunning t).UniqueIds := by
  rw [UniqueIds, tasks_soloRunning, List.map_cons, List.nodup_cons]
  refine ⟨?_, h.sublist (List.filter_sublist.map _)⟩
  simp

/-- Nothing but the placement changes. -/
theorem capsOf_soloRunning (h : s.UniqueIds) {t : Task} (ht : t ∈ s.tasks) :
    (s.soloRunning t).capsOf = s.capsOf := by
  funext id
  refine Option.ext fun tbl => ?_
  rw [capsOf_eq_some h, capsOf_eq_some (soloRunning_uniqueIds h t), tasks_soloRunning]
  constructor
  · rintro ⟨u, hu, hid, htbl⟩
    rcases List.mem_cons.mp hu with rfl | hu
    · exact ⟨u, ht, hid, htbl⟩
    · exact ⟨u, (List.mem_filter.mp hu).1, hid, htbl⟩
  · rintro ⟨u, hu, hid, htbl⟩
    by_cases hne : u.id = t.id
    · exact ⟨u, List.mem_cons.mpr (Or.inl (h.eq_of_id hu ht hne)), hid, htbl⟩
    · exact ⟨u, List.mem_cons_of_mem _ (List.mem_filter.mpr ⟨hu, by simpa using hne⟩), hid, htbl⟩

end Scheduler

/-- The registers of the offending grant, from a handle to the task itself. -/
def overreachRegs (id : TaskId) (handle : CapHandle) : SyscallRegisters where
  rax := 0
  rdx := 0
  rsi := UInt64.ofNat handle
  rdi := UInt64.ofNat id
  r8 := 0xFFFFFFFFFFFFFFFF
  r10 := 1
  rcx := 0

/-- The child it asks for. -/
def overreach (startPhys : UInt64) : Cap :=
  .mmio (satAdd64 startPhys 1) 0xFFFFFFFFFFFFFFFF ⟨0⟩

theorem overreach_valid {len : UInt64} {rights : Rights}
    (htop : (Cap.mmio startPhys len rights).GrantableToTop) :
    isValidDerivation (.mmio startPhys len rights) (overreach startPhys) = true := by
  have hmax : (0xFFFFFFFFFFFFFFFF : UInt64).toNat = 2 ^ 64 - 1 := rfl
  have hone : (1 : UInt64).toNat = 1 := rfl
  have hlt := startPhys.toNat_lt
  have hnone : (⟨0⟩ : Rights).isSubsetOf rights = true := by
    rw [Rights.isSubsetOf_iff]
    intro i _ hi
    simp at hi
  have hlen : 2 ^ 64 - 1 ≤ startPhys.toNat + len.toNat := htop.2
  simp only [overreach, isValidDerivation, Bool.and_eq_true, decide_eq_true_eq, ge_iff_le,
    UInt64.le_iff_toNat_le, toNat_satAdd64, hmax, hone]
  exact ⟨⟨by omega, by omega⟩, hnone⟩

/-- The last address is in the child, and in no range of the address space. -/
theorem top_mem_overreach (startPhys : UInt64) : 2 ^ 64 - 1 ∈ (overreach startPhys).resource := by
  have hmax : (0xFFFFFFFFFFFFFFFF : UInt64).toNat = 2 ^ 64 - 1 := rfl
  have hone : (1 : UInt64).toNat = 1 := rfl
  have hlt := startPhys.toNat_lt
  show (satAdd64 startPhys 1).toNat ≤ 2 ^ 64 - 1 ∧
    2 ^ 64 - 1 < (satAdd64 startPhys 1).toNat + (0xFFFFFFFFFFFFFFFF : UInt64).toNat
  rw [toNat_satAdd64, hmax, hone]
  omega

theorem not_within_of_inAddressSpace {root : Cap} (hroot : root.InAddressSpace) :
    ¬ (overreach startPhys).Within root := by
  intro hw
  have htop := hw.resource (top_mem_overreach startPhys)
  cases root with
  | mmio start len rights =>
    obtain ⟨_, hlt⟩ := htop
    have hspace : start.toNat + len.toNat < 2 ^ 64 := hroot
    omega
  | _ => exact absurd hw.flavor (by simp [overreach, Cap.flavorId])

/-- A grantable minted range that ends at the top lets its holder escape. -/
theorem escapes_of_grantableToTop (h : RootState s₀) {n : CapNode} (hc : s₀.capAt n = some c)
    (htop : c.GrantableToTop) : ∃ s, (capMachine s₀).Reachable s ∧ ¬ Confined s₀ s := by
  obtain ⟨id, k⟩ := n
  obtain ⟨tbl, htbl, hget⟩ := Scheduler.capAt_eq_some.mp hc
  obtain ⟨t, ht, rfl, rfl⟩ := (Scheduler.capsOf_eq_some h.ids).mp htbl
  cases c with
  | mmio start len rights =>
    have hids := Scheduler.soloRunning_uniqueIds h.ids t
    have hcaps := Scheduler.capsOf_soloRunning h.ids ht
    -- the holder runs, and its registers hold its own id and handle
    have hcur : (s₀.soloRunning t).currentTaskId 0 = some t.id := rfl
    have hrdi : (overreachRegs t.id k).rdi.toNat = t.id :=
      UInt64.toNat_ofNat_of_lt' (h.ids_lt t ht)
    have hrsi : (overreachRegs t.id k).rsi.toNat = k :=
      UInt64.toNat_ofNat_of_lt' (lt_of_lt_of_le (CapTable.lt_next_of_get hget) (h.next_le t ht))
    have hsolo : (s₀.soloRunning t).capAt (t.id, k) = some (.mmio start len rights) := by
      rw [Scheduler.capAt_congr hcaps, hc]
    have hcheck : (s₀.soloRunning t).grantCheck t.id k (overreach start) = .ok () :=
      Scheduler.grantCheck_eq_ok.mpr ⟨_, hsolo, htop.1, overreach_valid htop⟩
    have htbl' : (s₀.soloRunning t).capsOf t.id = some t.capTable := by rw [hcaps, htbl]
    rcases Scheduler.grantInsert_spec hids t.id k t.id (overreach start) with
      ⟨hnone, _⟩ | ⟨tbl', s', htbl'', hres, hcaps', _, _⟩
    · rw [htbl'] at hnone
      cases hnone
    have hread : ((s₀.soloRunning t).readTaskById t.id (·.capTable.get k)).join =
        some (.mmio start len rights) := by
      have hmap : (s₀.soloRunning t).readTaskById t.id (·.capTable.get k) =
          ((s₀.soloRunning t).capsOf t.id).map (·.get k) := by
        rw [Scheduler.readTaskById, Scheduler.capsOf, Option.map_map]
        rfl
      rw [hmap, htbl', Option.map_some, hget]
      rfl
    have hstep : (sysCapGrant (s₀.soloRunning t) 0 (overreachRegs t.id k)).2 = s' := by
      have hderive : deriveCap (.mmio start len rights) (Rights.fromBitsTruncate
          (overreachRegs t.id k).rdx.toUInt32.toBitVec) (overreachRegs t.id k).r10
          (overreachRegs t.id k).r8 = overreach start := by
        have hnone : Rights.fromBitsTruncate (0 : UInt64).toUInt32.toBitVec = ⟨0⟩ := by decide
        simp only [deriveCap, overreachRegs, hnone]
        rfl
      simp only [sysCapGrant, hcur, hrdi, hrsi, hread, hderive, Scheduler.grant, hcheck, hres]
    refine ⟨s', .snoc (.snoc (.start rfl) trivial (l := .reschedule) ⟨hcaps, hids⟩) trivial
      (l := .sysCapGrant 0 (overreachRegs t.id k)) hstep.symm, fun hconf => ?_⟩
    have hnew := Scheduler.capAt_grantInsert htbl'' hcaps' (t.id, tbl'.next)
    rw [if_pos rfl] at hnew
    obtain ⟨m, root, hroot, hw⟩ := hconf _ _ hnew
    exact not_within_of_inAddressSpace (h.ranges m root hroot) hw
  | _ => exact htop.elim

/-- **Confinement**: all runs of grants and revokes stay within the minted caps,
with valid records, exactly when no grantable minted Mmio range ends at
`u64::MAX`. -/
theorem confined_iff {s₀ : Scheduler} (h : RootState s₀) :
    (∀ s, (capMachine s₀).Reachable s → Confined s₀ s ∧ RecordsValid s) ↔
      ∀ n c, s₀.capAt n = some c → ¬ c.GrantableToTop := by
  constructor
  · intro hall n c hc htop
    obtain ⟨s, hs, hesc⟩ := escapes_of_grantableToTop h hc htop
    exact hesc (hall s hs).1
  · intro htop s hs
    exact ⟨fun n c hc => (tame_of_reachable h htop hs n c hc).2,
      (recordsInv_of_reachable h hs).valid⟩

/-- One task, running on CPU 0, with one minted cap. -/
def soleHolder (c : Cap) : Scheduler :=
  { Scheduler.new with
    currentTask := fun cpu =>
      if cpu = 0 then some { Task.new 1 0x10000 none with capTable := (CapTable.new.insertRoot c).2 }
      else none }

theorem capAt_soleHolder (c : Cap) (n : CapNode) :
    (soleHolder c).capAt n = if n = (1, 1) then some c else none := by
  obtain ⟨id, k⟩ := n
  have hcaps : (soleHolder c).capsOf id =
      if id = 1 then some (CapTable.new.insertRoot c).2 else none := by
    by_cases hid : id = 1
    · subst hid
      rfl
    · rw [if_neg hid, Scheduler.capsOf, Scheduler.taskById]
      have htasks : (soleHolder c).tasks =
          [{ Task.new 1 0x10000 none with capTable := (CapTable.new.insertRoot c).2 }] := rfl
      simp [htasks, Task.new, Ne.symm hid]
  rw [Scheduler.capAt, hcaps]
  by_cases hid : id = 1
  · simp [hid, show CapTable.new.next = 1 from rfl]
  · simp [hid]

theorem rootState_soleHolder {c : Cap} (hc : c.InAddressSpace) : RootState (soleHolder c) where
  ids := List.nodup_singleton 1
  ids_lt t ht := by
    obtain rfl := List.mem_singleton.mp ht
    exact (by decide : 1 < 2 ^ 64)
  next_le t ht := by
    obtain rfl := List.mem_singleton.mp ht
    exact (by decide : 2 ≤ 2 ^ 64)
  roots t ht := by
    obtain rfl := List.mem_singleton.mp ht
    exact .insertRoot c .new
  ranges n d hd := by
    rw [capAt_soleHolder] at hd
    split at hd
    · exact Option.some.inj hd ▸ hc
    · cases hd

/-- The last page but its last byte, with every right. -/
def topRange : Cap := .mmio 0xFFFFFFFFFFFFF000 0xFFF Rights.all

/-- Its holder grants itself a cap that is within no minted one. -/
theorem grant_escapes_topRange :
    RootState (soleHolder topRange) ∧
      ¬ Confined (soleHolder topRange)
        (sysCapGrant (soleHolder topRange) 0 (overreachRegs 1 1)).2 := by
  have hroot : RootState (soleHolder topRange) := rootState_soleHolder (by decide)
  refine ⟨hroot, fun hconf => ?_⟩
  have hnew : (sysCapGrant (soleHolder topRange) 0 (overreachRegs 1 1)).2.capAt (1, 2) =
      some (overreach 0xFFFFFFFFFFFFF000) := by decide
  obtain ⟨m, root, hm, hw⟩ := hconf _ _ hnew
  exact not_within_of_inAddressSpace (hroot.ranges m root hm) hw

/-- The local APIC page, as a minted range with every right. -/
def apicRange : Cap := .mmio 0xFEE00000 0x1000 Rights.all

/-- All runs from it are confined. -/
theorem confined_iff_apic : RootState (soleHolder apicRange) ∧
    ∀ s, (capMachine (soleHolder apicRange)).Reachable s →
      Confined (soleHolder apicRange) s ∧ RecordsValid s := by
  have hroot : RootState (soleHolder apicRange) := rootState_soleHolder (by decide)
  refine ⟨hroot, (confined_iff hroot).mpr fun n c hc htop => ?_⟩
  rw [capAt_soleHolder] at hc
  split at hc
  · rw [← Option.some.inj hc] at htop
    exact absurd htop.2 (by decide)
  · cases hc

end AthenaOS
