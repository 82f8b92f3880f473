import AthenaOS.Capability.Basic
import AthenaOS.Lib.Totals

/-!
# The sandbox table and its gate (`kernel/src/sandbox.rs`)

Which tasks are sandboxed, and what the syscall edge does with it. A task that
is not in the table is trusted, and as long as the counter of sandboxed tasks is
zero the table is not even looked at; both make leaving the table the one way
out of the sandbox.
-/

namespace AthenaOS

open Lib Totals

inductive SandboxLevel where
  | trusted
  | appSandbox
  | strict
  deriving DecidableEq

/-- The permissions of a manifest. -/
structure Grants where
  network : Bool
  devices : Bool
  install : Bool
  deriving DecidableEq

def Grants.default : Grants := ⟨false, false, false⟩

/-- The syscall classes the gate looks at. -/
inductive GateClass where
  | device
  | network
  | install
  deriving DecidableEq

/-- The statics of the module. The maps are `None` before `init`. -/
structure Sandbox where
  /-- `TABLE`. -/
  table : Option (Finmap fun _ : TaskId => SandboxLevel)
  /-- `SANDBOXED_COUNT`. -/
  sandboxedCount : Nat
  /-- `GRANTS`. -/
  grants : Option (Finmap fun _ : TaskId => Grants)

namespace Sandbox

/-- The statics after `init`. -/
def init : Sandbox where
  table := some ∅
  sandboxedCount := 0
  grants := some ∅

/-- Is this level one the counter counts? -/
def isSandboxed (level : SandboxLevel) : Bool := level ≠ .trusted

def setTaskLevel (sb : Sandbox) (pid : TaskId) (level : SandboxLevel) : Sandbox :=
  match sb.table with
  | none => sb
  | some map =>
    let wasSandboxed := (map.lookup pid).any isSandboxed
    if level = .trusted then
      { sb with
        table := some (map.erase pid)
        sandboxedCount :=
          if (map.lookup pid).isSome && wasSandboxed then sb.sandboxedCount - 1
          else sb.sandboxedCount }
    else
      { sb with
        table := some (map.insert pid level)
        sandboxedCount := if !wasSandboxed then sb.sandboxedCount + 1 else sb.sandboxedCount }

def setTaskGrants (sb : Sandbox) (pid : TaskId) (grants : Grants) : Sandbox :=
  match sb.grants with
  | none => sb
  | some map =>
    { sb with
      grants := some (if grants = Grants.default then map.erase pid else map.insert pid grants) }

def grantsOf (sb : Sandbox) (pid : TaskId) : Grants :=
  (sb.grants.bind (·.lookup pid)).getD Grants.default

/-- Drop a task's entries. -/
def forgetTask (sb : Sandbox) (pid : TaskId) : Sandbox :=
  let sb :=
    match sb.table with
    | none => sb
    | some map =>
      { sb with
        table := some (map.erase pid)
        sandboxedCount :=
          if (map.lookup pid).any isSandboxed then sb.sandboxedCount - 1 else sb.sandboxedCount }
  { sb with grants := sb.grants.map (·.erase pid) }

def levelOf (sb : Sandbox) (pid : TaskId) : SandboxLevel :=
  (sb.table.bind (·.lookup pid)).getD .trusted

/-- The ways out of `gate`. -/
inductive GatePath where
  /-- No task is sandboxed. -/
  | countIsZero
  /-- This one is not. -/
  | trusted
  /-- The syscall is in no gated class. -/
  | notGated
  /-- The manifest grants the class. -/
  | granted
  /-- The policy of the level decides. -/
  | enforced (allowed : Bool)
  deriving DecidableEq

/-- `gate`; `enforce` is the check of the `PolicyEnforcer` for a level and a
class. -/
def gate (enforce : SandboxLevel → GateClass → Bool) (sb : Sandbox) (pid : TaskId)
    (gateClass : Option GateClass) : GatePath :=
  if sb.sandboxedCount = 0 then .countIsZero
  else
    let level := sb.levelOf pid
    if level = .trusted then .trusted
    else
      match gateClass with
      | none => .notGated
      | some c =>
        let granted :=
          match c with
          | .device => (sb.grantsOf pid).devices
          | .network => (sb.grantsOf pid).network
          | .install => (sb.grantsOf pid).install
        if level = .appSandbox && granted then .granted else .enforced (enforce level c)

/-! ## The counter -/

/-- How many entries are not `Trusted`. -/
def sandboxedEntries (map : Finmap fun _ : TaskId => SandboxLevel) : Nat :=
  total (fun level => if isSandboxed level then 1 else 0) map

/-- The table is there, and the counter counts its sandboxed entries. -/
def CountExact (sb : Sandbox) : Prop :=
  ∃ map, sb.table = some map ∧ sb.sandboxedCount = sandboxedEntries map

theorem countExact_init : init.CountExact := ⟨∅, rfl, rfl⟩

/-- Removing an entry, and counting it if it was sandboxed. -/
theorem sandboxedEntries_erase (map : Finmap fun _ : TaskId => SandboxLevel) (pid : TaskId) :
    sandboxedEntries (map.erase pid) =
      if (map.lookup pid).any isSandboxed then sandboxedEntries map - 1
      else sandboxedEntries map := by
  unfold sandboxedEntries
  cases hlookup : map.lookup pid with
  | none =>
    have hsame : map.erase pid = map := by
      refine Finmap.ext_lookup fun q => ?_
      by_cases hq : q = pid
      · rw [hq, Finmap.lookup_erase, hlookup]
      · rw [Finmap.lookup_erase_ne hq]
    rw [hsame]
    rfl
  | some level =>
    have herase := total_erase (f := fun level => if isSandboxed level then 1 else 0) hlookup
    cases hlevel : isSandboxed level with
    | true =>
      simp only [hlevel, if_true] at herase
      simp only [Option.any_some, hlevel, if_true]
      omega
    | false =>
      simp only [hlevel, Bool.false_eq_true, if_false, add_zero] at herase
      simp only [Option.any_some, hlevel, Bool.false_eq_true, if_false]
      exact herase

/-- Adding a sandboxed entry, and counting it if there was none. -/
theorem sandboxedEntries_insert (map : Finmap fun _ : TaskId => SandboxLevel) (pid : TaskId)
    {level : SandboxLevel} (hlevel : level ≠ .trusted) :
    sandboxedEntries (map.insert pid level) =
      if !(map.lookup pid).any isSandboxed then sandboxedEntries map + 1
      else sandboxedEntries map := by
  have hnew : isSandboxed level = true := by simpa [isSandboxed] using hlevel
  unfold sandboxedEntries
  cases hlookup : map.lookup pid with
  | none =>
    rw [total_insert_new hlookup, hnew]
    rfl
  | some old =>
    have hinsert := total_insert (f := fun level => if isSandboxed level then 1 else 0)
      (b := level) hlookup
    simp only [hnew, if_true] at hinsert
    cases hold : isSandboxed old with
    | true =>
      simp only [hold, if_true] at hinsert
      simp only [Option.any_some, hold, Bool.not_true, Bool.false_eq_true, if_false]
      omega
    | false =>
      simp only [hold, Bool.false_eq_true, if_false, add_zero] at hinsert
      simp only [Option.any_some, hold, Bool.not_false, if_true]
      exact hinsert

variable {sb : Sandbox}

theorem CountExact.setTaskLevel (h : sb.CountExact) (pid : TaskId) (level : SandboxLevel) :
    (sb.setTaskLevel pid level).CountExact := by
  obtain ⟨map, htable, hcount⟩ := h
  unfold Sandbox.setTaskLevel
  rw [htable]
  dsimp only
  split
  · refine ⟨map.erase pid, rfl, ?_⟩
    have hsome : ((map.lookup pid).isSome && (map.lookup pid).any isSandboxed) =
        (map.lookup pid).any isSandboxed := by
      cases map.lookup pid <;> rfl
    show (if (map.lookup pid).isSome && (map.lookup pid).any isSandboxed then
      sb.sandboxedCount - 1 else sb.sandboxedCount) = _
    rw [hsome, hcount, sandboxedEntries_erase]
  · next hlevel =>
    refine ⟨map.insert pid level, rfl, ?_⟩
    rw [sandboxedEntries_insert map pid hlevel, ← hcount]

theorem CountExact.setTaskGrants (h : sb.CountExact) (pid : TaskId) (grants : Grants) :
    (sb.setTaskGrants pid grants).CountExact := by
  unfold Sandbox.setTaskGrants
  split
  · exact h
  · exact h

theorem CountExact.forgetTask (h : sb.CountExact) (pid : TaskId) :
    (sb.forgetTask pid).CountExact := by
  obtain ⟨map, htable, hcount⟩ := h
  unfold Sandbox.forgetTask
  rw [htable]
  refine ⟨map.erase pid, rfl, ?_⟩
  rw [sandboxedEntries_erase, ← hcount]

/-! ## The levels -/

theorem levelOf_setTaskLevel (h : sb.CountExact) (pid : TaskId)
    (level : SandboxLevel) (q : TaskId) :
    (sb.setTaskLevel pid level).levelOf q = if q = pid then level else sb.levelOf q := by
  obtain ⟨map, htable, -⟩ := h
  unfold Sandbox.setTaskLevel levelOf
  rw [htable]
  dsimp only
  by_cases hq : q = pid
  · subst hq
    split
    · next hlevel => simp [hlevel, Finmap.lookup_erase]
    · simp
  · split
    · simp [Finmap.lookup_erase_ne hq]
    · simp [Finmap.lookup_insert_of_ne _ hq]

theorem levelOf_setTaskGrants (sb : Sandbox) (pid : TaskId) (grants : Grants) (q : TaskId) :
    (sb.setTaskGrants pid grants).levelOf q = sb.levelOf q := by
  unfold Sandbox.setTaskGrants
  split
  · rfl
  · rfl

theorem levelOf_forgetTask (sb : Sandbox) (pid q : TaskId) :
    (sb.forgetTask pid).levelOf q = if q = pid then .trusted else sb.levelOf q := by
  unfold Sandbox.forgetTask levelOf
  cases htable : sb.table with
  | none => simp [htable]
  | some map =>
    by_cases hq : q = pid
    · subst hq
      simp [Finmap.lookup_erase]
    · simp [hq, Finmap.lookup_erase_ne hq]

/-- Nobody who is sandboxed gets past the gate unseen. -/
theorem gate_of_sandboxed (h : sb.CountExact) {pid : TaskId} (hlevel : sb.levelOf pid ≠ .trusted)
    (enforce : SandboxLevel → GateClass → Bool) (gateClass : Option GateClass) :
    sb.gate enforce pid gateClass ≠ .countIsZero ∧ sb.gate enforce pid gateClass ≠ .trusted := by
  obtain ⟨map, htable, hcount⟩ := h
  have hcounted : sb.sandboxedCount ≠ 0 := by
    have hlookup : ∃ level, map.lookup pid = some level ∧ isSandboxed level = true := by
      unfold levelOf at hlevel
      rw [htable, Option.bind_some] at hlevel
      cases hentry : map.lookup pid with
      | none =>
        rw [hentry] at hlevel
        exact absurd rfl hlevel
      | some level =>
        rw [hentry] at hlevel
        exact ⟨level, rfl, by simpa [isSandboxed] using hlevel⟩
    obtain ⟨level, hentry, hsandboxed⟩ := hlookup
    have hle := le_total (f := fun level => if isSandboxed level then 1 else 0) hentry
    simp only [hsandboxed, if_true] at hle
    rw [hcount]
    exact Nat.ne_of_gt hle
  unfold gate
  rw [if_neg hcounted]
  dsimp only
  rw [if_neg hlevel]
  cases gateClass with
  | none => exact ⟨nofun, nofun⟩
  | some c =>
    dsimp only
    generalize (match c with
      | .device => (sb.grantsOf pid).devices
      | .network => (sb.grantsOf pid).network
      | .install => (sb.grantsOf pid).install) = granted
    by_cases hgranted : (decide (sb.levelOf pid = .appSandbox) && granted) = true
    · rw [if_pos hgranted]
      exact ⟨nofun, nofun⟩
    · rw [if_neg hgranted]
      exact ⟨nofun, nofun⟩

end Sandbox

end AthenaOS
