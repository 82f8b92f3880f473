import Mathlib

/-!
# Kernel update slots (`kernel/src/update_slots.rs`)

Two kernel images, of which one is active. An update goes to the other slot,
a switch makes it active, and the boot-side state machine falls back when the
active slot never reached userspace within `MAX_BOOT_RETRIES` attempts.

The two are the same (`neverBricked_iff_stagedFromGood`). `switchActive` leaves
`pending` set, and `stage` overwrites the inactive slot whatever it holds, so
staging again between a switch and the first successful boot destroys the only
image that is known to boot.
-/

namespace AthenaOS

/-- `MAX_BOOT_RETRIES`. -/
def maxBootRetries : UInt8 := 3

inductive Slot where
  | A
  | B
  deriving DecidableEq

namespace Slot

def other : Slot → Slot
  | A => B
  | B => A

end Slot

structure SlotState where
  version : String
  /-- A boot from the slot reached userspace. -/
  successful : Bool
  /-- Boot attempts since the slot was last staged or marked successful. -/
  bootCount : UInt8
  deriving DecidableEq

/-- A slot that has just been written. -/
def SlotState.fresh (version : String) : SlotState := ⟨version, false, 0⟩

structure SlotConfig where
  active : Slot
  /-- Between `stage` and the staged slot's first successful boot. -/
  pending : Bool
  slotA : SlotState
  slotB : SlotState
  deriving DecidableEq

namespace SlotConfig

def defaultConfig : SlotConfig where
  active := .A
  pending := false
  slotA := ⟨"0.1.0", true, 0⟩
  slotB := ⟨"-", false, 0⟩

/-- What a slot holds. -/
def state (cfg : SlotConfig) : Slot → SlotState
  | .A => cfg.slotA
  | .B => cfg.slotB

def activeState (cfg : SlotConfig) : SlotState := cfg.state cfg.active

/-- Overwrite one slot: what a write through `active_state_mut` or
`standby_state_mut` does. -/
def setState (cfg : SlotConfig) (s : Slot) (st : SlotState) : SlotConfig :=
  match s with
  | .A => { cfg with slotA := st }
  | .B => { cfg with slotB := st }

/-- Stage a new version into the inactive slot. -/
def stage (cfg : SlotConfig) (version : String) : SlotConfig :=
  { cfg.setState cfg.active.other (.fresh version) with pending := true }

/-- Make the staged slot active; refused when nothing is staged. -/
def switchActive (cfg : SlotConfig) : Bool × SlotConfig :=
  if !cfg.pending then (false, cfg)
  else (true, { cfg with active := cfg.active.other })

/-- `u8::saturating_add(1)`. -/
def saturatingSucc (n : UInt8) : UInt8 := if n = 255 then 255 else n + 1

/-- Count a boot attempt, and fall back (`true`) when the active slot used up
its retries without ever being marked successful. -/
def recordBootAttempt (cfg : SlotConfig) : Bool × SlotConfig :=
  let st := { cfg.activeState with bootCount := saturatingSucc cfg.activeState.bootCount }
  let cfg := cfg.setState cfg.active st
  if !st.successful && st.bootCount > maxBootRetries then
    (true, { cfg with active := cfg.active.other, pending := false })
  else (false, cfg)

/-- The running slot reached userspace. -/
def markSuccessful (cfg : SlotConfig) : SlotConfig :=
  { cfg.setState cfg.active { cfg.activeState with successful := true, bootCount := 0 } with
    pending := false }

/-! ## What an operation leaves of the two health flags -/

@[simp] theorem setState_active (cfg : SlotConfig) (s : Slot) (st : SlotState) :
    (cfg.setState s st).active = cfg.active := by
  cases s <;> rfl

@[simp] theorem state_setState_self (cfg : SlotConfig) (s : Slot) (st : SlotState) :
    (cfg.setState s st).state s = st := by
  cases s <;> rfl

theorem state_setState_of_ne (cfg : SlotConfig) {s t : Slot} (h : t ≠ s) (st : SlotState) :
    (cfg.setState s st).state t = cfg.state t := by
  cases s <;> cases t <;> first | rfl | exact absurd rfl h

/-- Some slot is known to boot. -/
def HasGood (cfg : SlotConfig) : Prop := ∃ s, (cfg.state s).successful = true

/-- Staging keeps the active slot and clears the other one, so afterwards only
the active slot can be good. -/
theorem hasGood_stage_iff (cfg : SlotConfig) (version : String) :
    (cfg.stage version).HasGood ↔ cfg.activeState.successful = true := by
  have hactive : (cfg.stage version).state cfg.active = cfg.activeState :=
    state_setState_of_ne cfg (by cases cfg.active <;> simp [Slot.other]) _
  have hother : (cfg.stage version).state cfg.active.other = .fresh version :=
    state_setState_self cfg _ _
  constructor
  · rintro ⟨s, hs⟩
    -- The two slots are the active one and the one just overwritten.
    rcases (by cases s <;> cases cfg.active <;> simp [Slot.other] :
      s = cfg.active ∨ s = cfg.active.other) with rfl | rfl
    · rwa [hactive] at hs
    · rw [hother] at hs
      exact absurd hs (by simp [SlotState.fresh])
  · intro hgood
    exact ⟨cfg.active, by rwa [hactive]⟩

variable {cfg : SlotConfig}

theorem hasGood_switchActive (h : cfg.HasGood) : cfg.switchActive.2.HasGood := by
  unfold switchActive
  split
  · exact h
  · exact h

theorem successful_recordBootAttempt (cfg : SlotConfig) (s : Slot) :
    (cfg.recordBootAttempt.2.state s).successful = (cfg.state s).successful := by
  have hcount : ∀ n, ((cfg.setState cfg.active { cfg.activeState with bootCount := n }).state
      s).successful = (cfg.state s).successful := by
    intro n
    by_cases hs : s = cfg.active
    · rw [hs, state_setState_self]
      rfl
    · rw [state_setState_of_ne cfg hs]
  unfold recordBootAttempt
  dsimp only
  split
  · exact hcount _
  · exact hcount _

theorem hasGood_recordBootAttempt (h : cfg.HasGood) : cfg.recordBootAttempt.2.HasGood := by
  obtain ⟨s, hs⟩ := h
  exact ⟨s, by rwa [successful_recordBootAttempt]⟩

theorem hasGood_markSuccessful (cfg : SlotConfig) : cfg.markSuccessful.HasGood :=
  ⟨cfg.active, congrArg SlotState.successful (state_setState_self cfg _ _)⟩

/-- A fallback leaves a slot that is not good, so it reaches a good one if
there is any. -/
theorem successful_of_fallback (hgood : cfg.HasGood) (hfall : cfg.recordBootAttempt.1 = true) :
    cfg.recordBootAttempt.2.activeState.successful = true := by
  have hbad : cfg.activeState.successful = false := by
    unfold recordBootAttempt at hfall
    dsimp only at hfall
    split at hfall
    · next hcond =>
      rw [Bool.and_eq_true, Bool.not_eq_true'] at hcond
      exact hcond.1
    · cases hfall
  have hactive : cfg.recordBootAttempt.2.active = cfg.active.other := by
    unfold recordBootAttempt at hfall ⊢
    dsimp only at hfall ⊢
    split at hfall
    · next hcond => rw [if_pos hcond, setState_active]
    · cases hfall
  rw [activeState, hactive, successful_recordBootAttempt]
  obtain ⟨s, hs⟩ := hgood
  have hne : s ≠ cfg.active := by
    rintro rfl
    exact absurd hs (by rw [show cfg.state cfg.active = cfg.activeState from rfl, hbad]; simp)
  have hother : s = cfg.active.other := by
    revert hne
    cases s <;> cases cfg.active <;> simp [Slot.other]
  rwa [← hother]

end SlotConfig

/-! ## Sequences of operations -/

inductive SlotOp where
  | stage (version : String)
  | switchActive
  | recordBootAttempt
  | markSuccessful

namespace SlotOp

/-- The configuration after an operation. -/
def apply (cfg : SlotConfig) : SlotOp → SlotConfig
  | stage version => cfg.stage version
  | switchActive => cfg.switchActive.2
  | recordBootAttempt => cfg.recordBootAttempt.2
  | markSuccessful => cfg.markSuccessful

end SlotOp

namespace SlotConfig

/-- The configuration a sequence of operations leads to. -/
def runOps (ops : List SlotOp) : SlotConfig := ops.foldl SlotOp.apply defaultConfig

theorem runOps_concat (ops : List SlotOp) (op : SlotOp) :
    runOps (ops ++ [op]) = op.apply (runOps ops) := by
  rw [runOps, List.foldl_append]
  rfl

/-- All along `ops` one of the slots is known to boot, and every fallback of
`ops` makes such a slot active. -/
def NeverBricked (ops : List SlotOp) : Prop :=
  (∀ past, past <+: ops → (runOps past).HasGood) ∧
  ∀ past, past ++ [.recordBootAttempt] <+: ops →
    (runOps past).recordBootAttempt.1 = true →
    (runOps past).recordBootAttempt.2.activeState.successful = true

/-- Every `stage` of `ops` is made while the active slot is known to boot. -/
def StagedFromGood (ops : List SlotOp) : Prop :=
  ∀ past version, past ++ [.stage version] <+: ops →
    (runOps past).activeState.successful = true

/-- The step lemma: only a `stage` can lose the last good slot. -/
theorem hasGood_apply {cfg : SlotConfig} (h : cfg.HasGood) (op : SlotOp)
    (hstage : ∀ version, op = .stage version → cfg.activeState.successful = true) :
    (op.apply cfg).HasGood := by
  cases op with
  | stage version => exact (hasGood_stage_iff cfg version).2 (hstage version rfl)
  | switchActive => exact hasGood_switchActive h
  | recordBootAttempt => exact hasGood_recordBootAttempt h
  | markSuccessful => exact hasGood_markSuccessful cfg

/-- The run lemma. -/
theorem hasGood_runOps {ops : List SlotOp} (h : StagedFromGood ops) (past : List SlotOp)
    (hpast : past <+: ops) : (runOps past).HasGood := by
  induction past using List.reverseRecOn with
  | nil => exact ⟨.A, rfl⟩
  | append_singleton past op ih =>
    have hbefore : past <+: ops := (List.prefix_append past [op]).trans hpast
    rw [runOps_concat]
    refine hasGood_apply (ih hbefore) op fun version hop => ?_
    subst hop
    exact h past version hpast

/-- A sequence of operations never bricks the machine exactly when it only
stages from a slot that is known to boot. -/
theorem neverBricked_iff_stagedFromGood (ops : List SlotOp) :
    NeverBricked ops ↔ StagedFromGood ops := by
  constructor
  · rintro ⟨hgood, -⟩ past version hpast
    have hafter := hgood _ hpast
    rw [runOps_concat] at hafter
    exact (hasGood_stage_iff _ version).1 hafter
  · intro hstage
    refine ⟨hasGood_runOps hstage, fun past hpast hfall => ?_⟩
    have hbefore : past <+: ops := (List.prefix_append past _).trans hpast
    exact successful_of_fallback (hasGood_runOps hstage past hbefore) hfall

/-- Stage, switch, and stage again before the first boot: no slot is good any
more, and after four boot attempts the machine falls back to a slot that never
booted. -/
theorem restage_bricks :
    let ops : List SlotOp := [.stage "0.2.0", .switchActive, .stage "0.3.0"]
    let boots : List SlotOp := [.recordBootAttempt, .recordBootAttempt, .recordBootAttempt]
    ¬ NeverBricked ops ∧
      (runOps (ops ++ boots)).recordBootAttempt.1 = true ∧
      (runOps (ops ++ boots)).recordBootAttempt.2.activeState.successful = false := by
  refine ⟨fun hnever => ?_, by decide, by decide⟩
  obtain ⟨s, hs⟩ := hnever.1 _ (List.prefix_refl _)
  revert hs
  cases s <;> decide

end SlotConfig

end AthenaOS
