import AthenaOS.Wasm.Interpreter

/-!
# Containment of untrusted code

What holds of every run of `call_export`, whatever the module's bytes: the code is never
validated, so nothing here may rest on it.
-/

namespace AthenaOS.Wasm

open Lib Lib.Wire Lib.Fallible

variable {σ : Type} {inst : Instance} {host : Host σ} {I : World σ → Prop}

/-! ## Properties kept by a run -/

/-- `I` survives every primitive of the interpreter. An import is called only where it is
declared and with as many arguments as its type has parameters. -/
structure Kept (inst : Instance) (host : Host σ) (I : World σ → Prop) : Prop where
  fetch : ∀ code pos, Preserves I (fetch code pos)
  store : ∀ ea bytes, Preserves I (memStore ea bytes)
  grow : ∀ delta, Preserves I (memGrow delta)
  enter : Preserves I enter
  leave : Preserves I leave
  callImport : ∀ (fi : Nat) args imp ftype, inst.imports[fi]? = some imp →
    inst.types[imp.typeIndex]? = some ftype → args.length = ftype.params.length →
    Preserves I (callImport host fi args)

theorem preserves_pop (fr : Frame) : Preserves I (pop fr) := by
  rw [pop]
  split
  · exact .pure
  · exact .fail

theorem preserves_memLoad (ea n : Nat) : Preserves I (memLoad ea n) := by
  refine ⟨fun w hw => ?_⟩
  rw [memLoad]
  split
  · exact hw
  · exact hw

theorem preserves_memArg (code : ByteString) (pos : Nat) : Preserves I (memArg code pos) :=
  .bind .ofOption fun _ => Preserves.ofOption

theorem preserves_memIndex (code : ByteString) (pos : Nat) : Preserves I (memIndex code pos) := by
  rw [memIndex]
  split
  · exact .ite .pure Preserves.fail
  · exact .fail

theorem preserves_blockType (code : ByteString) (pos : Nat) : Preserves I (blockType code pos) := by
  rw [blockType]
  split
  · exact .fail
  · exact .ite .fail Preserves.pure

/-- A plain instruction touches the world only through the memory. -/
theorem Kept.plain (h : Kept inst host I) (code : ByteString) (op pos : Nat) (fr : Frame) :
    Preserves I (plain code op pos fr) := by
  unfold Wasm.plain
  split
  · exact .pure
  · exact .bind (preserves_pop _) fun _ => .pure
  · refine .bind (preserves_pop _) fun _ => ?_
    refine .bind (preserves_pop _) fun _ => ?_
    exact .bind (preserves_pop _) fun _ => .pure
  · refine .bind .ofOption fun _ => ?_
    exact .bind .ofOption fun _ => .pure
  · refine .bind .ofOption fun _ => ?_
    refine .bind (preserves_pop _) fun _ => ?_
    exact .ite .pure Preserves.fail
  · refine .bind .ofOption fun _ => ?_
    refine .bind .ofOption fun _ => ?_
    exact .ite .pure Preserves.fail
  -- two loads, two stores
  iterate 2
    · refine .bind (preserves_memArg _ _) fun _ => ?_
      refine .bind (preserves_pop _) fun _ => ?_
      exact .bind (preserves_memLoad _ _) fun _ => .pure
  iterate 2
    · refine .bind (preserves_memArg _ _) fun _ => ?_
      refine .bind (preserves_pop _) fun _ => ?_
      refine .bind (preserves_pop _) fun _ => ?_
      exact .bind (h.store _ _) fun _ => .pure
  · refine .bind (preserves_memIndex _ _) fun _ => ?_
    exact .bind .get fun _ => .pure
  · refine .bind (preserves_memIndex _ _) fun _ => ?_
    refine .bind (preserves_pop _) fun _ => ?_
    exact .bind (h.grow _) fun _ => .pure
  · exact .bind .ofOption fun _ => .pure
  · exact .bind .ofOption fun _ => .pure

/-- Every body run by `self` keeps `I`. -/
def KeepsBody (I : World σ → Prop) (self : Body σ) : Prop :=
  ∀ code start isLoop pos fr, Preserves I (self code start isLoop pos fr)

/-- The signature of an import is the one it declares. -/
theorem funcType_import {fi : Nat} {ftype : FuncType} (h : inst.funcType fi = some ftype)
    (hfi : fi < inst.imports.length) :
    ∃ imp, inst.imports[fi]? = some imp ∧ inst.types[imp.typeIndex]? = some ftype := by
  rw [Instance.funcType, if_pos hfi, List.getElem?_eq_getElem hfi] at h
  exact ⟨inst.imports[fi], List.getElem?_eq_getElem hfi, h⟩

variable {self : Body σ} {fuel gas bits pos shift p rounds rounds' : Nat} {bytes code : ByteString}

theorem Kept.invokeWith (h : Kept inst host I) (hself : KeepsBody I self) (fi : Nat)
    (stack : List I32) : Preserves I (invokeWith inst host self fi stack) := by
  refine Spec.bind (Q := fun ftype w => inst.funcType fi = some ftype ∧ I w)
    (Spec.ofOption (fun _ _ hf hw => ⟨hf, hw⟩) fun _ _ hw => hw) fun ftype => ?_
  refine Spec.ite (fun _ => Spec.fail fun _ hw => hw.2) fun hparams => ?_
  refine Spec.ite (fun hfi => ?_) fun _ => ?_
  · refine ⟨fun w hw => ?_⟩
    obtain ⟨imp, himp, hftype⟩ := funcType_import hw.1 hfi
    have hargs : (stack.take ftype.params.length).reverse.length = ftype.params.length := by
      rw [List.length_reverse, List.length_take]
      omega
    refine (Preserves.bind (h.callImport fi _ imp ftype himp hftype hargs) fun results => ?_).run w hw.2
    exact Preserves.ite Preserves.fail Preserves.pure
  · refine Spec.pre (P := I) ?_ fun _ hw => hw.2
    refine Preserves.bind h.enter fun _ => ?_
    refine Preserves.bind .ofOption fun body => ?_
    refine Preserves.bind (hself _ _ _ _ _) fun ⟨stop, fr⟩ => ?_
    refine Preserves.bind h.leave fun _ => ?_
    cases stop with
    | ended _ => exact .ite .fail Preserves.pure
    | elseAt _ => exact .fail
    | branch _ => exact .fail
    | returned => exact .ite .fail Preserves.pure

theorem KeepsBody.branchTo (hself : KeepsBody I self) (code : ByteString) (start : Nat)
    (isLoop : Bool) (l : Nat) (fr : Frame) :
    Preserves I (branchTo self code start isLoop l fr) := by
  refine .ite (.ite (hself _ _ _ _ _) ?_) Preserves.pure
  exact .bind .ofOption fun _ => .pure

theorem KeepsBody.resume (hself : KeepsBody I self) (code : ByteString) (start : Nat)
    (isLoop : Bool) (onElse : Nat → Option Nat) (r : Stop × Frame) :
    Preserves I (resume self code start isLoop onElse r) := by
  obtain ⟨stop, fr⟩ := r
  cases stop with
  | ended pos => exact hself _ _ _ _ _
  | elseAt pos => exact .bind .ofOption fun _ => hself _ _ _ _ _
  | branch n => exact hself.branchTo _ _ _ _ _
  | returned => exact .pure

theorem Kept.execute (h : Kept inst host I) (hself : KeepsBody I self) (code : ByteString)
    (start : Nat) (isLoop : Bool) (op pos : Nat) (fr : Frame) :
    Preserves I (execute inst host self code start isLoop op pos fr) := by
  unfold Wasm.execute
  split
  · exact .fail
  · exact .pure
  · exact .pure
  · exact .pure
  · exact .bind .ofOption fun _ => hself.branchTo _ _ _ _ _
  · refine .bind .ofOption fun _ => ?_
    refine .bind (preserves_pop _) fun _ => ?_
    exact .ite (hself.branchTo _ _ _ _ _) (hself _ _ _ _ _)
  · refine .bind (preserves_blockType _ _) fun _ => ?_
    exact .bind (hself _ _ _ _ _) fun _ => hself.resume _ _ _ _ _
  · refine .bind (preserves_blockType _ _) fun _ => ?_
    exact .bind (hself _ _ _ _ _) fun _ => hself.resume _ _ _ _ _
  · refine .bind (preserves_blockType _ _) fun _ => ?_
    refine .bind (preserves_pop _) fun _ => ?_
    refine .ite ?_ ?_
    · exact .bind (hself _ _ _ _ _) fun _ => hself.resume _ _ _ _ _
    · refine .bind .ofOption fun _ => ?_
      refine .ite ?_ (hself _ _ _ _ _)
      exact .bind (hself _ _ _ _ _) fun _ => hself.resume _ _ _ _ _
  · refine .bind .ofOption fun _ => ?_
    exact .bind (h.invokeWith hself _ _) fun _ => hself _ _ _ _ _
  · exact .bind (h.plain _ _ _ _) fun _ => hself _ _ _ _ _

/-- One round keeps what every primitive keeps. -/
theorem Kept.round (h : Kept inst host I) (hself : KeepsBody I self) :
    KeepsBody I (round inst host self) := fun code _ _ pos _ =>
  .bind (h.fetch code pos) fun _ => h.execute hself _ _ _ _ _ _

/-- **A whole run** keeps it. -/
theorem Kept.runBody (h : Kept inst host I) (gas : Nat) : KeepsBody I (runBody inst host gas) := by
  induction gas with
  | zero => exact fun _ _ _ _ _ => Preserves.fail
  | succ gas ih => exact h.round ih

theorem Kept.callExportWith (h : Kept inst host I) (gas : Nat) (name : String) (args : List I32)
    {s : σ} (hinit : I ⟨inst.initialVm fuel, s, []⟩) :
    I (callExportWith inst host gas name args s fuel).2 := by
  refine Preserves.snd ?_ hinit
  refine .bind .ofOption fun exported => ?_
  refine .bind .ofOption fun ftype => ?_
  refine .ite .fail ?_
  refine .bind (h.invokeWith (h.runBody gas) _ _) fun stack => ?_
  exact .ite .fail Preserves.pure

/-! ## The recursion bound -/

/-- Fuel never grows. -/
theorem kept_fuel (inst : Instance) (host : Host σ) (n : Nat) :
    Kept inst host fun w => w.vm.fuel ≤ n where
  fetch code pos := by
    refine ⟨fun w hw => ?_⟩
    rw [fetch]
    split
    · exact hw
    · dsimp only
      split
      · exact Nat.le_trans (Nat.sub_le _ _) hw
      · exact Nat.le_trans (Nat.sub_le _ _) hw
  store ea bytes := by
    refine ⟨fun w hw => ?_⟩
    rw [memStore]
    split
    · exact hw
    · exact hw
  grow delta := by
    refine ⟨fun w hw => ?_⟩
    rw [memGrow, Vm.memGrow]
    dsimp only
    split
    · exact hw
    · exact hw
  enter := by
    refine ⟨fun w hw => ?_⟩
    rw [enter]
    split
    · exact hw
    · exact hw
  leave := ⟨fun _ hw => hw⟩
  callImport fi args _ _ _ _ _ := by
    refine ⟨fun w hw => ?_⟩
    rw [callImport]
    rcases host.callImport w.host fi args with ⟨_ | results, h⟩
    · exact hw
    · exact hw

/-- Two ways to run bodies agree while at most `n` units of fuel are left. -/
def AgreeBody (n : Nat) (self self' : Body σ) : Prop :=
  ∀ code start isLoop pos fr,
    Agree (fun w => w.vm.fuel ≤ n) (self code start isLoop pos fr) (self' code start isLoop pos fr)

section Gas

variable {n : Nat} {self self' : Body σ}

theorem AgreeBody.branchTo (hagree : AgreeBody n self self') (code : ByteString) (start : Nat)
    (isLoop : Bool) (l : Nat) (fr : Frame) : Agree (fun w => w.vm.fuel ≤ n)
      (branchTo self code start isLoop l fr) (branchTo self' code start isLoop l fr) :=
  Agree.ite (.ite (hagree _ _ _ _ _) Agree.refl) Agree.refl

theorem AgreeBody.resume (hagree : AgreeBody n self self') (code : ByteString) (start : Nat)
    (isLoop : Bool) (onElse : Nat → Option Nat) (r : Stop × Frame) : Agree (fun w => w.vm.fuel ≤ n)
      (resume self code start isLoop onElse r) (resume self' code start isLoop onElse r) := by
  obtain ⟨stop, fr⟩ := r
  cases stop with
  | ended pos => exact hagree _ _ _ _ _
  | elseAt pos => exact .bind Agree.refl Preserves.ofOption fun _ => hagree _ _ _ _ _
  | branch n => exact hagree.branchTo _ _ _ _ _
  | returned => exact .refl

theorem AgreeBody.invokeWith (hagree : AgreeBody n self self')
    (hself : KeepsBody (fun w => w.vm.fuel ≤ n) self) (fi : Nat) (stack : List I32) :
    Agree (fun w => w.vm.fuel ≤ n) (invokeWith inst host self fi stack)
      (invokeWith inst host self' fi stack) := by
  refine .bind Agree.refl Preserves.ofOption fun ftype => ?_
  refine .ite Agree.refl (.ite Agree.refl ?_)
  refine .bind Agree.refl (kept_fuel inst host n).enter fun _ => ?_
  refine .bind Agree.refl Preserves.ofOption fun body => ?_
  exact .bind (hagree _ _ _ _ _) (hself _ _ _ _ _) fun _ => Agree.refl

theorem AgreeBody.execute (hagree : AgreeBody n self self')
    (hself : KeepsBody (fun w => w.vm.fuel ≤ n) self) (code : ByteString) (start : Nat) (isLoop : Bool)
    (op pos : Nat) (fr : Frame) : Agree (fun w => w.vm.fuel ≤ n)
      (execute inst host self code start isLoop op pos fr)
      (execute inst host self' code start isLoop op pos fr) := by
  have hkept := kept_fuel inst host n
  unfold Wasm.execute
  split
  · exact .refl
  · exact .refl
  · exact .refl
  · exact .refl
  · exact .bind Agree.refl Preserves.ofOption fun _ => hagree.branchTo _ _ _ _ _
  · refine .bind Agree.refl Preserves.ofOption fun _ => ?_
    refine .bind Agree.refl (preserves_pop _) fun _ => ?_
    exact .ite (hagree.branchTo _ _ _ _ _) (hagree _ _ _ _ _)
  · refine .bind Agree.refl (preserves_blockType _ _) fun _ => ?_
    exact .bind (hagree _ _ _ _ _) (hself _ _ _ _ _) fun _ => hagree.resume _ _ _ _ _
  · refine .bind Agree.refl (preserves_blockType _ _) fun _ => ?_
    exact .bind (hagree _ _ _ _ _) (hself _ _ _ _ _) fun _ => hagree.resume _ _ _ _ _
  · refine .bind Agree.refl (preserves_blockType _ _) fun _ => ?_
    refine .bind Agree.refl (preserves_pop _) fun _ => ?_
    refine .ite ?_ ?_
    · exact .bind (hagree _ _ _ _ _) (hself _ _ _ _ _) fun _ => hagree.resume _ _ _ _ _
    · refine .bind Agree.refl Preserves.ofOption fun _ => ?_
      refine .ite ?_ (hagree _ _ _ _ _)
      exact .bind (hagree _ _ _ _ _) (hself _ _ _ _ _) fun _ => hagree.resume _ _ _ _ _
  · refine .bind Agree.refl Preserves.ofOption fun _ => ?_
    exact .bind (hagree.invokeWith hself _ _) (hkept.invokeWith hself _ _) fun _ => hagree _ _ _ _ _
  · exact .bind Agree.refl (hkept.plain _ _ _ _) fun _ => hagree _ _ _ _ _

/-- A round leaves the agreement one unit further up: it burns one itself. -/
theorem AgreeBody.round (hagree : AgreeBody n self self')
    (hself : KeepsBody (fun w => w.vm.fuel ≤ n) self) :
    AgreeBody (n + 1) (round inst host self) (round inst host self') := by
  intro code start isLoop pos fr w hw
  rcases hfetch : fetch code pos w with ⟨_ | op, w₁⟩
  · exact (bind_none hfetch).trans (bind_none hfetch).symm
  have hw₁ : w₁.vm.fuel ≤ n := by
    rw [fetch] at hfetch
    split at hfetch
    · exact nomatch congrArg Prod.fst hfetch
    · dsimp only at hfetch
      split at hfetch
      · exact nomatch congrArg Prod.fst hfetch
      · obtain ⟨-, rfl⟩ := Prod.mk.inj hfetch
        exact Nat.sub_le_of_le_add hw
  refine (bind_some hfetch).trans (Eq.trans ?_ (bind_some hfetch).symm)
  exact hagree.execute hself _ _ _ _ _ _ w₁ hw₁

end Gas

/-- **The bound never cuts a run short**: with as much gas as fuel, more gas changes nothing. -/
theorem runBody_gas (inst : Instance) (host : Host σ) {gas' : Nat} (h : gas ≤ gas') :
    AgreeBody gas (runBody inst host gas) (runBody inst host gas') := by
  induction gas generalizing gas' with
  | zero =>
    intro code start isLoop pos fr w hw
    cases gas' with
    | zero => rfl
    | succ gas' =>
      have hfetch : fetch code pos w = (none, w) := if_pos (Nat.le_zero.mp hw)
      exact (bind_none hfetch).symm
  | succ gas ih =>
    cases gas' with
    | zero => omega
    | succ gas' => exact (ih (Nat.le_of_succ_le_succ h)).round ((kept_fuel inst host gas).runBody gas)

theorem callExportWith_gas (inst : Instance) (host : Host σ) (h : fuel ≤ gas) (name : String)
    (args : List I32) (s : σ) :
    callExportWith inst host gas name args s fuel = callExport inst host name args s fuel := by
  have hagree := runBody_gas inst host h
  have hself := (kept_fuel inst host fuel).runBody fuel
  refine (.bind Agree.refl Preserves.ofOption fun exported => ?_ :
    Agree (fun w : World σ => w.vm.fuel ≤ fuel) _ _) _ (Nat.le_refl fuel) |>.symm
  refine .bind Agree.refl Preserves.ofOption fun ftype => ?_
  refine .ite Agree.refl ?_
  exact .bind (hagree.invokeWith hself _ _) ((kept_fuel inst host fuel).invokeWith hself _ _)
    fun _ => Agree.refl

/-! ## The scans -/

theorem ulebLoop_lt {result v : Nat} (h : ulebLoop bits bytes pos shift result = some (v, p)) :
    pos < p := by
  induction bytes generalizing pos shift result with
  | nil => exact nomatch h
  | cons byte rest ih =>
    rw [ulebLoop] at h
    split at h
    · exact nomatch h
    · dsimp only at h
      split at h
      · obtain ⟨-, rfl⟩ := Prod.mk.inj (Option.some.inj h)
        exact Nat.lt_succ_self _
      · exact Nat.lt_of_succ_lt (ih h)

theorem slebLoop_lt {result v : BitVec 64}
    (h : slebLoop bits bytes pos shift result = some (v, p)) : pos < p := by
  induction bytes generalizing pos shift result with
  | nil => exact nomatch h
  | cons byte rest ih =>
    rw [slebLoop] at h
    split at h
    · exact nomatch h
    · dsimp only at h
      split at h
      · split at h
        · obtain ⟨-, rfl⟩ := Prod.mk.inj (Option.some.inj h)
          exact Nat.lt_succ_self _
        · obtain ⟨-, rfl⟩ := Prod.mk.inj (Option.some.inj h)
          exact Nat.lt_succ_self _
      · exact Nat.lt_of_succ_lt (ih h)

theorem times_readUleb_le {n : Nat} {vs : List Nat}
    (h : Scan.times (readUleb code 32) n pos = some (vs, p)) : pos ≤ p := by
  induction n generalizing pos vs with
  | zero =>
    obtain ⟨-, rfl⟩ := Prod.mk.inj (Option.some.inj h)
    exact Nat.le_refl _
  | succ n ih =>
    obtain ⟨⟨v, p₁⟩, hv, h⟩ := Option.bind_eq_some_iff.mp h
    obtain ⟨⟨vs', p₂⟩, hvs, h⟩ := Option.bind_eq_some_iff.mp h
    obtain ⟨-, rfl⟩ := Prod.mk.inj (Option.some.inj h)
    exact Nat.le_trans (Nat.le_of_lt (ulebLoop_lt hv)) (ih hvs)

/-- Past an instruction is further on. -/
theorem skipInstr_lt {next : Nat} (h : skipInstr code pos = some next) : pos < next := by
  obtain ⟨op, -, h⟩ := Option.bind_eq_some_iff.mp h
  dsimp only at h
  split at h
  · obtain rfl := Option.some.inj h
    omega
  split at h
  · obtain ⟨_, -, rfl⟩ := Option.map_eq_some_iff.mp h
    omega
  split at h
  · obtain ⟨⟨_, p⟩, hp, rfl⟩ := Option.map_eq_some_iff.mp h
    exact Nat.lt_of_succ_lt (ulebLoop_lt hp)
  split at h
  · obtain ⟨⟨n, p⟩, hp, h⟩ := Option.bind_eq_some_iff.mp h
    obtain ⟨⟨_, p'⟩, hp', rfl⟩ := Option.map_eq_some_iff.mp h
    exact Nat.lt_of_lt_of_le (Nat.lt_of_succ_lt (ulebLoop_lt hp)) (times_readUleb_le hp')
  split at h
  · obtain ⟨⟨n, p⟩, hp, h⟩ := Option.bind_eq_some_iff.mp h
    obtain ⟨⟨_, p'⟩, hp', rfl⟩ := Option.map_eq_some_iff.mp h
    exact Nat.lt_trans (Nat.lt_of_succ_lt (ulebLoop_lt hp)) (ulebLoop_lt hp')
  split at h
  · obtain rfl := Option.some.inj h
    omega
  split at h
  · obtain ⟨⟨_, p⟩, hp, rfl⟩ := Option.map_eq_some_iff.mp h
    exact Nat.lt_of_succ_lt (slebLoop_lt hp)
  split at h
  · obtain rfl := Option.some.inj h
    omega
  split at h
  · obtain rfl := Option.some.inj h
    omega
  · exact nomatch h

/-- More rounds than bytes left change nothing. -/
theorem skipBlockBodyLoop_rounds (depth pos : Nat) (h : code.length - pos < rounds)
    (h' : code.length - pos < rounds') :
    skipBlockBodyLoop code rounds depth pos = skipBlockBodyLoop code rounds' depth pos := by
  induction rounds generalizing rounds' depth pos with
  | zero => omega
  | succ rounds ih =>
    cases rounds' with
    | zero => omega
    | succ rounds' =>
      have hrest : ∀ d next, pos < code.length → skipInstr code pos = some next →
          skipBlockBodyLoop code rounds d next = skipBlockBodyLoop code rounds' d next := by
        intro d next hpos hskip
        have := skipInstr_lt hskip
        exact ih d next (by omega) (by omega)
      rw [skipBlockBodyLoop, skipBlockBodyLoop]
      cases hop : code[pos]? with
      | none => rfl
      | some op =>
        have hpos := (List.getElem?_eq_some_iff.mp hop).1
        cases hskip : skipInstr code pos with
        | none => rfl
        | some next =>
          simp only [Option.bind_eq_bind, Option.bind_some, fun d => hrest d next hpos hskip]

theorem skipThenLoop_rounds (depth pos : Nat) (h : code.length - pos < rounds)
    (h' : code.length - pos < rounds') :
    skipThenLoop code rounds depth pos = skipThenLoop code rounds' depth pos := by
  induction rounds generalizing rounds' depth pos with
  | zero => omega
  | succ rounds ih =>
    cases rounds' with
    | zero => omega
    | succ rounds' =>
      have hrest : ∀ d next, pos < code.length → skipInstr code pos = some next →
          skipThenLoop code rounds d next = skipThenLoop code rounds' d next := by
        intro d next hpos hskip
        have := skipInstr_lt hskip
        exact ih d next (by omega) (by omega)
      rw [skipThenLoop, skipThenLoop]
      cases hop : code[pos]? with
      | none => rfl
      | some op =>
        have hpos := (List.getElem?_eq_some_iff.mp hop).1
        cases hskip : skipInstr code pos with
        | none => rfl
        | some next =>
          simp only [Option.bind_eq_bind, Option.bind_some, fun d => hrest d next hpos hskip]

/-! ## Containment -/

/-- The length of the memory at each instruction, newest first. -/
def memLens (log : List Event) : List Nat :=
  log.filterMap fun
    | .instr _ memLen => some memLen
    | _ => none

/-- How many instructions have been executed. -/
def instrCount (log : List Event) : Nat := (memLens log).length

/-- **The sandbox holds** in a world of a run that started with `fuel`: at every instruction
so far and now. -/
structure Contained (inst : Instance) (fuel : Nat) (w : World σ) : Prop where
  /-- The memory is whole pages, and not too many of them. -/
  pages : ∀ n ∈ w.vm.mem.length :: memLens w.log, n % pageSize = 0 ∧ n ≤ maxPagesCap * pageSize
  /-- It never shrinks. -/
  grows : (w.vm.mem.length :: memLens w.log).Pairwise (· ≥ ·)
  /-- No more instructions than fuel. -/
  budget : instrCount w.log ≤ fuel
  /-- At no moment more open calls than `MAX_CALL_DEPTH`. -/
  depth : ∀ log, log <:+ w.log → log.count .enter ≤ log.count .leave + maxCallDepth
  /-- Imports are declared, and called with as many arguments as they declare. -/
  imports : ∀ (index : Nat) args, .callImport index args ∈ w.log → ∃ imp ftype,
    inst.imports[index]? = some imp ∧ inst.types[imp.typeIndex]? = some ftype ∧
      args.length = ftype.params.length

/-- Containment together with the accounts that carry it: what is left of the fuel and of the
call depth, and the limit on the memory. -/
structure Accounted (inst : Instance) (fuel : Nat) (w : World σ) : Prop
    extends Contained inst fuel w where
  fuel_left : instrCount w.log + w.vm.fuel ≤ fuel
  depth_left : w.log.count .enter + w.vm.callDepth = w.log.count .leave + maxCallDepth
  limit : w.vm.maxPages ≤ maxPagesCap

/-- A change of the machine that only grows the memory, by whole pages. -/
theorem Accounted.grow {fuel : Nat} {w : World σ} (h : Accounted inst fuel w) {mem : ByteString}
    (hle : w.vm.mem.length ≤ mem.length) (hpages : mem.length % pageSize = 0)
    (hcap : mem.length ≤ maxPagesCap * pageSize) :
    Accounted inst fuel { w with vm := { w.vm with mem := mem } } where
  pages n hn := by
    rcases List.mem_cons.mp hn with rfl | hn
    · exact ⟨hpages, hcap⟩
    · exact h.pages n (List.mem_cons_of_mem _ hn)
  grows := by
    obtain ⟨hhead, htail⟩ := List.pairwise_cons.mp h.grows
    exact List.pairwise_cons.mpr ⟨fun n hn => Nat.le_trans (hhead n hn) hle, htail⟩
  budget := h.budget
  depth := h.depth
  imports := h.imports
  fuel_left := h.fuel_left
  depth_left := h.depth_left
  limit := h.limit

theorem Accounted.fetch (code : ByteString) (pos : Nat) :
    Preserves (Accounted inst fuel : World σ → Prop) (fetch code pos) := by
  refine ⟨fun w h => ?_⟩
  have hleft := h.fuel_left
  rw [Wasm.fetch]
  split
  · exact h
  · dsimp only
    split
    · exact { h with fuel_left := by dsimp only; omega }
    · rename_i op _
      refine ⟨⟨?_, ?_, ?_, ?_, ?_⟩, ?_, ?_, h.limit⟩
      · intro n hn
        rcases List.mem_cons.mp hn with rfl | hn
        · exact h.pages _ List.mem_cons_self
        · exact h.pages n hn
      · refine List.pairwise_cons.mpr ⟨fun n hn => ?_, h.grows⟩
        rcases List.mem_cons.mp hn with rfl | hn
        · exact Nat.le_refl _
        · exact (List.pairwise_cons.mp h.grows).1 n hn
      · show instrCount w.log + 1 ≤ fuel
        omega
      · intro log hlog
        rcases List.suffix_cons_iff.mp hlog with rfl | hlog
        · rw [List.count_cons_of_ne (by simp), List.count_cons_of_ne (by simp)]
          exact h.depth w.log List.suffix_rfl
        · exact h.depth log hlog
      · intro index args hmem
        rcases List.mem_cons.mp hmem with hmem | hmem
        · exact nomatch hmem
        · exact h.imports index args hmem
      · show instrCount w.log + 1 + (w.vm.fuel - 1) ≤ fuel
        omega
      · rw [List.count_cons_of_ne (by simp), List.count_cons_of_ne (by simp)]
        exact h.depth_left

theorem Accounted.memStore (ea : Nat) (bytes : ByteString) :
    Preserves (Accounted inst fuel : World σ → Prop) (memStore ea bytes) := by
  refine ⟨fun w h => ?_⟩
  rw [Wasm.memStore]
  split
  · have hlen : (w.vm.mem.take ea ++ (bytes ++ w.vm.mem.drop (ea + bytes.length))).length =
        w.vm.mem.length := by
      rw [List.length_append, List.length_append, List.length_take, List.length_drop]
      omega
    obtain ⟨hpages, hcap⟩ := h.pages _ List.mem_cons_self
    exact h.grow (by omega) (by rw [hlen]; exact hpages) (by omega)
  · exact h

theorem Accounted.memGrow (delta : Nat) :
    Preserves (Accounted inst fuel : World σ → Prop) (memGrow delta) := by
  refine ⟨fun w h => ?_⟩
  obtain ⟨hpages, hcap⟩ := h.pages _ List.mem_cons_self
  have hlimit := h.limit
  rw [Wasm.memGrow, Vm.memGrow]
  dsimp only
  split
  · rename_i hfits
    have hold : w.vm.memPages * pageSize = w.vm.mem.length :=
      Nat.div_mul_cancel (Nat.dvd_of_mod_eq_zero hpages)
    have hmul : (w.vm.memPages + delta) * pageSize = w.vm.mem.length + delta * pageSize := by
      rw [Nat.add_mul, hold]
    have hlen : (w.vm.mem ++ List.replicate ((w.vm.memPages + delta) * pageSize - w.vm.mem.length)
        (0 : UInt8)).length = (w.vm.memPages + delta) * pageSize := by
      rw [List.length_append, List.length_replicate]
      omega
    refine h.grow (by omega) (by rw [hlen]; exact Nat.mul_mod_left _ _) ?_
    rw [hlen]
    exact Nat.mul_le_mul_right _ (Nat.le_trans hfits.2 hlimit)
  · exact h

/-- An event that is no instruction. -/
theorem Accounted.observe {w : World σ} (h : Accounted inst fuel w) {e : Event}
    (he : memLens [e] = []) {callDepth : Nat}
    (hdepth : (e :: w.log).count .enter + callDepth = (e :: w.log).count .leave + maxCallDepth)
    (himport : ∀ (index : Nat) args, e = .callImport index args → ∃ imp ftype,
      inst.imports[index]? = some imp ∧ inst.types[imp.typeIndex]? = some ftype ∧
      args.length = ftype.params.length) (s : σ) :
    Accounted inst fuel ⟨{ w.vm with callDepth := callDepth }, s, e :: w.log⟩ := by
  have hlens : memLens (e :: w.log) = memLens w.log := by
    rw [← List.singleton_append, memLens, List.filterMap_append]
    exact congrArg (· ++ memLens w.log) he
  refine ⟨⟨?_, ?_, ?_, ?_, ?_⟩, ?_, hdepth, h.limit⟩
  · dsimp only
    rw [hlens]
    exact h.pages
  · dsimp only
    rw [hlens]
    exact h.grows
  · show (memLens (e :: w.log)).length ≤ fuel
    rw [hlens]
    exact h.budget
  · intro log hlog
    rcases List.suffix_cons_iff.mp hlog with rfl | hlog
    · omega
    · exact h.depth log hlog
  · intro index args hmem
    rcases List.mem_cons.mp hmem with hmem | hmem
    · exact himport index args hmem.symm
    · exact h.imports index args hmem
  · show (memLens (e :: w.log)).length + w.vm.fuel ≤ fuel
    rw [hlens]
    exact h.fuel_left

theorem Accounted.enter : Preserves (Accounted inst fuel : World σ → Prop) enter := by
  refine ⟨fun w h => ?_⟩
  rw [Wasm.enter]
  split
  · exact h
  · refine h.observe rfl ?_ (fun _ _ hc => by cases hc) w.host
    have := h.depth_left
    rw [List.count_cons_self, List.count_cons_of_ne (by decide)]
    omega

theorem Accounted.leave : Preserves (Accounted inst fuel : World σ → Prop) leave := by
  refine ⟨fun w h => ?_⟩
  refine h.observe rfl ?_ (fun _ _ hc => by cases hc) w.host
  have := h.depth_left
  rw [List.count_cons_self, List.count_cons_of_ne (by decide)]
  omega

/-- Containment is kept by every primitive. -/
theorem kept_accounted (inst : Instance) (host : Host σ) (fuel : Nat) :
    Kept inst host (Accounted inst fuel) where
  fetch := Accounted.fetch
  store := Accounted.memStore
  grow := Accounted.memGrow
  enter := Accounted.enter
  leave := Accounted.leave
  callImport fi args imp ftype himp hftype hargs := by
    refine ⟨fun w h => ?_⟩
    have hevent : ∀ s : σ, Accounted inst fuel ⟨w.vm, s, .callImport fi args :: w.log⟩ := by
      intro s
      refine h.observe rfl ?_ (fun index args' heq => ?_) s
      · rw [List.count_cons_of_ne (by simp), List.count_cons_of_ne (by simp)]
        exact h.depth_left
      · obtain ⟨rfl, rfl⟩ := Event.callImport.inj heq
        exact ⟨imp, ftype, himp, hftype, hargs⟩
    rw [Wasm.callImport]
    rcases host.callImport w.host fi args with ⟨_ | results, s⟩
    · exact hevent s
    · exact hevent s

theorem accounted_initial (inst : Instance) (fuel : Nat) (s : σ) :
    Accounted inst fuel ⟨inst.initialVm fuel, s, []⟩ := by
  have hlen : (inst.initialVm fuel).mem.length = min inst.initPages maxPagesCap * pageSize :=
    List.length_replicate
  have hmin : min inst.initPages maxPagesCap ≤ maxPagesCap := Nat.min_le_right _ _
  refine ⟨⟨?_, ?_, ?_, ?_, ?_⟩, ?_, rfl, ?_⟩
  · intro n hn
    obtain rfl := List.mem_singleton.mp hn
    rw [hlen]
    exact ⟨Nat.mul_mod_left _ _, Nat.mul_le_mul_right _ hmin⟩
  · exact List.pairwise_singleton _ _
  · exact Nat.zero_le _
  · intro log hlog
    obtain rfl := List.suffix_nil.mp hlog
    exact Nat.zero_le _
  · exact fun _ _ hmem => absurd hmem List.not_mem_nil
  · exact Nat.le_of_eq (Nat.zero_add fuel)
  · exact Nat.max_le.mpr ⟨Nat.min_le_right _ _, hmin⟩

/-- **The sandbox contains every module** that instantiates, whatever it holds: the call
terminates (neither the recursion bound nor the bounds of the scans cut it short), and it stays
contained throughout. -/
theorem callExport_contained {bytes : ByteString} {inst : Instance} (_hinst : instantiate bytes = some inst)
    (host : Host σ) (s : σ) (name : String) (args : List I32) (fuel : Nat) :
    (∀ gas, fuel ≤ gas → callExportWith inst host gas name args s fuel =
        callExport inst host name args s fuel) ∧
      (∀ code depth pos rounds, code.length < rounds →
        skipBlockBodyLoop code rounds depth pos = skipBlockBodyLoop code (code.length + 1) depth pos ∧
          skipThenLoop code rounds depth pos = skipThenLoop code (code.length + 1) depth pos) ∧
      Contained inst fuel (callExport inst host name args s fuel).2 := by
  refine ⟨fun gas h => callExportWith_gas inst host h name args s, fun code depth pos rounds h => ?_, ?_⟩
  · exact ⟨skipBlockBodyLoop_rounds depth pos (by omega) (by omega),
      skipThenLoop_rounds depth pos (by omega) (by omega)⟩
  · exact ((kept_accounted inst host fuel).callExportWith fuel name args
      (accounted_initial inst fuel s)).toContained

/-- `DenyHost`: every import is denied. -/
def denyHost : Host Unit := ⟨fun s _ _ => (none, s)⟩

/-- A module that exports `add`. -/
def addModule : List UInt8 :=
  [0x00, 0x61, 0x73, 0x6d, 0x01, 0x00, 0x00, 0x00,
    0x01, 0x07, 0x01, 0x60, 0x02, 0x7F, 0x7F, 0x01, 0x7F,
    0x03, 0x02, 0x01, 0x00,
    0x07, 0x07, 0x01, 0x03, 0x61, 0x64, 0x64, 0x00, 0x00,
    0x0A, 0x09, 0x01, 0x07, 0x00, 0x20, 0x00, 0x20, 0x01, 0x6A, 0x0B]

/-- It instantiates, `add(2, 3)` is 5, and the call is contained. -/
theorem addModule_contained : ∃ inst, instantiate addModule = some inst ∧
    (callExport inst denyHost "add" [2, 3] () 10).1 = some [5] ∧
      Contained inst 10 (callExport inst denyHost "add" [2, 3] () 10).2 := by
  have hrun : ((instantiate addModule).map fun inst => (callExport inst denyHost "add" [2, 3] () 10).1) =
      some (some [5]) := by decide
  obtain ⟨inst, hinst, hadd⟩ := Option.map_eq_some_iff.mp hrun
  exact ⟨inst, hinst, hadd, (callExport_contained hinst denyHost () "add" [2, 3] 10).2.2⟩

end AthenaOS.Wasm
