import AthenaOS.Athlang.Interp

/-!
# Runs are metered and fail closed

What every program keeps of the counters and the stack, whether it fails or not.
-/

namespace AthenaOS.Athlang

open Lib

variable {H : Type}

/-! ## The stack -/

variable {β : Type} {name : String} {scopes scopes' : List Frame} {o : Option Stop} {c : Activation}
variable {e : Stop} {s s' : Interp H}

/-- Only the innermost binding of the name changes, and it is a `var`. -/
theorem resolveMut_ok {f : Value → Except RaeError (Value × β)} {b : β}
    (h : resolveMut name f scopes = .ok (scopes', b)) :
    ∃ above scope below v v', scopes = above ++ scope :: below ∧ scope name = some (v, true) ∧
      f v = .ok (v', b) ∧ scopes' = above ++ scope.insert name (v', true) :: below := by
  induction scopes generalizing scopes' with
  | nil => exact nomatch h
  | cons scope scopes ih =>
    rw [resolveMut] at h
    split at h
    · next v hvar =>
      split at h
      · next v' b' hf =>
        obtain ⟨rfl, rfl⟩ := Prod.mk.inj (Except.ok.inj h)
        exact ⟨[], scope, scopes, v, v', rfl, hvar, hf, rfl⟩
      · exact nomatch h
    · exact nomatch h
    · split at h
      · next scopes₁ b₁ hrest =>
        obtain ⟨rfl, rfl⟩ := Prod.mk.inj (Except.ok.inj h)
        obtain ⟨above, changed, below, v, v', rfl, hvar, hf, rfl⟩ := ih hrest
        exact ⟨scope :: above, changed, below, v, v', rfl, hvar, hf, rfl⟩
      · exact nomatch h

theorem resolveMut_length {f : Value → Except RaeError (Value × β)} {b : β}
    (h : resolveMut name f scopes = .ok (scopes', b)) : scopes'.length = scopes.length := by
  obtain ⟨above, scope, below, v, v', rfl, -, -, rfl⟩ := resolveMut_ok h
  rw [List.length_append, List.length_append]
  rfl

/-! ## Host calls -/

def HostCall.Succeeded (c : HostCall) : Prop := ∃ v, c.result = .ok v

/-- Every call succeeded, or only the last one failed and the error says how. -/
inductive Answered : Option Stop → List HostCall → Prop
  | all {o : Option Stop} {calls : List HostCall} (h : ∀ c ∈ calls, c.Succeeded) : Answered o calls
  | last {earlier : List HostCall} (h : ∀ c ∈ earlier, c.Succeeded) (name : String)
      (argv : List Value) (e : HostError) :
      Answered (some (.error (e.toRaeError name))) (earlier ++ [⟨name, argv, .error e⟩])

theorem Answered.succeeded {calls : List HostCall} (h : Answered none calls) :
    ∀ c ∈ calls, c.Succeeded := by
  cases h with
  | all h => exact h

/-- A call that failed is the last one, and its error is the run's. -/
theorem Answered.failed {earlier later : List HostCall} {c : HostCall} {e : HostError}
    (h : Answered o (earlier ++ c :: later)) (hc : c.result = .error e) :
    later = [] ∧ o = some (.error (e.toRaeError c.name)) := by
  have hfailed : ¬ c.Succeeded := by
    rintro ⟨v, hv⟩
    exact nomatch hc.symm.trans hv
  generalize hcalls : earlier ++ c :: later = calls at h
  cases h with
  | all h =>
    refine absurd (h c ?_) hfailed
    rw [← hcalls]
    exact List.mem_append_right _ List.mem_cons_self
  | @last earlier' h name argv e' =>
    -- A failed call cannot be among the earlier ones, which all succeeded.
    rcases List.eq_nil_or_concat later with rfl | ⟨later, c', rfl⟩
    · obtain ⟨-, hlast⟩ := List.append_inj' hcalls rfl
      obtain rfl := List.head_eq_of_cons_eq hlast
      obtain rfl := Except.error.inj hc
      exact ⟨rfl, rfl⟩
    · rw [List.concat_eq_append, ← List.cons_append, ← List.append_assoc] at hcalls
      obtain ⟨rfl, -⟩ := List.append_inj' hcalls rfl
      exact absurd (h c (List.mem_append_right _ List.mem_cons_self)) hfailed

/-! ## What every program keeps -/

/-- Steps and fuel add up, a host call costs fuel, the stack and the depth are as before, and
an error after a host call is that call's. -/
structure Kept (s : Interp H) (o : Option Stop) (s' : Interp H) : Prop where
  fuel : s'.fuel ≤ s.fuel
  budget : s'.steps + s'.fuel = s.steps + s.fuel
  calls : s'.calls.length + s'.fuel ≤ s.calls.length + s.fuel
  scopes : s'.scopes.length = s.scopes.length
  depth : s'.depth = s.depth
  noPanic : 0 < s.scopes.length → o ≠ some .panic
  answered : Answered none s.calls → Answered o s'.calls

namespace Kept

theorem refl (s : Interp H) (o : Option Stop) (h : o ≠ some .panic) : Kept s o s where
  fuel := Nat.le_refl _
  budget := rfl
  calls := Nat.le_refl _
  scopes := rfl
  depth := rfl
  noPanic _ := h
  answered ha := .all ha.succeeded

theorem trans {s s₁ s₂ : Interp H} {o : Option Stop} (h : Kept s none s₁) (h' : Kept s₁ o s₂) :
    Kept s o s₂ where
  fuel := Nat.le_trans h'.fuel h.fuel
  budget := h'.budget.trans h.budget
  calls := Nat.le_trans h'.calls h.calls
  scopes := h'.scopes.trans h.scopes
  depth := h'.depth.trans h.depth
  noPanic hs := h'.noPanic (by rw [h.scopes]; exact hs)
  answered ha := h'.answered (h.answered ha)

/-- Nothing that is counted has changed. -/
theorem of_same {s s' : Interp H} (hfuel : s'.fuel = s.fuel) (hsteps : s'.steps = s.steps)
    (hcalls : s'.calls = s.calls) (hscopes : s'.scopes.length = s.scopes.length)
    (hdepth : s'.depth = s.depth) : Kept s none s' where
  fuel := Nat.le_of_eq hfuel
  budget := by rw [hfuel, hsteps]
  calls := Nat.le_of_eq (by rw [hfuel, hcalls])
  scopes := hscopes
  depth := hdepth
  noPanic _ := nofun
  answered ha := by
    rw [hcalls]
    exact ha

end Kept

theorem Interp.burn_ok (h : s.burn = .ok s') :
    0 < s.fuel ∧ s' = { s with fuel := s.fuel - 1, steps := s.steps + 1 } := by
  rw [burn] at h
  split at h
  · exact nomatch h
  · next hfuel => exact ⟨Nat.pos_of_ne_zero hfuel, (Except.ok.inj h).symm⟩

theorem Interp.burn_error (h : s.burn = .error e) : e = .error .outOfFuel := by
  rw [burn] at h
  split at h
  · exact (Except.error.inj h).symm
  · exact nomatch h

theorem burn_kept (h : s.burn = .ok s') : Kept s none s' := by
  obtain ⟨hfuel, rfl⟩ := Interp.burn_ok h
  refine ⟨Nat.sub_le _ _, ?_, ?_, rfl, rfl, fun _ => nofun, id⟩
  · show s.steps + 1 + (s.fuel - 1) = _
    omega
  · show s.calls.length + (s.fuel - 1) ≤ _
    omega

theorem callHost_kept (host : Host H) (s : Interp H) (name : String) (argv : List Value) :
    Kept s (failure (s.callHost host name argv).1) (s.callHost host name argv).2 := by
  rw [Interp.callHost]
  cases hburn : s.burn with
  | error e =>
    obtain rfl := Interp.burn_error hburn
    exact .refl s _ nofun
  | ok s₁ =>
    obtain ⟨hfuel, rfl⟩ := Interp.burn_ok hburn
    -- The call that is logged is paid for by the fuel that was burned.
    have hbudget : s.steps + 1 + (s.fuel - 1) = s.steps + s.fuel := by omega
    have hpaid (c : HostCall) : (s.calls ++ [c]).length + (s.fuel - 1) ≤ s.calls.length + s.fuel := by
      rw [List.length_append, List.length_singleton]
      omega
    dsimp only
    rcases hresult : host s.host name argv with ⟨e | v, h⟩
    · exact ⟨Nat.sub_le _ _, hbudget, hpaid _, rfl, rfl, fun _ => nofun, fun ha => .last ha.succeeded name argv e⟩
    · refine ⟨Nat.sub_le _ _, hbudget, hpaid _, rfl, rfl, fun _ => nofun, fun ha => .all fun c hc => ?_⟩
      rcases List.mem_append.mp hc with hc | hc
      · exact ha.succeeded c hc
      · obtain rfl := List.mem_singleton.mp hc
        exact ⟨v, rfl⟩

theorem update_kept (s : Interp H) (base : String) (f : Value → Except RaeError (Value × β)) :
    Kept s (failure (s.update base f).1) (s.update base f).2 := by
  rw [Interp.update]
  cases hresolve : resolveMut base f s.scopes with
  | ok x => exact .of_same rfl rfl rfl (resolveMut_length hresolve) rfl
  | error e => exact .refl s _ nofun

theorem bindVar_kept (s : Interp H) (name : String) (b : Value × Bool) :
    Kept s (failure (s.bindVar name b).1) (s.bindVar name b).2 := by
  rw [Interp.bindVar]
  cases hscopes : s.scopes with
  | nil =>
    refine ⟨Nat.le_refl _, rfl, Nat.le_refl _, rfl, rfl, fun hs => ?_, fun ha => .all ha.succeeded⟩
    rw [hscopes] at hs
    exact absurd hs (Nat.lt_irrefl 0)
  | cons scope scopes => exact .of_same rfl rfl rfl (by rw [hscopes]; rfl) rfl

theorem exec_kept (host : Host H) (o : Op) (s : Interp H) :
    Kept s (failure (s.exec host o).1) (s.exec host o).2 := by
  cases o with
  | burn =>
    rw [Interp.exec]
    cases hburn : s.burn with
    | error e =>
      obtain rfl := Interp.burn_error hburn
      exact .refl s _ nofun
    | ok s₁ => exact burn_kept hburn
  | lookup name => exact .of_same rfl rfl rfl rfl rfl
  | getFunc name => exact .of_same rfl rfl rfl rfl rfl
  | getStruct name => exact .of_same rfl rfl rfl rfl rfl
  | closure params body => exact .of_same rfl rfl rfl rfl rfl
  | funcRef params body => exact .of_same rfl rfl rfl rfl rfl
  | print line => exact .of_same rfl rfl rfl rfl rfl
  | callHost name argv => exact callHost_kept host s name argv
  | bindVar name mutable v => exact bindVar_kept s name (v, mutable)
  | assign base keys v => exact update_kept s base _
  | mutate base keys method argv => exact update_kept s base _
  | declareFunc name params body => exact .of_same rfl rfl rfl rfl rfl
  | declareStruct name fields => exact .of_same rfl rfl rfl rfl rfl
  | overflow x => exact .refl s _ nofun

theorem Interp.enter_ok (h : s.enter c = .ok s') :
    s.depth < maxCallDepth ∧ 0 < s.fuel ∧
      s' = { s with fuel := s.fuel - 1, steps := s.steps + 1, depth := s.depth + 1,
                    scopes := c.frame :: s.scopes } := by
  rw [enter] at h
  split at h
  · exact nomatch h
  · next hdepth =>
    cases hburn : s.burn with
    | error e =>
      rw [hburn] at h
      exact nomatch h
    | ok s₁ =>
      obtain ⟨hfuel, rfl⟩ := burn_ok hburn
      rw [hburn] at h
      exact ⟨Nat.lt_of_not_le hdepth, hfuel, (Except.ok.inj h).symm⟩

theorem Interp.enter_error (h : s.enter c = .error e) : ∃ e', e = .error e' := by
  rw [enter] at h
  split at h
  · exact ⟨_, (Except.error.inj h).symm⟩
  · cases hburn : s.burn with
    | error e' =>
      rw [hburn] at h
      obtain rfl := Except.error.inj h
      exact ⟨_, burn_error hburn⟩
    | ok s₁ =>
      rw [hburn] at h
      exact nomatch h

/-- What goes on inside a scope of its own leaves the stack as it was. -/
theorem Kept.popped {s s₁ : Interp H} {o : Option Stop} {frame : Frame}
    (h : Kept (s.push frame) o s₁) : Kept s o s₁.pop where
  fuel := h.fuel
  budget := h.budget
  calls := h.calls
  scopes := by
    rw [Interp.pop, List.length_tail, h.scopes]
    rfl
  depth := h.depth
  noPanic _ := h.noPanic (Nat.succ_pos _)
  answered := h.answered

theorem Kept.returned {s₁ s₂ : Interp H} (henter : s.enter c = .ok s₁) (h : Kept s₁ o s₂) :
    Kept s o s₂.leave := by
  obtain ⟨-, hfuel, rfl⟩ := Interp.enter_ok henter
  refine ⟨Nat.le_trans h.fuel (Nat.sub_le _ _), ?_, ?_, ?_, ?_, fun _ => h.noPanic (Nat.succ_pos _), h.answered⟩
  · have := h.budget
    show s₂.steps + s₂.fuel = _
    dsimp only at this
    omega
  · have := h.calls
    show s₂.calls.length + s₂.fuel ≤ _
    dsimp only at this
    omega
  · rw [Interp.leave, List.length_tail, h.scopes]
    rfl
  · rw [Interp.leave, h.depth]
    rfl

section

variable (rt : Runtime) (host : Host H)

theorem semantics_kept : Semantics.Respects (semantics rt host) Kept where
  refl s := .refl s none nofun
  fail s e := .refl s _ nofun
  enterFailed c s e h := by
    obtain ⟨e', rfl⟩ := Interp.enter_error h
    exact .refl s _ nofun
  tickFailed s e h := by
    obtain rfl := Interp.burn_error h
    exact .refl s _ nofun
  trans _ _ _ _ h h' := h.trans h'
  exec := exec_kept host
  inScope _ _ _ _ h := h.popped
  call _ _ _ _ _ henter h := h.returned henter
  tick _ _ h := burn_kept h

/-- Calls and rounds burn fuel, and nothing adds to it. -/
theorem semantics_metered : Semantics.Metered (semantics rt host) Interp.fuel where
  exec o s := (exec_kept host o s).fuel
  openScope _ _ := Nat.le_refl _
  closeScope _ _ := Nat.le_refl _
  leave _ _ := Nat.le_refl _
  enter c s s' h := by
    obtain ⟨-, hfuel, rfl⟩ := Interp.enter_ok h
    exact Nat.sub_lt hfuel Nat.one_pos
  tick s s' h := by
    obtain ⟨hfuel, rfl⟩ := Interp.burn_ok h
    exact Nat.sub_lt hfuel Nat.one_pos

/-! ## Overflows -/

theorem update_ne_overflow {β : Type} (s : Interp H) (base : String)
    (f : Value → Except RaeError (Value × β)) : failure (s.update base f).1 ≠ some .overflow := by
  rw [Interp.update]
  cases resolveMut base f s.scopes <;> exact nofun

theorem callHost_ne_overflow (s : Interp H) (name : String) (argv : List Value) :
    failure (s.callHost host name argv).1 ≠ some .overflow := by
  rw [Interp.callHost]
  cases hburn : s.burn with
  | error e =>
    obtain rfl := Interp.burn_error hburn
    exact nofun
  | ok s₁ =>
    dsimp only
    rcases host s₁.host name argv with ⟨_ | _, _⟩ <;> exact nofun

/-- Only the plain operators on integers overflow. -/
theorem exec_overflow (o : Op) (s : Interp H) :
    failure (s.exec host o).1 = some .overflow ↔ ∃ x, o = .overflow x := by
  constructor
  · intro h
    cases o with
    | overflow x => exact ⟨x, rfl⟩
    | burn =>
      rw [Interp.exec] at h
      cases hburn : s.burn with
      | error e =>
        obtain rfl := Interp.burn_error hburn
        rw [hburn] at h
        exact nomatch h
      | ok s₁ =>
        rw [hburn] at h
        exact nomatch h
    | callHost name argv => exact absurd h (callHost_ne_overflow host s name argv)
    | assign base keys v => exact absurd h (update_ne_overflow s base _)
    | mutate base keys method argv => exact absurd h (update_ne_overflow s base _)
    | bindVar name mutable v =>
      rw [Interp.exec, Interp.bindVar] at h
      cases hscopes : s.scopes <;> rw [hscopes] at h <;> exact nomatch h
    | _ => exact nomatch h
  · rintro ⟨x, rfl⟩
    rfl

theorem overflow_ofOps : Semantics.OfOps (semantics rt host) .overflow where
  raise _ := nofun
  enter c s h := by
    obtain ⟨e, he⟩ := Interp.enter_error (show s.enter c = .error .overflow from h)
    exact nomatch he
  tick s h := nomatch Interp.burn_error (show s.burn = .error .overflow from h)

/-- A negation, a range count or a loop over a range whose exact result is no `i64`. -/
def Overflows (x : Step signature (Interp H)) : Prop := ∃ n, x.event = .op (.overflow n)

variable {n fuel : Nat} {α : Type} {s s' : Interp H} {steps : List (Step signature (Interp H))}
variable {prog : List Stmt} {h : H} {flow : Except Stop Flow}

theorem run_overflow {p : Run α} {r : Except Stop α}
    (hrun : (semantics rt host).traced.run n p (s, []) = some (r, s', steps)) :
    r = .error .overflow ↔ ∃ x ∈ steps, Overflows x := by
  have hblames (x : Step signature (Interp H)) :
      (semantics rt host).Blames .overflow x ↔ Overflows x := by
    constructor
    · rintro ⟨o, ho, hfail⟩
      obtain ⟨n, rfl⟩ := (exec_overflow host o x.pre).mp hfail
      exact ⟨n, ho⟩
    · rintro ⟨n, hn⟩
      exact ⟨.overflow n, hn, rfl⟩
  have hfailure : r = .error .overflow ↔ failure r = some .overflow := by
    rcases r with e | a
    · exact ⟨fun h => congrArg _ (Except.error.inj h), fun h => congrArg _ (Option.some.inj h)⟩
    · exact iff_of_false nofun nofun
  refine hfailure.trans ((Semantics.run_blames (overflow_ofOps rt host) hrun).trans ?_)
  simp only [hblames]

/-! ## Calls that have not returned -/

/-- How many calls the steps enter. -/
def enters (steps : List (Step signature (Interp H))) : Nat :=
  steps.countP fun x => x.event matches .enter _

def leaves (steps : List (Step signature (Interp H))) : Nat :=
  steps.countP fun x => x.event matches .leave _

theorem legal_depth {x : Step signature (Interp H)} (h : (semantics rt host).Legal x)
    (hpre : x.pre.depth ≤ maxCallDepth) :
    x.post.depth ≤ maxCallDepth ∧ enters [x] + x.pre.depth ≤ leaves [x] + x.post.depth := by
  obtain ⟨pre, event, post⟩ := x
  cases event with
  | op o =>
    obtain rfl : (pre.exec host o).2 = post := h
    have hdepth := (exec_kept host o pre).depth
    exact ⟨by rw [hdepth]; exact hpre, Nat.le_of_eq (congrArg (0 + ·) hdepth.symm)⟩
  | openScope frame =>
    obtain rfl : pre.push frame = post := h
    exact ⟨hpre, Nat.le_refl _⟩
  | closeScope frame =>
    obtain rfl : pre.pop = post := h
    exact ⟨hpre, Nat.le_refl _⟩
  | enter c =>
    obtain ⟨hdepth, -, rfl⟩ := Interp.enter_ok (show pre.enter c = .ok post from h)
    refine ⟨hdepth, ?_⟩
    show 1 + pre.depth ≤ 0 + (pre.depth + 1)
    omega
  | leave c =>
    obtain rfl : pre.leave = post := h
    refine ⟨Nat.le_trans (Nat.sub_le _ _) hpre, ?_⟩
    show 0 + pre.depth ≤ 1 + (pre.depth - 1)
    omega
  | tick =>
    have hdepth := (burn_kept (show pre.burn = .ok post from h)).depth
    exact ⟨by rw [hdepth]; exact hpre, Nat.le_of_eq (congrArg (0 + ·) hdepth.symm)⟩

/-- The depth counts the calls that have not returned. -/
theorem path_depth (h : (semantics rt host).Path s steps s') (hs : s.depth ≤ maxCallDepth) :
    s'.depth ≤ maxCallDepth ∧ enters steps + s.depth ≤ leaves steps + s'.depth := by
  induction steps generalizing s with
  | nil =>
    obtain rfl : s = s' := h
    exact ⟨hs, Nat.le_refl _⟩
  | cons x steps ih =>
    obtain ⟨rfl, hlegal, hrest⟩ := h
    obtain ⟨hpost, hone⟩ := legal_depth rt host hlegal hs
    obtain ⟨hlast, hall⟩ := ih hrest hpost
    have henters : enters (x :: steps) = enters [x] + enters steps := by
      rw [enters, List.countP_cons, Nat.add_comm]
      simp only [enters, List.countP_cons, List.countP_nil, Nat.zero_add]
    have hleaves : leaves (x :: steps) = leaves [x] + leaves steps := by
      rw [leaves, List.countP_cons, Nat.add_comm]
      simp only [leaves, List.countP_cons, List.countP_nil, Nat.zero_add]
    refine ⟨hlast, ?_⟩
    omega

/-! ## Runs -/

/-- Whatever is returned, the stack is as high as before and as many calls are open, and the
stack is never found empty. -/
def Balanced {α : Type} (p : Run α) : Prop :=
  ∀ (n : Nat) (s : Interp H) (r : Except Stop α) (s' : Interp H),
    (semantics rt host).run n p s = some (r, s') → r ≠ .error .overflow →
    s'.scopes.length = s.scopes.length ∧ s'.depth = s.depth ∧
      (s.scopes ≠ [] → r ≠ .error .panic)

theorem balanced (p : Run α) : Balanced rt host p := by
  intro n s r s' h _
  have hkept := Semantics.run_respects (semantics_kept rt host) n p s r s' h
  refine ⟨hkept.scopes, hkept.depth, ?_⟩
  rintro hs rfl
  exact hkept.noPanic (List.length_pos_iff.mpr hs) rfl

theorem runWithHost_none
    (hblock : (semantics rt host).run n (execBlock rt prog) (Interp.start fuel h) = none) :
    runWithHost rt host prog fuel h n = none := by
  rw [runWithHost, hblock]

theorem runWithHost_mono {m : Nat} {x : Except Stop Outcome × Interp H}
    (hrun : runWithHost rt host prog fuel h n = some x) (hle : n ≤ m) :
    runWithHost rt host prog fuel h m = some x := by
  rw [runWithHost] at hrun ⊢
  cases hblock : (semantics rt host).run n (execBlock rt prog) (Interp.start fuel h) with
  | none =>
    rw [hblock] at hrun
    exact nomatch hrun
  | some y =>
    rw [hblock] at hrun
    rw [Semantics.run_mono _ n m _ _ _ hblock hle]
    exact hrun

/-- What a run leaves is what its statements leave: an outcome, or their error, or that of a
`break` or `continue` outside every loop. -/
theorem runWithHost_spec

    (hblock : (semantics rt host).run n (execBlock rt prog) (Interp.start fuel h) = some (flow, s)) :
    ∃ r, runWithHost rt host prog fuel h n = some (r, s) ∧
      (∀ o, r = .ok o → o.steps = s.steps) ∧ (∀ e, flow = .error e → r = .error e) ∧
      ((∃ flow', flow = .ok flow') → (∃ o, r = .ok o) ∨ ∃ e, r = .error (.error e)) := by
  rw [runWithHost, hblock]
  obtain e | flow := flow
  · refine ⟨.error e, rfl, fun o => nofun, ?_, nofun⟩
    rintro e' ⟨⟩
    rfl
  · dsimp only
    rcases hout : outcome s flow with e | o
    · exact ⟨.error (.error e), rfl, fun o => nofun, fun e => nofun, fun _ => .inr ⟨e, rfl⟩⟩
    · refine ⟨.ok o, rfl, ?_, fun e => nofun, fun _ => .inl ⟨o, rfl⟩⟩
      rintro o' ⟨⟩
      unfold outcome at hout
      split at hout
      · exact (Except.ok.inj hout) ▸ rfl
      · exact nomatch hout
      · exact nomatch hout
      · exact (Except.ok.inj hout) ▸ rfl

/-- The run ends, with one result, `Ok` or `Err`. It makes no more steps or host calls than it has
fuel, no more than `maxCallDepth` calls are open at any point, statements, expressions and calls
leave the stack as high as they found it, and after a host call fails there is no other and its
error is the run's. -/
def FailsClosed (prog : List Stmt) (f : Nat) (h : H) : Prop :=
  ∃ (n : Nat) (r : Except Stop Outcome) (s : Interp H) (flow : Except Stop Flow)
    (steps : List (Step signature (Interp H))),
    (∀ m, n ≤ m → runWithHost rt host prog f h m = some (r, s)) ∧
    (∀ m x, runWithHost rt host prog f h m = some x → x = (r, s)) ∧
    (semantics rt host).traced.run n (execBlock rt prog) (Interp.start f h, []) =
      some (flow, s, steps) ∧
    ((∃ o, r = .ok o) ∨ ∃ e, r = .error (.error e)) ∧
    (∀ o, r = .ok o → o.steps ≤ f) ∧
    s.calls.length ≤ f ∧
    (∀ xs, xs <+: steps → enters xs ≤ leaves xs + maxCallDepth) ∧
    (∀ stmt, Balanced rt host (exec rt stmt)) ∧
    (∀ e, Balanced rt host (eval rt e)) ∧
    (∀ func argv, Balanced rt host (callFunc func argv)) ∧
    (∀ earlier c later e, s.calls = earlier ++ c :: later → c.result = .error e →
      later = [] ∧ r = .error (.error (e.toRaeError c.name)))

/-- What the statements of a script end with, overflows apart. -/
theorem flow_cases {f : Nat} (hkept : Kept (Interp.start f h) (failure flow) s)
    (hover : flow ≠ .error .overflow) :
    (∃ flow', flow = .ok flow') ∨ ∃ e, flow = .error (.error e) := by
  obtain (e | _ | _) | flow := flow
  · exact .inr ⟨e, rfl⟩
  · exact absurd rfl hover
  · exact absurd rfl (hkept.noPanic (Nat.succ_pos 0))
  · exact .inl ⟨flow, rfl⟩

/-- A run fails closed just when none of its integer operations overflows. -/
theorem runWithHost_failsClosed_iff (prog : List Stmt) (f : Nat) (h : H) :
    FailsClosed rt host prog f h ↔
      ∀ n flow s steps, (semantics rt host).traced.run n (execBlock rt prog) (Interp.start f h, []) =
        some (flow, s, steps) → ∀ x ∈ steps, ¬ Overflows x := by
  constructor
  · rintro ⟨n, r, s, flow, steps, hrun, -, htraced, hends, -⟩ n' flow' s' steps' htraced' x hx hover
    -- The two runs with steps agree, so the one that gives `r` overflows as well.
    have hagree := (Semantics.run_mono _ n _ _ _ _ htraced (Nat.le_max_left n n')).symm.trans
      (Semantics.run_mono _ n' _ _ _ _ htraced' (Nat.le_max_right n n'))
    cases hagree
    obtain rfl := (run_overflow rt host htraced).mpr ⟨x, hx, hover⟩
    cases hblock : (semantics rt host).run n (execBlock rt prog) (Interp.start f h) with
    | none => exact nomatch (runWithHost_none rt host hblock).symm.trans (hrun n (Nat.le_refl n))
    | some y =>
      obtain ⟨flow₁, s₁⟩ := y
      obtain ⟨steps₁, htraced₁, -⟩ := Semantics.run_traced hblock
      cases htraced₁.symm.trans htraced
      obtain ⟨r₁, hrun₁, -, herror, -⟩ := runWithHost_spec rt host hblock
      obtain rfl := herror _ rfl
      obtain ⟨rfl, -⟩ := Prod.mk.inj (Option.some.inj (hrun₁.symm.trans (hrun n (Nat.le_refl n))))
      obtain ⟨o, ho⟩ | ⟨e, he⟩ := hends
      · exact nomatch ho
      · exact nomatch he
  · intro hnone
    obtain ⟨n, ⟨flow, s⟩, hblock⟩ := Semantics.run_total (semantics_metered rt host) f
      (execBlock rt prog) (Interp.start f h) (Nat.le_refl f)
    have hkept := Semantics.run_respects (semantics_kept rt host) n _ _ _ _ hblock
    obtain ⟨steps, htraced, hpath⟩ := Semantics.run_traced hblock
    have hover : flow ≠ .error .overflow := by
      intro hflow
      obtain ⟨x, hx, hx'⟩ := (run_overflow rt host htraced).mp hflow
      exact hnone n flow s steps htraced x hx hx'
    obtain ⟨r, hrun, hsteps, herror, hok⟩ := runWithHost_spec rt host hblock
    have hbudget : s.steps + s.fuel = 0 + f := hkept.budget
    have hcalls : s.calls.length + s.fuel ≤ 0 + f := hkept.calls
    refine ⟨n, r, s, flow, steps, fun m => runWithHost_mono rt host hrun, ?_, htraced, ?_, ?_, ?_, ?_,
      fun stmt => balanced rt host _, fun e => balanced rt host _,
      fun func argv => balanced rt host _, ?_⟩
    · intro m x hm
      -- Two runs agree: the one with less depth is also what the one with more gives.
      have hx := runWithHost_mono rt host hm (Nat.le_max_left m n)
      exact Option.some.inj (hx.symm.trans (runWithHost_mono rt host hrun (Nat.le_max_right m n)))
    · rcases flow_cases hkept hover with hflow | ⟨e, he⟩
      · exact hok hflow
      · exact .inr ⟨e, herror _ he⟩
    · intro o ho
      rw [hsteps o ho]
      omega
    · omega
    · rintro xs ⟨ys, rfl⟩
      obtain ⟨s₁, hxs, -⟩ := hpath.split
      obtain ⟨hdepth, hopen⟩ := path_depth rt host hxs (Nat.zero_le _)
      exact Nat.le_trans hopen (Nat.add_le_add_left hdepth _)
    · intro earlier c later e hlog hc
      have hanswered : Answered (failure flow) s.calls := hkept.answered (.all (fun c hc => nomatch hc))
      rw [hlog] at hanswered
      obtain ⟨hlater, hfailure⟩ := hanswered.failed hc
      refine ⟨hlater, ?_⟩
      obtain e' | flow := flow
      · obtain rfl := Option.some.inj hfailure
        exact herror _ rfl
      · exact nomatch hfailure

end

/-- `-(-9223372036854775807 - 1)`: the negation of the smallest integer is no `i64`. -/
theorem negation_overflows : ¬ FailsClosed .withoutFloats noHost
    [.expr (.unary .neg (.bin .sub (.unary .neg (.int 9223372036854775807)) (.int 1)))] 1 () := by
  rintro ⟨n, r, s, flow, steps, -, hunique, -, hends, -⟩
  obtain ⟨rfl, -⟩ := Prod.mk.injEq .. ▸ hunique 9 (.error .overflow, _) rfl
  obtain ⟨o, ho⟩ | ⟨e, he⟩ := hends
  · exact nomatch ho
  · exact nomatch he

end AthenaOS.Athlang
