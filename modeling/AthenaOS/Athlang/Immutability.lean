import AthenaOS.Athlang.Metering

/-!
# What is not a `var` stays

Assignments and mutating methods change no binding that is not a `var`, and only some steps of a run
replace such a binding.
-/

namespace AthenaOS.Athlang

open Lib

variable {H : Type}

/-- The binding of the name in the scope with `i` scopes outside it. -/
def bindingAt (i : Nat) (name : String) : List Frame → Option (Value × Bool)
  | [] => none
  | scope :: scopes => if scopes.length = i then scope name else bindingAt i name scopes

section

variable {i : Nat} {name : String} {b : Value × Bool}

variable {scopes scopes' : List Frame} {β : Type} {base : String}

theorem bindingAt_lt (h : bindingAt i name scopes = some b) : i < scopes.length := by
  induction scopes with
  | nil => exact nomatch h
  | cons scope scopes ih =>
    rw [bindingAt] at h
    split at h
    · next hi => exact hi ▸ Nat.lt_succ_self _
    · exact Nat.lt_succ_of_lt (ih h)

theorem bindingAt_push (frame : Frame) (h : bindingAt i name scopes = some b) :
    bindingAt i name (frame :: scopes) = some b := by
  rw [bindingAt, if_neg (Nat.ne_of_gt (bindingAt_lt h))]
  exact h

theorem bindingAt_pop (hi : scopes.length ≠ i + 1) (h : bindingAt i name scopes = some b) :
    bindingAt i name scopes.tail = some b := by
  cases scopes with
  | nil => exact h
  | cons scope scopes =>
    rw [bindingAt, if_neg (fun hlen => hi (congrArg Nat.succ hlen))] at h
    exact h

/-- Another scope in one place of the stack. -/
theorem bindingAt_modified (i : Nat) (name : String) (above below : List Frame) (f g : Frame) :
    bindingAt i name (above ++ g :: below) =
      if below.length = i then g name else bindingAt i name (above ++ f :: below) := by
  induction above with
  | nil =>
    rw [List.nil_append, List.nil_append, bindingAt, bindingAt]
    split <;> rfl
  | cons scope above ih =>
    have hlen (x : Frame) : (above ++ x :: below).length = above.length + below.length + 1 := by
      rw [List.length_append, List.length_cons, Nat.add_assoc]
    rw [List.cons_append, List.cons_append, bindingAt, bindingAt, hlen, hlen, ih]
    split
    · next hi =>
      rw [if_neg]
      omega
    · rfl

/-- A path may lead anywhere into a value: only bindings that are a `var` are given one back. -/
theorem resolveMut_keeps {f : Value → Except RaeError (Value × β)} {v : Value} {x : β}
    (h : resolveMut base f scopes = .ok (scopes', x))
    (hlet : bindingAt i name scopes = some (v, false)) :
    bindingAt i name scopes' = some (v, false) := by
  obtain ⟨above, scope, below, w, w', rfl, hvar, -, rfl⟩ := resolveMut_ok h
  rw [bindingAt_modified i name above below scope]
  split
  · next hi =>
    rw [bindingAt_modified i name above below scope, if_pos hi] at hlet
    -- The binding that changes is a `var`, so it is not this one.
    have hne : name ≠ base := by
      rintro rfl
      exact nomatch hvar.symm.trans hlet
    rw [Frame.insert_of_ne scope _ hne]
    exact hlet
  · exact hlet

/-- Assignments bind no new name. -/
theorem resolveMut_isSome {f : Value → Except RaeError (Value × β)} {x : β}
    (h : resolveMut base f scopes = .ok (scopes', x)) (hbound : (bindingAt i name scopes).isSome) :
    (bindingAt i name scopes').isSome := by
  obtain ⟨above, scope, below, w, w', rfl, hvar, -, rfl⟩ := resolveMut_ok h
  rw [bindingAt_modified i name above below scope]
  split
  · next hi =>
    rw [bindingAt_modified i name above below scope, if_pos hi] at hbound
    exact Frame.insert_isSome hbound base (w', true)
  · exact hbound

end

/-- Steps that may replace a binding of the scope at the height: a `let` or `var` of the same name
when the scope is the innermost one, and the end of the scope. -/
def Replaces (i : Nat) (name : String) (x : Step signature (Interp H)) : Prop :=
  match x.event with
  | .op (.bindVar n _ _) => n = name ∧ x.pre.scopes.length = i + 1
  | .closeScope _ => x.pre.scopes.length = i + 1
  | .leave _ => x.pre.scopes.length = i + 1
  | _ => False

section

variable {i : Nat} {name : String} {v : Value}

variable {s : Interp H}

theorem update_keeps {β : Type} {base : String} {f : Value → Except RaeError (Value × β)}
    (hlet : bindingAt i name s.scopes = some (v, false)) :
    bindingAt i name (s.update base f).2.scopes = some (v, false) := by
  rw [Interp.update]
  cases hresolve : resolveMut base f s.scopes with
  | ok x => exact resolveMut_keeps hresolve hlet
  | error e => exact hlet

theorem bindVar_keeps {n : String} {b : Value × Bool}
    (hother : ¬ (n = name ∧ s.scopes.length = i + 1))
    (hlet : bindingAt i name s.scopes = some (v, false)) :
    bindingAt i name (s.bindVar n b).2.scopes = some (v, false) := by
  rw [Interp.bindVar]
  cases hscopes : s.scopes with
  | nil => exact hlet
  | cons scope scopes =>
    rw [hscopes] at hlet hother
    rw [bindingAt] at hlet
    show bindingAt i name (scope.insert n b :: scopes) = _
    rw [bindingAt]
    split
    · next hi =>
      rw [if_pos hi] at hlet
      rw [Frame.insert_of_ne scope b fun hn => hother ⟨hn.symm, congrArg Nat.succ hi⟩]
      exact hlet
    · next hi =>
      rw [if_neg hi] at hlet
      exact hlet

theorem callHost_scopes (host : Host H) (s : Interp H) (n : String) (argv : List Value) :
    (s.callHost host n argv).2.scopes = s.scopes := by
  rw [Interp.callHost]
  cases hburn : s.burn with
  | error e => rfl
  | ok s₁ =>
    obtain ⟨-, rfl⟩ := Interp.burn_ok hburn
    dsimp only
    rcases host s.host n argv with ⟨e | w, h⟩ <;> rfl

theorem exec_keeps {host : Host H} {o : Op}
    (hother : ¬ Replaces i name ⟨s, .op o, (s.exec host o).2⟩)
    (hlet : bindingAt i name s.scopes = some (v, false)) :
    bindingAt i name (s.exec host o).2.scopes = some (v, false) := by
  cases o with
  | burn =>
    rw [Interp.exec]
    cases hburn : s.burn with
    | error e => exact hlet
    | ok s₁ =>
      obtain ⟨-, rfl⟩ := Interp.burn_ok hburn
      exact hlet
  | callHost n argv =>
    rw [show (s.exec host (.callHost n argv)).2.scopes = _ from callHost_scopes host s n argv]
    exact hlet
  | bindVar n mutable w => exact bindVar_keeps hother hlet
  | assign base keys w => exact update_keeps hlet
  | mutate base keys method argv => exact update_keeps hlet
  | lookup n => exact hlet
  | getFunc n => exact hlet
  | getStruct n => exact hlet
  | closure params body => exact hlet
  | funcRef params body => exact hlet
  | print line => exact hlet
  | declareFunc n params body => exact hlet
  | declareStruct n fields => exact hlet
  | overflow x => exact hlet

variable {rt : Runtime} {host : Host H}

/-- Every other step leaves a binding that is not a `var` as it is. -/
theorem legal_keeps {x : Step signature (Interp H)} (h : (semantics rt host).Legal x)
    (hother : ¬ Replaces i name x) (hlet : bindingAt i name x.pre.scopes = some (v, false)) :
    bindingAt i name x.post.scopes = some (v, false) := by
  obtain ⟨pre, event, post⟩ := x
  cases event with
  | op o =>
    obtain rfl : (pre.exec host o).2 = post := h
    exact exec_keeps hother hlet
  | openScope frame =>
    obtain rfl : pre.push frame = post := h
    exact bindingAt_push frame hlet
  | closeScope frame =>
    obtain rfl : pre.pop = post := h
    exact bindingAt_pop hother hlet
  | enter c =>
    obtain ⟨-, -, rfl⟩ := Interp.enter_ok (show pre.enter c = .ok post from h)
    exact bindingAt_push c.frame hlet
  | leave c =>
    obtain rfl : pre.leave = post := h
    exact bindingAt_pop hother hlet
  | tick =>
    obtain ⟨-, rfl⟩ := Interp.burn_ok (show pre.burn = .ok post from h)
    exact hlet

theorem path_keeps {steps : List (Step signature (Interp H))} {s' : Interp H}
    (h : (semantics rt host).Path s steps s') (hother : ∀ x ∈ steps, ¬ Replaces i name x)
    (hlet : bindingAt i name s.scopes = some (v, false)) :
    bindingAt i name s'.scopes = some (v, false) := by
  induction steps generalizing s with
  | nil =>
    obtain rfl : s = s' := h
    exact hlet
  | cons x steps ih =>
    obtain ⟨rfl, hlegal, hrest⟩ := h
    exact ih hrest (fun y hy => hother y (List.mem_cons_of_mem x hy))
      (legal_keeps hlegal (hother x List.mem_cons_self) hlet)

end

/-- The steps of every run, from its first state to its last: between any two points of it, a
binding that is not a `var` is the same unless a step in between binds the same name in the same
scope or ends the scope. -/
theorem run_keepsLets (rt : Runtime) (host : Host H) (prog : List Stmt) (fuel : Nat) (h : H)
    (n : Nat) (flow : Except Stop Flow) (s : Interp H)
    (hrun : (semantics rt host).run n (execBlock rt prog) (Interp.start fuel h) = some (flow, s)) :
    ∃ steps : List (Step signature (Interp H)),
      (semantics rt host).traced.run n (execBlock rt prog) (Interp.start fuel h, []) =
        some (flow, s, steps) ∧
      (semantics rt host).Path (Interp.start fuel h) steps s ∧
      ∀ before between after, steps = before ++ between ++ after →
        ∃ s₁ s₂, (semantics rt host).Path (Interp.start fuel h) before s₁ ∧
          (semantics rt host).Path s₁ between s₂ ∧ (semantics rt host).Path s₂ after s ∧
          ∀ i name v, bindingAt i name s₁.scopes = some (v, false) →
            (∀ x ∈ between, ¬ Replaces i name x) →
            bindingAt i name s₂.scopes = some (v, false) := by
  obtain ⟨steps, htraced, hpath⟩ := Semantics.run_traced hrun
  refine ⟨steps, htraced, hpath, ?_⟩
  rintro before between after rfl
  obtain ⟨s₂, hboth, hafter⟩ := hpath.split
  obtain ⟨s₁, hbefore, hbetween⟩ := hboth.split
  exact ⟨s₁, s₂, hbefore, hbetween, hafter, fun i name v hlet hother =>
    path_keeps hbetween hother hlet⟩

/-- `let x = [1]`, then `x.append(2)`. -/
theorem run_keepsLets_append :
    ∃ s steps, (semantics .withoutFloats noHost).traced.run 20
      (execBlock .withoutFloats [.bind "x" false (.arrayLit [.int 1]),
        .expr (.method (.var "x") "append" [.int 2])]) (Interp.start 10 (), []) =
        some (.error (.error (.assignToLet "x")), s, steps) := by
  obtain ⟨steps, htraced, -⟩ := run_keepsLets .withoutFloats noHost
    [.bind "x" false (.arrayLit [.int 1]), .expr (.method (.var "x") "append" [.int 2])]
    10 () 20 (.error (.error (.assignToLet "x"))) _ rfl
  exact ⟨_, steps, htraced⟩

end AthenaOS.Athlang
