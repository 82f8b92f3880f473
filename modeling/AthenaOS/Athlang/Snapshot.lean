import AthenaOS.Athlang.Immutability

/-!
# Closures are snapshots

A call of a closure runs on a scope of its own that binds every name the closure captured; the
scopes of the callers are below it.
-/

namespace AthenaOS.Athlang

open Lib Lib.Semantics

variable {H : Type} {E : String → Prop}

/-! ## Two stacks -/

/-- The scopes bind the same names to the same values, but for the names in `E`. -/
def Agree (E : String → Prop) : List Frame → List Frame → Prop :=
  List.Forall₂ fun f g => ∀ n, ¬ E n → f n = g n

/-- The names in `E` are bound as before. -/
def Untouched (E : String → Prop) : List Frame → List Frame → Prop :=
  List.Forall₂ fun f g => ∀ n, E n → f n = g n

theorem Untouched.refl (scopes : List Frame) : Untouched E scopes scopes :=
  List.forall₂_same.mpr fun _ _ _ _ => rfl

variable {a b below below' top : List Frame} {n name : String} {β : Type} {frame : Frame}

theorem Untouched.trans {c : List Frame} (h : Untouched E a b) (h' : Untouched E b c) :
    Untouched E a c := by
  induction h generalizing c with
  | nil => exact h'
  | cons hf _ ih =>
    cases h' with
    | cons hg hrest => exact .cons (fun n hn => (hf n hn).trans (hg n hn)) (ih hrest)

theorem Agree.lookup (h : Agree E below below') (hn : ¬ E n) :
    lookup n below = lookup n below' := by
  induction h with
  | nil => rfl
  | cons hf _ ih => rw [Athlang.lookup, Athlang.lookup, hf n hn, ih]

theorem lookup_append (n : String) (top below : List Frame) :
    lookup n (top ++ below) = (lookup n top).or (lookup n below) := by
  induction top with
  | nil => rfl
  | cons scope top ih => rw [List.cons_append, lookup, lookup, ih, Option.or_assoc]

theorem lookup_isSome_of_bindingAt {i : Nat} {scopes : List Frame}
    (h : (bindingAt i n scopes).isSome) : (lookup n scopes).isSome := by
  induction scopes with
  | nil => exact absurd h Bool.false_ne_true
  | cons scope scopes ih =>
    rw [bindingAt] at h
    rw [lookup, Option.isSome_or]
    split at h
    · rw [h, Bool.true_or]
    · rw [ih h, Bool.or_true]

/-! ## Assignments -/

theorem resolveMut_above (f : Value → Except RaeError (Value × β)) (h : (lookup name top).isSome)
    (below : List Frame) :
    resolveMut name f (top ++ below) =
      (resolveMut name f top).map fun x => (x.1 ++ below, x.2) := by
  induction top with
  | nil => exact absurd h Bool.false_ne_true
  | cons scope top ih =>
    rw [List.cons_append, resolveMut, resolveMut]
    rw [lookup] at h
    cases hscope : scope name with
    | none =>
      rw [hscope] at h
      rw [ih h]
      cases resolveMut name f top <;> rfl
    | some b =>
      obtain ⟨v, _ | _⟩ := b
      · rfl
      · dsimp only
        cases f v <;> rfl

theorem resolveMut_below (f : Value → Except RaeError (Value × β)) (h : lookup name top = none)
    (below : List Frame) :
    resolveMut name f (top ++ below) =
      (resolveMut name f below).map fun x => (top ++ x.1, x.2) := by
  induction top with
  | nil =>
    show resolveMut name f below = _
    cases resolveMut name f below <;> rfl
  | cons scope top ih =>
    rw [lookup, Option.or_eq_none_iff] at h
    rw [List.cons_append, resolveMut, h.1]
    dsimp only
    rw [ih h.2]
    cases resolveMut name f below <;> rfl

/-- An assignment to a name that is not in `E`. -/
theorem resolveMut_agree (hname : ¬ E name) (f : Value → Except RaeError (Value × β))
    (h : Agree E below below') :
    Both (fun x y => y.2 = x.2 ∧ Agree E x.1 y.1 ∧ Untouched E below x.1 ∧ Untouched E below' y.1)
      (resolveMut name f below) (resolveMut name f below') := by
  induction h with
  | nil => exact rfl
  | @cons scope scope' scopes scopes' hscope hrest ih =>
    -- A scope that changes is changed at the name alone, in both stacks.
    have hchanged (g : Frame) (b : Value × Bool) (n : String) (hn : E n) : g n = g.insert name b n :=
      (Frame.insert_of_ne g b (by rintro rfl; exact hname hn)).symm
    have hboth := hscope name hname
    rcases hbound : scope name with _ | ⟨v, _ | _⟩ <;> rw [hbound] at hboth
    · have hpass (g : Frame) (hg : none = g name) (rest : List Frame) :
          resolveMut name f (g :: rest) = (resolveMut name f rest).map fun x => (g :: x.1, x.2) := by
        have habove : lookup name [g] = none := by
          rw [lookup, ← hg]
          rfl
        exact resolveMut_below f habove rest
      rw [hpass scope hbound.symm, hpass scope' hboth]
      refine ih.map ?_
      rintro x y ⟨hresult, hagree, huntouched, huntouched'⟩
      exact ⟨hresult, .cons hscope hagree, .cons (fun _ _ => rfl) huntouched,
        .cons (fun _ _ => rfl) huntouched'⟩
    · rw [resolveMut, resolveMut, hbound, ← hboth]
      exact rfl
    · rw [resolveMut, resolveMut, hbound, ← hboth]
      dsimp only
      cases f v with
      | error e => exact rfl
      | ok x =>
        refine ⟨rfl, .cons (fun n hn => ?_) hrest, .cons (hchanged scope _) (Untouched.refl _),
          .cons (hchanged scope' _) (Untouched.refl _)⟩
        rw [Frame.insert, Frame.insert, hscope n hn]

/-! ## Inside a call -/

/-- The states are the same but for the scopes, and `above` relates these. -/
def SameBut (above : List Frame → List Frame → Prop) (s t : Interp H) : Prop :=
  t = { s with scopes := t.scopes } ∧ above s.scopes t.scopes

/-- Scopes inside the call of a closure: the call has `d` scopes of its own over the one it started
with, which binds every name in `E`. The callers' scopes below agree but for these names, which are
bound as when the call started. -/
def Inside (E : String → Prop) (below below' : List Frame) (d : Nat) (a b : List Frame) : Prop :=
  ∃ top c c', a = top ++ c ∧ b = top ++ c' ∧ top.length = d + 1 ∧
    (∀ n, E n → (bindingAt 0 n top).isSome) ∧ Agree E c c' ∧ Untouched E below c ∧
    Untouched E below' c'

namespace Inside

variable {below below' : List Frame} {d : Nat} {a b : List Frame}

/-- A name that is bound in the callers' scopes alone is not in `E`. -/
theorem not_mem {top : List Frame} {n : String} (hE : ∀ n, E n → (bindingAt 0 n top).isSome)
    (hn : lookup n top = none) : ¬ E n := by
  intro h
  have hsome := lookup_isSome_of_bindingAt (hE n h)
  rw [hn] at hsome
  exact Bool.false_ne_true hsome

theorem lookup (h : Inside E below below' d a b) (n : String) : lookup n b = lookup n a := by
  obtain ⟨top, c, c', rfl, rfl, -, hE, hagree, -, -⟩ := h
  rw [lookup_append, lookup_append]
  cases hn : Athlang.lookup n top with
  | some v => rfl
  | none => exact (hagree.lookup (not_mem hE hn)).symm

theorem captureEnv (h : Inside E below below' d a b) : captureEnv b = captureEnv a := by
  funext n
  rw [captureEnv_eq_lookup, captureEnv_eq_lookup, h.lookup]

theorem push (h : Inside E below below' d a b) (frame : Frame) :
    Inside E below below' (d + 1) (frame :: a) (frame :: b) := by
  obtain ⟨top, c, c', rfl, rfl, hlen, hE, hrest⟩ := h
  refine ⟨frame :: top, c, c', rfl, rfl, congrArg Nat.succ hlen, fun n hn => ?_, hrest⟩
  obtain ⟨v, hv⟩ := Option.isSome_iff_exists.mp (hE n hn)
  rw [bindingAt_push frame hv]
  rfl

theorem pop (h : Inside E below below' (d + 1) a b) : Inside E below below' d a.tail b.tail := by
  obtain ⟨top, c, c', rfl, rfl, hlen, hE, hrest⟩ := h
  cases top with
  | nil => exact nomatch hlen
  | cons scope top =>
    refine ⟨top, c, c', rfl, rfl, Nat.succ.inj hlen, fun n hn => ?_, hrest⟩
    obtain ⟨v, hv⟩ := Option.isSome_iff_exists.mp (hE n hn)
    have hlong : (scope :: top).length ≠ 0 + 1 := by
      rw [hlen]
      exact nofun
    rw [show bindingAt 0 n top = some v from bindingAt_pop hlong hv]
    rfl

theorem bind (h : Inside E below below' d a b) (name : String) (x : Value × Bool) :
    ∃ scope rest scope' rest', a = scope :: rest ∧ b = scope' :: rest' ∧
      Inside E below below' d (scope.insert name x :: rest) (scope'.insert name x :: rest') := by
  obtain ⟨top, c, c', rfl, rfl, hlen, hE, hrest⟩ := h
  cases top with
  | nil => exact nomatch hlen
  | cons scope top =>
    refine ⟨scope, top ++ c, scope, top ++ c', rfl, rfl, scope.insert name x :: top, c, c', rfl, rfl,
      hlen, fun n hn => ?_, hrest⟩
    have hbound := hE n hn
    rw [bindingAt] at hbound ⊢
    split
    · next h0 =>
      rw [if_pos h0] at hbound
      exact Frame.insert_isSome hbound name x
    · next h0 =>
      rw [if_neg h0] at hbound
      exact hbound

/-- Assignments have the same result in both. -/
theorem resolveMut {β : Type} (h : Inside E below below' d a b) (name : String)
    (f : Value → Except RaeError (Value × β)) :
    Both (fun x y => y.2 = x.2 ∧ Inside E below below' d x.1 y.1) (resolveMut name f a)
      (resolveMut name f b) := by
  obtain ⟨top, c, c', rfl, rfl, hlen, hE, hagree, hbelow, hbelow'⟩ := h
  cases hn : Athlang.lookup name top with
  | some v =>
    have hsome : (Athlang.lookup name top).isSome := by rw [hn]; rfl
    rw [resolveMut_above f hsome, resolveMut_above f hsome]
    cases hx : Athlang.resolveMut name f top with
    | error e => exact rfl
    | ok x =>
      exact ⟨rfl, x.1, c, c', rfl, rfl, (resolveMut_length hx).trans hlen,
        fun n hn => resolveMut_isSome hx (hE n hn), hagree, hbelow, hbelow'⟩
  | none =>
    have hboth := resolveMut_agree (not_mem hE hn) f hagree
    rw [resolveMut_below f hn, resolveMut_below f hn]
    refine hboth.map ?_
    rintro x y ⟨hresult, hagree', huntouched, huntouched'⟩
    exact ⟨hresult, top, x.1, y.1, rfl, rfl, hlen, hE, hagree', hbelow.trans huntouched,
      hbelow'.trans huntouched'⟩

end Inside

section

variable {below below' : List Frame} {d : Nat} {s t : Interp H}

theorem update_inside {β : Type} (h : SameBut (Inside E below below' d) s t) (base : String)
    (f : Value → Except RaeError (Value × β)) :
    (t.update base f).1 = (s.update base f).1 ∧
      SameBut (Inside E below below' d) (s.update base f).2 (t.update base f).2 := by
  obtain ⟨heq, hinside⟩ := h
  have hboth := hinside.resolveMut base f
  rw [Interp.update, Interp.update]
  obtain ⟨e, hx, hy⟩ | ⟨x, y, hx, hy, hresult, hinside'⟩ := hboth.inv
  · rw [hx, hy]
    exact ⟨rfl, heq, hinside⟩
  · rw [hx, hy]
    exact ⟨congrArg Except.ok hresult, by rw [heq], hinside'⟩

variable {R R' : List Frame → List Frame → Prop}

theorem burn_sameBut (h : SameBut R s t) : Both (SameBut R) s.burn t.burn := by
  obtain ⟨heq, hscopes⟩ := h
  rw [heq, Interp.burn, Interp.burn]
  split
  · exact rfl
  · exact ⟨rfl, hscopes⟩

theorem callHost_withScopes (host : Host H) (s : Interp H) (scopes : List Frame) (name : String)
    (argv : List Value) :
    Interp.callHost host { s with scopes } name argv =
      ((s.callHost host name argv).1, { (s.callHost host name argv).2 with scopes }) := by
  rw [Interp.callHost, Interp.callHost, Interp.burn, Interp.burn]
  dsimp only
  by_cases hfuel : s.fuel = 0
  · rw [if_pos hfuel, if_pos hfuel]
  · rw [if_neg hfuel, if_neg hfuel]
    dsimp only
    rcases host s.host name argv with ⟨e | v, h⟩ <;> rfl

theorem exec_inside (host : Host H) (o : Op) (h : SameBut (Inside E below below' d) s t) :
    (t.exec host o).1 = (s.exec host o).1 ∧
      SameBut (Inside E below below' d) (s.exec host o).2 (t.exec host o).2 := by
  cases o with
  | assign base keys v => exact update_inside h base _
  | mutate base keys method argv => exact update_inside h base _
  | lookup name =>
    obtain ⟨heq, hinside⟩ := h
    exact ⟨congrArg Except.ok (hinside.lookup name), heq, hinside⟩
  | closure params body =>
    obtain ⟨heq, hinside⟩ := h
    have hcell : t.nextCell = s.nextCell := by rw [heq]
    refine ⟨?_, ?_, hinside⟩
    · show Except.ok (Value.func t.nextCell params body (captureEnv t.scopes)) = _
      rw [hinside.captureEnv, hcell]
      rfl
    · show ({ t with nextCell := t.nextCell + 1 } : Interp H) = _
      rw [heq]
      rfl
  | bindVar name mutable v =>
    obtain ⟨heq, hinside⟩ := h
    obtain ⟨scope, rest, scope', rest', hs, ht, hinside'⟩ := hinside.bind name (v, mutable)
    have hbind : s.bindVar name (v, mutable) =
        (.ok (), { s with scopes := scope.insert name (v, mutable) :: rest }) := by
      rw [Interp.bindVar, hs]
    have hbind' : t.bindVar name (v, mutable) =
        (.ok (), { t with scopes := scope'.insert name (v, mutable) :: rest' }) := by
      rw [Interp.bindVar, ht]
    show (t.bindVar name (v, mutable)).1 = (s.bindVar name (v, mutable)).1 ∧
      SameBut (Inside E below below' d) (s.bindVar name (v, mutable)).2 (t.bindVar name (v, mutable)).2
    rw [hbind, hbind']
    exact ⟨rfl, by rw [heq], hinside'⟩
  | burn =>
    rw [Interp.exec, Interp.exec]
    obtain ⟨e, hs, ht⟩ | ⟨s₁, t₁, hs, ht, hboth⟩ := (burn_sameBut h).inv
    · rw [hs, ht]
      exact ⟨rfl, h⟩
    · rw [hs, ht]
      exact ⟨rfl, hboth⟩
  | callHost name argv =>
    obtain ⟨heq, hinside⟩ := h
    show (t.callHost host name argv).1 = (s.callHost host name argv).1 ∧
      SameBut (Inside E below below' d) (s.callHost host name argv).2 (t.callHost host name argv).2
    rw [heq, callHost_withScopes]
    refine ⟨rfl, rfl, ?_⟩
    rw [callHost_scopes]
    exact hinside
  | _ =>
    obtain ⟨heq, hinside⟩ := h
    rw [heq]
    exact ⟨rfl, rfl, hinside⟩

theorem enter_sameBut (c : Activation) (h : SameBut R s t)
    (hpush : ∀ a b, R a b → R' (c.frame :: a) (c.frame :: b)) :
    Both (SameBut R') (s.enter c) (t.enter c) := by
  have hdepth : t.depth = s.depth := by rw [h.1]
  rw [Interp.enter, Interp.enter, hdepth]
  split
  · exact rfl
  · obtain ⟨e, hs, ht⟩ | ⟨s₁, t₁, hs, ht, heq, hscopes⟩ := (burn_sameBut h).inv
    · rw [hs, ht]
      exact rfl
    · rw [hs, ht]
      exact ⟨by rw [heq], hpush _ _ hscopes⟩

theorem leave_sameBut (h : SameBut R s t) (hpop : ∀ a b, R a b → R' a.tail b.tail) :
    SameBut R' s.leave t.leave := by
  obtain ⟨heq, hscopes⟩ := h
  exact ⟨by rw [Interp.leave, Interp.leave, heq], hpop _ _ hscopes⟩

end

/-- Two runs inside the call. -/
theorem simulation_inside (rt : Runtime) (host : Host H) (E : String → Prop)
    (below below' : List Frame) :
    Simulation (semantics rt host) (semantics rt host)
      fun d => SameBut (Inside E below below' d) where
  body _ := rfl
  exec _ o _ _ h := exec_inside host o h
  openScope _ frame s t h := ⟨by rw [h.1]; rfl, h.2.push frame⟩
  closeScope _ _ s t h := ⟨by rw [h.1]; rfl, h.2.pop⟩
  enter _ c s t h := enter_sameBut c h fun a b hab => hab.push c.frame
  leave _ _ s t h := leave_sameBut h fun a b hab => hab.pop
  tick _ s t h := burn_sameBut h

/-! ## Calls of a closure -/

/-- Between calls the callers' scopes are all there is. -/
def Outside (E : String → Prop) (below below' a b : List Frame) : Prop :=
  Agree E a b ∧ Untouched E below a ∧ Untouched E below' b

theorem Outside.enter (h : Outside E below below' a b) (hE : ∀ n, E n → (frame n).isSome) :
    Inside E below below' 0 (frame :: a) (frame :: b) := by
  obtain ⟨hagree, hbelow, hbelow'⟩ := h
  refine ⟨[frame], a, b, rfl, rfl, rfl, fun n hn => ?_, hagree, hbelow, hbelow'⟩
  rw [bindingAt, if_pos List.length_nil]
  exact hE n hn

theorem Inside.leave (h : Inside E below below' 0 a b) : Outside E below below' a.tail b.tail := by
  obtain ⟨top, c, c', rfl, rfl, hlen, -, hrest⟩ := h
  obtain ⟨own, rfl⟩ := List.length_eq_one_iff.mp hlen
  exact hrest

/-- The function's own scope binds every name in `E`. -/
def Covers (E : String → Prop) (c : Activation) : Prop := ∀ n, E n → (c.frame n).isSome

theorem frame_isSome (h : (frame n).isSome) (bindings : List (String × Value)) :
    (bindings.foldl (fun (frame : Frame) pv => frame.insert pv.1 (pv.2, true)) frame n).isSome := by
  induction bindings generalizing frame with
  | nil => exact h
  | cons pv bindings ih => exact ih (Frame.insert_isSome h pv.1 (pv.2, true))

section

variable {f : FuncVal} (hf : ∀ n, E n → (f.captured n).isSome)
include hf

theorem callFunc_calls (argv : List Value) : (callFunc f argv).Calls (Covers E) := by
  rw [callFunc]
  split
  · exact .fail _
  · refine .call (fun n hn => frame_isSome (hf n hn) _) fun flow => ?_
    cases flow with
    | normal => exact .pure _
    | ret v => exact .pure v
    | brk => exact .fail _
    | cont => exact .fail _

omit hf in
theorem foldItems_calls {σ : Type} {step : σ → Value → Run σ}
    (hstep : ∀ acc it, (step acc it).Calls (Covers E)) (acc : σ) (items : List Value) :
    (foldItems step acc items).Calls (Covers E) := by
  refine .loop ?_ .pure
  rintro ⟨_ | ⟨it, items⟩, acc⟩
  · exact .pure _
  · exact (hstep acc it).bind fun a => .pure _

theorem mapItems_calls (items : List Value) : (mapItems f items).Calls (Covers E) :=
  foldItems_calls (fun _ it => (callFunc_calls hf [it]).bind fun _ => .pure _) [] items

theorem filterItems_calls (items : List Value) : (filterItems f items).Calls (Covers E) := by
  refine foldItems_calls (fun out it => (callFunc_calls hf [it]).bind fun v => ?_) [] items
  split
  · exact .pure _
  · exact .pure _
  · exact .fail _

theorem reduceItems_calls (acc : Value) (items : List Value) :
    (reduceItems f acc items).Calls (Covers E) :=
  foldItems_calls (fun acc it => callFunc_calls hf [acc, it]) acc items

end

/-- From states that are the same but for the values of the names in `E`, the result is the same and
so are the states left, their output and host calls with them, but for these values; and these
values are as before. -/
def Isolated (rt : Runtime) (host : Host H) (E : String → Prop) {α : Type} (p : Run α) : Prop :=
  ∀ s t : Interp H, SameBut (Agree E) s t →
    ∃ (n : Nat) (r : Except Stop α) (s' t' : Interp H),
      (∀ m, n ≤ m → (semantics rt host).run m p s = some (r, s')) ∧
      (∀ m, n ≤ m → (semantics rt host).run m p t = some (r, t')) ∧
      SameBut (Agree E) s' t' ∧ Untouched E s.scopes s'.scopes ∧ Untouched E t.scopes t'.scopes

theorem isolated_of_calls (rt : Runtime) (host : Host H) {α : Type} {p : Run α}
    (hp : p.Calls (Covers E)) : Isolated rt host E p := by
  rintro s t ⟨heq, hagree⟩
  obtain ⟨n, ⟨r, s'⟩, hs⟩ := run_total (semantics_metered rt host) s.fuel p s (Nat.le_refl _)
  obtain ⟨t', ht, hstates, hagree', hbelow, hbelow'⟩ :=
    run_simulates_calls (simulation_inside rt host E s.scopes t.scopes)
      (Q := SameBut (Outside E s.scopes t.scopes))
      (fun c _ _ hc h => enter_sameBut c h fun _ _ hab => hab.enter hc)
      (fun _ _ _ h => leave_sameBut h fun _ _ hab => hab.leave)
      (fun _ _ h => burn_sameBut h)
      n p r s s' t hp ⟨heq, hagree, Untouched.refl _, Untouched.refl _⟩ hs
  exact ⟨n, r, s', t', fun m hm => run_mono _ n m p s _ hs hm, fun m hm => run_mono _ n m p t _ ht hm,
    ⟨hstates, hagree'⟩, hbelow, hbelow'⟩

/-- A closure is a snapshot of what was visible when it was created. Whatever state it is called
in, by itself or for the items of an array, the call changes no binding of a captured name outside
it, and does the same whatever these are bound to there. -/
theorem closure_isolated (rt : Runtime) (host : Host H) (created : Interp H) (params : List String)
    (body : List Stmt) :
    ∃ (cell : Nat) (captured : Frame) (after : Interp H),
      (∀ n, 2 ≤ n → (semantics rt host).run n (eval rt (.closure params body)) created =
        some (.ok (.func cell params body captured), after)) ∧
      (∀ argv, Isolated rt host (fun n => (lookup n created.scopes).isSome)
        (callFunc ⟨params, body, captured⟩ argv)) ∧
      (∀ items, Isolated rt host (fun n => (lookup n created.scopes).isSome)
        (mapItems ⟨params, body, captured⟩ items)) ∧
      (∀ items, Isolated rt host (fun n => (lookup n created.scopes).isSome)
        (filterItems ⟨params, body, captured⟩ items)) ∧
      (∀ acc items, Isolated rt host (fun n => (lookup n created.scopes).isSome)
        (reduceItems ⟨params, body, captured⟩ acc items)) := by
  have hf : ∀ n, (lookup n created.scopes).isSome = true →
      ((⟨params, body, captureEnv created.scopes⟩ : FuncVal).captured n).isSome := by
    intro n hn
    show (captureEnv created.scopes n).isSome
    rw [captureEnv_eq_lookup]
    exact hn
  refine ⟨created.nextCell, captureEnv created.scopes, _,
    fun n hn => run_mono (semantics rt host) 2 n _ created _ rfl hn, ?_, ?_, ?_, ?_⟩
  · exact fun argv => isolated_of_calls rt host (callFunc_calls hf argv)
  · exact fun items => isolated_of_calls rt host (mapItems_calls hf items)
  · exact fun items => isolated_of_calls rt host (filterItems_calls hf items)
  · exact fun acc items => isolated_of_calls rt host (reduceItems_calls hf acc items)

end AthenaOS.Athlang
