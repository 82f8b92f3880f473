import AthenaOS.Package.Solver
import AthenaOS.Lib.Machine

/-!
# What the solver's clauses say

Encoding only adds names and clauses: every target is required, every dependency implied, every
conflict excluded.
-/

namespace AthenaOS.Package

open Lib Lib.Sat

namespace DependencySolver

variable {s s' s'' : DependencySolver}

/-- Every variable in use is that of a name. -/
def Numbered (s : DependencySolver) : Prop :=
  ∀ c ∈ s.clauses, ∀ l ∈ c, ∃ name : String, s.packageIds[name]? = some l.var

/-- The second state has all the names and clauses of the first. -/
structure Extension (s s' : DependencySolver) : Prop where
  ids : ∀ (name : String) id, s.packageIds[name]? = some id → s'.packageIds[name]? = some id
  clauses : ∀ c ∈ s.clauses, c ∈ s'.clauses
  installed : s'.installed = s.installed
  available : s'.available = s.available
  assignments : s'.assignments = s.assignments

theorem Extension.refl (s : DependencySolver) : Extension s s :=
  ⟨fun _ _ h => h, fun _ h => h, rfl, rfl, rfl⟩

theorem Extension.trans (h : Extension s s') (h' : Extension s' s'') : Extension s s'' where
  ids name id hid := h'.ids name id (h.ids name id hid)
  clauses c hc := h'.clauses c (h.clauses c hc)
  installed := h'.installed.trans h.installed
  available := h'.available.trans h.available
  assignments := h'.assignments.trans h.assignments

/-! ## The three kinds of clause -/

/-- A clause makes the name true. -/
def Requires (s : DependencySolver) (name : String) : Prop :=
  ∃ v, s.packageIds[name]? = some v ∧ [.positive v] ∈ s.clauses

/-- A clause makes the second name true if the first is. -/
def Implies (s : DependencySolver) (name dep : String) : Prop :=
  ∃ v w, s.packageIds[name]? = some v ∧ s.packageIds[dep]? = some w ∧
    [.negative v, .positive w] ∈ s.clauses

/-- A clause makes one of the names false. -/
def Excludes (s : DependencySolver) (name conflict : String) : Prop :=
  ∃ v w, s.packageIds[name]? = some v ∧ s.packageIds[conflict]? = some w ∧
    [.negative v, .negative w] ∈ s.clauses

variable {name : String} {v : UInt32}

theorem Requires.mono (h : Requires s name) (hext : Extension s s') : Requires s' name := by
  obtain ⟨v, hv, hc⟩ := h
  exact ⟨v, hext.ids _ _ hv, hext.clauses _ hc⟩

theorem Implies.mono {dep : String} (h : Implies s name dep) (hext : Extension s s') :
    Implies s' name dep := by
  obtain ⟨v, w, hv, hw, hc⟩ := h
  exact ⟨v, w, hext.ids _ _ hv, hext.ids _ _ hw, hext.clauses _ hc⟩

theorem Excludes.mono {conflict : String} (h : Excludes s name conflict) (hext : Extension s s') :
    Excludes s' name conflict := by
  obtain ⟨v, w, hv, hw, hc⟩ := h
  exact ⟨v, w, hext.ids _ _ hv, hext.ids _ _ hw, hext.clauses _ hc⟩

/-! ## One step of the encoding -/

/-- What a step of the encoding leaves: a numbered extension. -/
structure Encoded (s s' : DependencySolver) : Prop where
  numbered : Numbered s'
  extension : Extension s s'

theorem Encoded.trans (h : Encoded s s') (h' : Encoded s' s'') : Encoded s s'' :=
  ⟨h'.numbered, h.extension.trans h'.extension⟩

/-- A name keeps its variable, or gets the next one. -/
theorem getVar_encoded (h : Numbered s) (name : String) : Encoded s (s.getVar name).2 := by
  rw [getVar]
  cases hname : s.packageIds[name]? with
  | some id => exact ⟨h, .refl s⟩
  | none =>
    have hget : ∀ (name' : String) id, s.packageIds[name']? = some id →
        (s.packageIds.insert name s.nextVar)[name']? = some id := by
      intro name' id hid
      rw [Std.ExtTreeMap.getElem?_insert, if_neg]
      · exact hid
      · rw [Std.compare_eq_iff_eq]
        rintro rfl
        exact nomatch hname.symm.trans hid
    constructor
    · intro c hc l hl
      obtain ⟨name', hname'⟩ := h c hc l hl
      exact ⟨name', hget _ _ hname'⟩
    · exact ⟨hget, fun _ hc => hc, rfl, rfl, rfl⟩

theorem getVar_get (s : DependencySolver) (name : String) :
    (s.getVar name).2.packageIds[name]? = some (s.getVar name).1 := by
  rw [getVar]
  cases hname : s.packageIds[name]? with
  | some id => exact hname
  | none => exact Std.ExtTreeMap.getElem?_insert_self

theorem mem_pushClause (s : DependencySolver) (c : Clause UInt32) :
    c ∈ (s.pushClause c).clauses := List.mem_append_right _ (List.mem_singleton_self c)

/-- A clause over named variables keeps the numbering. -/
theorem pushClause_encoded (h : Numbered s) {c : Clause UInt32}
    (hc : ∀ l ∈ c, ∃ name : String, s.packageIds[name]? = some l.var) : Encoded s (s.pushClause c) := by
  constructor
  · intro c' hc'
    rw [pushClause, List.mem_append, List.mem_singleton] at hc'
    obtain hold | rfl := hc'
    · exact h c' hold
    · exact hc
  · exact ⟨fun _ _ hid => hid, fun _ hc' => List.mem_append_left _ hc', rfl, rfl, rfl⟩

theorem encodeTarget_spec (h : Numbered s) (target : String) :
    Encoded s (s.encodeTarget target) ∧ Requires (s.encodeTarget target) target := by
  have hvar := getVar_encoded h target
  have hget := getVar_get s target
  have hpush := pushClause_encoded hvar.numbered (c := [.positive (s.getVar target).1]) (by
    intro l hl
    rw [List.mem_singleton] at hl
    subst hl
    exact ⟨target, hget⟩)
  exact ⟨hvar.trans hpush, _, hpush.extension.ids _ _ hget, mem_pushClause _ _⟩

/-- A clause of two literals, the second of a name that may be new. -/
theorem encodePair_spec (h : Numbered s) (hname : s.packageIds[name]? = some v) (other : String)
    (second : UInt32 → Literal UInt32) (hsecond : ∀ w, (second w).var = w) :
    let (w, s') := s.getVar other
    Encoded s (s'.pushClause [.negative v, second w]) ∧
    (s'.pushClause [.negative v, second w]).packageIds[name]? = some v ∧
    (s'.pushClause [.negative v, second w]).packageIds[other]? = some w ∧
    [.negative v, second w] ∈ (s'.pushClause [.negative v, second w]).clauses := by
  have hvar := getVar_encoded h other
  have hget := getVar_get s other
  have hpush := pushClause_encoded hvar.numbered
    (c := [.negative v, second (s.getVar other).1]) (by
      intro l hl
      rw [List.mem_cons, List.mem_singleton] at hl
      obtain rfl | rfl := hl
      · exact ⟨name, hvar.extension.ids _ _ hname⟩
      · rw [hsecond]
        exact ⟨other, hget⟩)
  have hall := hvar.trans hpush
  exact ⟨hall, hall.extension.ids _ _ hname, hpush.extension.ids _ _ hget, mem_pushClause _ _⟩

theorem encodeDependency_spec (h : Numbered s) (hname : s.packageIds[name]? = some v)
    (dep : Dependency) :
    Encoded s (s.encodeDependency v dep) ∧ Implies (s.encodeDependency v dep) name dep.name := by
  obtain ⟨hall, hfirst, hother, hmem⟩ := encodePair_spec h hname dep.name .positive fun _ => rfl
  exact ⟨hall, _, _, hfirst, hother, hmem⟩

theorem encodeConflict_spec (h : Numbered s) (hname : s.packageIds[name]? = some v)
    (conflict : String) :
    Encoded s (s.encodeConflict v conflict) ∧
      Excludes (s.encodeConflict v conflict) name conflict := by
  obtain ⟨hall, hfirst, hother, hmem⟩ := encodePair_spec h hname conflict .negative fun _ => rfl
  exact ⟨hall, _, _, hfirst, hother, hmem⟩

/-! ## The loops -/

/-- A loop of encoding steps says of every element what its step says, if a later extension
cannot take that back. `I` is what the steps need. -/
theorem foldl_encoded {α : Type} {f : DependencySolver → α → DependencySolver}
    {I : DependencySolver → Prop} {Q : α → DependencySolver → Prop}
    (hI : ∀ {s s'}, I s → Extension s s' → I s')
    (hQ : ∀ {a s s'}, Q a s → Extension s s' → Q a s')
    (hstep : ∀ s a, Numbered s → I s → Encoded s (f s a) ∧ Q a (f s a)) :
    ∀ (xs : List α) (s : DependencySolver), Numbered s → I s →
      Encoded s (xs.foldl f s) ∧ ∀ a ∈ xs, Q a (xs.foldl f s)
  | [], s, h, _ => ⟨⟨h, .refl s⟩, fun _ ha => absurd ha List.not_mem_nil⟩
  | a :: xs, s, h, hi => by
    obtain ⟨henc, hq⟩ := hstep s a h hi
    obtain ⟨hrest, hall⟩ :=
      foldl_encoded (Q := Q) hI hQ hstep xs (f s a) henc.numbered (hI hi henc.extension)
    refine ⟨henc.trans hrest, fun b hb => ?_⟩
    rw [List.mem_cons] at hb
    obtain rfl | hb := hb
    · exact hQ hq hrest.extension
    · exact hall b hb

/-- What the clauses say of an available package. -/
def States (pkg : RepoPackageEntry) (s : DependencySolver) : Prop :=
  (∃ v, s.packageIds[pkg.name]? = some v) ∧
  (∀ dep ∈ pkg.depends, Implies s pkg.name dep.name) ∧
  ∀ conflict ∈ pkg.conflicts, Excludes s pkg.name conflict

theorem States.mono {pkg : RepoPackageEntry} (h : States pkg s) (hext : Extension s s') :
    States pkg s' := by
  obtain ⟨⟨v, hv⟩, hdeps, hconflicts⟩ := h
  exact ⟨⟨v, hext.ids _ _ hv⟩, fun dep hdep => (hdeps dep hdep).mono hext,
    fun conflict hconflict => (hconflicts conflict hconflict).mono hext⟩

theorem encodePackage_spec (h : Numbered s) (pkg : RepoPackageEntry) :
    Encoded s (s.encodePackage pkg) ∧ States pkg (s.encodePackage pkg) := by
  have hvar := getVar_encoded h pkg.name
  have hget := getVar_get s pkg.name
  obtain ⟨hdeps, himplies⟩ := foldl_encoded
    (I := fun s' => s'.packageIds[pkg.name]? = some (s.getVar pkg.name).1)
    (Q := fun dep s' => Implies s' pkg.name dep.name)
    (fun hi hext => hext.ids _ _ hi) (fun hq hext => Implies.mono hq hext)
    (fun s' dep hnum hi => encodeDependency_spec hnum hi dep)
    pkg.depends _ hvar.numbered hget
  have hget' := hdeps.extension.ids _ _ hget
  obtain ⟨hconflicts, hexcludes⟩ := foldl_encoded
    (I := fun s' => s'.packageIds[pkg.name]? = some (s.getVar pkg.name).1)
    (Q := fun conflict s' => Excludes s' pkg.name conflict)
    (fun hi hext => hext.ids _ _ hi) (fun hq hext => Excludes.mono hq hext)
    (fun s' conflict hnum hi => encodeConflict_spec hnum hi conflict)
    pkg.conflicts _ hdeps.numbered hget'
  refine ⟨hvar.trans (hdeps.trans hconflicts), ⟨_, hconflicts.extension.ids _ _ hget'⟩, ?_, hexcludes⟩
  intro dep hdep
  exact (himplies dep hdep).mono hconflicts.extension

/-- The whole encoding: targets required, and each available package's clauses. -/
theorem encode_spec (h : Numbered s) (targets : List String) :
    Encoded s (s.encode targets) ∧ (∀ target ∈ targets, Requires (s.encode targets) target) ∧
      ∀ pkg ∈ s.available, States pkg (s.encode targets) := by
  obtain ⟨htargets, hrequires⟩ := foldl_encoded (I := fun _ => True)
    (Q := fun target s' => Requires s' target)
    (fun hi _ => hi) (fun hq hext => Requires.mono hq hext)
    (fun s' target hnum _ => encodeTarget_spec hnum target) targets s h trivial
  obtain ⟨hpackages, hstates⟩ := foldl_encoded (I := fun _ => True) (Q := States)
    (fun hi _ => hi) (fun hq hext => States.mono hq hext)
    (fun s' pkg hnum _ => encodePackage_spec hnum pkg)
    (targets.foldl encodeTarget s).available _ htargets.numbered trivial
  refine ⟨htargets.trans hpackages, ?_, ?_⟩
  · intro target htarget
    exact (hrequires target htarget).mono hpackages.extension
  · intro pkg hpkg
    refine hstates pkg ?_
    rw [htargets.extension.available]
    exact hpkg

/-! ## The states of a solver -/

theorem numbered_new : Numbered new := fun _ hc => absurd hc List.not_mem_nil

/-- The public calls on a solver. -/
inductive Call where
  | addInstalled (name : String) (version : Version)
  | addAvailable (entry : RepoPackageEntry)
  | resolve (targets : List String)

/-- A solver under its public calls. -/
def Solvers : Machine DependencySolver Call where
  init s := s = new
  step s call s' :=
    match call with
    | .addInstalled name version => s' = s.addInstalled name version
    | .addAvailable entry => s' = s.addAvailable entry
    | .resolve targets => ∃ fuel r, s.resolve fuel targets = some (r, s')

/-- A resolved solver is the encoded one with other assignments. -/
theorem resolve_eq_some {fuel : Nat} {targets : List String}
    {r : Except PackageError (List String)} (h : s.resolve fuel targets = some (r, s')) :
    ∃ solved assignments,
      solveDpll (s.encode targets).ids (s.encode targets).clauses fuel (s.encode targets).assignments
        = some (solved, assignments) ∧
      s' = { s.encode targets with assignments } ∧
      r = solved.map fun _ => s'.toInstall := by
  rw [resolve, Option.bind_eq_bind, Option.bind_eq_some_iff] at h
  obtain ⟨⟨solved, assignments⟩, hsolve, h⟩ := h
  refine ⟨solved, assignments, hsolve, ?_⟩
  cases solved with
  | error e =>
    obtain ⟨hr, hs⟩ := Prod.mk.inj (Option.some.inj h)
    exact ⟨hs.symm, hr.symm⟩
  | ok u =>
    obtain ⟨hr, hs⟩ := Prod.mk.inj (Option.some.inj h)
    refine ⟨hs.symm, ?_⟩
    rw [← hr, ← hs]
    rfl

theorem Solvers.numbered (h : Solvers.Reachable s) : Numbered s := by
  refine h.invariant ?_ ?_
  · rintro s rfl
    exact numbered_new
  · intro s call s' hnum _ hstep
    cases call with
    | addInstalled name version =>
      obtain rfl := hstep
      exact hnum
    | addAvailable entry =>
      obtain rfl := hstep
      exact hnum
    | resolve targets =>
      obtain ⟨fuel, r, hresolve⟩ := hstep
      obtain ⟨-, assignments, -, rfl, -⟩ := resolve_eq_some hresolve
      exact (encode_spec hnum targets).1.numbered

end DependencySolver

end AthenaOS.Package
