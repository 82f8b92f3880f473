import AthenaOS.Package.Search

/-!
# What a resolved set is

The clauses know names. Whether a name is a package one can get, which versions a dependency
accepts, and what is already installed are not in them.
-/

namespace AthenaOS.Package

open Lib Lib.Sat Relation

namespace DependencySolver

variable {s s' : DependencySolver} {targets list : List String}

/-- In the set: installed, or listed. -/
def Member (s : DependencySolver) (list : List String) (name : String) : Prop :=
  name ∈ s.installed ∨ name ∈ list

/-- The names a call can choose from: those with a variable, and those it mentions. -/
def Known (s : DependencySolver) (targets : List String) (name : String) : Prop :=
  (∃ id, s.packageIds[name]? = some id) ∨ name ∈ targets ∨ ∃ pkg ∈ s.available,
    name = pkg.name ∨ (∃ dep ∈ pkg.depends, name = dep.name) ∨ name ∈ pkg.conflicts

/-- The clauses of a call allow the set of names. -/
structure Accepts (s : DependencySolver) (targets : List String) (P : String → Prop) : Prop where
  known : ∀ name, P name → Known s targets name
  targets : ∀ target ∈ targets, P target
  depends : ∀ pkg ∈ s.available, P pkg.name → ∀ dep ∈ pkg.depends, P dep.name
  conflicts : ∀ pkg ∈ s.available, P pkg.name → ∀ conflict ∈ pkg.conflicts, ¬ P conflict

/-- Every name with a variable is one of `N`. -/
def Within (N : String → Prop) (s : DependencySolver) : Prop :=
  ∀ (name : String) id, s.packageIds[name]? = some id → N name

variable {N : String → Prop}

variable {name : String} {fuel : Nat}

theorem Within.getVar (h : Within N s) (hname : N name) : Within N (s.getVar name).2 := by
  rw [DependencySolver.getVar]
  cases s.packageIds[name]? with
  | some id => exact h
  | none =>
    intro name' id hid
    rw [Std.ExtTreeMap.getElem?_insert] at hid
    split at hid
    · rename_i heq
      exact Std.compare_eq_iff_eq.mp heq ▸ hname
    · exact h name' id hid

theorem Within.foldl {α : Type} {f : DependencySolver → α → DependencySolver} {xs : List α}
    (h : Within N s) (hstep : ∀ s a, a ∈ xs → Within N s → Within N (f s a)) :
    Within N (xs.foldl f s) :=
  List.foldlRecOn xs f h fun s hs a ha => hstep s a ha hs

theorem Within.encodePackage (h : Within N s) {pkg : RepoPackageEntry} (hname : N pkg.name)
    (hdeps : ∀ dep ∈ pkg.depends, N dep.name) (hconflicts : ∀ conflict ∈ pkg.conflicts, N conflict) :
    Within N (s.encodePackage pkg) := by
  have hfirst : Within N (pkg.depends.foldl (encodeDependency · (s.getVar pkg.name).1 ·)
      (s.getVar pkg.name).2) :=
    (h.getVar hname).foldl fun _ dep hdep hs => hs.getVar (hdeps dep hdep)
  exact hfirst.foldl fun _ conflict hconflict hs => hs.getVar (hconflicts conflict hconflict)

section Orderly

variable {ids : List UInt32} {cs : List (Clause UInt32)} {A B D : Partial UInt32}
  {M : UInt32 → Bool} {K k : Nat}

/-- What is assigned, and the values a valuation gives the first names. -/
def upTo (ids : List UInt32) (A : Partial UInt32) (M : UInt32 → Bool) (k : Nat) : Partial UInt32 :=
  fun v => if v ∈ ids.take k then some (M v) else A v

/-- Propagation comes to give the variable the value. -/
def Forced (cs : List (Clause UInt32)) (A : Partial UInt32) (v : UInt32) (b : Bool) : Prop :=
  ∃ B, ReflTransGen (UnitStep cs) A B ∧ B v = some b

/-- Propagation comes to make every clause true. -/
def AllForced (cs : List (Clause UInt32)) (A : Partial UInt32) : Prop :=
  ∃ B, ReflTransGen (UnitStep cs) A B ∧ ∀ c ∈ cs, TrueUnder B c

/-- Taking one name after the other, as long as a clause is open, meets no contradiction: some
model takes each of the first `K` names that those before it do not rule out. -/
structure Orderly (ids : List UInt32) (cs : List (Clause UInt32)) (A : Partial UInt32)
    (M : UInt32 → Bool) (K : Nat) : Prop where
  model : Satisfies M cs
  extended : Extends M A
  taken : ∀ k v, k < K → ids[k]? = some v → M v = true ∨ Forced cs (upTo ids A M k) v false
  done : AllForced cs (upTo ids A M K)
  first : ∀ k < K, ¬ AllForced cs (upTo ids A M k)

theorem upTo_le (hle : Le A B) (hM : Extends M B) (hset : ∀ v ∈ ids.take k, B v ≠ none) :
    Le (upTo ids A M k) B := by
  intro v b hv
  rw [upTo] at hv
  split at hv
  · rename_i hmem
    obtain ⟨b', hb'⟩ := Option.ne_none_iff_exists'.mp (hset v hmem)
    rw [hb', ← hM v b' hb', hv]
  · exact hle v b hv

variable {v : UInt32}

theorem upTo_of_mem (h : v ∈ ids.take k) : upTo ids A M k v = some (M v) := if_pos h

theorem le_upTo (hM : Extends M A) : Le A (upTo ids A M k) := by
  intro v b hv
  by_cases hmem : v ∈ ids.take k
  · rw [upTo_of_mem hmem, hM v b hv]
  · rwa [upTo, if_neg hmem]

theorem extends_upTo (hM : Extends M A) : Extends M (upTo ids A M k) := by
  intro v b hv
  rw [upTo] at hv
  split at hv
  · exact Option.some.inj hv
  · exact hM v b hv

/-- The search is where the first `k` names have been taken. -/
structure TakenTo (ids : List UInt32) (cs : List (Clause UInt32)) (A : Partial UInt32)
    (M : UInt32 → Bool) (k : Nat) (B : Partial UInt32) : Prop where
  extended : Extends M B
  above : ∀ {D}, ReflTransGen (UnitStep cs) B D → Settled cs D → Le (upTo ids A M k) D
  below : ∀ {D}, Settled cs D → Le (upTo ids A M k) D → Le B D

/-- The next decision takes a name that is not ruled out, before the last one. -/
theorem TakenTo.next (h : Orderly ids cs A M K) {A₀ : Partial UInt32}
    (hat : TakenTo ids cs A M k A₀) (hsteps : ReflTransGen (UnitStep cs) A₀ B)
    (hsettled : Settled cs B) (hopen : ¬ ∀ c ∈ cs, TrueUnder B c)
    (hfind : findUnassigned ids B = some v) :
    ∃ p, p < K ∧ TakenTo ids cs A M (p + 1) (assign B v true) := by
  obtain ⟨hnone, p, hp, hget, hbefore⟩ := List.find?_eq_some_iff_getElem.mp hfind
  have hnone : B v = none := Option.isNone_iff_eq_none.mp hnone
  have hB : Extends M B := h.model.extends_of_unitSteps hat.extended hsteps
  have hkB : Le (upTo ids A M k) B := hat.above hsteps hsettled
  have hAB : Le A B := (le_upTo h.extended).trans hkB
  have hset : ∀ {j}, j ≤ p → Le (upTo ids A M j) B := by
    refine fun {j} hj => upTo_le hAB hB fun w hw => ?_
    obtain ⟨i, hi, rfl⟩ := List.mem_iff_getElem.mp hw
    rw [List.length_take] at hi
    rw [List.getElem_take]
    have hb := hbefore i (by omega)
    rw [Bool.not_eq_true', Option.isNone_eq_false_iff, Option.isSome_iff_ne_none] at hb
    exact hb
  have hmem : v ∈ ids.take (p + 1) := by
    rw [List.take_succ_eq_append_getElem hp, hget]
    exact List.mem_append_right _ (List.mem_singleton_self v)
  have hpK : p < K := by
    by_contra hle
    obtain ⟨D, hD, htrue⟩ := h.done
    exact hopen fun c hc => (htrue c hc).mono (hsettled.le_of_unitSteps (hset (by omega)) hD)
  have hMv : M v = true := by
    rcases h.taken p v hpK (List.getElem?_eq_some_iff.mpr ⟨hp, hget⟩) with htrue | ⟨D, hD, hfalse⟩
    · exact htrue
    · exact nomatch hnone.symm.trans (hsettled.le_of_unitSteps (hset (Nat.le_refl p)) hD _ _ hfalse)
  have hkp : k ≤ p := by
    by_contra hlt
    have hin : v ∈ ids.take k := (List.take_subset_take_left ids (by omega)) hmem
    exact nomatch hnone.symm.trans (hkB v _ (upTo_of_mem hin))
  have hassign : Extends M (assign B v true) := hB.assign hMv
  refine ⟨p, hpK, hassign, fun {D} hsteps' _ => ?_, fun {D} hD hle => ?_⟩
  · refine (upTo_le (hAB.trans (le_assign hnone true)) hassign fun w hw => ?_).trans
      (le_of_unitSteps hsteps')
    rw [List.take_succ_eq_append_getElem hp, hget, List.mem_append, List.mem_singleton] at hw
    rcases hw with hw | rfl
    · rw [le_assign hnone true w _ (hset (Nat.le_refl p) w _ (upTo_of_mem hw))]
      exact Option.some_ne_none _
    · rw [assign, Function.update_self]
      exact Option.some_ne_none _
  · have hkD : Le (upTo ids A M k) D := by
      refine (upTo_le (le_upTo h.extended) (extends_upTo h.extended) fun w hw => ?_).trans hle
      rw [upTo_of_mem (List.take_subset_take_left ids (Nat.le_succ_of_le hkp) hw)]
      exact Option.some_ne_none _
    have hBD : Le B D := hD.le_of_unitSteps (hat.below hD hkD) hsteps
    intro w b hw
    rw [assign, Function.update_apply] at hw
    split at hw
    · rename_i heq
      rw [heq, hle v _ (upTo_of_mem hmem), hMv, hw]
    · exact hBD w b hw

end Orderly

end DependencySolver

end AthenaOS.Package
