import AthenaOS.Lib.Forest

/-!
# Trees with named edges

A directory tree, or any tree whose edges carry names, with a parent link kept in each
node. The links are one thing and the edges another; a tree is well kept when they
agree.
-/

namespace AthenaOS.Lib.Forest

universe u v

variable {ν : Type u} {κ : Type v} {parent parent' : ν → Option ν} {r n c q : ν}

/-! ## Paths of names -/

/-- The names of `path` lead from `r` to `n`. -/
inductive Walk (edge : ν → κ → ν → Prop) (r : ν) : List κ → ν → Prop
  | root : Walk edge r [] r
  | step {path : List κ} {n c : ν} {name : κ} :
    Walk edge r path n → edge n name c → Walk edge r (path ++ [name]) c

variable {edge : ν → κ → ν → Prop}

/-- How a walk ends. -/
theorem Walk.inv {path : List κ} (h : Walk edge r path c) :
    (path = [] ∧ c = r) ∨
      ∃ init n name, path = init ++ [name] ∧ Walk edge r init n ∧ edge n name c := by
  cases h with
  | root => exact .inl ⟨rfl, rfl⟩
  | step hinit hedge => exact .inr ⟨_, _, _, rfl, hinit, hedge⟩

/-- **One way to each node**: its parent names it once, nobody else does, and nobody
names the root. -/
theorem existsUnique_walk (hroot : ∀ p name, ¬ edge p name r)
    (hparent : ∀ a b, parent a = some b → a ≠ r → ∃ name, edge b name a ∧
      ∀ p name', edge p name' a → p = b ∧ name' = name)
    (h : Descends parent n r) : ∃! path, Walk edge r path n := by
  induction h using Relation.ReflTransGen.head_induction_on with
  | refl =>
    refine ⟨[], .root, fun path hpath => ?_⟩
    rcases hpath.inv with ⟨rfl, -⟩ | ⟨_, _, _, -, -, hedge⟩
    · rfl
    · exact absurd hedge (hroot _ _)
  | @head a b hab _ ih =>
    by_cases har : a = r
    · subst har
      refine ⟨[], .root, fun path hpath => ?_⟩
      rcases hpath.inv with ⟨rfl, -⟩ | ⟨_, _, _, -, -, hedge⟩
      · rfl
      · exact absurd hedge (hroot _ _)
    · obtain ⟨init, hinit, hunique⟩ := ih
      obtain ⟨name, hedge, honly⟩ := hparent a b hab har
      refine ⟨init ++ [name], hinit.step hedge, fun path hpath => ?_⟩
      rcases hpath.inv with ⟨-, heq⟩ | ⟨init', n', name', rfl, hinit', hedge'⟩
      · exact absurd heq har
      · obtain ⟨rfl, rfl⟩ := honly n' name' hedge'
        rw [hunique init' hinit']

/-! ## Changing one link -/

/-- A chain that does not pass `c` is there whatever the link of `c`. -/
theorem Descends.relink (h : Descends parent n r) (hsame : ∀ a, a ≠ c → parent' a = parent a)
    (hnot : ¬ Descends parent n c) : Descends parent' n r := by
  induction h using Relation.ReflTransGen.head_induction_on with
  | refl => exact Relation.ReflTransGen.refl
  | @head a b hab _ ih =>
    have hne : a ≠ c := by
      rintro rfl
      exact hnot Relation.ReflTransGen.refl
    refine Relation.ReflTransGen.head ?_ (ih fun hbc => hnot (Relation.ReflTransGen.head hab hbc))
    rw [hsame a hne, hab]

/-- **A node hung under another one** that is not below it: what led to the root still
does. -/
theorem Descends.move (h : Descends parent n r) (hsame : ∀ a, a ≠ c → parent' a = parent a)
    (hlink : parent' c = some q) (hq : Descends parent q r) (hnot : ¬ Descends parent q c) :
    Descends parent' n r := by
  induction h using Relation.ReflTransGen.head_induction_on with
  | refl => exact Relation.ReflTransGen.refl
  | @head a b hab _ ih =>
    by_cases hac : a = c
    · subst hac
      exact Relation.ReflTransGen.head hlink (hq.relink hsame hnot)
    · refine Relation.ReflTransGen.head ?_ ih
      rw [hsame a hac, hab]

/-- The link of a node that is the parent of none may change. -/
theorem Descends.relink_leaf (h : Descends parent n r) (hsame : ∀ a, a ≠ c → parent' a = parent a)
    (hleaf : ∀ a, parent a ≠ some c) (hne : n ≠ c) : Descends parent' n r := by
  refine h.relink hsame fun hnc => ?_
  rcases Relation.ReflTransGen.cases_tail hnc with heq | ⟨b, -, hbc⟩
  · exact hne heq.symm
  · exact hleaf b hbc

end AthenaOS.Lib.Forest
