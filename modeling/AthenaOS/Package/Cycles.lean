import AthenaOS.Lib.Dfs
import AthenaOS.Package.Solver

/-!
# Dependency cycles

The solver looks for cycles among the packages a repository offers, by depth-first search over
their names. Several entries may have one name; what a name depends on are the dependencies of
all of them.
-/

namespace AthenaOS.Package

open Lib.Dfs

namespace DependencySolver

/-- Follow the dependencies of a name at the end of the path. -/
def dfsCycle (available : List RepoPackageEntry) : Nat → List String → Search String → String → Option (Search String)
  | 0, _, _, _ => none
  | fuel + 1, stack, s, name =>
    if name ∈ stack then some { s with cycles := s.cycles ++ [stack.drop (stack.idxOf name)] }
    else if name ∈ s.visited then some s
    else
      available.foldlM (fun s pkg =>
        if pkg.name = name then
          pkg.depends.foldlM (fun s dep => dfsCycle available fuel (stack ++ [name]) s dep.name) s
        else some s) { s with visited := insert name s.visited }

def detectCycles (self : DependencySolver) (fuel : Nat) : Option (List (List String)) := do
  let s ← self.available.foldlM (fun s pkg =>
    if pkg.name ∈ s.visited then some s else dfsCycle self.available fuel [] s pkg.name) ⟨∅, []⟩
  return s.cycles

end DependencySolver

/-! ## The graph -/

/-- The first name has an entry that depends on the second. -/
def DependsOn (available : List RepoPackageEntry) (name dep : String) : Prop :=
  ∃ pkg ∈ available, pkg.name = name ∧ ∃ d ∈ pkg.depends, d.name = dep

/-- What the entries of a name depend on. -/
def dependencies (available : List RepoPackageEntry) (name : String) : List String :=
  available.flatMap fun pkg => if pkg.name = name then pkg.depends.map Dependency.name else []

variable {available : List RepoPackageEntry} {name dep : String}

theorem edge_iff : Edge (dependencies available) name dep ↔ DependsOn available name dep := by
  rw [Edge, dependencies, List.mem_flatMap]
  constructor
  · rintro ⟨pkg, hpkg, hdep⟩
    split at hdep
    · rename_i hname
      obtain ⟨d, hd, rfl⟩ := List.mem_map.mp hdep
      exact ⟨pkg, hpkg, hname, d, hd, rfl⟩
    · exact nomatch hdep
  · rintro ⟨pkg, hpkg, hname, d, hd, rfl⟩
    exact ⟨pkg, hpkg, by rw [if_pos hname]; exact List.mem_map_of_mem hd⟩

theorem edge_eq (available : List RepoPackageEntry) : Edge (dependencies available) = DependsOn available :=
  funext fun _ => funext fun _ => propext edge_iff

/-- A loop over entries of a name and over their dependencies. -/
theorem foldlM_dependencies {σ : Type} (step : σ → String → Option σ) (name : String) : ∀ (available : List RepoPackageEntry)
    (s : σ), (dependencies available name).foldlM step s = available.foldlM (fun s pkg =>
      if pkg.name = name then pkg.depends.foldlM (fun s dep => step s dep.name) s else some s) s
  | [], _ => rfl
  | pkg :: available, s => by
    rw [dependencies, List.flatMap_cons, List.foldlM_append, List.foldlM_cons]
    split
    · rw [List.foldlM_map]
      exact congrArg _ (funext (foldlM_dependencies step name available))
    · exact foldlM_dependencies step name available s

/-- The search of the source is the search over the dependencies of names. -/
theorem dfsCycle_eq (available : List RepoPackageEntry) : ∀ (fuel : Nat) (stack : List String) (s : Search String)
    (name : String), DependencySolver.dfsCycle available fuel stack s name = visit (dependencies available) fuel stack s name
  | 0, _, _, _ => rfl
  | fuel + 1, stack, s, name => by
    rw [DependencySolver.dfsCycle, visit, foldlM_dependencies]
    simp only [dfsCycle_eq available fuel]

theorem detectCycles_eq (self : DependencySolver) (fuel : Nat) : self.detectCycles fuel =
    (search (dependencies self.available) fuel (self.available.map RepoPackageEntry.name)).map Search.cycles := by
  rw [DependencySolver.detectCycles, search, List.foldlM_map]
  simp only [dfsCycle_eq]
  exact bind_pure_comp ..

/-! ## The search is exact -/

/-- All names of entries and dependencies. -/
def names (available : List RepoPackageEntry) : Finset String :=
  (available.flatMap fun pkg => pkg.name :: pkg.depends.map Dependency.name).toFinset

theorem name_mem_names {pkg : RepoPackageEntry} (hpkg : pkg ∈ available) :
    pkg.name ∈ names available :=
  List.mem_toFinset.mpr (List.mem_flatMap.mpr ⟨pkg, hpkg, List.mem_cons_self⟩)

theorem dependency_mem_names (h : dep ∈ dependencies available name) : dep ∈ names available := by
  obtain ⟨pkg, hpkg, -, d, hd, rfl⟩ := edge_iff.mp h
  exact List.mem_toFinset.mpr
    (List.mem_flatMap.mpr ⟨pkg, hpkg, List.mem_cons_of_mem _ (List.mem_map_of_mem hd)⟩)

/-- The search for cycles comes to an end; every list it returns is a cycle of the dependency graph;
and it returns none if and only if the graph has none. -/
theorem detectCycles_exact (self : DependencySolver) : ∃ cycles,
    (∃ n, ∀ fuel ≥ n, self.detectCycles fuel = some cycles) ∧
      (∀ l ∈ cycles, IsCycle (DependsOn self.available) l) ∧
      (cycles = [] ↔ ∀ name, ¬ Relation.TransGen (DependsOn self.available) name name) := by
  have hstarts : ∀ name ∈ self.available.map RepoPackageEntry.name, name ∈ names self.available := by
    intro name hname
    obtain ⟨pkg, hpkg, rfl⟩ := List.mem_map.mp hname
    exact name_mem_names hpkg
  have hedges : ∀ name, dependencies self.available name ≠ [] → name ∈ self.available.map RepoPackageEntry.name := by
    intro name hne
    obtain ⟨dep, hdep⟩ := List.exists_mem_of_ne_nil _ hne
    obtain ⟨pkg, hpkg, hname, -⟩ := edge_iff.mp hdep
    exact List.mem_map.mpr ⟨pkg, hpkg, hname⟩
  obtain ⟨s, hs, hsound, hexact⟩ := search_exact (fun _ _ _ hdep => dependency_mem_names hdep) hstarts hedges
    (Nat.lt_succ_self (names self.available).card)
  rw [edge_eq] at hsound hexact
  refine ⟨s.cycles, ⟨(names self.available).card + 1, fun fuel hfuel => ?_⟩, hsound, hexact⟩
  rw [detectCycles_eq, search_mono hfuel hs]
  rfl

/-- Two packages that depend on each other. -/
example : (DependencySolver.addAvailable (.addAvailable .new { name := "a", version := .new "1", depends := [.new "b"] })
    { name := "b", version := .new "1", depends := [.new "a", .new "c"] }).detectCycles 4 = some [["a", "b"]] := by
  decide

end AthenaOS.Package
