import AthenaOS.Package.Encoding

/-!
# The search finds a model

What the recursive search does to the shared assignments, and when it decides the clauses.
-/

namespace AthenaOS.Package

open Lib.Sat Relation

variable {A A' : Partial UInt32} {cs : List (Clause UInt32)} {c : Clause UInt32}

/-! ## One clause -/

/-- Every variable of the clauses is listed. -/
def Covers (ids : List UInt32) (cs : List (Clause UInt32)) : Prop := ∀ c ∈ cs, ∀ l ∈ c, l.var ∈ ids

variable {ids : List UInt32}

variable {v : UInt32} {fuel : Nat} {r : Except PackageError Unit}

namespace DependencySolver

/-- A new solver told what is installed and available. -/
def fresh (installed : List (String × Version)) (available : List RepoPackageEntry) :
    DependencySolver :=
  available.foldl addAvailable (installed.foldl (fun s (name, version) => s.addInstalled name version) new)

/-- Nothing has been encoded or assigned yet. -/
def Blank (s : DependencySolver) : Prop := s.clauses = [] ∧ s.assignments = fun _ => none

variable {s : DependencySolver} {targets : List String} {fuel : Nat}

theorem Blank.numbered (h : Blank s) : Numbered s := by
  intro c hc
  rw [h.1] at hc
  exact absurd hc List.not_mem_nil

theorem mem_ids_iff {id : UInt32} :
    id ∈ s.ids ↔ ∃ name : String, s.packageIds[name]? = some id := by
  rw [ids, List.mem_map]
  constructor
  · rintro ⟨⟨name, id'⟩, hmem, rfl⟩
    exact ⟨name, Std.ExtTreeMap.mem_toList_iff_getElem?_eq_some.mp hmem⟩
  · rintro ⟨name, hname⟩
    exact ⟨(name, id), Std.ExtTreeMap.mem_toList_iff_getElem?_eq_some.mpr hname, rfl⟩

theorem Numbered.covers (h : Numbered s) : Covers s.ids s.clauses :=
  fun c hc l hl => mem_ids_iff.mpr (h c hc l hl)

/-- `a` needs `b` and `c`, which exclude each other: with nothing asked for, choosing nothing
is a model. The search tries `a` first, and the failed branch leaves `b` chosen and `c` not. -/
def leftover : DependencySolver :=
  fresh []
    [{ name := "a", version := .new "1", depends := [.new "b", .new "c"] },
      { name := "b", version := .new "1", conflicts := ["c"] }]

end DependencySolver

end AthenaOS.Package
