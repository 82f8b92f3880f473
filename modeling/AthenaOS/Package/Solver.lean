import AthenaOS.Lib.Sat

/-!
# The dependency solver

Installing packages first asks which ones: the names become boolean variables, targets,
dependencies and conflicts become clauses, and a recursive search with unit propagation
looks for an assignment. The names it makes true and that are not installed are the answer.

Recursion takes fuel: `none` is a search that is not done yet. Variables are 32-bit and
the counter wraps.
-/

namespace AthenaOS.Package

open Lib.Sat

inductive PackageError where
  | dependencyConflict
  deriving DecidableEq, Repr

/-! ## Versions -/

structure Version where
  epoch : UInt32
  version : String
  release : String
  deriving DecidableEq

namespace Version

def new (version : String) : Version := { epoch := 0, version, release := "1" }

def isAsciiDigit (c : UInt8) : Bool := 48 ≤ c && c ≤ 57

def isAsciiAlphanumeric (c : UInt8) : Bool :=
  isAsciiDigit c || (65 ≤ c && c ≤ 90) || (97 ≤ c && c ≤ 122)

/-- The number a run of digits spells, modulo `2^64`. -/
def digitsValue (digits : List UInt8) : UInt64 :=
  digits.foldl (fun n c => n * 10 + (c - 48).toUInt64) 0

/-- Compare segment by segment. The left side decides whether a segment is a number. -/
def cmpVersionStr (a b : List UInt8) : Ordering :=
  match ha : a.dropWhile (!isAsciiAlphanumeric ·), b.dropWhile (!isAsciiAlphanumeric ·) with
  | [], [] => .eq
  | [], _ :: _ => .lt
  | _ :: _, [] => .gt
  | ac :: as, bc :: bs =>
    if isAsciiDigit ac then
      -- the right side's run may be empty, and then counts as zero
      match compare (digitsValue ((ac :: as).takeWhile isAsciiDigit))
          (digitsValue ((bc :: bs).takeWhile isAsciiDigit)) with
      | .eq => cmpVersionStr (as.dropWhile isAsciiDigit) ((bc :: bs).dropWhile isAsciiDigit)
      | order => order
    else
      match compare ac bc with
      | .eq => cmpVersionStr as bs
      | order => order
termination_by a.length
decreasing_by
  all_goals
    have hlen := (List.dropWhile_sublist (!isAsciiAlphanumeric ·) (l := a)).length_le
    have htail := (List.dropWhile_sublist isAsciiDigit (l := as)).length_le
    rw [ha, List.length_cons] at hlen
    omega

def compare (self other : Version) : Ordering :=
  match Ord.compare self.epoch other.epoch with
  | .eq =>
    match cmpVersionStr self.version.toUTF8.toList other.version.toUTF8.toList with
    | .eq => cmpVersionStr self.release.toUTF8.toList other.release.toUTF8.toList
    | order => order
  | order => order

end Version

inductive VersionOp where
  | equal
  | greaterEqual
  | lessEqual
  | greaterThan
  | lessThan
  | any
  deriving DecidableEq

structure VersionConstraint where
  op : VersionOp
  version : Version
  deriving DecidableEq

namespace VersionConstraint

def any : VersionConstraint := { op := .any, version := .new "" }

def satisfiedBy (self : VersionConstraint) (candidate : Version) : Bool :=
  match self.op with
  | .any => true
  | .equal => candidate.compare self.version == .eq
  | .greaterEqual => candidate.compare self.version != .lt
  | .lessEqual => candidate.compare self.version != .gt
  | .greaterThan => candidate.compare self.version == .gt
  | .lessThan => candidate.compare self.version == .lt

end VersionConstraint

structure Dependency where
  name : String
  constraint : VersionConstraint
  deriving DecidableEq

/-- A dependency on any version. -/
def Dependency.new (name : String) : Dependency := { name, constraint := .any }

structure RepoPackageEntry where
  name : String
  version : Version
  depends : List Dependency := []
  conflicts : List String := []
  deriving DecidableEq

/-! ## The search -/

/-- What `unitPropagate` learns of one clause. -/
structure Scan where
  unset : Option (UInt32 × Bool) := none
  unsetCount : Nat := 0
  satisfied : Bool := false

/-- Read the literals of a clause up to the first true one. -/
def scanLiterals (assignments : Partial UInt32) : Clause UInt32 → Scan → Scan
  | [], scan => scan
  | .positive v :: lits, scan =>
    match assignments v with
    | some val => if val then { scan with satisfied := true } else scanLiterals assignments lits scan
    | none =>
      scanLiterals assignments lits
        { scan with unset := some (v, true), unsetCount := scan.unsetCount + 1 }
  | .negative v :: lits, scan =>
    match assignments v with
    | some val =>
      if !val then { scan with satisfied := true } else scanLiterals assignments lits scan
    | none =>
      scanLiterals assignments lits
        { scan with unset := some (v, false), unsetCount := scan.unsetCount + 1 }

/-- One pass over the clauses, in place: what the pass has set stays when it fails. -/
def unitPropagate :
    List (Clause UInt32) → Partial UInt32 → Bool → Except PackageError Bool × Partial UInt32
  | [], assignments, propagated => (.ok propagated, assignments)
  | clause :: clauses, assignments, propagated =>
    let scan := scanLiterals assignments clause {}
    if !scan.satisfied && scan.unsetCount == 0 then
      (.error .dependencyConflict, assignments)
    else if !scan.satisfied && scan.unsetCount == 1 then
      match scan.unset with
      | some (var, val) => unitPropagate clauses (assign assignments var val) true
      | none => unitPropagate clauses assignments propagated
    else unitPropagate clauses assignments propagated

/-- Passes until one sets nothing. -/
def propagateLoop (clauses : List (Clause UInt32)) :
    Nat → Partial UInt32 → Option (Except PackageError Unit × Partial UInt32)
  | 0, _ => none
  | fuel + 1, assignments =>
    match unitPropagate clauses assignments false with
    | (.error e, assignments) => some (.error e, assignments)
    | (.ok true, assignments) => propagateLoop clauses fuel assignments
    | (.ok false, assignments) => some (.ok (), assignments)

/-- An unassigned variable makes no literal true. -/
def litHolds (assignments : Partial UInt32) : Literal UInt32 → Bool
  | .positive v => (assignments v).getD false
  | .negative v => !(assignments v).getD true

def allSatisfied (clauses : List (Clause UInt32)) (assignments : Partial UInt32) : Bool :=
  clauses.all fun clause => clause.any (litHolds assignments)

/-- The first variable without a value, in the order of the names. -/
def findUnassigned (ids : List UInt32) (assignments : Partial UInt32) : Option UInt32 :=
  ids.find? fun id => (assignments id).isNone

/-- `assignments.remove(&var)` -/
def unassign (assignments : Partial UInt32) (var : UInt32) : Partial UInt32 :=
  Function.update assignments var none

/-- Propagate, decide, recurse. A branch that fails takes back its own decision only. -/
def solveDpll (ids : List UInt32) (clauses : List (Clause UInt32)) :
    Nat → Partial UInt32 → Option (Except PackageError Unit × Partial UInt32)
  | 0, _ => none
  | fuel + 1, assignments => do
    let (propagated, assignments) ← propagateLoop clauses fuel assignments
    match propagated with
    | .error e => some (.error e, assignments)
    | .ok () =>
      if allSatisfied clauses assignments then some (.ok (), assignments)
      else
        match findUnassigned ids assignments with
        | none => some (.ok (), assignments)
        | some var =>
          let (first, assignments) ← solveDpll ids clauses fuel (assign assignments var true)
          match first with
          | .ok () => some (.ok (), assignments)
          | .error _ =>
            let (second, assignments) ← solveDpll ids clauses fuel (assign assignments var false)
            match second with
            | .ok () => some (.ok (), assignments)
            | .error _ => some (.error .dependencyConflict, unassign assignments var)

/-! ## The solver -/

structure DependencySolver where
  installed : Std.ExtTreeMap String Version
  available : List RepoPackageEntry
  clauses : List (Clause UInt32)
  assignments : Partial UInt32
  packageIds : Std.ExtTreeMap String UInt32
  nextVar : UInt32

namespace DependencySolver

def new : DependencySolver where
  installed := ∅
  available := []
  clauses := []
  assignments := fun _ => none
  packageIds := ∅
  nextVar := 1

variable (self : DependencySolver)

def addInstalled (name : String) (version : Version) : DependencySolver :=
  { self with installed := self.installed.insert name version }

def addAvailable (entry : RepoPackageEntry) : DependencySolver :=
  { self with available := self.available ++ [entry] }

def getVar (name : String) : UInt32 × DependencySolver :=
  match self.packageIds[name]? with
  | some id => (id, self)
  | none =>
    (self.nextVar,
      { self with
        packageIds := self.packageIds.insert name self.nextVar
        nextVar := self.nextVar + 1 })

def pushClause (clause : Clause UInt32) : DependencySolver :=
  { self with clauses := self.clauses ++ [clause] }

/-- A target has to be chosen. -/
def encodeTarget (target : String) : DependencySolver :=
  let (var, self) := self.getVar target
  self.pushClause [.positive var]

/-- A chosen package brings the dependency. -/
def encodeDependency (pkgVar : UInt32) (dep : Dependency) : DependencySolver :=
  let (depVar, self) := self.getVar dep.name
  self.pushClause [.negative pkgVar, .positive depVar]

/-- A chosen package excludes the other. -/
def encodeConflict (pkgVar : UInt32) (conflict : String) : DependencySolver :=
  let (conflictVar, self) := self.getVar conflict
  self.pushClause [.negative pkgVar, .negative conflictVar]

def encodePackage (pkg : RepoPackageEntry) : DependencySolver :=
  let (pkgVar, self) := self.getVar pkg.name
  let self := pkg.depends.foldl (encodeDependency · pkgVar ·) self
  pkg.conflicts.foldl (encodeConflict · pkgVar ·) self

/-- Add the clauses of the targets and of everything available. -/
def encode (targets : List String) : DependencySolver :=
  let self := targets.foldl encodeTarget self
  self.available.foldl encodePackage self

/-- The variables in the order of their names. -/
def ids : List UInt32 := self.packageIds.toList.map Prod.snd

/-- The names whose variable is true and that are not installed. -/
def toInstall : List String :=
  (self.packageIds.toList.filter fun (name, id) =>
    (self.assignments id).getD false && !self.installed.contains name).map Prod.fst

def resolve (fuel : Nat) (targets : List String) :
    Option (Except PackageError (List String) × DependencySolver) := do
  let self := self.encode targets
  let (solved, assignments) ← solveDpll self.ids self.clauses fuel self.assignments
  let self := { self with assignments }
  match solved with
  | .error e => some (.error e, self)
  | .ok () => some (.ok self.toInstall, self)

end DependencySolver

end AthenaOS.Package
