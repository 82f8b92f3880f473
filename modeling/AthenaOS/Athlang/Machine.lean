import AthenaOS.Athlang.Operations
import AthenaOS.Lib.Effects

/-!
# The interpreter's state

The log of host calls is not in the source: it records what the host was asked and what it
answered. Neither are the cells: a function value is a reference-counted cell, and cells are
numbered in the order they are made.
-/

namespace AthenaOS.Athlang

open Lib

/-! ## Scopes -/

/-- The bindings of a scope, with their `var` flags. -/
abbrev Frame := String → Option (Value × Bool)

namespace Frame

def empty : Frame := fun _ => none

def insert (frame : Frame) (name : String) (b : Value × Bool) : Frame :=
  fun n => if n = name then some b else frame n

theorem insert_of_ne (frame : Frame) {name n : String} (b : Value × Bool) (h : n ≠ name) :
    frame.insert name b n = frame n := if_neg h

theorem insert_isSome {frame : Frame} {n : String} (h : (frame n).isSome) (name : String)
    (b : Value × Bool) : (frame.insert name b n).isSome := by
  rw [insert]
  split
  · rfl
  · exact h

/-- A scope with one binding: the variable of a loop is not a `var`. -/
def loopVar (name : String) (v : Value) : Frame := empty.insert name (v, false)

end Frame

/-- The innermost binding of the name; scopes are listed from the innermost. -/
def lookup (name : String) : List Frame → Option (Value × Bool)
  | [] => none
  | scope :: scopes => (scope name).or (lookup name scopes)

/-- Every visible binding: the inner scopes shadow the outer ones. -/
def captureEnv : List Frame → Frame
  | [] => .empty
  | scope :: scopes => fun n => (scope n).or (captureEnv scopes n)

theorem captureEnv_eq_lookup (scopes : List Frame) (n : String) :
    captureEnv scopes n = lookup n scopes := by
  induction scopes with
  | nil => rfl
  | cons scope scopes ih =>
    show (scope n).or (captureEnv scopes n) = _
    rw [lookup, ih]

/-- Change the innermost binding of the name, which must be a `var`. -/
def resolveMut {β : Type} (name : String) (f : Value → Except RaeError (Value × β)) :
    List Frame → Except RaeError (List Frame × β)
  | [] => .error (.undefinedVariable name)
  | scope :: scopes =>
    match scope name with
    | some (v, true) =>
      match f v with
      | .ok (v, b) => .ok (scope.insert name (v, true) :: scopes, b)
      | .error e => .error e
    | some (_, false) => .error (.assignToLet name)
    | none =>
      match resolveMut name f scopes with
      | .ok (scopes, b) => .ok (scope :: scopes, b)
      | .error e => .error e

/-! ## State -/

inductive HostError where
  /-- The host has no function of the name. -/
  | unknown
  | denied (msg : String)
  | failed (msg : String)

/-- What the embedder does with a call. -/
abbrev Host (H : Type) := H → String → List Value → Except HostError Value × H

/-- How a script sees that the host refused. -/
def HostError.toRaeError (name : String) : HostError → RaeError
  | unknown => .undefinedFunction name
  | denied msg => .capabilityDenied msg
  | failed msg => .hostFailed msg

structure HostCall where
  name : String
  argv : List Value
  result : Except HostError Value

/-- Why a run stops: an error, an integer operation that overflows in a build with overflow checks,
or an expectation of the code that fails. -/
inductive Stop where
  | error (e : RaeError)
  | overflow
  | panic

/-- What statements end with. -/
inductive Flow where
  | normal
  | ret (v : Value)
  | brk
  | cont

structure FuncVal where
  params : List String
  body : List Stmt
  captured : Frame

/-- Scopes, declarations, output, fuel, and the host. -/
structure Interp (H : Type) where
  funcs : String → Option (List String × List Stmt)
  structs : String → Option (List String)
  /-- From the innermost. -/
  scopes : List Frame
  output : String
  fuel : Nat
  steps : Nat
  depth : Nat
  host : H
  calls : List HostCall
  nextCell : Nat

def maxCallDepth : Nat := 64

/-! ## Operations -/

/-- What evaluation does to it, as a `Lib.Signature`. -/
inductive Op where
  | burn
  | lookup (name : String)
  | getFunc (name : String)
  | getStruct (name : String)
  /-- A function value with what is visible now. -/
  | closure (params : List String) (body : List Stmt)
  /-- A named function as a value. -/
  | funcRef (params : List String) (body : List Stmt)
  | print (line : String)
  | callHost (name : String) (argv : List Value)
  | bindVar (name : String) (mutable : Bool) (v : Value)
  | assign (base : String) (keys : List PathKey) (v : Value)
  | mutate (base : String) (keys : List PathKey) (method : String) (argv : List Value)
  | declareFunc (name : String) (params : List String) (body : List Stmt)
  | declareStruct (name : String) (fields : List String)
  /-- An integer operation whose exact result `x` is no `i64`. -/
  | overflow (x : Int)

def Op.Resp : Op → Type
  | lookup _ => Option (Value × Bool)
  | getFunc _ => Option (List String × List Stmt)
  | getStruct _ => Option (List String)
  | closure .. | funcRef .. | callHost .. | mutate .. => Value
  | burn | print _ | bindVar .. | assign .. | declareFunc .. | declareStruct .. => Unit
  | overflow _ => Empty

/-- A function applied to arguments. -/
structure Activation where
  func : FuncVal
  argv : List Value

/-- The bindings the body starts with: what was captured, then the parameters. -/
def Activation.frame (c : Activation) : Frame :=
  (c.func.params.zip c.argv).foldl (fun frame pv => frame.insert pv.1 (pv.2, true)) c.func.captured

def signature : Signature where
  Op := Op
  Resp := Op.Resp
  Scope := Frame
  Call := Activation
  Exit := Flow
  Err := Stop
  Raise := RaeError
  raised := .error

namespace Interp

variable {H : Type}

def start (fuel : Nat) (h : H) : Interp H where
  funcs _ := none
  structs _ := none
  scopes := [.empty]
  output := ""
  fuel := fuel
  steps := 0
  depth := 0
  host := h
  calls := []
  nextCell := 0

def burn (s : Interp H) : Except Stop (Interp H) :=
  if s.fuel = 0 then .error (.error .outOfFuel)
  else .ok { s with fuel := s.fuel - 1, steps := s.steps + 1 }

/-- Change the innermost binding of the base. -/
def update {β : Type} (s : Interp H) (base : String) (f : Value → Except RaeError (Value × β)) :
    Except Stop β × Interp H :=
  match resolveMut base f s.scopes with
  | .ok (scopes, b) => (.ok b, { s with scopes })
  | .error e => (.error (.error e), s)

/-- Bind in the innermost scope: there is expected to be one. -/
def bindVar (s : Interp H) (name : String) (b : Value × Bool) : Except Stop Unit × Interp H :=
  match s.scopes with
  | [] => (.error .panic, s)
  | scope :: scopes => (.ok (), { s with scopes := scope.insert name b :: scopes })

def callHost (host : Host H) (s : Interp H) (name : String) (argv : List Value) :
    Except Stop Value × Interp H :=
  match s.burn with
  | .error e => (.error e, s)
  | .ok s =>
    let (result, h) := host s.host name argv
    let s := { s with host := h, calls := s.calls ++ [⟨name, argv, result⟩] }
    match result with
    | .ok v => (.ok v, s)
    | .error e => (.error (.error (e.toRaeError name)), s)

/-- A function value in a new cell. -/
def newFunc (s : Interp H) (params : List String) (body : List Stmt) (captured : Frame) :
    Except Stop Value × Interp H :=
  (.ok (.func s.nextCell params body captured), { s with nextCell := s.nextCell + 1 })

def exec (host : Host H) : (o : Op) → Interp H → Except Stop o.Resp × Interp H
  | .burn, s =>
    match s.burn with
    | .ok s => (.ok (), s)
    | .error e => (.error e, s)
  | .lookup name, s => (.ok (Athlang.lookup name s.scopes), s)
  | .getFunc name, s => (.ok (s.funcs name), s)
  | .getStruct name, s => (.ok (s.structs name), s)
  | .closure params body, s => s.newFunc params body (captureEnv s.scopes)
  | .funcRef params body, s => s.newFunc params body .empty
  | .print line, s => (.ok (), { s with output := s.output ++ line ++ "\n" })
  | .callHost name argv, s => s.callHost host name argv
  | .bindVar name mutable v, s => s.bindVar name (v, mutable)
  | .assign base keys v, s => s.update base (walkMut true (fun _ => .ok (v, ())) keys)
  | .mutate base keys method argv, s => s.update base (walkMut false (mutating method argv) keys)
  | .declareFunc name params body, s =>
    (.ok (), { s with funcs := fun n => if n = name then some (params, body) else s.funcs n })
  | .declareStruct name fields, s =>
    (.ok (), { s with structs := fun n => if n = name then some fields else s.structs n })
  | .overflow _, s => (.error .overflow, s)

def push (frame : Frame) (s : Interp H) : Interp H := { s with scopes := frame :: s.scopes }

def pop (s : Interp H) : Interp H := { s with scopes := s.scopes.tail }

def enter (c : Activation) (s : Interp H) : Except Stop (Interp H) :=
  if maxCallDepth ≤ s.depth then .error (.error .recursionLimit)
  else
    match s.burn with
    | .error e => .error e
    | .ok s => .ok { s with depth := s.depth + 1, scopes := c.frame :: s.scopes }

def leave (s : Interp H) : Interp H := { s with scopes := s.scopes.tail, depth := s.depth - 1 }

end Interp

end AthenaOS.Athlang
