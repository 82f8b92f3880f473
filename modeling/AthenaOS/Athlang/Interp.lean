import AthenaOS.Athlang.Machine
import AthenaOS.Lib.Overflow

/-!
# The interpreter

Scripts as programs over the operations of the state.
-/

namespace AthenaOS.Athlang

open Lib

/-- Programs of the interpreter. -/
abbrev Run (α : Type) := Prog signature α

def raise {α : Type} (e : RaeError) : Run α := .fail (S := signature) e

def ofExcept {α : Type} : Except RaeError α → Run α
  | .ok a => .pure a
  | .error e => raise e

def perform (o : Op) : Run o.Resp := Prog.perform (S := signature) o

/-- The plain operators of `i64`: a build with overflow checks stops where the exact result does
not fit. -/
def arith (x : Int) : Run Int64 :=
  if InRange 64 x then .pure (.ofInt x) else .op (S := signature) (.overflow x) Empty.elim

/-- The body in a scope of its own. -/
def inScope (frame : Frame) (body : Run Flow) : Run Flow := .inScope (S := signature) frame body .pure

/-! ## Calls -/

/-- Call a function: how many arguments it takes is checked first. -/
def callFunc (f : FuncVal) (argv : List Value) : Run Value :=
  if f.params.length ≠ argv.length then
    raise (.arityMismatch s!"function takes {f.params.length} argument(s), got {argv.length}")
  else
    .call (S := signature) ⟨f, argv⟩ fun flow =>
      match flow with
      | .ret v => .pure v
      | .normal => .pure .unit
      | .brk | .cont => raise .strayControlFlow

def structFields (fields : List String) (argv : List Value) : List (String × Value) :=
  (fields.zip argv).foldl (fun map fv => insertField fv.1 fv.2 map) []

def arity (name : String) (want got : Nat) : Run Unit :=
  if want ≠ got then raise (.arityMismatch s!"{name} takes {want} argument(s), got {got}")
  else .pure ()

section

variable (rt : Runtime)

/-- The global functions: how many arguments there are is checked before any is evaluated. -/
def evalBuiltin (name : String) (want argc : Nat) (args : Run (List Value)) : Run Value := do
  arity name want argc
  ofExcept (builtin rt name (← args))

/-- A call by name: local functions, then those of the script, structs, global functions, and
last the host. -/
def callNamed (name : String) (argc : Nat) (args : Run (List Value)) : Run Value := do
  if name = "print" then
    let argv ← args
    perform (.print (" ".intercalate (argv.map (Value.display rt))))
    return .unit
  match ← perform (.lookup name) with
  | some (.func _ params body captured, _) =>
    let argv ← args
    callFunc ⟨params, body, captured⟩ argv
  | some (other, _) => raise (.typeMismatch s!"'{name}' is a {other.typeName} — not callable")
  | none =>
    match ← perform (.getFunc name) with
    | some (params, body) =>
      let argv ← args
      arity name params.length argv.length
      callFunc ⟨params, body, .empty⟩ argv
    | none =>
      match ← perform (.getStruct name) with
      | some fields =>
        let argv ← args
        if fields.length ≠ argv.length then
          raise (.arityMismatch s!"{name} takes {fields.length} field value(s), got {argv.length}")
        return .struct name (structFields fields argv)
      | none =>
        match builtinArity name with
        | some want => evalBuiltin rt name want argc args
        | none =>
          let argv ← args
          perform (.callHost name argv)

/-! ## Methods that call functions -/

def oneFunc (name : String) : List Value → Except RaeError FuncVal
  | [.func _ params body captured] => .ok ⟨params, body, captured⟩
  | [other] => .error (.typeMismatch s!"{name} takes a Function argument, got {other.typeName}")
  | argv => .error (.arityMismatch s!"{name} takes 1 argument, got {argv.length}")

/-- A round for each item. -/
def foldItems {σ : Type} (step : σ → Value → Run σ) (acc : σ) (items : List Value) : Run σ :=
  .loop (S := signature) (items, acc)
    (fun l => if l.1.isEmpty then some l.2 else none)
    (fun l =>
      match l with
      | ([], acc) => .pure (.inr acc)
      | (it :: items, acc) => do return .inl (items, ← step acc it))
    .pure

def mapItems (f : FuncVal) (items : List Value) : Run (List Value) :=
  foldItems (fun out it => do return out ++ [← callFunc f [it]]) [] items

def filterItems (f : FuncVal) (items : List Value) : Run (List Value) :=
  foldItems (fun out it => do
    match ← callFunc f [it] with
    | .bool true => return out ++ [it]
    | .bool false => return out
    | other => raise (.typeMismatch s!"filter closure must return Bool, got {other.typeName}"))
    [] items

def reduceItems (f : FuncVal) (acc : Value) (items : List Value) : Run Value :=
  foldItems (fun acc it => callFunc f [acc, it]) acc items

def applyMethod (recv : Value) (name : String) (argv : List Value) : Run Value :=
  match recv, name with
  | .array items, "map" => do
    let f ← ofExcept (oneFunc name argv)
    return .array (← mapItems f items)
  | .array items, "filter" => do
    let f ← ofExcept (oneFunc name argv)
    return .array (← filterItems f items)
  | .array items, "reduce" =>
    match argv with
    | [acc, .func _ params body captured] => reduceItems ⟨params, body, captured⟩ acc items
    | [_, other] => raise (.typeMismatch
        s!"reduce's second argument must be a Function, got {other.typeName}")
    | argv => raise (.arityMismatch
        s!"reduce takes 2 arguments (initial, closure), got {argv.length}")
  | recv, name => ofExcept (pureMethod rt recv name argv)

/-! ## Operators and properties -/

def evalUnary (op : UnOp) (v : Value) : Run Value :=
  match op, v with
  | .neg, .int n => do return .int (← arith (-n.toInt))
  | .neg, .float f => .pure (.float (rt.neg f))
  | .not, .bool b => .pure (.bool !b)
  | _, v => raise (.typeMismatch s!"unary op on {v.typeName}")

def rangeCount (start stop : Int64) (inclusive : Bool) : Run Value := do
  let n ← arith (stop.toInt - start.toInt)
  let n ← arith (n.toInt + if inclusive then 1 else 0)
  return .int (if n > 0 then n else 0)

def evalField (recv : Value) (name : String) : Run Value :=
  match recv, name with
  | .range start stop inclusive, "count" => rangeCount start stop inclusive
  | recv, name => ofExcept (fieldValue recv name)

/-! ## Loops -/

/-- What a round of a loop leaves: `return` and `break` end it. -/
def afterRound {L : Type} (next : L) : Flow → L ⊕ Flow
  | .ret v => .inr (.ret v)
  | .brk => .inr .normal
  | .cont | .normal => .inl next

/-- A round for each item, with the loop variable in a scope of its own. -/
def forItems (name : String) (body : Run Flow) (items : List Value) : Run Flow :=
  .loop (S := signature) items
    (fun items => if items.isEmpty then some .normal else none)
    (fun items =>
      match items with
      | [] => .pure (.inr .normal)
      | it :: items => do return afterRound items (← inScope (.loopVar name it) body))
    .pure

/-- What a round over a range leaves: behind the largest integer there is no next one. -/
def afterRangeRound (i : Int64) : Flow → Int64 ⊕ Except Int Flow
  | .ret v => .inr (.ok (.ret v))
  | .brk => .inr (.ok .normal)
  | .cont | .normal =>
    if InRange 64 (i.toInt + 1) then .inl (.ofInt (i.toInt + 1)) else .inr (.error (i.toInt + 1))

/-- `while i <= last`. -/
def forRange (name : String) (body : Run Flow) (start last : Int64) : Run Flow :=
  .loop (S := signature) start
    (fun i => if i ≤ last then none else some (.ok .normal))
    (fun i => do return afterRangeRound i (← inScope (.loopVar name (.int i)) body))
    fun
    | .ok flow => .pure flow
    | .error x => .op (S := signature) (.overflow x) Empty.elim

def forValue (name : String) (body : Run Flow) : Value → Run Flow
  | .range start stop true => forRange name body start stop
  | .range start stop false => do forRange name body start (← arith (stop.toInt - 1))
  | .array items => forItems name body items
  | .dict map => forItems name body (map.map fun (k, _) => .str k)
  | .str s => forItems name body (s.toList.map fun c => .str (String.singleton c))
  | other => raise (.typeMismatch s!"cannot iterate over {other.typeName}")

def whileLoop (cond : Run Value) (body : Run Flow) : Run Flow :=
  .loop (S := signature) ()
    (fun _ => none)
    (fun _ => do
      match ← cond with
      | .bool true => return afterRound () (← inScope .empty body)
      | .bool false => return .inr .normal
      | v => raise (.typeMismatch s!"while condition is {v.typeName}"))
    .pure

/-! ## Expressions and statements -/

/-- The right side is evaluated when the left one does not decide. -/
def logical (op : LogicOp) (l r : Run Value) : Run Value := do
  match ← l with
  | .bool b =>
    if (if op = .and then b else !b) then
      match ← r with
      | .bool b => return .bool b
      | v => raise (.typeMismatch s!"logical op on {v.typeName}")
    else return .bool b
  | v => raise (.typeMismatch s!"logical op on {v.typeName}")

mutual

def eval : Expr → Run Value
  | .int n => .pure (.int n)
  | .float f => .pure (.float f)
  | .bool b => .pure (.bool b)
  | .str parts => do return .str (← evalParts parts)
  | .var name => do
    match ← perform (.lookup name) with
    | some (v, _) => return v
    | none =>
      match ← perform (.getFunc name) with
      | some (params, body) => perform (.funcRef params body)
      | none => raise (.undefinedVariable name)
  | .arrayLit items => do return .array (← evalArgs items)
  | .dictLit pairs => do return .dict (← evalPairs pairs [])
  | .range l r inclusive => do
    let lv ← eval l
    let rv ← eval r
    match lv, rv with
    | .int a, .int b => return .range a b inclusive
    | a, b => raise (.typeMismatch s!"range bounds must be Int, got {a.typeName} and {b.typeName}")
  | .closure params body => perform (.closure params body)
  | .unary op inner => do evalUnary rt op (← eval inner)
  | .bin op l r => do
    let lv ← eval l
    let rv ← eval r
    ofExcept (evalBinop rt op lv rv)
  | .logic op l r => logical op (eval l) (eval r)
  | .index recv idx => do
    let r ← eval recv
    let i ← eval idx
    ofExcept (indexValue r i)
  | .field recv name => do evalField (← eval recv) name
  | .method recv name args => do
    perform .burn
    let argv ← evalArgs args
    if isMutating name then
      match evalPath recv with
      | none => raise (.typeMismatch s!"{name}() mutates its receiver — call it on a variable")
      | some (base, keys) => perform (.mutate base (← keys) name argv)
    else applyMethod rt (← eval recv) name argv
  | .call (.var name) args => callNamed rt name args.length (evalArgs args)
  | .call callee args => do
    match ← eval callee with
    | .func _ params body captured => callFunc ⟨params, body, captured⟩ (← evalArgs args)
    | other => raise (.typeMismatch s!"{other.typeName} is not callable")

def evalParts : List StrPart → Run String
  | [] => .pure ""
  | .lit text :: parts => do return text ++ (← evalParts parts)
  | .interp e :: parts => do
    let v ← eval e
    return v.display rt ++ (← evalParts parts)

def evalArgs : List Expr → Run (List Value)
  | [] => .pure []
  | e :: args => do
    let v ← eval e
    return v :: (← evalArgs args)

def evalPairs : List (Expr × Expr) → List (String × Value) → Run (List (String × Value))
  | [], map => .pure map
  | (k, v) :: pairs, map => do
    match ← eval k with
    | .str key =>
      let v ← eval v
      evalPairs pairs (insertField key v map)
    | other => raise (.typeMismatch s!"dictionary key must be String, got {other.typeName}")

/-- A variable and the keys that follow it; other expressions are no path. -/
def evalPath : Expr → Option (String × Run (List PathKey))
  | .var name => some (name, .pure [])
  | .index inner idx =>
    match evalPath inner with
    | none => none
    | some (base, keys) => some (base, do
      let keys ← keys
      return keys ++ [.index (← eval idx)])
  | .field inner name =>
    match evalPath inner with
    | none => none
    | some (base, keys) => some (base, do return (← keys) ++ [.field name])
  | _ => none

def evalPathKeys : List PathSeg → Run (List PathKey)
  | [] => .pure []
  | .index e :: segs => do
    let i ← eval e
    return .index i :: (← evalPathKeys segs)
  | .field name :: segs => do return .field name :: (← evalPathKeys segs)

def exec : Stmt → Run Flow
  | .bind name mutable value => do
    perform .burn
    let v ← eval value
    perform (.bindVar name mutable v)
    return .normal
  | .assign base path value => do
    perform .burn
    let v ← eval value
    let keys ← evalPathKeys path
    perform (.assign base keys v)
    return .normal
  | .expr e => do
    perform .burn
    let _ ← eval e
    return .normal
  | .ifElse cond thenBody alt => do
    perform .burn
    match ← eval cond with
    | .bool true => inScope .empty (execBlock thenBody)
    | .bool false => inScope .empty (execBlock alt)
    | v => raise (.typeMismatch s!"if condition is {v.typeName}")
  | .whileDo cond body => do
    perform .burn
    whileLoop (eval cond) (execBlock body)
  | .forIn name iterable body => do
    perform .burn
    let v ← eval iterable
    forValue name (execBlock body) v
  | .func name params body => do
    perform .burn
    perform (.declareFunc name params body)
    return .normal
  | .structDecl name fields => do
    perform .burn
    perform (.declareStruct name fields)
    return .normal
  | .ret none => do
    perform .burn
    return .ret .unit
  | .ret (some e) => do
    perform .burn
    return .ret (← eval e)
  | .breakLoop => do
    perform .burn
    return .brk
  | .continueLoop => do
    perform .burn
    return .cont

def execBlock : List Stmt → Run Flow
  | [] => .pure .normal
  | stmt :: body => do
    match ← exec stmt with
    | .normal => execBlock body
    | other => return other

end

/-- The last expression of a function's body is what it returns. -/
def execFuncBody : List Stmt → Run Flow
  | [] => .pure .normal
  | [.expr e] => do
    perform .burn
    return .ret (← eval rt e)
  | [stmt] => exec rt stmt
  | stmt :: body => do
    match ← exec rt stmt with
    | .normal => execFuncBody body
    | other => return other

variable {H : Type} (host : Host H)

/-- What programs do to the interpreter's state. -/
def semantics : Semantics signature (Interp H) where
  exec := Interp.exec host
  openScope := Interp.push
  closeScope _ := Interp.pop
  enter := Interp.enter
  leave _ := Interp.leave
  body c := execFuncBody rt c.func.body
  tick := Interp.burn

structure Outcome where
  exitCode : Int64
  output : String
  steps : Nat

/-- What a script's statements end with is its exit code. -/
def outcome (s : Interp H) : Flow → Except RaeError Outcome
  | .ret (.int n) => .ok ⟨n, s.output, s.steps⟩
  | .brk | .cont => .error .strayControlFlow
  | _ => .ok ⟨0, s.output, s.steps⟩

/-- A run's result, and the state it leaves. `none` when it needs more depth. -/
def runWithHost (prog : List Stmt) (fuel : Nat) (h : H) (n : Nat) :
    Option (Except Stop Outcome × Interp H) :=
  match (semantics rt host).run n (execBlock rt prog) (Interp.start fuel h) with
  | none => none
  | some (.error e, s) => some (.error e, s)
  | some (.ok flow, s) =>
    match outcome s flow with
    | .ok o => some (.ok o, s)
    | .error e => some (.error (.error e), s)

end

/-- No bindings: pure computation only. -/
def noHost : Host Unit := fun _ _ _ => (.error .unknown, ())

/-- Enough for scripts without floats. -/
def Runtime.withoutFloats : Runtime where
  ofInt _ := 0
  toInt _ := 0
  neg := id
  add x _ := x
  sub x _ := x
  mul x _ := x
  div x _ := x
  eq x y := x == y
  lt _ _ := false
  le _ _ := false
  display _ := ""
  parse _ := none
  uppercase := id
  lowercase := id

end AthenaOS.Athlang
