import AthenaOS.Athlang.Syntax
import AthenaOS.Lib.Text

/-!
# What the interpreter does with values

The binary operators of integers wrap.
-/

namespace AthenaOS.Athlang

open Lib.Text

variable (rt : Runtime)

/-! ## Operators -/

def asF64 : Value → Option UInt64
  | .int n => some (rt.ofInt n)
  | .float f => some f
  | _ => none

def BinOp.debug : BinOp → String
  | add => "Add"
  | sub => "Sub"
  | mul => "Mul"
  | div => "Div"
  | mod => "Mod"
  | eq => "Eq"
  | ne => "Ne"
  | lt => "Lt"
  | le => "Le"
  | gt => "Gt"
  | ge => "Ge"

/-- Numbers that are not both integers are promoted to floats. -/
def floatBinop (op : BinOp) (a b : Value) (f : UInt64 → UInt64 → Except RaeError Value) :
    Except RaeError Value :=
  match asF64 rt a, asF64 rt b with
  | some x, some y => f x y
  | _, _ => .error (.typeMismatch s!"{op.debug} on {a.typeName} and {b.typeName}")

/-- Comparison of integers, strings or numbers. -/
def compareBinop (op : BinOp) (ints : Int64 → Int64 → Bool) (strs : String → String → Bool)
    (floats : UInt64 → UInt64 → Bool) (lv rv : Value) : Except RaeError Value :=
  match lv, rv with
  | .int a, .int b => .ok (.bool (ints a b))
  | .str a, .str b => .ok (.bool (strs a b))
  | a, b => floatBinop rt op a b fun x y => .ok (.bool (floats x y))

def evalBinop (op : BinOp) (lv rv : Value) : Except RaeError Value :=
  match op with
  | .add =>
    match lv, rv with
    | .int a, .int b => .ok (.int (a + b))
    | .str a, b => .ok (.str (a ++ b.display rt))
    | a, .str b => .ok (.str (a.display rt ++ b))
    | .array a, .array b => .ok (.array (a ++ b))
    | a, b => floatBinop rt .add a b fun x y => .ok (.float (rt.add x y))
  | .sub =>
    match lv, rv with
    | .int a, .int b => .ok (.int (a - b))
    | a, b => floatBinop rt .sub a b fun x y => .ok (.float (rt.sub x y))
  | .mul =>
    match lv, rv with
    | .int a, .int b => .ok (.int (a * b))
    | a, b => floatBinop rt .mul a b fun x y => .ok (.float (rt.mul x y))
  | .div =>
    match lv, rv with
    | .int a, .int b => if b = 0 then .error .divisionByZero else .ok (.int (a / b))
    | a, b => floatBinop rt .div a b fun x y => .ok (.float (rt.div x y))
  | .mod =>
    match lv, rv with
    | .int a, .int b => if b = 0 then .error .divisionByZero else .ok (.int (a % b))
    | a, b => floatBinop rt .mod a b fun x y =>
      if rt.eq y 0 then .error .divisionByZero
      else .ok (.float (rt.sub x (rt.mul y (rt.ofInt (rt.toInt (rt.div x y))))))
  | .eq => .ok (.bool (lv.eq rt rv))
  | .ne => .ok (.bool !(lv.eq rt rv))
  | .lt => compareBinop rt .lt (· < ·) (· < ·) rt.lt lv rv
  | .le => compareBinop rt .le (· ≤ ·) (· ≤ ·) rt.le lv rv
  | .gt => compareBinop rt .gt (· > ·) (· > ·) (fun x y => rt.lt y x) lv rv
  | .ge => compareBinop rt .ge (· ≥ ·) (· ≥ ·) (fun x y => rt.le y x) lv rv

/-! ## Parts of values -/

def indexValue (recv idx : Value) : Except RaeError Value :=
  match recv, idx with
  | .array items, .int i =>
    match (if i < 0 then none else items[i.toInt.toNat]?) with
    | some v => .ok v
    | none => .error (.indexOutOfBounds s!"index {i.toInt} on array of {items.length}")
  | .dict map, .str k =>
    match getField k map with
    | some v => .ok v
    | none => .error (.indexOutOfBounds s!"no key \"{k}\" in dictionary")
  | .str s, .int i =>
    match (if i < 0 then none else s.toList[i.toInt.toNat]?) with
    | some c => .ok (.str (String.singleton c))
    | none => .error (.indexOutOfBounds s!"index {i.toInt} on string of {s.length} characters")
  | r, i => .error (.typeMismatch s!"cannot index {r.typeName} with {i.typeName}")

def countOf (n : Nat) : Value := .int (.ofNat n)

/-- Properties, but for the count of a range. -/
def fieldValue (recv : Value) (name : String) : Except RaeError Value :=
  match recv, name with
  | .struct sn fields, f =>
    match getField f fields with
    | some v => .ok v
    | none => .error (.noSuchField s!"{sn} has no field '{f}'")
  | .str s, "count" => .ok (countOf s.length)
  | .str s, "isEmpty" => .ok (.bool s.isEmpty)
  | .array a, "count" => .ok (countOf a.length)
  | .array a, "isEmpty" => .ok (.bool a.isEmpty)
  | .array a, "first" => .ok (a.head?.getD .unit)
  | .array a, "last" => .ok (a.getLast?.getD .unit)
  | .dict m, "count" => .ok (countOf m.length)
  | .dict m, "isEmpty" => .ok (.bool m.isEmpty)
  | .dict m, "keys" => .ok (.array (m.map fun (k, _) => .str k))
  | .dict m, "values" => .ok (.array (m.map Prod.snd))
  | r, f => .error (.noSuchField s!"{r.typeName} has no property '{f}'")

/-! ## Methods -/

def noArgs (name : String) (argv : List Value) : Except RaeError Unit :=
  if argv.isEmpty then .ok ()
  else .error (.arityMismatch s!"{name} takes no arguments, got {argv.length}")

def oneStr (name : String) : List Value → Except RaeError String
  | [.str s] => .ok s
  | [other] => .error (.typeMismatch s!"{name} takes a String argument, got {other.typeName}")
  | argv => .error (.arityMismatch s!"{name} takes 1 argument, got {argv.length}")

/-- The methods that neither change the receiver nor call a function. -/
def pureMethod (recv : Value) (name : String) (argv : List Value) : Except RaeError Value :=
  match recv, name with
  | .str s, "uppercased" => do
    noArgs name argv
    .ok (.str (rt.uppercase s))
  | .str s, "lowercased" => do
    noArgs name argv
    .ok (.str (rt.lowercase s))
  | .str s, "trimmed" => do
    noArgs name argv
    .ok (.str (.ofList (trim s.toList)))
  | .str s, "contains" => do
    let needle ← oneStr name argv
    .ok (.bool (containsSlice needle.toList s.toList))
  | .str s, "hasPrefix" => do
    let p ← oneStr name argv
    .ok (.bool (p.toList.isPrefixOf s.toList))
  | .str s, "hasSuffix" => do
    let p ← oneStr name argv
    .ok (.bool (p.toList.isSuffixOf s.toList))
  | .str s, "split" => do
    let sep ← oneStr name argv
    if sep.isEmpty then .error (.typeMismatch "split() separator must not be empty")
    else .ok (.array ((splitOn sep.toList 0 [] s.toList).map fun p => .str (.ofList p)))
  | .array items, "contains" =>
    match argv with
    | [v] => .ok (.bool (items.any (Value.eq rt · v)))
    | _ => .error (.arityMismatch s!"contains takes 1 argument, got {argv.length}")
  | .array items, "reversed" => do
    noArgs name argv
    .ok (.array items.reverse)
  | .array items, "joined" => do
    let sep ← oneStr name argv
    .ok (.str (sep.intercalate (Value.displayItems rt items)))
  | .dict map, "hasKey" => do
    let k ← oneStr name argv
    .ok (.bool (getField k map).isSome)
  | r, m => .error (.noSuchField s!"{r.typeName} has no method '{m}'")

/-- The global functions, on values. -/
def builtin (name : String) (argv : List Value) : Except RaeError Value :=
  match name, argv with
  | "String", [v] => .ok (.str (v.display rt))
  | "Int", [v] =>
    match v with
    | .int n => .ok (.int n)
    | .float f => .ok (.int (rt.toInt f))
    | .bool b => .ok (.int (if b then 1 else 0))
    | .str s =>
      match parseSigned 63 (trim s.toList) with
      | some n => .ok (.int (.ofInt n))
      | none => .error (.typeMismatch s!"Int(\"{s}\") is not a number")
    | other => .error (.typeMismatch s!"Int() on {other.typeName}")
  | "Float", [v] =>
    match v with
    | .int n => .ok (.float (rt.ofInt n))
    | .float f => .ok (.float f)
    | .str s =>
      match rt.parse (.ofList (trim s.toList)) with
      | some f => .ok (.float f)
      | none => .error (.typeMismatch s!"Float(\"{s}\") is not a number")
    | other => .error (.typeMismatch s!"Float() on {other.typeName}")
  | "abs", [v] =>
    match v with
    | .int n => .ok (.int n.abs)
    | .float f => .ok (.float (if rt.lt f 0 then rt.neg f else f))
    | other => .error (.typeMismatch s!"abs() on {other.typeName}")
  | _, [a, b] =>
    let takeA : Option Bool :=
      match a, b with
      | .int x, .int y => some (if name = "min" then x ≤ y else x ≥ y)
      | a, b =>
        match asF64 rt a, asF64 rt b with
        | some x, some y => some (if name = "min" then rt.le x y else rt.le y x)
        | _, _ => none
    match takeA with
    | some takeA => .ok (if takeA then a else b)
    | none => .error (.typeMismatch s!"{name}() on {a.typeName} and {b.typeName}")
  | _, _ => .error (.arityMismatch name)

/-- How many arguments a global function takes; `none` for other names. -/
def builtinArity : String → Option Nat
  | "String" | "Int" | "Float" | "abs" => some 1
  | "min" | "max" => some 2
  | _ => none

/-! ## Paths -/

/-- A step of a path, with its index evaluated. -/
inductive PathKey where
  | index (v : Value)
  | field (name : String)

/-- Change the part of the value the path leads to. An assignment may create the last key of a
dictionary. -/
def walkMut {β : Type} (insertFinal : Bool) (f : Value → Except RaeError (Value × β)) :
    List PathKey → Value → Except RaeError (Value × β)
  | [], v => f v
  | key :: rest, v =>
    match v, key with
    | .array items, .index (.int i) =>
      match (if i < 0 then none else items[i.toInt.toNat]?) with
      | some item => do
        let (item, b) ← walkMut insertFinal f rest item
        .ok (.array (items.set i.toInt.toNat item), b)
      | none => .error (.indexOutOfBounds s!"index {i.toInt} on array of {items.length}")
    | .dict map, .index (.str k) =>
      let slot := if rest.isEmpty && insertFinal then some ((getField k map).getD .unit)
        else getField k map
      match slot with
      | some slot => do
        let (slot, b) ← walkMut insertFinal f rest slot
        .ok (.dict (insertField k slot map), b)
      | none => .error (.indexOutOfBounds s!"no key \"{k}\" in dictionary")
    | .struct name fields, .field k =>
      match getField k fields with
      | some slot => do
        let (slot, b) ← walkMut insertFinal f rest slot
        .ok (.struct name (insertField k slot fields), b)
      | none => .error (.noSuchField s!"{name} has no field '{k}'")
    | other, .index i => .error (.typeMismatch s!"cannot index {other.typeName} with {i.typeName}")
    | other, .field k => .error (.noSuchField s!"{other.typeName} has no field '{k}'")

def isMutating (name : String) : Bool := name = "append" || name = "removeLast" || name = "remove"

/-- What `append`, `removeLast` and `remove` do to their target, and their result. -/
def mutating (name : String) (argv : List Value) (target : Value) : Except RaeError (Value × Value) :=
  match target, name with
  | .array items, "append" =>
    match argv with
    | [v] => .ok (.array (items ++ [v]), .unit)
    | _ => .error (.arityMismatch s!"append takes 1 argument, got {argv.length}")
  | .array items, "removeLast" =>
    if !argv.isEmpty then
      .error (.arityMismatch s!"removeLast takes no arguments, got {argv.length}")
    else
      match items.getLast? with
      | some v => .ok (.array items.dropLast, v)
      | none => .error (.indexOutOfBounds "removeLast on empty array")
  | .dict map, "remove" =>
    match argv with
    | [.str k] => .ok (.dict (removeField k map), (getField k map).getD .unit)
    | [other] => .error (.typeMismatch s!"remove takes a String key, got {other.typeName}")
    | _ => .error (.arityMismatch s!"remove takes 1 argument, got {argv.length}")
  | t, m => .error (.noSuchField s!"{t.typeName} has no method '{m}'")

end AthenaOS.Athlang
