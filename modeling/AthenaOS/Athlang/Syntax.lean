import Mathlib

/-!
# Scripts and values

The syntax of the scripting language, and what its expressions evaluate to.
-/

namespace AthenaOS.Athlang

inductive UnOp where
  | neg
  | not
  deriving DecidableEq

/-- The operators that evaluate both sides. -/
inductive BinOp where
  | add
  | sub
  | mul
  | div
  | mod
  | eq
  | ne
  | lt
  | le
  | gt
  | ge
  deriving DecidableEq

/-- The operators that may skip the right side. -/
inductive LogicOp where
  | and
  | or
  deriving DecidableEq

mutual

inductive Expr where
  | int (n : Int64)
  /-- A 64-bit float, by its bits. -/
  | float (bits : UInt64)
  | bool (b : Bool)
  | str (parts : List StrPart)
  | var (name : String)
  | arrayLit (items : List Expr)
  | dictLit (pairs : List (Expr × Expr))
  | range (l r : Expr) (inclusive : Bool)
  | unary (op : UnOp) (inner : Expr)
  | bin (op : BinOp) (l r : Expr)
  | logic (op : LogicOp) (l r : Expr)
  | call (callee : Expr) (args : List Expr)
  | index (recv idx : Expr)
  | field (recv : Expr) (name : String)
  | method (recv : Expr) (name : String) (args : List Expr)
  | closure (params : List String) (body : List Stmt)

inductive StrPart where
  | lit (text : String)
  | interp (e : Expr)

inductive PathSeg where
  | index (e : Expr)
  | field (name : String)

inductive Stmt where
  | bind (name : String) (mutable : Bool) (value : Expr)
  | assign (base : String) (path : List PathSeg) (value : Expr)
  | expr (e : Expr)
  | ifElse (cond : Expr) (thenBody alt : List Stmt)
  | whileDo (cond : Expr) (body : List Stmt)
  | forIn (name : String) (iterable : Expr) (body : List Stmt)
  | func (name : String) (params : List String) (body : List Stmt)
  | structDecl (name : String) (fields : List String)
  | ret (value : Option Expr)
  | breakLoop
  | continueLoop

end

inductive RaeError where
  | undefinedVariable (name : String)
  | undefinedFunction (name : String)
  | assignToLet (name : String)
  | typeMismatch (msg : String)
  | divisionByZero
  | arityMismatch (msg : String)
  | outOfFuel
  | recursionLimit
  | indexOutOfBounds (msg : String)
  | noSuchField (msg : String)
  | strayControlFlow
  | capabilityDenied (msg : String)
  | hostFailed (msg : String)
  deriving DecidableEq

/-- Dictionaries and fields are sorted by key. A function value has the identity of its
reference-counted cell, and the bindings it captured with their `var` flags. -/
inductive Value where
  | int (n : Int64)
  | float (bits : UInt64)
  | bool (b : Bool)
  | str (s : String)
  | array (items : List Value)
  | dict (map : List (String × Value))
  | range (start stop : Int64) (inclusive : Bool)
  | func (cell : Nat) (params : List String) (body : List Stmt)
      (captured : String → Option (Value × Bool))
  | struct (name : String) (fields : List (String × Value))
  | unit

/-- Float arithmetic and text, and the case mapping of Unicode: any functions will do. -/
structure Runtime where
  ofInt : Int64 → UInt64
  /-- Truncation, saturating. -/
  toInt : UInt64 → Int64
  neg : UInt64 → UInt64
  add : UInt64 → UInt64 → UInt64
  sub : UInt64 → UInt64 → UInt64
  mul : UInt64 → UInt64 → UInt64
  div : UInt64 → UInt64 → UInt64
  eq : UInt64 → UInt64 → Bool
  lt : UInt64 → UInt64 → Bool
  le : UInt64 → UInt64 → Bool
  display : UInt64 → String
  parse : String → Option UInt64
  uppercase : String → String
  lowercase : String → String

namespace Value

def typeName : Value → String
  | int _ => "Int"
  | float _ => "Float"
  | bool _ => "Bool"
  | str _ => "String"
  | array _ => "Array"
  | dict _ => "Dictionary"
  | range .. => "Range"
  | func .. => "Function"
  | struct .. => "Struct"
  | unit => "Unit"

def displayInt (n : Int64) : String := toString n.toInt

mutual

def display (rt : Runtime) : Value → String
  | int n => displayInt n
  | float f => rt.display f
  | bool b => if b then "true" else "false"
  | str s => s
  | array items => "[" ++ ", ".intercalate (displayItems rt items) ++ "]"
  | dict [] => "[:]"
  | dict (kv :: map) => "[" ++ ", ".intercalate (displayFields rt (kv :: map)) ++ "]"
  | range start stop inclusive =>
    displayInt start ++ (if inclusive then "..." else "..<") ++ displayInt stop
  | func .. => "<func>"
  | struct name fields => name ++ "(" ++ ", ".intercalate (displayFields rt fields) ++ ")"
  | unit => "()"

def displayItems (rt : Runtime) : List Value → List String
  | [] => []
  | v :: vs => v.display rt :: displayItems rt vs

def displayFields (rt : Runtime) : List (String × Value) → List String
  | [] => []
  | (k, v) :: vs => (k ++ ": " ++ v.display rt) :: displayFields rt vs

end

mutual

/-- Functions are equal when they are the same cell. -/
def eq (rt : Runtime) : Value → Value → Bool
  | int a, int b => a == b
  | float a, float b => rt.eq a b
  | bool a, bool b => a == b
  | str a, str b => a == b
  | array a, array b => eqItems rt a b
  | dict a, dict b => eqFields rt a b
  | range a b i, range c d j => a == c && b == d && i == j
  | func a .., func b .. => a == b
  | struct a f, struct b g => a == b && eqFields rt f g
  | unit, unit => true
  | _, _ => false

def eqItems (rt : Runtime) : List Value → List Value → Bool
  | [], [] => true
  | a :: as, b :: bs => a.eq rt b && eqItems rt as bs
  | _, _ => false

def eqFields (rt : Runtime) : List (String × Value) → List (String × Value) → Bool
  | [], [] => true
  | (k, a) :: as, (l, b) :: bs => k == l && a.eq rt b && eqFields rt as bs
  | _, _ => false

end

end Value

/-! ## Sorted maps -/

def getField (k : String) : List (String × Value) → Option Value
  | [] => none
  | (l, v) :: map => if l = k then some v else getField k map

def insertField (k : String) (v : Value) : List (String × Value) → List (String × Value)
  | [] => [(k, v)]
  | (l, w) :: map =>
    if l = k then (k, v) :: map
    else if k < l then (k, v) :: (l, w) :: map
    else (l, w) :: insertField k v map

def removeField (k : String) : List (String × Value) → List (String × Value)
  | [] => []
  | (l, w) :: map => if l = k then map else (l, w) :: removeField k map

end AthenaOS.Athlang
