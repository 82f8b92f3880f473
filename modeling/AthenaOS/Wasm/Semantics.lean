import AthenaOS.Wasm.Interpreter

/-!
# WebAssembly 1.0

What the interpreter is for: the syntax, the validation rules and the reduction semantics of
the instructions it implements, from the WebAssembly specification and not from the source.

- `Step`, `Reduces`: reduction. A sequence `val* instr*` is kept as its values (top first)
  and its instructions; `label` and `frame` hold sequences of their own.
-/

namespace AthenaOS.Wasm

open Lib Lib.Wire

/-! ## Values and operators -/

/-- A value; the floating point types by their bits. -/
inductive Val where
  | i32 (c : I32)
  | i64 (c : BitVec 64)
  | f32 (c : BitVec 32)
  | f64 (c : BitVec 64)
  deriving DecidableEq

namespace Val

def type : Val → ValType
  | .i32 _ => .i32
  | .i64 _ => .i64
  | .f32 _ => .f32
  | .f64 _ => .f64

/-- The default value of a type. -/
def zero : ValType → Val
  | .i32 => .i32 0
  | .i64 => .i64 0
  | .f32 => .f32 0
  | .f64 => .f64 0

/-- The low 32 bits: all of an `i32`. -/
def low : Val → I32
  | .i32 c => c
  | .i64 c => c.setWidth 32
  | .f32 c => c
  | .f64 c => c.setWidth 32

end Val

/-- The operators of one operand. -/
inductive UnOp where
  | eqz | clz | ctz | popcnt

/-- The operators of two operands. -/
inductive BinOp where
  | eq | ne | ltS | ltU | gtS | gtU | leS | leU | geS | geU
  | add | sub | mul | divS | divU | remS | remU
  | and | or | xor | shl | shrS | shrU | rotl | rotr

def UnOp.eval (a : I32) : UnOp → I32
  | .eqz => ofBool (a.toNat = 0)
  | .clz => a.clz
  | .ctz => a.ctz
  | .popcnt => a.cpop

/-- Comparisons and arithmetic on the numbers the operands stand for. Division truncates, and
is undefined by zero and where the quotient is not a 32-bit number. -/
def BinOp.eval (a b : I32) : BinOp → Option I32
  | .eq => some (ofBool (a.toNat = b.toNat))
  | .ne => some (ofBool (a.toNat ≠ b.toNat))
  | .ltS => some (ofBool (a.toInt < b.toInt))
  | .ltU => some (ofBool (a.toNat < b.toNat))
  | .gtS => some (ofBool (a.toInt > b.toInt))
  | .gtU => some (ofBool (a.toNat > b.toNat))
  | .leS => some (ofBool (a.toInt ≤ b.toInt))
  | .leU => some (ofBool (a.toNat ≤ b.toNat))
  | .geS => some (ofBool (a.toInt ≥ b.toInt))
  | .geU => some (ofBool (a.toNat ≥ b.toNat))
  | .add => some (BitVec.ofNat 32 (a.toNat + b.toNat))
  | .sub => some (BitVec.ofInt 32 (a.toNat - b.toNat))
  | .mul => some (BitVec.ofNat 32 (a.toNat * b.toNat))
  | .divS =>
    if b.toInt = 0 ∨ a.toInt.tdiv b.toInt = 2 ^ 31 then none
    else some (BitVec.ofInt 32 (a.toInt.tdiv b.toInt))
  | .divU => if b.toNat = 0 then none else some (BitVec.ofNat 32 (a.toNat / b.toNat))
  | .remS => if b.toInt = 0 then none else some (BitVec.ofInt 32 (a.toInt.tmod b.toInt))
  | .remU => if b.toNat = 0 then none else some (BitVec.ofNat 32 (a.toNat % b.toNat))
  | .and => some (a &&& b)
  | .or => some (a ||| b)
  | .xor => some (a ^^^ b)
  | .shl => some (a <<< (b.toNat % 32))
  | .shrS => some (a.sshiftRight (b.toNat % 32))
  | .shrU => some (a >>> (b.toNat % 32))
  | .rotl => some (a.rotateLeft (b.toNat % 32))
  | .rotr => some (a.rotateRight (b.toNat % 32))

/-! ## Syntax -/

/-- Instructions. -/
inductive Instr where
  | unreachable
  | nop
  | drop
  | select
  | ret
  | block (rt : Option ValType) (body : List Instr)
  | loop (rt : Option ValType) (body : List Instr)
  | ite (rt : Option ValType) (thn els : List Instr)
  | br (l : Nat)
  | brIf (l : Nat)
  | call (x : Nat)
  | localGet (x : Nat)
  | localSet (x : Nat)
  | localTee (x : Nat)
  | load (align off : Nat)
  | load8 (align off : Nat)
  | store (align off : Nat)
  | store8 (align off : Nat)
  | memorySize
  | memoryGrow
  | const (c : I32)
  | unary (op : UnOp)
  | binary (op : BinOp)

/-- A defined function. -/
structure Func where
  type : FuncType
  locals : List ValType
  body : List Instr

/-- The defined functions of a module, by function index. -/
abbrev Funcs : Type := Nat → Option Func

/-! ## Validation -/

/-- A validation context. -/
structure Context where
  locals : List ValType
  labels : List (List ValType)
  results : List ValType
  memory : Bool

/-- The context inside a label. -/
def Context.label (C : Context) (ts : List ValType) : Context := { C with labels := ts :: C.labels }

/-- The instructions whose type does not depend on the rest of the sequence. -/
inductive ValidPlain (C : Context) : Instr → List ValType → List ValType → Prop
  | nop : ValidPlain C .nop [] []
  | drop (t : ValType) : ValidPlain C .drop [t] []
  | select (t : ValType) : ValidPlain C .select [.i32, t, t] [t]
  | localGet {x : Nat} {t : ValType} : C.locals[x]? = some t → ValidPlain C (.localGet x) [] [t]
  | localSet {x : Nat} {t : ValType} : C.locals[x]? = some t → ValidPlain C (.localSet x) [t] []
  | localTee {x : Nat} {t : ValType} : C.locals[x]? = some t → ValidPlain C (.localTee x) [t] [t]
  | load {align off : Nat} : align ≤ 2 → C.memory → ValidPlain C (.load align off) [.i32] [.i32]
  | load8 {align off : Nat} : align ≤ 0 → C.memory → ValidPlain C (.load8 align off) [.i32] [.i32]
  | store {align off : Nat} : align ≤ 2 → C.memory → ValidPlain C (.store align off) [.i32, .i32] []
  | store8 {align off : Nat} : align ≤ 0 → C.memory → ValidPlain C (.store8 align off) [.i32, .i32] []
  | memorySize : C.memory → ValidPlain C .memorySize [] [.i32]
  | memoryGrow : C.memory → ValidPlain C .memoryGrow [.i32] [.i32]
  | const (c : I32) : ValidPlain C (.const c) [] [.i32]
  | unary (op : UnOp) : ValidPlain C (.unary op) [.i32] [.i32]
  | binary (op : BinOp) : ValidPlain C (.binary op) [.i32, .i32] [.i32]

/-- A sequence of instructions turns operands of types `ts` into operands of types `us`. After
an unconditional branch the rest may assume any operands. -/
inductive ValidSeq (funcs : Funcs) : Context → List Instr → List ValType → List ValType → Prop
  | nil {C : Context} {ts : List ValType} : ValidSeq funcs C [] ts ts
  | plain {C : Context} {i : Instr} {is : List Instr} {ts us vs ws : List ValType} :
    ValidPlain C i ts us → ValidSeq funcs C is (us ++ vs) ws → ValidSeq funcs C (i :: is) (ts ++ vs) ws
  | block {C : Context} {rt : Option ValType} {body is : List Instr} {ts us : List ValType} :
    ValidSeq funcs (C.label rt.toList) body [] rt.toList → ValidSeq funcs C is (rt.toList ++ ts) us →
    ValidSeq funcs C (.block rt body :: is) ts us
  | loop {C : Context} {rt : Option ValType} {body is : List Instr} {ts us : List ValType} :
    ValidSeq funcs (C.label []) body [] rt.toList → ValidSeq funcs C is (rt.toList ++ ts) us →
    ValidSeq funcs C (.loop rt body :: is) ts us
  | ite {C : Context} {rt : Option ValType} {thn els is : List Instr} {ts us : List ValType} :
    ValidSeq funcs (C.label rt.toList) thn [] rt.toList →
    ValidSeq funcs (C.label rt.toList) els [] rt.toList → ValidSeq funcs C is (rt.toList ++ ts) us →
    ValidSeq funcs C (.ite rt thn els :: is) (.i32 :: ts) us
  | br {C : Context} {l : Nat} {is : List Instr} {ls ts us vs : List ValType} :
    C.labels[l]? = some ls → ValidSeq funcs C is us vs → ValidSeq funcs C (.br l :: is) (ls ++ ts) vs
  | brIf {C : Context} {l : Nat} {is : List Instr} {ls ts us : List ValType} :
    C.labels[l]? = some ls → ValidSeq funcs C is (ls ++ ts) us →
    ValidSeq funcs C (.brIf l :: is) (.i32 :: (ls ++ ts)) us
  | ret {C : Context} {is : List Instr} {ts us vs : List ValType} :
    ValidSeq funcs C is us vs → ValidSeq funcs C (.ret :: is) (C.results ++ ts) vs
  | unreachable {C : Context} {is : List Instr} {ts us vs : List ValType} :
    ValidSeq funcs C is us vs → ValidSeq funcs C (.unreachable :: is) ts vs
  | call {C : Context} {x : Nat} {f : Func} {is : List Instr} {ts us : List ValType} :
    funcs x = some f → ValidSeq funcs C is (f.type.results.reverse ++ ts) us →
    ValidSeq funcs C (.call x :: is) (f.type.params.reverse ++ ts) us

/-- The context of a function's body. -/
def Func.context (f : Func) (memory : Bool) : Context where
  locals := f.type.params ++ f.locals
  labels := [f.type.results.reverse]
  results := f.type.results.reverse
  memory := memory

/-- A valid function; version 1.0 allows at most one result. -/
structure ValidFunc (funcs : Funcs) (memory : Bool) (f : Func) : Prop where
  results : f.type.results.length ≤ 1
  body : ValidSeq funcs (f.context memory) f.body [] f.type.results.reverse

/-! ## Reduction -/

/-- The memory, and the number of pages it may grow to. -/
structure Store where
  data : ByteString
  max : Nat

/-- Administrative instructions. -/
inductive Admin where
  | instr (i : Instr)
  | trap
  | invoke (x : Nat)
  | label (n : Nat) (cont : List Instr) (vals : List Val) (code : List Admin)
  | frame (n : Nat) (locals : List Val) (vals : List Val) (code : List Admin)

/-- Instructions as administrative ones. -/
def instrs (is : List Instr) : List Admin := is.map .instr

/-- A configuration: the store, the current frame's locals, and a sequence. -/
structure Config where
  store : Store
  locals : List Val
  vals : List Val
  code : List Admin

/-- The effect of an instruction on store, locals and operands. Growing the memory may always
fail. -/
inductive PlainStep : Store → List Val → List Val → Instr → Store → List Val → List Val → Prop
  | nop {S : Store} {F vs : List Val} : PlainStep S F vs .nop S F vs
  | drop {S : Store} {F vs : List Val} {v : Val} : PlainStep S F (v :: vs) .drop S F vs
  | select {S : Store} {F vs : List Val} {c : I32} {v₁ v₂ : Val} :
    PlainStep S F (.i32 c :: v₂ :: v₁ :: vs) .select S F ((if c ≠ 0 then v₁ else v₂) :: vs)
  | localGet {S : Store} {F vs : List Val} {x : Nat} {v : Val} :
    F[x]? = some v → PlainStep S F vs (.localGet x) S F (v :: vs)
  | localSet {S : Store} {F vs : List Val} {x : Nat} {v : Val} :
    x < F.length → PlainStep S F (v :: vs) (.localSet x) S (F.set x v) vs
  | localTee {S : Store} {F vs : List Val} {x : Nat} {v : Val} :
    x < F.length → PlainStep S F (v :: vs) (.localTee x) S (F.set x v) (v :: vs)
  | load {S : Store} {F vs : List Val} {align off : Nat} {i : I32} :
    i.toNat + off + 4 ≤ S.data.length → PlainStep S F (.i32 i :: vs) (.load align off) S F
      (.i32 (BitVec.ofNat 32 (leNat (slice S.data (i.toNat + off) 4))) :: vs)
  | load8 {S : Store} {F vs : List Val} {align off : Nat} {i : I32} :
    i.toNat + off + 1 ≤ S.data.length → PlainStep S F (.i32 i :: vs) (.load8 align off) S F
      (.i32 (BitVec.ofNat 32 (leNat (slice S.data (i.toNat + off) 1))) :: vs)
  | store {S : Store} {F vs : List Val} {align off : Nat} {i c : I32} :
    i.toNat + off + 4 ≤ S.data.length → PlainStep S F (.i32 c :: .i32 i :: vs) (.store align off)
      { S with data := S.data.take (i.toNat + off) ++
        (leBytes 4 c.toNat ++ S.data.drop (i.toNat + off + 4)) } F vs
  | store8 {S : Store} {F vs : List Val} {align off : Nat} {i c : I32} :
    i.toNat + off + 1 ≤ S.data.length → PlainStep S F (.i32 c :: .i32 i :: vs) (.store8 align off)
      { S with data := S.data.take (i.toNat + off) ++
        (leBytes 1 c.toNat ++ S.data.drop (i.toNat + off + 1)) } F vs
  | memorySize {S : Store} {F vs : List Val} :
    PlainStep S F vs .memorySize S F (.i32 (BitVec.ofNat 32 (S.data.length / pageSize)) :: vs)
  | memoryGrow {S : Store} {F vs : List Val} {n : I32} :
    S.data.length / pageSize + n.toNat ≤ S.max → PlainStep S F (.i32 n :: vs) .memoryGrow
      { S with data := S.data ++ List.replicate (n.toNat * pageSize) 0 } F
      (.i32 (BitVec.ofNat 32 (S.data.length / pageSize)) :: vs)
  | memoryGrowFail {S : Store} {F vs : List Val} {n : I32} :
    PlainStep S F (.i32 n :: vs) .memoryGrow S F (.i32 (-1) :: vs)
  | const {S : Store} {F vs : List Val} {c : I32} : PlainStep S F vs (.const c) S F (.i32 c :: vs)
  | unary {S : Store} {F vs : List Val} {op : UnOp} {a : I32} :
    PlainStep S F (.i32 a :: vs) (.unary op) S F (.i32 (op.eval a) :: vs)
  | binary {S : Store} {F vs : List Val} {op : BinOp} {a b c : I32} :
    op.eval a b = some c → PlainStep S F (.i32 b :: .i32 a :: vs) (.binary op) S F (.i32 c :: vs)

/-- The instructions that trap. -/
inductive PlainTrap : Store → List Val → Instr → Prop
  | unreachable {S : Store} {vs : List Val} : PlainTrap S vs .unreachable
  | load {S : Store} {vs : List Val} {align off : Nat} {i : I32} :
    S.data.length < i.toNat + off + 4 → PlainTrap S (.i32 i :: vs) (.load align off)
  | load8 {S : Store} {vs : List Val} {align off : Nat} {i : I32} :
    S.data.length < i.toNat + off + 1 → PlainTrap S (.i32 i :: vs) (.load8 align off)
  | store {S : Store} {vs : List Val} {align off : Nat} {i c : I32} :
    S.data.length < i.toNat + off + 4 → PlainTrap S (.i32 c :: .i32 i :: vs) (.store align off)
  | store8 {S : Store} {vs : List Val} {align off : Nat} {i c : I32} :
    S.data.length < i.toNat + off + 1 → PlainTrap S (.i32 c :: .i32 i :: vs) (.store8 align off)
  | binary {S : Store} {vs : List Val} {op : BinOp} {a b : I32} :
    op.eval a b = none → PlainTrap S (.i32 b :: .i32 a :: vs) (.binary op)

/-- `Branches l vals spare vs es`: the sequence is about to branch to the `l`-th label around
it with `vals`, and `spare` are the other operands between the branch and that label. -/
inductive Branches : Nat → List Val → List Val → List Val → List Admin → Prop
  | here {l : Nat} {vals spare : List Val} {es : List Admin} :
    Branches l vals spare (vals ++ spare) (.instr (.br l) :: es)
  | label {l n : Nat} {cont : List Instr} {vals spare vs vs' : List Val} {es es' : List Admin} :
    Branches (l + 1) vals spare vs' es' →
    Branches l vals (spare ++ vs) vs (.label n cont vs' es' :: es)

/-- The same for `return`. -/
inductive Returns : List Val → List Val → List Val → List Admin → Prop
  | here {vals spare : List Val} {es : List Admin} :
    Returns vals spare (vals ++ spare) (.instr .ret :: es)
  | label {n : Nat} {cont : List Instr} {vals spare vs vs' : List Val} {es es' : List Admin} :
    Returns vals spare vs' es' → Returns vals (spare ++ vs) vs (.label n cont vs' es' :: es)

/-- **Reduction.** -/
inductive Step (funcs : Funcs) : Config → Config → Prop
  | plain {S S' : Store} {F F' vs vs' : List Val} {i : Instr} {es : List Admin} :
    PlainStep S F vs i S' F' vs' → Step funcs ⟨S, F, vs, .instr i :: es⟩ ⟨S', F', vs', es⟩
  | trap {S : Store} {F vs : List Val} {i : Instr} {es : List Admin} :
    PlainTrap S vs i → Step funcs ⟨S, F, vs, .instr i :: es⟩ ⟨S, F, vs, .trap :: es⟩
  | block {S : Store} {F vs : List Val} {rt : Option ValType} {body : List Instr} {es : List Admin} :
    Step funcs ⟨S, F, vs, .instr (.block rt body) :: es⟩
      ⟨S, F, vs, .label rt.toList.length [] [] (instrs body) :: es⟩
  | loop {S : Store} {F vs : List Val} {rt : Option ValType} {body : List Instr} {es : List Admin} :
    Step funcs ⟨S, F, vs, .instr (.loop rt body) :: es⟩
      ⟨S, F, vs, .label 0 [.loop rt body] [] (instrs body) :: es⟩
  | ite {S : Store} {F vs : List Val} {c : I32} {rt : Option ValType} {thn els : List Instr}
      {es : List Admin} :
    Step funcs ⟨S, F, .i32 c :: vs, .instr (.ite rt thn els) :: es⟩
      ⟨S, F, vs, .label rt.toList.length [] [] (instrs (if c ≠ 0 then thn else els)) :: es⟩
  | brIfTrue {S : Store} {F vs : List Val} {c : I32} {l : Nat} {es : List Admin} :
    c ≠ 0 → Step funcs ⟨S, F, .i32 c :: vs, .instr (.brIf l) :: es⟩ ⟨S, F, vs, .instr (.br l) :: es⟩
  | brIfFalse {S : Store} {F vs : List Val} {l : Nat} {es : List Admin} :
    Step funcs ⟨S, F, .i32 0 :: vs, .instr (.brIf l) :: es⟩ ⟨S, F, vs, es⟩
  | call {S : Store} {F vs : List Val} {x : Nat} {es : List Admin} :
    Step funcs ⟨S, F, vs, .instr (.call x) :: es⟩ ⟨S, F, vs, .invoke x :: es⟩
  | invoke {S : Store} {F vs args : List Val} {x : Nat} {f : Func} {es : List Admin} :
    funcs x = some f → args.length = f.type.params.length →
    Step funcs ⟨S, F, args ++ vs, .invoke x :: es⟩ ⟨S, F, vs, .frame f.type.results.length
      (args.reverse ++ f.locals.map Val.zero) []
      [.instr (.block f.type.results.head? f.body)] :: es⟩
  | labelEnd {S : Store} {F vs vs' : List Val} {n : Nat} {cont : List Instr} {es : List Admin} :
    Step funcs ⟨S, F, vs, .label n cont vs' [] :: es⟩ ⟨S, F, vs' ++ vs, es⟩
  | labelBranch {S : Store} {F vs vs' vals spare : List Val} {n : Nat} {cont : List Instr}
      {es es' : List Admin} :
    Branches 0 vals spare vs' es' → vals.length = n →
    Step funcs ⟨S, F, vs, .label n cont vs' es' :: es⟩ ⟨S, F, vals ++ vs, instrs cont ++ es⟩
  | frameEnd {S : Store} {F F' vs vs' : List Val} {n : Nat} {es : List Admin} :
    vs'.length = n → Step funcs ⟨S, F, vs, .frame n F' vs' [] :: es⟩ ⟨S, F, vs' ++ vs, es⟩
  | frameReturn {S : Store} {F F' vs vs' vals spare : List Val} {n : Nat} {es es' : List Admin} :
    Returns vals spare vs' es' → vals.length = n →
    Step funcs ⟨S, F, vs, .frame n F' vs' es' :: es⟩ ⟨S, F, vals ++ vs, es⟩
  | labelTrap {S : Store} {F vs vs' : List Val} {n : Nat} {cont : List Instr} {es es' : List Admin} :
    Step funcs ⟨S, F, vs, .label n cont vs' (.trap :: es') :: es⟩ ⟨S, F, vs, .trap :: es⟩
  | frameTrap {S : Store} {F F' vs vs' : List Val} {n : Nat} {es es' : List Admin} :
    Step funcs ⟨S, F, vs, .frame n F' vs' (.trap :: es') :: es⟩ ⟨S, F, vs, .trap :: es⟩
  | label {S S' : Store} {F F' vs vs' vs'' : List Val} {n : Nat} {cont : List Instr}
      {es es' es'' : List Admin} :
    Step funcs ⟨S, F, vs', es'⟩ ⟨S', F', vs'', es''⟩ →
    Step funcs ⟨S, F, vs, .label n cont vs' es' :: es⟩ ⟨S', F', vs, .label n cont vs'' es'' :: es⟩
  | frame {S S' : Store} {F F' F'' vs vs' vs'' : List Val} {n : Nat} {es es' es'' : List Admin} :
    Step funcs ⟨S, F', vs', es'⟩ ⟨S', F'', vs'', es''⟩ →
    Step funcs ⟨S, F, vs, .frame n F' vs' es' :: es⟩ ⟨S', F, vs, .frame n F'' vs'' es'' :: es⟩

/-- Any number of steps. -/
abbrev Reduces (funcs : Funcs) : Config → Config → Prop := Relation.ReflTransGen (Step funcs)

variable {funcs : Funcs}

/-- Reduction inside a label. -/
theorem Reduces.label {n : Nat} {cont : List Instr} {c c' : Config} (h : Reduces funcs c c')
    (vs : List Val) (es : List Admin) :
    Reduces funcs ⟨c.store, c.locals, vs, .label n cont c.vals c.code :: es⟩
      ⟨c'.store, c'.locals, vs, .label n cont c'.vals c'.code :: es⟩ := by
  induction h with
  | refl => exact .refl
  | tail _ hstep ih => exact ih.tail (Step.label hstep)

/-- Reduction inside a frame. -/
theorem Reduces.frame {n : Nat} {c c' : Config} (h : Reduces funcs c c') (F vs : List Val)
    (es : List Admin) :
    Reduces funcs ⟨c.store, F, vs, .frame n c.locals c.vals c.code :: es⟩
      ⟨c'.store, F, vs, .frame n c'.locals c'.vals c'.code :: es⟩ := by
  induction h with
  | refl => exact .refl
  | tail _ hstep ih => exact ih.tail (Step.frame hstep)

/-! ## Spare operands -/

/-- The next step is a branch to a label inside a function that drops operands. A branch to
the label of a whole function body is left out: the function's results are taken from the top
of its operands in any case. -/
inductive Spare : List Val → List Admin → Prop
  | branch {vs vs' vals spare : List Val} {n : Nat} {cont : List Instr} {es es' : List Admin} :
    Branches 0 vals spare vs' es' → vals.length = n → spare ≠ [] →
    Spare vs (.label n cont vs' es' :: es)
  | label {vs vs' : List Val} {n : Nat} {cont : List Instr} {es es' : List Admin} :
    Spare vs' es' → Spare vs (.label n cont vs' es' :: es)
  | frame {vs vs' vs'' : List Val} {F : List Val} {n k : Nat} {es es' es'' : List Admin} :
    Spare vs'' es'' → Spare vs (.frame n F vs' (.label k [] vs'' es'' :: es') :: es)

end AthenaOS.Wasm
