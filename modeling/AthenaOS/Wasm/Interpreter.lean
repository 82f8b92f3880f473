import AthenaOS.Lib.Fallible
import AthenaOS.Wasm.Module

/-!
# The WebAssembly interpreter

`Vm::run_body` and `Vm::invoke`: a recursive walk over a function's bytes with one flat
operand stack. The code is never validated; a fault returns `None` and everything done so
far stays done.
-/

namespace AthenaOS.Wasm

open Lib Lib.Wire

/-- An `i32`. -/
abbrev I32 : Type := BitVec 32

/-- `PAGE_SIZE`. -/
def pageSize : Nat := 65536

/-- `MAX_CALL_DEPTH`. -/
def maxCallDepth : Nat := 256

/-- `Stop`: how a block body ended. -/
inductive Stop where
  | ended (pos : Nat)
  | elseAt (pos : Nat)
  | branch (n : Nat)
  | returned
  deriving DecidableEq, Repr

/-! ## Scans -/

/-- `skip_instr`: past one instruction and its immediates. -/
def skipInstr (code : ByteString) (pos : Nat) : Option Nat := do
  let op ← code[pos]?
  let pos := pos + 1
  let op := op.toNat
  if op = 0x00 ∨ op = 0x01 ∨ op = 0x05 ∨ op = 0x0B ∨ op = 0x0F ∨ op = 0x1A ∨ op = 0x1B ∨
      (0x45 ≤ op ∧ op ≤ 0xC4) then some pos
  else if op = 0x02 ∨ op = 0x03 ∨ op = 0x04 then code[pos]?.map fun _ => pos + 1
  else if op = 0x0C ∨ op = 0x0D ∨ op = 0x10 ∨ (0x20 ≤ op ∧ op ≤ 0x24) then
    (readUleb code 32 pos).map (·.2)
  else if op = 0x0E then do
    let (n, pos) ← readUleb code 32 pos
    (Scan.times (readUleb code 32) (n + 1) pos).map (·.2)
  else if op = 0x11 ∨ (0x28 ≤ op ∧ op ≤ 0x3E) then do
    let (_, pos) ← readUleb code 32 pos
    (readUleb code 32 pos).map (·.2)
  else if op = 0x3F ∨ op = 0x40 then some (pos + 1)
  else if op = 0x41 ∨ op = 0x42 then (readSleb code 64 pos).map (·.2)
  else if op = 0x43 then some (pos + 4)
  else if op = 0x44 then some (pos + 8)
  else none

/-- `depth += 1`: the depth is an `i32`, and never below 0. `none` is an overflow. -/
def deeper (depth : Nat) : Option Nat := if depth + 1 < 2 ^ 31 then some (depth + 1) else none

/-- The loop of `skip_block_body`. -/
def skipBlockBodyLoop (code : ByteString) : Nat → Nat → Nat → Option Nat
  | 0, _, _ => none
  | rounds + 1, depth, pos => do
    let op ← code[pos]?
    if op = 0x02 ∨ op = 0x03 ∨ op = 0x04 then do
      let depth ← deeper depth
      let next ← skipInstr code pos
      skipBlockBodyLoop code rounds depth next
    else if op = 0x0B then
      if depth = 0 then some (pos + 1)
      else do
        let next ← skipInstr code pos
        skipBlockBodyLoop code rounds (depth - 1) next
    else do
      let next ← skipInstr code pos
      skipBlockBodyLoop code rounds depth next

/-- `skip_block_body`: every round moves on, so `code.len() + 1` rounds are enough. -/
def skipBlockBody (code : ByteString) (pos : Nat) : Option Nat :=
  skipBlockBodyLoop code (code.length + 1) 0 pos

/-- The loop of `skip_then`. -/
def skipThenLoop (code : ByteString) : Nat → Nat → Nat → Option (Bool × Nat)
  | 0, _, _ => none
  | rounds + 1, depth, pos => do
    let op ← code[pos]?
    if op = 0x02 ∨ op = 0x03 ∨ op = 0x04 then do
      let depth ← deeper depth
      let next ← skipInstr code pos
      skipThenLoop code rounds depth next
    else if op = 0x05 ∧ depth = 0 then some (true, pos + 1)
    else if op = 0x0B then
      if depth = 0 then some (false, pos + 1)
      else do
        let next ← skipInstr code pos
        skipThenLoop code rounds (depth - 1) next
    else do
      let next ← skipInstr code pos
      skipThenLoop code rounds depth next

/-- `skip_then`. -/
def skipThen (code : ByteString) (pos : Nat) : Option (Bool × Nat) :=
  skipThenLoop code (code.length + 1) 0 pos

/-! ## The machine -/

/-- `Vm`. -/
structure Vm where
  mem : ByteString
  maxPages : Nat
  fuel : Nat
  callDepth : Nat

/-- `Vm::new`. -/
def Vm.new (initialPages maxPages fuel : Nat) : Vm where
  mem := List.replicate (min initialPages maxPagesCap * pageSize) 0
  maxPages := max (min maxPages maxPagesCap) (min initialPages maxPagesCap)
  fuel := fuel
  callDepth := maxCallDepth

/-- `mem_pages`. -/
def Vm.memPages (vm : Vm) : Nat := vm.mem.length / pageSize

/-- `mem_grow`: the old size and the grown machine, or -1. -/
def Vm.memGrow (vm : Vm) (delta : Nat) : I32 × Vm :=
  let old := vm.memPages
  if old + delta < 2 ^ 32 ∧ old + delta ≤ vm.maxPages then
    (BitVec.ofNat 32 old,
      { vm with mem := vm.mem ++ List.replicate ((old + delta) * pageSize - vm.mem.length) 0 })
  else (-1, vm)

/-- `HostEnv`: the embedder, over a state of its own. -/
structure Host (σ : Type) where
  callImport : σ → Nat → List I32 → Option (List I32) × σ

/-- What an observer of a run sees. -/
inductive Event where
  | instr (op : UInt8) (memLen : Nat)
  | enter
  | leave
  | callImport (index : Nat) (args : List I32)
  deriving DecidableEq

/-- The machine, the embedder, and what has been observed (newest first). -/
structure World (σ : Type) where
  vm : Vm
  host : σ
  log : List Event

/-- Code that runs in a world and may trap. -/
abbrev Interp (σ : Type) : Type → Type := Fallible (World σ)

/-- The operand stack (top first) and the locals of one activation. -/
structure Frame where
  stack : List I32
  locals : List I32
  deriving DecidableEq

section Machine

variable {σ : Type}

/-- One unit of fuel, then the opcode at `pos`. -/
def fetch (code : ByteString) (pos : Nat) : Interp σ UInt8 := fun w =>
  if w.vm.fuel = 0 then (none, w)
  else
    let vm := { w.vm with fuel := w.vm.fuel - 1 }
    match code[pos]? with
    | none => (none, { w with vm := vm })
    | some op => (some op, { w with vm := vm, log := .instr op vm.mem.length :: w.log })

/-- `host.call_import(..)`. -/
def callImport (host : Host σ) (index : Nat) (args : List I32) : Interp σ (List I32) := fun w =>
  match host.callImport w.host index args with
  | (results, h) => (results, { w with host := h, log := .callImport index args :: w.log })

/-- `self.call_depth = self.call_depth.checked_sub(1)?`, on the way into a function. -/
def enter : Interp σ Unit := fun w =>
  if w.vm.callDepth = 0 then (none, w)
  else (some (), { w with vm := { w.vm with callDepth := w.vm.callDepth - 1 }, log := .enter :: w.log })

/-- `self.call_depth += 1`, on the way out. -/
def leave : Interp σ Unit := fun w =>
  (some (), { w with vm := { w.vm with callDepth := w.vm.callDepth + 1 }, log := .leave :: w.log })

/-- The bytes of memory from `ea` on. -/
def memLoad (ea n : Nat) : Interp σ ByteString := fun w =>
  if ea + n ≤ w.vm.mem.length then (some (slice w.vm.mem ea n), w) else (none, w)

/-- Overwrite memory from `ea` on. -/
def memStore (ea : Nat) (bytes : ByteString) : Interp σ Unit := fun w =>
  if ea + bytes.length ≤ w.vm.mem.length then
    (some (), { w with vm := { w.vm with
      mem := w.vm.mem.take ea ++ (bytes ++ w.vm.mem.drop (ea + bytes.length)) } })
  else (none, w)

/-- `mem_grow` on the machine of the world. -/
def memGrow (delta : Nat) : Interp σ I32 := fun w =>
  match w.vm.memGrow delta with
  | (r, vm) => (some r, { w with vm := vm })

/-- A decoder at a position of the code. -/
def scan {α : Type} (s : Scan α) (pos : Nat) : Interp σ (α × Nat) := Fallible.ofOption (s pos)

end Machine

/-! ## Plain instructions -/

/-- A comparison's result. -/
def ofBool (b : Bool) : I32 := if b then 1 else 0

/-- `i32.eqz`, `i32.clz`, `i32.ctz`, `i32.popcnt`. -/
def unop (op : Nat) (a : I32) : Option I32 :=
  match op with
  | 0x45 => some (ofBool (a = 0))
  | 0x67 => some a.clz
  | 0x68 => some a.ctz
  | 0x69 => some a.cpop
  | _ => none

/-- The comparisons and the arithmetic of two operands; `None` is a trap. -/
def binop (op : Nat) (a b : I32) : Option I32 :=
  match op with
  | 0x46 => some (ofBool (a = b))
  | 0x47 => some (ofBool (a ≠ b))
  | 0x48 => some (ofBool (a.slt b))
  | 0x49 => some (ofBool (a.ult b))
  | 0x4A => some (ofBool (b.slt a))
  | 0x4B => some (ofBool (b.ult a))
  | 0x4C => some (ofBool (a.sle b))
  | 0x4D => some (ofBool (a.ule b))
  | 0x4E => some (ofBool (b.sle a))
  | 0x4F => some (ofBool (b.ule a))
  | 0x6A => some (a + b)
  | 0x6B => some (a - b)
  | 0x6C => some (a * b)
  | 0x6D => if b = 0 ∨ (a = BitVec.intMin 32 ∧ b = -1) then none else some (a.sdiv b)
  | 0x6E => if b = 0 then none else some (a / b)
  | 0x6F => if b = 0 then none else some (a.srem b)
  | 0x70 => if b = 0 then none else some (a % b)
  | 0x71 => some (a &&& b)
  | 0x72 => some (a ||| b)
  | 0x73 => some (a ^^^ b)
  | 0x74 => some (a <<< (b.toNat % 32))
  | 0x75 => some (a.sshiftRight (b.toNat % 32))
  | 0x76 => some (a >>> (b.toNat % 32))
  | 0x77 => some (a.rotateLeft (b.toNat % 32))
  | 0x78 => some (a.rotateRight (b.toNat % 32))
  | _ => none

section Plain

variable {σ : Type}

/-- The numeric instructions: `unop` or `binop` of the operands on the stack. -/
def numeric (op : Nat) (stack : List I32) : Option (List I32) :=
  if op = 0x45 ∨ (0x67 ≤ op ∧ op ≤ 0x69) then
    match stack with
    | a :: stack => (unop op a).map (· :: stack)
    | [] => none
  else
    match stack with
    | b :: a :: stack => (binop op a b).map (· :: stack)
    | _ => none

/-- `pop()?`. -/
def pop (fr : Frame) : Interp σ (I32 × Frame) :=
  match fr.stack with
  | v :: stack => pure (v, { fr with stack := stack })
  | [] => Fallible.fail

def Frame.push (fr : Frame) (v : I32) : Frame := { fr with stack := v :: fr.stack }

/-- The address of a load or store, after its alignment and offset. -/
def memArg (code : ByteString) (pos : Nat) : Interp σ (Nat × Nat) := do
  let (_align, pos) ← scan (readUleb code 32) pos
  scan (readUleb code 32) pos

/-- The memory index byte of `memory.size` and `memory.grow`. -/
def memIndex (code : ByteString) (pos : Nat) : Interp σ Nat :=
  match code[pos]? with
  | some b => if b = 0 then pure (pos + 1) else Fallible.fail
  | none => Fallible.fail

/-- Every instruction that neither branches nor calls: the next position and the frame. -/
def plain (code : ByteString) (op pos : Nat) (fr : Frame) : Interp σ (Nat × Frame) :=
  match op with
  | 0x01 => pure (pos, fr)
  | 0x1A => do
    let (_, fr) ← pop fr
    pure (pos, fr)
  | 0x1B => do
    let (c, fr) ← pop fr
    let (b, fr) ← pop fr
    let (a, fr) ← pop fr
    pure (pos, fr.push (if c ≠ 0 then a else b))
  | 0x20 => do
    let (i, pos) ← scan (readUleb code 32) pos
    let v ← Fallible.ofOption fr.locals[i]?
    pure (pos, fr.push v)
  | 0x21 => do
    let (i, pos) ← scan (readUleb code 32) pos
    let (v, fr) ← pop fr
    if i < fr.locals.length then pure (pos, { fr with locals := fr.locals.set i v }) else Fallible.fail
  | 0x22 => do
    let (i, pos) ← scan (readUleb code 32) pos
    let v ← Fallible.ofOption fr.stack.head?
    if i < fr.locals.length then pure (pos, { fr with locals := fr.locals.set i v }) else Fallible.fail
  | 0x28 => do
    let (off, pos) ← memArg code pos
    let (addr, fr) ← pop fr
    let bytes ← memLoad (addr.toNat + off) 4
    pure (pos, fr.push (BitVec.ofNat 32 (leNat bytes)))
  | 0x2D => do
    let (off, pos) ← memArg code pos
    let (addr, fr) ← pop fr
    let bytes ← memLoad (addr.toNat + off) 1
    pure (pos, fr.push (BitVec.ofNat 32 (leNat bytes)))
  | 0x36 => do
    let (off, pos) ← memArg code pos
    let (v, fr) ← pop fr
    let (addr, fr) ← pop fr
    memStore (addr.toNat + off) (leBytes 4 v.toNat)
    pure (pos, fr)
  | 0x3A => do
    let (off, pos) ← memArg code pos
    let (v, fr) ← pop fr
    let (addr, fr) ← pop fr
    memStore (addr.toNat + off) (leBytes 1 v.toNat)
    pure (pos, fr)
  | 0x3F => do
    let pos ← memIndex code pos
    let w ← Fallible.get
    pure (pos, fr.push (BitVec.ofNat 32 w.vm.memPages))
  | 0x40 => do
    let pos ← memIndex code pos
    let (delta, fr) ← pop fr
    let r ← memGrow delta.toNat
    pure (pos, fr.push r)
  | 0x41 => do
    let (v, pos) ← scan (readSleb code 32) pos
    pure (pos, fr.push (v.setWidth 32))
  | op => do
    let stack ← Fallible.ofOption (numeric op fr.stack)
    pure (pos, { fr with stack := stack })

end Plain

/-! ## Control -/

section Control

variable {σ : Type} (inst : Instance) (host : Host σ)

/-- The signature of a function, imported or defined. -/
def Instance.funcType (fi : Nat) : Option FuncType := do
  let typeIndex ←
    if fi < inst.imports.length then inst.imports[fi]?.map (·.typeIndex)
    else inst.funcTypes[fi - inst.imports.length]?
  inst.types[typeIndex]?

/-- `run_body`, as its callers see it: the code, where the block starts, whether it is a
loop, where to go on, and the frame. -/
abbrev Body (σ : Type) : Type := ByteString → Nat → Bool → Nat → Frame → Interp σ (Stop × Frame)

/-- The zeroed declared locals of a function. -/
def FuncBody.zeroLocals (body : FuncBody) : List I32 :=
  body.locals.flatMap fun group => List.replicate group.1 0

/-- `invoke`, given how to run a body. -/
def invokeWith (self : Body σ) (fi : Nat) (stack : List I32) : Interp σ (List I32) := do
  let ftype ← Fallible.ofOption (inst.funcType fi)
  let nparams := ftype.params.length
  let nresults := ftype.results.length
  if stack.length < nparams then Fallible.fail
  else if fi < inst.imports.length then do
    let results ← callImport host fi (stack.take nparams).reverse
    if results.length ≠ nresults then Fallible.fail
    else pure (results.reverse ++ stack.drop nparams)
  else do
    enter
    let body ← Fallible.ofOption inst.codes[fi - inst.imports.length]?
    let (stop, fr) ← self body.code 0 false 0 ⟨[], (stack.take nparams).reverse ++ body.zeroLocals⟩
    leave
    match stop with
    | .ended _ | .returned =>
      if fr.stack.length < nresults then Fallible.fail
      else pure (fr.stack.take nresults ++ stack.drop nparams)
    | _ => Fallible.fail

/-- A branch to the `l`-th label counted from this block. -/
def branchTo (self : Body σ) (code : ByteString) (start : Nat) (isLoop : Bool) (l : Nat) (fr : Frame) :
    Interp σ (Stop × Frame) :=
  if l = 0 then
    if isLoop then self code start isLoop start fr
    else do
      let pos ← Fallible.ofOption (skipBlockBody code start)
      pure (.ended pos, fr)
  else pure (.branch (l - 1), fr)

/-- What a block does with the way a block inside it ended. -/
def resume (self : Body σ) (code : ByteString) (start : Nat) (isLoop : Bool)
    (onElse : Nat → Option Nat) : Stop × Frame → Interp σ (Stop × Frame)
  | (.ended pos, fr) => self code start isLoop pos fr
  | (.elseAt pos, fr) => do
    let pos ← Fallible.ofOption (onElse pos)
    self code start isLoop pos fr
  | (.returned, fr) => pure (.returned, fr)
  | (.branch n, fr) => branchTo self code start isLoop n fr

/-- The block type byte of `block`, `loop` and `if`. -/
def blockType (code : ByteString) (pos : Nat) : Interp σ Unit :=
  match code[pos]? with
  | none => Fallible.fail
  | some bt => if bt ≠ 0x40 ∧ ValType.fromByte bt = none then Fallible.fail else pure ()

/-- The `match op { .. }` of `run_body`; `pos` is past the opcode. -/
def execute (self : Body σ) (code : ByteString) (start : Nat) (isLoop : Bool) (op pos : Nat) (fr : Frame) :
    Interp σ (Stop × Frame) :=
  match op with
  | 0x00 => Fallible.fail
  | 0x0B => pure (.ended pos, fr)
  | 0x05 => pure (.elseAt pos, fr)
  | 0x0F => pure (.returned, fr)
  | 0x0C => do
    let (l, _) ← scan (readU32 code) pos
    branchTo self code start isLoop l fr
  | 0x0D => do
    let (l, pos) ← scan (readU32 code) pos
    let (c, fr) ← pop fr
    if c ≠ 0 then branchTo self code start isLoop l fr
    else self code start isLoop pos fr
  | 0x02 => do
    blockType code pos
    let r ← self code (pos + 1) false (pos + 1) fr
    resume self code start isLoop (fun _ => none) r
  | 0x03 => do
    blockType code pos
    let r ← self code (pos + 1) true (pos + 1) fr
    resume self code start isLoop (fun _ => none) r
  | 0x04 => do
    blockType code pos
    let (cond, fr) ← pop fr
    if cond ≠ 0 then do
      let r ← self code (pos + 1) false (pos + 1) fr
      resume self code start isLoop (skipBlockBody code) r
    else do
      let (foundElse, p) ← Fallible.ofOption (skipThen code (pos + 1))
      if foundElse then do
        let r ← self code p false p fr
        resume self code start isLoop (fun _ => none) r
      else self code start isLoop p fr
  | 0x10 => do
    let (f, pos) ← scan (readU32 code) pos
    let stack ← invokeWith inst host self f fr.stack
    self code start isLoop pos { fr with stack := stack }
  | op => do
    let (pos, fr) ← plain code op pos fr
    self code start isLoop pos fr

/-- One round of the loop of `run_body`. -/
def round (self : Body σ) : Body σ := fun code start isLoop pos fr => do
  let op ← fetch code pos
  execute inst host self code start isLoop op.toNat (pos + 1) fr

/-- `run_body`, at most `gas` rounds deep. -/
def runBody : Nat → Body σ
  | 0 => fun _ _ _ _ _ => Fallible.fail
  | gas + 1 => round inst host (runBody gas)

/-- `Vm::invoke`. -/
def invoke (gas fi : Nat) (stack : List I32) : Interp σ (List I32) :=
  invokeWith inst host (runBody inst host gas) fi stack

/-- The machine at the start of `call_export`. -/
def Instance.initialVm (fuel : Nat) : Vm := Vm.new inst.initPages inst.maxPages fuel

/-- The function an export names. -/
def Instance.findExport (name : String) : Option Export :=
  inst.exports.find? fun e => e.kind = .func && e.name = name

/-- `call_export`, at most `gas` rounds deep, from the embedder's state `h`. -/
def callExportWith (gas : Nat) (name : String) (args : List I32) (h : σ) (fuel : Nat) :
    Option (List I32) × World σ :=
  (do
    let exported ← Fallible.ofOption (inst.findExport name)
    let ftype ← Fallible.ofOption (inst.funcType exported.index)
    if args.length ≠ ftype.params.length then Fallible.fail
    else do
      let stack ← invoke inst host gas exported.index args.reverse
      if stack.length < ftype.results.length then Fallible.fail
      else pure (stack.take ftype.results.length).reverse : Interp σ (List I32))
    ⟨inst.initialVm fuel, h, []⟩

/-- `call_export`: every round costs fuel, so `fuel` bounds the recursion. -/
def callExport (name : String) (args : List I32) (h : σ) (fuel : Nat) : Option (List I32) × World σ :=
  callExportWith inst host fuel name args h fuel

end Control

end AthenaOS.Wasm
