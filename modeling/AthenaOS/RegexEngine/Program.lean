import AthenaOS.Lib.Results
import AthenaOS.RegexEngine.Syntax

/-!
# Programs

`Compiler`: a syntax tree becomes a flat list of instructions. Jumps forward are pushed empty and
patched when their targets are known.
-/

namespace AthenaOS.RegexEngine

open Lib

/-- `Inst`. -/
inductive Inst where
  | char (c : Char)
  | anyChar
  | charClass (negated : Bool) (items : List ClassItem)
  | shorthand (sh : Shorthand)
  | split (a b : Nat)
  | jmp (t : Nat)
  | save (slot : Nat)
  | assertStart
  | assertEnd
  | accept
  deriving DecidableEq, Repr

/-- `prog`. -/
abbrev Prog : Type := List Inst

/-! ## The compiler -/

/-- `push`; the new instruction is at the old length. -/
def push (prog : Prog) (inst : Inst) : Except RegexError Prog :=
  if maxProgramLen ≤ prog.length then .error .programTooLarge else .ok (prog ++ [inst])

/-- `guard_size`. -/
def guardSize (prog : Prog) : Except RegexError Unit :=
  if maxProgramLen ≤ prog.length then .error .programTooLarge else .ok ()

/-- The loop over `jmp_pcs`. -/
def patchJumps (target : Nat) (pcs : List Nat) (prog : Prog) : Prog :=
  pcs.foldl (fun (prog : Prog) pc => prog.set pc (.jmp target)) prog

/-- The loop over `split_pcs`: the second arms. -/
def patchSplits (target : Nat) (pcs : List Nat) (prog : Prog) : Prog :=
  pcs.foldl (fun (prog : Prog) pc =>
    match prog[pc]? with
    | some (Inst.split a _) => prog.set pc (.split a target)
    | _ => prog) prog

/-- The first loop of `emit_repeat`; `node` emits the repeated part. -/
def emitTimes (node : Prog → Except RegexError Prog) : Nat → Prog → Except RegexError Prog
  | 0, prog => .ok prog
  | n + 1, prog => do
    let prog ← node prog
    guardSize prog
    emitTimes node n prog

/-- The loop over the optional copies. -/
def emitOptional (node : Prog → Except RegexError Prog) : Nat → Prog → List Nat → Except RegexError (Prog × List Nat)
  | 0, prog, pcs => .ok (prog, pcs)
  | n + 1, prog, pcs => do
    let sp := prog.length
    let prog ← push prog (.split 0 0)
    let body := prog.length
    let prog ← node prog
    let prog := prog.set sp (.split body 0)
    guardSize prog
    emitOptional node n prog (pcs ++ [sp])

/-- `emit_repeat`. -/
def emitRepeat (node : Prog → Except RegexError Prog) (min : Nat) (max : Option Nat) (prog : Prog) :
    Except RegexError Prog := do
  let prog ← emitTimes node min prog
  match max with
  | none => do
    let l1 := prog.length
    let prog ← push prog (.split 0 0)
    let l2 := prog.length
    let prog ← node prog
    let prog ← push prog (.jmp l1)
    let l3 := prog.length
    .ok (prog.set l1 (.split l2 l3))
  | some max => do
    let (prog, pcs) ← emitOptional node (max - min) prog []
    .ok (patchSplits prog.length pcs prog)

mutual

/-- `emit`. -/
def emit : Ast → Prog → Except RegexError Prog
  | .empty, prog => .ok prog
  | .literal c, prog => push prog (.char c)
  | .anyChar, prog => push prog .anyChar
  | .charClass negated items, prog => push prog (.charClass negated items)
  | .shorthand sh, prog => push prog (.shorthand sh)
  | .startAnchor, prog => push prog .assertStart
  | .endAnchor, prog => push prog .assertEnd
  | .concat parts, prog => emitAll parts prog
  | .alternate branches, prog => do
    let (prog, jmpPcs) ← emitAlternate branches prog []
    .ok (patchJumps prog.length jmpPcs prog)
  | .group (some idx) node, prog => do
    let prog ← push prog (.save (idx * 2))
    let prog ← emit node prog
    push prog (.save (idx * 2 + 1))
  | .group none node, prog => emit node prog
  | .repeated node min max, prog => emitRepeat (emit node) min max prog

def emitAll : List Ast → Prog → Except RegexError Prog
  | [], prog => .ok prog
  | part :: parts, prog => do
    let prog ← emit part prog
    emitAll parts prog

/-- The loop of `emit_alternate`, and the jumps that are to be patched. -/
def emitAlternate : List Ast → Prog → List Nat → Except RegexError (Prog × List Nat)
  | [], prog, jmpPcs => .ok (prog, jmpPcs)
  | [last], prog, jmpPcs => do
    let prog ← emit last prog
    .ok (prog, jmpPcs)
  | branch :: rest, prog, jmpPcs => do
    let splitPc := prog.length
    let prog ← push prog (.split 0 0)
    let lBody := prog.length
    let prog ← emit branch prog
    let jmpPc := prog.length
    let prog ← push prog (.jmp 0)
    let lNext := prog.length
    emitAlternate rest (prog.set splitPc (.split lBody lNext)) (jmpPcs ++ [jmpPc])

end

/-! ## The code of a syntax tree -/

/-- `n` copies, one behind the other, from address `k` on; `node` is the code of one at an address. -/
def codeTimes (node : Nat → List Inst) : Nat → Nat → List Inst
  | 0, _ => []
  | n + 1, k => node k ++ codeTimes node n (k + (node k).length)

/-- `n` copies that may each be the last one. -/
def codeOptional (node : Nat → List Inst) (e : Nat) : Nat → Nat → List Inst
  | 0, _ => []
  | n + 1, k => .split (k + 1) e :: (node (k + 1) ++ codeOptional node e n (k + 1 + (node (k + 1)).length))

mutual

/-- The instructions of a syntax tree at address `k`. -/
def code : Ast → Nat → List Inst
  | .empty, _ => []
  | .literal c, _ => [.char c]
  | .anyChar, _ => [.anyChar]
  | .charClass negated items, _ => [.charClass negated items]
  | .shorthand sh, _ => [.shorthand sh]
  | .startAnchor, _ => [.assertStart]
  | .endAnchor, _ => [.assertEnd]
  | .concat parts, k => codeAll parts k
  | .alternate branches, k => codeAlternate branches (k + (codeAlternate branches 0 k).length) k
  | .group (some idx) node, k => .save (idx * 2) :: (code node (k + 1) ++ [.save (idx * 2 + 1)])
  | .group none node, k => code node k
  | .repeated node min none, k =>
    let head := codeTimes (code node) min k
    let l1 := k + head.length
    let body := code node (l1 + 1)
    head ++ .split (l1 + 1) (l1 + 1 + body.length + 1) :: (body ++ [.jmp l1])
  | .repeated node min (some max), k =>
    let head := codeTimes (code node) min k
    let k' := k + head.length
    head ++ codeOptional (code node) (k' + (codeOptional (code node) 0 (max - min) k').length) (max - min) k'

def codeAll : List Ast → Nat → List Inst
  | [], _ => []
  | part :: parts, k => code part k ++ codeAll parts (k + (code part k).length)

/-- Branches that all go on at `e`. -/
def codeAlternate : List Ast → Nat → Nat → List Inst
  | [], _, _ => []
  | [last], _, k => code last k
  | branch :: rest, e, k =>
    let body := code branch (k + 1)
    .split (k + 1) (k + 1 + body.length + 1) ::
      (body ++ .jmp e :: codeAlternate rest e (k + 1 + body.length + 1))

end

/-! ## The compiler emits the code -/

section Emit

variable {prog prog' : Prog} {inst : Inst} {node : Prog → Except RegexError Prog} {c : Nat → List Inst}

theorem push_eq (h : push prog inst = .ok prog') : prog' = prog ++ [inst] := by
  rw [push] at h
  split at h
  · cases h
  · exact (Except.ok.inj h).symm

/-- `node` emits `c`. -/
def Emits (node : Prog → Except RegexError Prog) (c : Nat → List Inst) : Prop :=
  ∀ prog prog', node prog = .ok prog' → prog' = prog ++ c prog.length

theorem Emits.times (h : Emits node c) (n : Nat) : Emits (emitTimes node n) (codeTimes c n) := by
  induction n with
  | zero =>
    rintro prog _ ⟨⟩
    exact (List.append_nil prog).symm
  | succ n ih =>
    intro prog prog' hemit
    obtain ⟨prog₁, hnode, hemit⟩ := ok_of_bind hemit
    obtain ⟨-, -, hemit⟩ := ok_of_bind hemit
    obtain rfl := h _ _ hnode
    rw [ih _ _ hemit, codeTimes, List.append_assoc, List.length_append]

theorem length_codeOptional (c : Nat → List Inst) (e e' n k : Nat) :
    (codeOptional c e n k).length = (codeOptional c e' n k).length := by
  induction n generalizing k with
  | zero => rfl
  | succ n ih => simp only [codeOptional, List.length_cons, List.length_append, ih]

/-- A placeholder behind `prog`, once the code behind it has been emitted. -/
theorem set_append_cons {k : Nat} (hk : prog.length = k) (inst inst' : Inst) (rest : List Inst) :
    (prog ++ inst :: rest).set k inst' = prog ++ inst' :: rest := by
  rw [← hk, List.set_append_right _ _ (Nat.le_refl _), Nat.sub_self, List.set_cons_zero]

/-- The optional copies, and what patching them gives. -/
theorem Emits.optional (h : Emits node c) (n : Nat) {pcs : List Nat} {r : Prog × List Nat}
    (hemit : emitOptional node n prog pcs = .ok r) :
    r.1 = prog ++ codeOptional c 0 n prog.length ∧ ∃ new, r.2 = pcs ++ new ∧ ∀ e P, P.length = prog.length →
      patchSplits e new (P ++ codeOptional c 0 n prog.length) = P ++ codeOptional c e n prog.length := by
  induction n generalizing prog pcs with
  | zero =>
    obtain rfl := Except.ok.inj hemit
    exact ⟨(List.append_nil prog).symm, [], (List.append_nil pcs).symm, fun _ _ _ => rfl⟩
  | succ n ih =>
    obtain ⟨prog₁, hpush, hemit⟩ := ok_of_bind hemit
    obtain rfl := push_eq hpush
    obtain ⟨prog₂, hnode, hemit⟩ := ok_of_bind hemit
    obtain rfl := h _ _ hnode
    obtain ⟨-, -, hemit⟩ := ok_of_bind hemit
    rw [List.length_append, List.length_singleton, List.append_assoc, List.singleton_append, set_append_cons rfl] at hemit
    obtain ⟨hprog, new, hpcs, hpatch⟩ := ih hemit
    have hlen : (prog ++ Inst.split (prog.length + 1) 0 :: c (prog.length + 1)).length =
        prog.length + 1 + (c (prog.length + 1)).length := by
      rw [List.length_append, List.length_cons]
      omega
    rw [hlen] at hprog hpatch
    refine ⟨?_, prog.length :: new, ?_, fun e P hP => ?_⟩
    · rw [hprog, codeOptional, List.append_assoc, List.cons_append]
    · rw [hpcs, List.append_assoc, List.singleton_append]
    · rw [codeOptional, codeOptional, patchSplits, List.foldl_cons]
      have hget : (P ++ Inst.split (prog.length + 1) 0 :: (c (prog.length + 1) ++
          codeOptional c 0 n (prog.length + 1 + (c (prog.length + 1)).length)))[prog.length]? =
          some (.split (prog.length + 1) 0) := by
        rw [← hP, List.getElem?_append_right (Nat.le_refl _), Nat.sub_self, List.getElem?_cons_zero]
      rw [hget]
      dsimp only
      rw [set_append_cons hP, ← List.cons_append, ← List.append_assoc]
      refine (hpatch e _ ?_).trans ?_
      · rw [List.length_append, List.length_cons, hP]
        omega
      · rw [List.append_assoc, List.cons_append]

theorem Emits.repeat {ast : Ast} (h : Emits (emit ast) (code ast)) (min : Nat) (max : Option Nat) :
    Emits (emitRepeat (emit ast) min max) (code (.repeated ast min max)) := by
  intro prog prog' hemit
  obtain ⟨prog₁, htimes, hemit⟩ := ok_of_bind hemit
  have hprog₁ := h.times min _ _ htimes
  cases max with
  | none =>
    obtain ⟨prog₂, hpush, hemit⟩ := ok_of_bind hemit
    obtain rfl := push_eq hpush
    obtain ⟨prog₃, hnode, hemit⟩ := ok_of_bind hemit
    obtain rfl := h _ _ hnode
    obtain ⟨prog₄, hjmp, hemit⟩ := ok_of_bind hemit
    obtain rfl := push_eq hjmp
    obtain rfl := Except.ok.inj hemit
    simp only [List.append_assoc, List.cons_append, List.nil_append, List.length_append, List.length_cons,
      List.length_nil, Nat.zero_add]
    rw [set_append_cons rfl, hprog₁]
    simp only [code, List.append_assoc, List.length_append]
    congr 4
    omega
  | some max =>
    obtain ⟨⟨prog₂, pcs⟩, hopt, hemit⟩ := ok_of_bind hemit
    obtain rfl := Except.ok.inj hemit
    obtain ⟨hprog, new, hpcs, hpatch⟩ := h.optional _ hopt
    obtain rfl : prog₂ = _ := hprog
    obtain rfl : pcs = new := hpcs
    rw [hpatch _ _ rfl, hprog₁]
    simp only [code, List.length_append, List.append_assoc, Nat.add_assoc]

theorem codeAlternate_cons (b b' : Ast) (rest : List Ast) (e k : Nat) :
    codeAlternate (b :: b' :: rest) e k = .split (k + 1) (k + 1 + (code b (k + 1)).length + 1) ::
      (code b (k + 1) ++ .jmp e :: codeAlternate (b' :: rest) e (k + 1 + (code b (k + 1)).length + 1)) := by
  rw [codeAlternate]
  exact List.cons_ne_nil b' rest

theorem length_codeAlternate (bs : List Ast) (e e' k : Nat) :
    (codeAlternate bs e k).length = (codeAlternate bs e' k).length := by
  induction bs generalizing k with
  | nil => rfl
  | cons b rest ih =>
    cases rest with
    | nil => rfl
    | cons b' rest => simp only [codeAlternate, List.length_cons, List.length_append, ih]

mutual

/-- **What the compiler appends** is the code of the syntax tree at the end of the program. -/
theorem emit_eq : ∀ (ast : Ast), Emits (emit ast) (code ast)
  | .empty => fun prog prog' h => by
    obtain rfl := Except.ok.inj h
    exact (List.append_nil prog).symm
  | .literal _ | .anyChar | .charClass .. | .shorthand _ | .startAnchor | .endAnchor => fun _ _ h => push_eq h
  | .concat parts => emitAll_eq parts
  | .alternate branches => fun prog prog' h => by
    obtain ⟨⟨prog₁, pcs⟩, halt, h⟩ := ok_of_bind h
    obtain rfl := Except.ok.inj h
    obtain ⟨hprog, new, hpcs, hpatch⟩ := emitAlternate_eq branches halt
    obtain rfl : prog₁ = _ := hprog
    obtain rfl : pcs = new := hpcs
    rw [hpatch _ _ rfl, List.length_append, code]
  | .group (some idx) node => fun prog prog' h => by
    obtain ⟨prog₁, hpush, h⟩ := ok_of_bind h
    obtain rfl := push_eq hpush
    obtain ⟨prog₂, hnode, h⟩ := ok_of_bind h
    obtain rfl := emit_eq node _ _ hnode
    rw [push_eq h, code, List.length_append, List.length_singleton, List.append_assoc, List.append_assoc,
      List.singleton_append]
  | .group none node => fun prog prog' h => emit_eq node prog prog' h
  | .repeated node min max => (emit_eq node).repeat min max

theorem emitAll_eq : ∀ (parts : List Ast), Emits (emitAll parts) (codeAll parts)
  | [] => fun prog prog' h => by
    obtain rfl := Except.ok.inj h
    exact (List.append_nil prog).symm
  | part :: parts => fun prog prog' h => by
    obtain ⟨prog₁, hpart, h⟩ := ok_of_bind h
    obtain rfl := emit_eq part _ _ hpart
    rw [emitAll_eq parts _ _ h, codeAll, List.append_assoc, List.length_append]

theorem emitAlternate_eq : ∀ (bs : List Ast) {prog : Prog} {pcs : List Nat} {r : Prog × List Nat},
    emitAlternate bs prog pcs = .ok r →
    r.1 = prog ++ codeAlternate bs 0 prog.length ∧ ∃ new, r.2 = pcs ++ new ∧ ∀ e P, P.length = prog.length →
      patchJumps e new (P ++ codeAlternate bs 0 prog.length) = P ++ codeAlternate bs e prog.length
  | [], prog, pcs, r, h => by
    obtain rfl := Except.ok.inj h
    exact ⟨(List.append_nil prog).symm, [], (List.append_nil pcs).symm, fun _ _ _ => rfl⟩
  | [last], prog, pcs, r, h => by
    obtain ⟨prog₁, hlast, h⟩ := ok_of_bind h
    obtain rfl := Except.ok.inj h
    exact ⟨emit_eq last _ _ hlast, [], (List.append_nil pcs).symm, fun _ _ _ => rfl⟩
  | b :: b' :: rest, prog, pcs, r, h => by
    obtain ⟨prog₁, hsplit, h⟩ := ok_of_bind h
    obtain rfl := push_eq hsplit
    obtain ⟨prog₂, hb, h⟩ := ok_of_bind h
    obtain rfl := emit_eq b _ _ hb
    obtain ⟨prog₃, hjmp, h⟩ := ok_of_bind h
    obtain rfl := push_eq hjmp
    obtain ⟨hprog, new, hpcs, hpatch⟩ := emitAlternate_eq (b' :: rest) h
    simp only [List.append_assoc, List.cons_append, List.nil_append, List.length_set, List.length_append,
      List.length_cons, List.length_nil, Nat.zero_add] at hprog hpcs hpatch
    rw [set_append_cons rfl] at hprog
    obtain ⟨body, hbody⟩ : ∃ body, code b (prog.length + 1) = body := ⟨_, rfl⟩
    have hnext : prog.length + (body.length + 1 + 1) = prog.length + 1 + body.length + 1 := by omega
    have hjmp : prog.length + (body.length + 1) = prog.length + 1 + body.length := by omega
    rw [hbody, hnext] at hprog hpatch
    rw [hbody, hjmp] at hpcs
    refine ⟨?_, _, hpcs, fun e P hP => ?_⟩
    · rw [hprog, codeAlternate_cons b, hbody, List.append_assoc, List.cons_append, List.append_assoc, List.singleton_append]
    · have hP' : (P ++ Inst.split (prog.length + 1) (prog.length + 1 + body.length + 1) :: body).length =
          prog.length + 1 + body.length := by
        rw [List.length_append, List.length_cons, hP]
        omega
      rw [codeAlternate_cons b, codeAlternate_cons b, hbody, patchJumps, List.foldl_cons, ← List.cons_append, ← List.append_assoc,
        set_append_cons hP']
      refine Eq.trans ?_ ((hpatch e (P ++ Inst.split (prog.length + 1) (prog.length + 1 + body.length + 1) ::
        (body ++ [Inst.jmp e])) ?_).trans ?_)
      · rw [patchJumps, List.append_assoc, List.append_assoc, List.cons_append, List.cons_append, List.append_assoc,
          List.singleton_append]
      · rw [List.length_append, List.length_cons, List.length_append, List.length_singleton, hP]
        omega
      · rw [List.append_assoc, List.cons_append, List.append_assoc, List.singleton_append]

end

end Emit

/-! ## Compiled patterns -/

/-- `Regex`. -/
structure Regex where
  prog : Prog
  nSlots : Nat
  nGroups : Nat
  deriving DecidableEq

/-- `Regex::new`. -/
def Regex.new (pattern : List Char) : Except RegexError Regex := do
  let (ast, nGroups) ← parse pattern
  let prog ← push [] (.save 0)
  let prog ← emit ast prog
  let prog ← push prog (.save 1)
  let prog ← push prog .accept
  .ok ⟨prog, max (nGroups * 2) 2, nGroups⟩

/-- The program of a syntax tree. -/
def program (ast : Ast) : Prog := .save 0 :: (code ast 1 ++ [.save 1, .accept])

/-- **A compiled pattern** is the program of its syntax tree. -/
theorem Regex.new_eq {pattern : List Char} {re : Regex} (h : Regex.new pattern = .ok re) :
    ∃ ast nGroups, parse pattern = .ok (ast, nGroups) ∧ re = ⟨program ast, max (nGroups * 2) 2, nGroups⟩ := by
  obtain ⟨⟨ast, nGroups⟩, hparse, h⟩ := ok_of_bind h
  obtain ⟨prog₁, hsave, h⟩ := ok_of_bind h
  obtain rfl := push_eq hsave
  obtain ⟨prog₂, hemit, h⟩ := ok_of_bind h
  obtain rfl := emit_eq ast _ _ hemit
  obtain ⟨prog₃, hsave', h⟩ := ok_of_bind h
  obtain rfl := push_eq hsave'
  obtain ⟨prog₄, haccept, h⟩ := ok_of_bind h
  obtain rfl := push_eq haccept
  refine ⟨ast, nGroups, hparse, (Except.ok.inj h).symm.trans ?_⟩
  rw [program, List.append_assoc _ [Inst.save 1]]
  rfl

example : (Regex.new "a|b".toList).map (·.prog) =
    .ok [.save 0, .split 2 4, .char 'a', .jmp 5, .char 'b', .save 1, .accept] := by decide

end AthenaOS.RegexEngine
