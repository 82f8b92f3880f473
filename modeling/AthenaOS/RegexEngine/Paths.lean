import AthenaOS.RegexEngine.Vm
import AthenaOS.RegexEngine.WellFormed

/-!
# Paths through a program

A program as a graph: its configurations are an instruction and a position in the text, counted in
characters.
-/

namespace AthenaOS.RegexEngine

/-- The instructions that `add_thread` goes on with, in the order in which they are popped. -/
def Inst.succs (inst : Inst) (pc : Nat) (atTextStart atTextEnd : Bool) : List Nat :=
  ((inst.follow pc [] 0 atTextStart atTextEnd).getD []).map (·.1)

theorem Inst.succs_of_follow {inst : Inst} {pc posByte : Nat} {cur : Slots} {atTextStart atTextEnd : Bool}
    {next : List (Nat × Slots)} (h : inst.follow pc cur posByte atTextStart atTextEnd = some next) :
    inst.succs pc atTextStart atTextEnd = next.map (·.1) := by
  cases inst <;> simp only [follow, Option.some.injEq, reduceCtorEq] at h <;> subst h <;>
    simp only [succs, follow, Option.getD_some] <;> (try split) <;> rfl

/-- One instruction. -/
inductive Step (prog : Prog) (text : List Char) : Nat × Nat → Nat × Nat → Prop
  | silent {pc i q : Nat} {inst : Inst} : prog[pc]? = some inst → q ∈ inst.succs pc (i = 0) (i = text.length) →
    Step prog text (pc, i) (q, i)
  | reads {pc i : Nat} {inst : Inst} {c : Char} : prog[pc]? = some inst → text[i]? = some c → inst.reads c = true →
    Step prog text (pc, i) (pc + 1, i + 1)

/-- A run of instructions. -/
abbrev Path (prog : Prog) (text : List Char) : Nat × Nat → Nat × Nat → Prop := Relation.ReflTransGen (Step prog text)

/-! ## Where code jumps -/

/-- An instruction that stays between two addresses and saves no slot of group 0. -/
def Inst.Within (lo hi : Nat) : Inst → Prop
  | .jmp t => lo ≤ t ∧ t ≤ hi
  | .split a b => (lo ≤ a ∧ a ≤ hi) ∧ lo ≤ b ∧ b ≤ hi
  | .save slot => 2 ≤ slot
  | .accept => False
  | _ => True

theorem Inst.Within.mono {lo lo' hi hi' : Nat} {inst : Inst} (h : inst.Within lo hi) (hlo : lo' ≤ lo) (hhi : hi ≤ hi') :
    inst.Within lo' hi' := by
  cases inst with
  | jmp t => exact ⟨Nat.le_trans hlo h.1, Nat.le_trans h.2 hhi⟩
  | split a b => exact ⟨⟨Nat.le_trans hlo h.1.1, Nat.le_trans h.1.2 hhi⟩, Nat.le_trans hlo h.2.1, Nat.le_trans h.2.2 hhi⟩
  | _ => exact h

/-- All of it stays between its ends. -/
def CodeWithin (c : Nat → List Inst) : Prop := ∀ k, ∀ inst ∈ c k, inst.Within k (k + (c k).length)

section Within

variable {c : Nat → List Inst}

theorem CodeWithin.times (h : CodeWithin c) (n : Nat) : CodeWithin (codeTimes c n) := by
  induction n with
  | zero => exact fun _ _ hmem => nomatch hmem
  | succ n ih =>
    intro k inst hmem
    rw [codeTimes] at hmem ⊢
    rw [List.length_append]
    rcases List.mem_append.mp hmem with hmem | hmem
    · exact (h k inst hmem).mono (Nat.le_refl k) (by omega)
    · exact (ih _ inst hmem).mono (by omega) (by omega)

theorem CodeWithin.optional (h : CodeWithin c) {e : Nat} (n k : Nat) (he : k + (codeOptional c e n k).length ≤ e) :
    ∀ inst ∈ codeOptional c e n k, inst.Within k e := by
  induction n generalizing k with
  | zero => exact fun _ hmem => nomatch hmem
  | succ n ih =>
    intro inst hmem
    rw [codeOptional, List.length_cons, List.length_append] at he
    rw [codeOptional, List.mem_cons, List.mem_append] at hmem
    rcases hmem with rfl | hmem | hmem
    · exact ⟨⟨by omega, by omega⟩, by omega, by omega⟩
    · exact (h (k + 1) inst hmem).mono (by omega) (by omega)
    · exact (ih _ (by omega) inst hmem).mono (by omega) (Nat.le_refl e)

theorem codeAll_within {parts : List Ast} (h : ∀ part ∈ parts, CodeWithin (code part)) : CodeWithin (codeAll parts) := by
  induction parts with
  | nil => exact fun _ _ hmem => nomatch hmem
  | cons part parts ih =>
    have hparts := ih fun p hp => h p (List.mem_cons_of_mem _ hp)
    intro k inst hmem
    rw [codeAll] at hmem ⊢
    rw [List.length_append]
    rcases List.mem_append.mp hmem with hmem | hmem
    · exact (h part List.mem_cons_self k inst hmem).mono (Nat.le_refl k) (by omega)
    · exact (hparts _ inst hmem).mono (by omega) (by omega)

theorem codeAlternate_within {bs : List Ast} (h : ∀ b ∈ bs, CodeWithin (code b)) {e k : Nat}
    (he : k + (codeAlternate bs e k).length ≤ e) : ∀ inst ∈ codeAlternate bs e k, inst.Within k e := by
  induction bs generalizing k with
  | nil => exact fun _ hmem => nomatch hmem
  | cons b rest ih =>
    cases rest with
    | nil =>
      intro inst hmem
      rw [codeAlternate] at hmem he
      exact (h b List.mem_cons_self k inst hmem).mono (Nat.le_refl k) he
    | cons b' rest =>
      intro inst hmem
      rw [codeAlternate_cons, List.length_cons, List.length_append, List.length_cons] at he
      rw [codeAlternate_cons, List.mem_cons, List.mem_append, List.mem_cons] at hmem
      rcases hmem with rfl | hmem | rfl | hmem
      · exact ⟨⟨by omega, by omega⟩, by omega, by omega⟩
      · exact (h b List.mem_cons_self (k + 1) inst hmem).mono (by omega) (by omega)
      · exact ⟨by omega, Nat.le_refl e⟩
      · exact (ih (fun b hb => h b (List.mem_cons_of_mem _ hb)) (by omega) inst hmem).mono (by omega) (Nat.le_refl e)

/-- **The code of a syntax tree stays in itself.** -/
theorem code_within {ast : Ast} (h : ast.Wf) : CodeWithin (code ast) := by
  induction h with
  | empty => exact fun _ _ hmem => nomatch hmem
  | literal | anyChar | charClass | shorthand | startAnchor | endAnchor =>
    intro k inst hmem
    rw [code, List.mem_singleton] at hmem
    subst hmem
    exact trivial
  | concat _ ih => exact codeAll_within ih
  | alternate _ _ ih =>
    intro k inst hmem
    rw [code] at hmem ⊢
    rw [length_codeAlternate _ _ 0]
    refine codeAlternate_within ih (Nat.le_of_eq ?_) inst hmem
    rw [length_codeAlternate _ _ 0]
  | @repeated node min max _ _ ih =>
    intro k inst hmem
    have htimes := ih.times min
    cases max with
    | none =>
      simp only [code, List.mem_append, List.mem_cons, List.not_mem_nil, or_false] at hmem
      simp only [code, List.length_append, List.length_cons, List.length_nil]
      rcases hmem with hmem | rfl | hmem | rfl
      · exact (htimes k inst hmem).mono (Nat.le_refl k) (by omega)
      · exact ⟨⟨by omega, by omega⟩, by omega, by omega⟩
      · exact (ih _ inst hmem).mono (by omega) (by omega)
      · exact ⟨by omega, by omega⟩
    | some max =>
      simp only [code, List.mem_append] at hmem
      simp only [code, List.length_append]
      rcases hmem with hmem | hmem
      · exact (htimes k inst hmem).mono (Nat.le_refl k) (by omega)
      · rw [length_codeOptional _ _ 0]
        refine (ih.optional _ _ (Nat.le_of_eq ?_) inst hmem).mono (by omega) (by omega)
        rw [length_codeOptional _ _ 0]
  | @group cap node hcap _ ih =>
    cases cap with
    | none => exact ih
    | some idx =>
      have hidx := hcap idx rfl
      intro k inst hmem
      simp only [code, List.mem_append, List.mem_cons, List.not_mem_nil, or_false] at hmem
      simp only [code, List.length_append, List.length_cons, List.length_nil]
      rcases hmem with rfl | hmem | rfl
      · show 2 ≤ idx * 2
        omega
      · exact (ih (k + 1) inst hmem).mono (by omega) (by omega)
      · show 2 ≤ idx * 2 + 1
        omega

end Within

/-! ## Compiled patterns -/

/-- Where the code of a compiled pattern ends: its `Save(1)`. -/
def Ast.last (ast : Ast) : Nat := 1 + (code ast 1).length

/-- **The instructions of a compiled pattern.** -/
theorem program_inst {ast : Ast} (h : ast.Wf) {pc : Nat} {inst : Inst} (hinst : (program ast)[pc]? = some inst) :
    (pc = 0 ∧ inst = .save 0) ∨ (1 ≤ pc ∧ pc < ast.last ∧ inst.Within 1 ast.last) ∨
      (pc = ast.last ∧ inst = .save 1) ∨ (pc = ast.last + 1 ∧ inst = .accept) := by
  rw [program] at hinst
  cases pc with
  | zero => exact .inl ⟨rfl, (Option.some.inj hinst).symm⟩
  | succ pc =>
    refine .inr ?_
    rw [List.getElem?_cons_succ] at hinst
    rcases Nat.lt_or_ge pc (code ast 1).length with hpc | hpc
    · rw [List.getElem?_append_left hpc] at hinst
      have hwithin := code_within h 1 inst (List.mem_of_getElem? hinst)
      exact .inl ⟨Nat.le_add_left 1 pc, by rw [Ast.last]; omega, hwithin⟩
    · rw [List.getElem?_append_right hpc] at hinst
      obtain ⟨n, hn⟩ : ∃ n, pc - (code ast 1).length = n := ⟨_, rfl⟩
      rw [hn] at hinst
      rcases n with _ | _ | n
      · exact .inr (.inl ⟨by rw [Ast.last]; omega, (Option.some.inj hinst).symm⟩)
      · exact .inr (.inr ⟨by rw [Ast.last]; omega, (Option.some.inj hinst).symm⟩)
      · cases hinst

end AthenaOS.RegexEngine
