import AthenaOS.Lib.Results
import AthenaOS.RegexEngine.Syntax

/-!
# What the parser accepts

Capture groups are numbered from 1, an alternation has a branch, and no repetition has a minimum
above its maximum. Where a part of the parser succeeds it has not gone back.
-/

namespace AthenaOS.RegexEngine

open Lib

/-- Capture groups are numbered from 1, an alternation has a branch, and no repetition has a minimum above its maximum. -/
inductive Ast.Wf : Ast → Prop
  | literal (c : Char) : Wf (.literal c)
  | anyChar : Wf .anyChar
  | charClass (negated : Bool) (items : List ClassItem) : Wf (.charClass negated items)
  | shorthand (sh : Shorthand) : Wf (.shorthand sh)
  | startAnchor : Wf .startAnchor
  | endAnchor : Wf .endAnchor
  | concat {parts : List Ast} : (∀ part ∈ parts, Wf part) → Wf (.concat parts)
  | alternate {branches : List Ast} : branches ≠ [] → (∀ branch ∈ branches, Wf branch) → Wf (.alternate branches)
  | repeated {node : Ast} {min : Nat} {max : Option Nat} : Wf node → (∀ m, max = some m → min ≤ m) →
    Wf (.repeated node min max)
  | group {cap : Option Nat} {node : Ast} : (∀ idx, cap = some idx → 1 ≤ idx) → Wf node → Wf (.group cap node)
  | empty : Wf .empty

/-! ## Steps of the parser -/

/-- Where `m` succeeds its result is in `ok` and nothing is read twice; if `strict`, then something is read
unless nothing is left. -/
def Parsed {α : Type} (strict : Bool) (ok : α → Prop) (m : Parse α) : Prop :=
  Gives m fun p a p' => p'.rest.length ≤ p.rest.length ∧
    (strict = true → p.rest ≠ [] → p'.rest.length < p.rest.length) ∧ ok a

namespace Parsed

variable {α β : Type} {strict : Bool} {P : α → Prop} {Q : β → Prop} {m m' : Parse α} {f : α → Parse β}

theorem weaken (h : Parsed strict P m) {R : α → Prop} (hR : ∀ a, P a → R a) : Parsed false R m :=
  h.mono fun _ _ _ h => ⟨h.1, nofun, hR _ h.2.2⟩

theorem pure {a : α} (h : P a) : Parsed false P (Pure.pure a) := Gives.pure fun _ => ⟨Nat.le_refl _, nofun, h⟩

theorem fail {e : RegexError} : Parsed strict P (fail e) := fun _ _ _ h => nomatch h

/-- The first step reads something. -/
theorem bind (hm : Parsed strict P m) (hf : ∀ a, P a → Parsed false Q (f a)) : Parsed strict Q (m >>= f) := by
  intro p b p' hrun
  obtain ⟨a, p₁, h₁, h₂⟩ := run_of_bind hrun
  obtain ⟨hle, hlt, ha⟩ := hm p a p₁ h₁
  obtain ⟨hle', -, hb⟩ := hf a ha p₁ b p' h₂
  exact ⟨Nat.le_trans hle' hle, fun hs hp => Nat.lt_of_le_of_lt hle' (hlt hs hp), hb⟩

theorem ite {c : Prop} [Decidable c] (ht : c → Parsed strict P m) (he : ¬ c → Parsed strict P m') :
    Parsed strict P (if c then m else m') := Gives.ite ht he

end Parsed

theorem parsed_peek : Parsed false (fun _ => True) peek := by
  rintro p _ _ ⟨⟩
  exact ⟨Nat.le_refl _, nofun, trivial⟩

theorem parsed_peekSecond : Parsed false (fun _ => True) peekSecond := by
  rintro p _ _ ⟨⟩
  exact ⟨Nat.le_refl _, nofun, trivial⟩

theorem parsed_roundsLeft : Parsed false (fun _ => True) roundsLeft := by
  rintro p _ _ ⟨⟩
  exact ⟨Nat.le_refl _, nofun, trivial⟩

theorem parsed_takeGroup : Parsed false (1 ≤ ·) takeGroup := by
  rintro p _ _ ⟨⟩
  exact ⟨Nat.le_refl _, nofun, p.numbered⟩

theorem parsed_bump : Parsed true (fun _ => True) bump := by
  rintro p _ _ ⟨⟩
  refine ⟨?_, fun _ hp => ?_, trivial⟩
  · rw [List.length_tail]
    exact Nat.sub_le _ _
  · rw [List.length_tail]
    exact Nat.sub_lt (List.length_pos_iff.mpr hp) Nat.one_pos

theorem parsed_eat (c : Char) : Parsed false (fun _ => True) (eat c) := by
  intro p a p' h
  rw [eat] at h
  split at h
  · obtain ⟨-, rfl⟩ := Prod.mk.inj (Except.ok.inj h)
    exact ⟨by rw [List.length_tail]; exact Nat.sub_le _ _, nofun, trivial⟩
  · obtain ⟨-, rfl⟩ := Prod.mk.inj (Except.ok.inj h)
    exact ⟨Nat.le_refl _, nofun, trivial⟩

/-! ## Quantifiers, escapes and classes -/

theorem numberLoop_length {digits value : Nat} {rest : List Char} {r : Nat × Nat × List Char}
    (h : numberLoop digits value rest = .ok r) : r.2.2.length ≤ rest.length := by
  induction rest generalizing digits value with
  | nil =>
    obtain rfl := Except.ok.inj h
    exact Nat.le_refl _
  | cons c rest ih =>
    rw [numberLoop] at h
    split at h
    · dsimp only at h
      split at h
      · cases h
      · exact Nat.le_succ_of_le (ih h)
    · obtain rfl := Except.ok.inj h
      exact Nat.le_refl _

theorem parsed_parseNumber : Parsed false (fun _ => True) parseNumber := by
  intro p a p' h
  obtain ⟨⟨digits, value, rest⟩, hloop, h⟩ := ok_of_bind h
  dsimp only at h
  split at h
  · cases h
  · obtain ⟨-, rfl⟩ := Prod.mk.inj (Except.ok.inj h)
    exact ⟨numberLoop_length hloop, nofun, trivial⟩

theorem parsed_parseBrace : Parsed true (fun _ => True) parseBrace := by
  refine .bind parsed_bump fun _ _ => ?_
  refine .bind parsed_parseNumber fun _ _ => ?_
  refine .bind (P := fun _ => True) ?_ fun _ _ => ?_
  · refine .bind (parsed_eat ',') fun _ _ => .ite (fun _ => ?_) fun _ => .pure trivial
    refine .bind parsed_peek fun _ _ => .ite (fun _ => .pure trivial) fun _ => ?_
    exact .bind parsed_parseNumber fun _ _ => .pure trivial
  · exact .bind (parsed_eat _) fun _ _ => .ite (fun _ => .pure trivial) fun _ => .fail

theorem parsed_checkRepeatable (atom : Ast) : Parsed false (fun _ => True) (checkRepeatable atom) := by
  unfold checkRepeatable
  split <;> first | exact .fail | exact .pure trivial

theorem parsed_parseEscape : Parsed true Ast.Wf parseEscape := by
  refine .bind parsed_bump fun _ _ => ?_
  refine .bind (parsed_bump.weaken fun _ h => h) fun c _ => ?_
  split
  · exact .fail
  · split
    · exact .pure (.shorthand _)
    · exact .pure (.literal _)
    · exact .fail

theorem parsed_parseClassAtom : Parsed true (fun _ => True) parseClassAtom := by
  refine .bind parsed_bump fun c _ => ?_
  split
  · exact .fail
  · refine .bind (parsed_bump.weaken fun _ h => h) fun c _ => ?_
    split
    · exact .fail
    · split <;> first | exact .fail | exact .pure trivial
  · exact .pure trivial

theorem parsed_parseClassMember : Parsed true (fun _ => True) parseClassMember := by
  refine .bind parsed_parseClassAtom fun first _ => ?_
  split
  · refine .bind parsed_peekSecond fun _ _ => ?_
    refine .bind parsed_peek fun _ _ => .ite (fun _ => ?_) fun _ => .pure trivial
    refine .bind (parsed_bump.weaken fun _ h => h) fun _ _ => ?_
    refine .bind (parsed_parseClassAtom.weaken fun _ h => h) fun second _ => ?_
    split
    · exact .ite (fun _ => .fail) fun _ => .pure trivial
    · exact .pure trivial
  · exact .pure trivial

theorem parsed_classLoop (rounds : Nat) (items : List ClassItem) :
    Parsed false (fun _ => True) (classLoop rounds items) := by
  induction rounds generalizing items with
  | zero => exact .pure trivial
  | succ rounds ih =>
    refine .bind parsed_peek fun next _ => .ite (fun _ => .fail) fun _ => .ite ?_ ?_
    · exact fun _ => .bind (parsed_bump.weaken fun _ h => h) fun _ _ => .pure trivial
    · exact fun _ => .bind (parsed_parseClassMember.weaken fun _ h => h) fun _ _ => ih _

theorem parsed_parseClass : Parsed true Ast.Wf parseClass := by
  refine .bind parsed_bump fun _ _ => ?_
  refine .bind (parsed_eat '^') fun negated _ => ?_
  refine .bind (P := fun _ => True) ?_ fun first _ => ?_
  · exact .bind (parsed_eat ']') fun _ _ =>
      .ite (fun _ => .pure trivial) fun _ => .pure trivial
  · refine .bind parsed_roundsLeft fun _ _ => ?_
    exact .bind (parsed_classLoop _ _) fun _ _ => .pure (.charClass _ _)

/-! ## The grammar -/

section Grammar

variable {inner : Parse Ast}

theorem parsed_parseGroup (hinner : Parsed false Ast.Wf inner) : Parsed true Ast.Wf (parseGroup inner) := by
  refine .bind parsed_bump fun _ _ => ?_
  refine .bind parsed_peekSecond fun _ _ => ?_
  refine .bind (P := fun cap : Option Nat => ∀ idx, cap = some idx → 1 ≤ idx) ?_ fun cap hcap => ?_
  · refine .bind parsed_peek fun _ _ => .ite (fun _ => ?_) fun _ => ?_
    · refine .bind (parsed_bump.weaken fun _ h => h) fun _ _ => ?_
      exact .bind (parsed_bump.weaken fun _ h => h) fun _ _ => .pure nofun
    · refine .bind parsed_takeGroup fun idx hidx => .pure ?_
      rintro _ ⟨⟩
      exact hidx
  · refine .bind hinner fun node hnode => ?_
    exact .bind (parsed_eat ')') fun _ _ =>
      .ite (fun _ => .pure (.group hcap hnode)) fun _ => .fail

theorem parsed_parseAtomAt (hinner : Parsed false Ast.Wf inner) (c : Char) :
    Parsed true Ast.Wf (parseAtomAt inner c) := by
  have hone : ∀ ast : Ast, ast.Wf → Parsed true Ast.Wf (do let _ ← bump; pure ast) := fun ast h =>
    .bind parsed_bump fun _ _ => .pure h
  refine .ite (fun _ => parsed_parseGroup hinner) fun _ => ?_
  refine .ite (fun _ => parsed_parseClass) fun _ => ?_
  refine .ite (fun _ => hone _ .anyChar) fun _ => ?_
  refine .ite (fun _ => hone _ .startAnchor) fun _ => ?_
  refine .ite (fun _ => hone _ .endAnchor) fun _ => ?_
  refine .ite (fun _ => parsed_parseEscape) fun _ => ?_
  refine .ite (fun _ => .fail) fun _ => ?_
  exact .ite (fun _ => .fail) fun _ => hone _ (.literal c)

/-- An atom is read, unless nothing is left. -/
theorem parsed_parseAtom (hinner : Parsed false Ast.Wf inner) : Parsed true Ast.Wf (parseAtom inner) := by
  intro p a p' hrun
  rw [parseAtom, run_bind_ok (m := peek) rfl] at hrun
  rcases hp : p.rest with _ | ⟨c, rest⟩
  · rw [hp] at hrun
    obtain ⟨rfl, rfl⟩ := Prod.mk.inj (Except.ok.inj hrun)
    exact ⟨Nat.le_of_eq (congrArg _ hp), fun _ h => absurd rfl h, .empty⟩
  · rw [hp] at hrun
    rw [← hp]
    exact parsed_parseAtomAt hinner c p a p' hrun

theorem parsed_quantify {atom : Ast} (h : atom.Wf) {min : Nat} {max : Option Nat} (hmax : ∀ m, max = some m → min ≤ m) :
    Parsed false Ast.Wf (quantify atom min max) := by
  refine .bind (parsed_bump.weaken fun _ h => h) fun _ _ => ?_
  exact .bind (parsed_checkRepeatable atom) fun _ _ => .pure (.repeated h hmax)

theorem parsed_parseQuantified (hinner : Parsed false Ast.Wf inner) : Parsed true Ast.Wf (parseQuantified inner) := by
  refine .bind (parsed_parseAtom hinner) fun atom hatom => ?_
  refine .bind parsed_peek fun next _ => ?_
  split
  · exact parsed_quantify hatom nofun
  · exact parsed_quantify hatom nofun
  · exact parsed_quantify hatom (by rintro _ ⟨⟩; exact Nat.zero_le 1)
  · refine .bind (parsed_parseBrace.weaken fun _ h => h) ?_
    rintro ⟨min, max⟩ -
    refine .ite (fun _ => .fail) fun horder => ?_
    refine .bind (parsed_checkRepeatable atom) fun _ _ => .pure (.repeated hatom ?_)
    rintro m rfl
    exact Nat.le_of_not_lt fun hlt => horder ⟨rfl, hlt⟩
  · exact .pure hatom

theorem parsed_concatLoop (hinner : Parsed false Ast.Wf inner) (rounds : Nat) {parts : List Ast}
    (hparts : ∀ part ∈ parts, part.Wf) :
    Parsed false (fun parts => ∀ part ∈ parts, Ast.Wf part) (concatLoop inner rounds parts) := by
  induction rounds generalizing parts with
  | zero => exact .pure hparts
  | succ rounds ih =>
    refine .bind parsed_peek fun _ _ => .ite (fun _ => .pure hparts) fun _ => ?_
    refine .bind ((parsed_parseQuantified hinner).weaken fun _ h => h) fun atom hatom => ih ?_
    simp only [List.mem_append, List.mem_singleton]
    rintro part (hpart | rfl)
    · exact hparts part hpart
    · exact hatom

theorem parsed_parseConcat (hinner : Parsed false Ast.Wf inner) : Parsed false Ast.Wf (parseConcat inner) := by
  refine .bind parsed_roundsLeft fun _ _ => ?_
  refine .bind (parsed_concatLoop hinner _ (by simp)) fun parts hparts => ?_
  split
  · exact .pure .empty
  · exact .pure (hparts _ (by simp))
  · exact .pure (.concat hparts)

theorem parsed_branchLoop (hinner : Parsed false Ast.Wf inner) (rounds : Nat) {branches : List Ast}
    (hne : branches ≠ []) (hbranches : ∀ branch ∈ branches, branch.Wf) :
    Parsed false (fun branches => branches ≠ [] ∧ ∀ branch ∈ branches, Ast.Wf branch)
      (branchLoop inner rounds branches) := by
  induction rounds generalizing branches with
  | zero => exact .pure ⟨hne, hbranches⟩
  | succ rounds ih =>
    refine .bind (parsed_eat '|') fun _ _ => .ite (fun _ => ?_) fun _ => .pure ⟨hne, hbranches⟩
    refine .bind (parsed_parseConcat hinner) fun branch hbranch => ih (by simp) ?_
    simp only [List.mem_append, List.mem_singleton]
    rintro b (hb | rfl)
    · exact hbranches b hb
    · exact hbranch

end Grammar

/-- By induction on the levels that are left. -/
theorem parsed_parseAlternation (levels : Nat) : Parsed false Ast.Wf (parseAlternation levels) := by
  induction levels with
  | zero => exact .fail
  | succ levels ih =>
    refine .bind (parsed_parseConcat ih) fun first hfirst => ?_
    refine .bind parsed_roundsLeft fun _ _ => ?_
    refine .bind (parsed_branchLoop ih _ (by simp) (by simpa using hfirst)) ?_
    rintro branches ⟨hne, hbranches⟩
    split
    · exact .pure (hbranches _ (by simp))
    · exact .pure (.alternate hne hbranches)

/-- **Every parsed pattern is well formed**, and has a group 0. -/
theorem parse_wf {pattern : List Char} {ast : Ast} {nGroups : Nat} (h : parse pattern = .ok (ast, nGroups)) :
    ast.Wf ∧ 1 ≤ nGroups := by
  obtain ⟨⟨ast', p⟩, hparse, h⟩ := ok_of_bind h
  dsimp only at h
  split at h
  · obtain ⟨rfl, rfl⟩ := Prod.mk.inj (Except.ok.inj h)
    exact ⟨(parsed_parseAlternation _ _ _ _ hparse).2.2, p.numbered⟩
  · cases h

end AthenaOS.RegexEngine
