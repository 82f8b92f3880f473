import AthenaOS.Lib.Offsets
import AthenaOS.RegexEngine.Program

/-!
# The Pike VM

`captures_from` and what is built on it: all threads of the program are run in lock-step over the text.
A slot that was never saved is `none`, `usize::MAX` in the source.

- `Regex.capturesFrom`: the search from a byte of the text. `none` is a panic (the start is inside a
  character).
-/

namespace AthenaOS.RegexEngine

open Lib Lib.Offsets

/-! ## Threads -/

/-- The capture slots. -/
abbrev Slots : Type := List (Option Nat)

/-- `Thread`. -/
structure Thread where
  pc : Nat
  slots : Slots
  deriving DecidableEq

/-- `class_matches`. -/
def classMatches (negated : Bool) (items : List ClassItem) (c : Char) : Bool :=
  let hit := items.any fun item =>
    match item with
    | .char ch => ch = c
    | .range lo hi => lo.toNat ≤ c.toNat && c.toNat ≤ hi.toNat
    | .shorthand sh => sh.matches c
  hit != negated

/-- Whether an instruction reads the character. -/
def Inst.reads (inst : Inst) (c : Char) : Bool :=
  match inst with
  | .char expected => c = expected
  | .anyChar => c ≠ '\n'
  | .charClass negated items => classMatches negated items c
  | .shorthand sh => sh.matches c
  | _ => false

/-- What `add_thread` pushes for the instruction at `pc`, the entry that is popped first in front; `none`
when the thread is added to the list. -/
def Inst.follow (inst : Inst) (pc : Nat) (cur : Slots) (posByte : Nat) (atTextStart atTextEnd : Bool) :
    Option (List (Nat × Slots)) :=
  match inst with
  | .jmp t => some [(t, cur)]
  | .split a b => some [(a, cur), (b, cur)]
  | .save slot => some [(pc + 1, cur.set slot (some posByte))]
  | .assertStart => some (if atTextStart then [(pc + 1, cur)] else [])
  | .assertEnd => some (if atTextEnd then [(pc + 1, cur)] else [])
  | _ => none

theorem Inst.length_follow {inst : Inst} {pc posByte : Nat} {cur : Slots} {atTextStart atTextEnd : Bool}
    {next : List (Nat × Slots)} (h : inst.follow pc cur posByte atTextStart atTextEnd = some next) :
    next.length ≤ 2 := by
  cases inst <;> simp only [Inst.follow, Option.some.injEq, reduceCtorEq] at h <;> subst h <;> try split
  all_goals simp

/-- `seen_gen`. -/
abbrev Seen : Type := List (BitVec 32)

/-- Marking an entry leaves fewer to mark. -/
theorem countP_set_lt {seen : Seen} {gen stamp : BitVec 32} {pc : Nat} (h : seen[pc]? = some stamp)
    (hne : stamp ≠ gen) : (seen.set pc gen).countP (· ≠ gen) < seen.countP (· ≠ gen) := by
  obtain ⟨hlt, hget⟩ := List.getElem?_eq_some_iff.mp h
  have hpos : 0 < seen.countP (· ≠ gen) :=
    List.countP_pos_iff.mpr ⟨stamp, List.mem_of_getElem? h, by simpa using hne⟩
  rw [List.countP_set hlt, hget, if_pos (decide_eq_true hne), if_neg (by simp)]
  omega

/-- `add_thread`: the loop over its stack. -/
def addThread (prog : Prog) (gen : BitVec 32) (posByte : Nat) (atTextStart atTextEnd : Bool) :
    List (Nat × Slots) → Seen → List Thread → Seen × List Thread
  | [], seen, list => (seen, list)
  | (pc, cur) :: stack, seen, list =>
    match prog[pc]?, _hseen : seen[pc]? with
    | some inst, some stamp =>
      if _hgen : stamp = gen then addThread prog gen posByte atTextStart atTextEnd stack seen list
      else
        match _hfollow : inst.follow pc cur posByte atTextStart atTextEnd with
        | some next => addThread prog gen posByte atTextStart atTextEnd (next ++ stack) (seen.set pc gen) list
        | none => addThread prog gen posByte atTextStart atTextEnd stack (seen.set pc gen) (list ++ [⟨pc, cur⟩])
    | _, _ => addThread prog gen posByte atTextStart atTextEnd stack seen list
termination_by stack seen => 2 * seen.countP (· ≠ gen) + stack.length
decreasing_by
  · simp
  · have hless := countP_set_lt _hseen _hgen
    have hnext := Inst.length_follow _hfollow
    simp only [List.length_append, List.length_cons]
    omega
  · have hless := countP_set_lt _hseen _hgen
    simp only [List.length_cons]
    omega
  · simp

section AddThread

variable {prog : Prog} {gen stamp : BitVec 32} {posByte pc : Nat} {s e : Bool} {cur : Slots} {inst : Inst}
  {stack : List (Nat × Slots)} {seen : Seen} {list : List Thread}

@[simp] theorem addThread_nil : addThread prog gen posByte s e [] seen list = (seen, list) := by rw [addThread]

/-- An entry that is marked already. -/
theorem addThread_seen (hinst : prog[pc]? = some inst) (hseen : seen[pc]? = some gen) :
    addThread prog gen posByte s e ((pc, cur) :: stack) seen list = addThread prog gen posByte s e stack seen list := by
  rw [addThread]
  split
  · next hinst' hseen' =>
    obtain rfl := Option.some.inj (hseen.symm.trans hseen')
    rw [dif_pos rfl]
  · next h => exact absurd hseen (h _ _ hinst)

/-- An instruction that reads nothing. -/
theorem addThread_follow (hinst : prog[pc]? = some inst) (hseen : seen[pc]? = some stamp) (hne : stamp ≠ gen)
    {next : List (Nat × Slots)} (hfollow : inst.follow pc cur posByte s e = some next) :
    addThread prog gen posByte s e ((pc, cur) :: stack) seen list =
      addThread prog gen posByte s e (next ++ stack) (seen.set pc gen) list := by
  rw [addThread]
  split
  · next hinst' hseen' =>
    obtain rfl := Option.some.inj (hseen.symm.trans hseen')
    obtain rfl := Option.some.inj (hinst.symm.trans hinst')
    rw [dif_neg hne]
    split
    · next hfollow' =>
      obtain rfl := Option.some.inj (hfollow.symm.trans hfollow')
      rfl
    · next hfollow' => exact nomatch hfollow.symm.trans hfollow'
  · next h => exact absurd hseen (h _ _ hinst)

/-- An instruction that waits for a character, and `Match`. -/
theorem addThread_waits (hinst : prog[pc]? = some inst) (hseen : seen[pc]? = some stamp) (hne : stamp ≠ gen)
    (hfollow : inst.follow pc cur posByte s e = none) :
    addThread prog gen posByte s e ((pc, cur) :: stack) seen list =
      addThread prog gen posByte s e stack (seen.set pc gen) (list ++ [⟨pc, cur⟩]) := by
  rw [addThread]
  split
  · next hinst' hseen' =>
    obtain rfl := Option.some.inj (hseen.symm.trans hseen')
    obtain rfl := Option.some.inj (hinst.symm.trans hinst')
    rw [dif_neg hne]
    split
    · next hfollow' => exact nomatch hfollow.symm.trans hfollow'
    · rfl
  · next h => exact absurd hseen (h _ _ hinst)

/-- An entry outside the program. -/
theorem addThread_skip (h : ∀ inst stamp, prog[pc]? = some inst → seen[pc]? = some stamp → False) :
    addThread prog gen posByte s e ((pc, cur) :: stack) seen list = addThread prog gen posByte s e stack seen list := by
  rw [addThread]
  split
  · next hinst hseen => exact (h _ _ hinst hseen).elim
  · rfl

end AddThread

/-! ## The search -/

/-- The threads of one position over the next character, if there is one; up to one that accepts. -/
def advance (prog : Prog) (gen : BitVec 32) (ch : Option Char) (nextByte : Nat) (nextEnd : Bool) :
    List Thread → Seen → List Thread → Seen × List Thread × Option Slots
  | [], seen, nlist => (seen, nlist, none)
  | t :: clist, seen, nlist =>
    match prog[t.pc]? with
    | some .accept => (seen, nlist, some t.slots)
    | some inst =>
      if ch.any inst.reads then
        let (seen, nlist) := addThread prog gen nextByte false nextEnd [(t.pc + 1, t.slots)] seen nlist
        advance prog gen ch nextByte nextEnd clist seen nlist
      else advance prog gen ch nextByte nextEnd clist seen nlist
    | none => advance prog gen ch nextByte nextEnd clist seen nlist

/-- The locals of `captures_from`. -/
structure Search where
  clist : List Thread
  seen : Seen
  gen : BitVec 32
  matched : Option Slots

/-- The byte at which the rest of the steps starts. -/
def byteAt (len : Nat) : List (Char × Nat) → Nat
  | [] => len
  | (_, byte) :: _ => byte

/-- The new thread of a position and its closure, while nothing has matched. -/
def Search.seed (re : Regex) (len : Nat) (atTextStart : Bool) (steps : List (Char × Nat)) (s : Search) :
    Seen × List Thread :=
  if s.matched.isNone then
    addThread re.prog (s.gen + 1) (byteAt len steps) atTextStart steps.isEmpty [(0, List.replicate re.nSlots none)]
      s.seen s.clist
  else (s.seen, s.clist)

/-- One position of the text: `steps` are left from here on. -/
def Search.round (re : Regex) (len : Nat) (atTextStart : Bool) (steps : List (Char × Nat)) (s : Search) : Search :=
  let seeded := s.seed re len atTextStart steps
  let nextGen := s.gen + 1 + 1
  let stepped := advance re.prog nextGen (steps.head?.map (·.1)) (byteAt len steps.tail) steps.tail.isEmpty
    seeded.2 seeded.1 []
  { clist := stepped.2.1, seen := stepped.1, gen := nextGen, matched := stepped.2.2.or s.matched }

/-- All positions from here on. -/
def Search.run (re : Regex) (len : Nat) : Bool → List (Char × Nat) → Search → Search
  | atTextStart, [], s => s.round re len atTextStart []
  | atTextStart, step :: steps, s => Search.run re len false steps (s.round re len atTextStart (step :: steps))

/-- `Match`. -/
structure Match where
  first : Nat
  last : Nat
  deriving DecidableEq, Repr

/-- `Captures`. -/
abbrev Captures : Type := List (Option Match)

/-- `slots_to_captures`. -/
def Regex.slotsToCaptures (re : Regex) (slots : Slots) : Captures :=
  (List.range re.nGroups).map fun g =>
    match slots[g * 2]?.join, slots[g * 2 + 1]?.join with
    | some s, some e => if s ≤ e then some ⟨s, e⟩ else none
    | _, _ => none

/-- `char_indices`, from byte `start` on. -/
def charIndices (start : Nat) : List Char → List (Char × Nat)
  | [] => []
  | c :: s => (c, start) :: charIndices (start + c.utf8Size) s

/-- The search before the first position. -/
def Search.init (re : Regex) : Search := ⟨[], List.replicate re.prog.length 0, 0, none⟩

/-- `captures_from`. -/
def Regex.capturesFrom (re : Regex) (text : List Char) (startByte : Nat) : Option (Option Captures) := do
  let sub ← sliceFrom text startByte
  let s := Search.run re (byteLen text) (startByte = 0) (charIndices startByte sub) (Search.init re)
  some (s.matched.map re.slotsToCaptures)

/-- `caps.spans[0]` of the captures from a byte on. -/
def Regex.matchFrom (re : Regex) (text : List Char) (startByte : Nat) : Option (Option Match) := do
  let caps ← re.capturesFrom text startByte
  some (caps.bind fun caps => caps[0]?.join)

/-! ## All matches -/

/-- `next_char_boundary`. -/
def nextCharBoundary (text : List Char) (byte : Nat) : Nat :=
  if byteLen text ≤ byte then byteLen text else go (byte + 1)
where
  /-- The loop. -/
  go (b : Nat) : Nat :=
    if b < byteLen text ∧ !isCharBoundary text b then go (b + 1) else b
  termination_by byteLen text - b

/-- The loop of `find_all`; `none` when it panics or is not done after `rounds` rounds. -/
def findAllLoop (re : Regex) (text : List Char) : Nat → Nat → List Match → Option (List Match)
  | 0, _, _ => none
  | rounds + 1, start, out =>
    if byteLen text < start then some out
    else do
      let found ← re.matchFrom text start
      match found with
      | none => some out
      | some m =>
        let out := out ++ [m]
        if start < m.last then findAllLoop re text rounds m.last out
        else
          let start := nextCharBoundary text m.last
          if start ≤ m.last ∧ byteLen text ≤ m.last then some out else findAllLoop re text rounds start out

/-- `find_all`. -/
def Regex.findAll (re : Regex) (text : List Char) : Option (List Match) :=
  findAllLoop re text (byteLen text + 2) 0 []

/-- `expand_repl`: what it appends, or a panic. -/
def expandRepl (caps : Captures) (text : List Char) : List Char → Option (List Char)
  | [] => some []
  | '$' :: next :: repl =>
    if next = '$' then (expandRepl caps text repl).map ('$' :: ·)
    else if next.isDigit then do
      let group ← (match caps[next.toNat - '0'.toNat]?.join with
        | some m => slice text m.first m.last
        | none => some [])
      let rest ← expandRepl caps text repl
      some (group ++ rest)
    else (expandRepl caps text (next :: repl)).map ('$' :: ·)
  | c :: repl => (expandRepl caps text repl).map (c :: ·)

/-- The loop of `replace_all`. -/
def replaceAllLoop (re : Regex) (text repl : List Char) : Nat → Nat → Nat → List Char → Option (List Char)
  | 0, _, _, _ => none
  | rounds + 1, start, last, out =>
    let done := (sliceFrom text last).map (out ++ ·)
    if byteLen text < start then done
    else do
      let found ← re.capturesFrom text start
      match found with
      | none => done
      | some caps =>
        match caps[0]?.join with
        | none => done
        | some m => do
          let gap ← slice text last m.first
          let new ← expandRepl caps text repl
          let out := out ++ gap ++ new
          if start < m.last then replaceAllLoop re text repl rounds m.last m.last out
          else if byteLen text ≤ m.last then (sliceFrom text m.last).map (out ++ ·)
          else replaceAllLoop re text repl rounds (nextCharBoundary text m.last) m.last out

/-- `replace_all`. -/
def Regex.replaceAll (re : Regex) (text repl : List Char) : Option (List Char) :=
  replaceAllLoop re text repl (byteLen text + 2) 0 0 []

end AthenaOS.RegexEngine
