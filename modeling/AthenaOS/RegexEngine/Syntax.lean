import Mathlib

/-!
# Patterns

The abstract syntax of `components/ath_regex/src/lib.rs` and its parser.
-/

namespace AthenaOS.RegexEngine

/-- `MAX_PROGRAM_LEN`, `MAX_DEPTH` and `MAX_REPEAT`. -/
def maxProgramLen : Nat := 100000
def maxDepth : Nat := 256
def maxRepeat : Nat := 10000

/-- `RegexError`. -/
inductive RegexError where
  | unbalancedParen
  | unbalancedClass
  | badRepetition
  | repetitionOutOfOrder
  | repetitionTooLarge
  | nothingToRepeat
  | badEscape
  | badClassRange
  | nestingTooDeep
  | programTooLarge
  deriving DecidableEq, Repr

/-- `Shorthand`. -/
inductive Shorthand where
  | digit
  | notDigit
  | word
  | notWord
  | space
  | notSpace
  deriving DecidableEq, Repr

/-- `Shorthand::matches`. -/
def Shorthand.matches (sh : Shorthand) (c : Char) : Bool :=
  let isDigit := c.isDigit
  let isWord := c.isAlphanum || c = '_'
  let isSpace := c = ' ' || c = '\t' || c = '\n' || c = '\r' || c = '\x0B' || c = '\x0C'
  match sh with
  | .digit => isDigit
  | .notDigit => !isDigit
  | .word => isWord
  | .notWord => !isWord
  | .space => isSpace
  | .notSpace => !isSpace

/-- `ClassItem`. -/
inductive ClassItem where
  | char (c : Char)
  | range (lo hi : Char)
  | shorthand (sh : Shorthand)
  deriving DecidableEq, Repr

/-- `Ast`. -/
inductive Ast where
  | literal (c : Char)
  | anyChar
  | charClass (negated : Bool) (items : List ClassItem)
  | shorthand (sh : Shorthand)
  | startAnchor
  | endAnchor
  | concat (parts : List Ast)
  | alternate (branches : List Ast)
  | repeated (node : Ast) (min : Nat) (max : Option Nat)
  | group (cap : Option Nat) (node : Ast)
  | empty

/-! ## The parser's state -/

/-- `Parser`: the characters from `pos` on, and the next capture group. Group 0 is the whole match. -/
structure Parser where
  rest : List Char
  nextGroup : Nat
  numbered : 1 ≤ nextGroup

/-- `Parser::new`. -/
def Parser.new (pattern : List Char) : Parser := ⟨pattern, 1, Nat.le_refl 1⟩

/-- Code on a parser that may return an error. -/
abbrev Parse (α : Type) : Type := StateT Parser (Except RegexError) α

/-- `Err(e)`. -/
def fail {α : Type} (e : RegexError) : Parse α := fun _ => .error e

def peek : Parse (Option Char) := fun p => .ok (p.rest.head?, p)

/-- `self.chars.get(self.pos + 1)`. -/
def peekSecond : Parse (Option Char) := fun p => .ok (p.rest[1]?, p)

def bump : Parse (Option Char) := fun p => .ok (p.rest.head?, { p with rest := p.rest.tail })

def eat (c : Char) : Parse Bool := fun p =>
  if p.rest.head? = some c then .ok (true, { p with rest := p.rest.tail }) else .ok (false, p)

/-- `self.next_group`, and the next one after it. -/
def takeGroup : Parse Nat := fun p =>
  .ok (p.nextGroup, { p with nextGroup := p.nextGroup + 1, numbered := Nat.le_add_left 1 _ })

/-! ## Quantifiers -/

/-- The loop of `parse_number`. -/
def numberLoop (digits value : Nat) : List Char → Except RegexError (Nat × Nat × List Char)
  | [] => .ok (digits, value, [])
  | c :: rest =>
    if c.isDigit then
      let value := value * 10 + (c.toNat - '0'.toNat)
      if maxRepeat < value then .error .repetitionTooLarge else numberLoop (digits + 1) value rest
    else .ok (digits, value, c :: rest)

/-- `parse_number`. -/
def parseNumber : Parse Nat := fun p => do
  let (digits, value, rest) ← numberLoop 0 0 p.rest
  if digits = 0 then .error .badRepetition else .ok (value, { p with rest := rest })

/-- `parse_brace`. -/
def parseBrace : Parse (Nat × Option Nat) := do
  let _ ← bump
  let min ← parseNumber
  let max ← (do
    if ← eat ',' then
      if (← peek) = some '\x7d' then pure none
      else do
        let max ← parseNumber
        pure (some max)
    else pure (some min) : Parse (Option Nat))
  if ← eat '\x7d' then pure (min, max) else fail .badRepetition

/-- `check_repeatable`. -/
def checkRepeatable : Ast → Parse Unit
  | .empty | .startAnchor | .endAnchor | .repeated .. => fail .nothingToRepeat
  | _ => pure ()

/-! ## Escapes and classes -/

/-- The characters that `parse_escape` and `parse_class_atom` both take after a backslash. -/
def escapedChar (c : Char) : Option Char :=
  match c with
  | 'n' => some '\n'
  | 'r' => some '\r'
  | 't' => some '\t'
  | 'f' => some '\x0C'
  | 'v' => some '\x0B'
  | '0' => some '\x00'
  | _ => if c ∈ ['.', '*', '+', '?', '(', ')', '[', ']', '\x7b', '\x7d', '|', '^', '$', '\\', '/', '-'] then some c
    else none

/-- The shorthands. -/
def escapedShorthand (c : Char) : Option Shorthand :=
  match c with
  | 'd' => some .digit
  | 'D' => some .notDigit
  | 'w' => some .word
  | 'W' => some .notWord
  | 's' => some .space
  | 'S' => some .notSpace
  | _ => none

/-- `parse_escape`. -/
def parseEscape : Parse Ast := do
  let _ ← bump
  match ← bump with
  | none => fail .badEscape
  | some c =>
    match escapedShorthand c, escapedChar c with
    | some sh, _ => pure (.shorthand sh)
    | none, some c => pure (.literal c)
    | none, none => fail .badEscape

/-- `parse_class_atom`: a character or a shorthand, which are class items too. -/
def parseClassAtom : Parse ClassItem := do
  match ← bump with
  | none => fail .unbalancedClass
  | some '\\' =>
    match ← bump with
    | none => fail .unbalancedClass
    | some c =>
      match escapedShorthand c, escapedChar c with
      | some sh, _ => pure (.shorthand sh)
      | none, some c => pure (.char c)
      | none, none => fail .badEscape
  | some c => pure (.char c)

/-- What a member of a class adds: one item, or those of a range. -/
def parseClassMember : Parse (List ClassItem) := do
  let first ← parseClassAtom
  match first with
  | .char lo =>
    let next ← peekSecond
    if (← peek) = some '-' ∧ next ≠ some ']' ∧ next.isSome then do
      let _ ← bump
      match ← parseClassAtom with
      | .char hi => if hi.toNat < lo.toNat then fail .badClassRange else pure [.range lo hi]
      | second => pure [.char lo, .char '-', second]
    else pure [first]
  | _ => pure [first]

/-- The loop of `parse_class`. -/
def classLoop : Nat → List ClassItem → Parse (List ClassItem)
  | 0, items => pure items
  | rounds + 1, items => do
    let next ← peek
    if next = none then fail .unbalancedClass
    else if next = some ']' then do
      let _ ← bump
      pure items
    else do
      let more ← parseClassMember
      classLoop rounds (items ++ more)

/-- The number of rounds that a loop over the rest of a pattern has. -/
def roundsLeft : Parse Nat := fun p => .ok (p.rest.length + 1, p)

/-- `parse_class`. -/
def parseClass : Parse Ast := do
  let _ ← bump
  let negated ← eat '^'
  let first ← (do if ← eat ']' then pure [.char ']'] else pure [] : Parse (List ClassItem))
  let items ← classLoop (← roundsLeft) first
  pure (.charClass negated items)

/-! ## The grammar -/

/-- `parse_group`; `inner` parses an alternation one level deeper. -/
def parseGroup (inner : Parse Ast) : Parse Ast := do
  let _ ← bump
  let next ← peekSecond
  let cap ← (do
    if (← peek) = some '?' ∧ next = some ':' then do
      let _ ← bump
      let _ ← bump
      pure none
    else do
      let idx ← takeGroup
      pure (some idx) : Parse (Option Nat))
  let node ← inner
  if ← eat ')' then pure (.group cap node) else fail .unbalancedParen

/-- The atom that starts with `c`. -/
def parseAtomAt (inner : Parse Ast) (c : Char) : Parse Ast :=
  if c = '(' then parseGroup inner
  else if c = '[' then parseClass
  else if c = '.' then do
    let _ ← bump
    pure .anyChar
  else if c = '^' then do
    let _ ← bump
    pure .startAnchor
  else if c = '$' then do
    let _ ← bump
    pure .endAnchor
  else if c = '\\' then parseEscape
  else if c = '*' ∨ c = '+' ∨ c = '?' then fail .nothingToRepeat
  else if c = ')' then fail .unbalancedParen
  else do
    let _ ← bump
    pure (.literal c)

/-- `parse_atom`. -/
def parseAtom (inner : Parse Ast) : Parse Ast := do
  match ← peek with
  | none => pure .empty
  | some c => parseAtomAt inner c

/-- A quantifier of one character. -/
def quantify (atom : Ast) (min : Nat) (max : Option Nat) : Parse Ast := do
  let _ ← bump
  checkRepeatable atom
  pure (.repeated atom min max)

/-- `parse_quantified`. -/
def parseQuantified (inner : Parse Ast) : Parse Ast := do
  let atom ← parseAtom inner
  match ← peek with
  | some '*' => quantify atom 0 none
  | some '+' => quantify atom 1 none
  | some '?' => quantify atom 0 (some 1)
  | some '\x7b' => do
    let (min, max) ← parseBrace
    if max.isSome ∧ max.getD 0 < min then fail .repetitionOutOfOrder
    else do
      checkRepeatable atom
      pure (.repeated atom min max)
  | _ => pure atom

/-- The loop of `parse_concat`. -/
def concatLoop (inner : Parse Ast) : Nat → List Ast → Parse (List Ast)
  | 0, parts => pure parts
  | rounds + 1, parts => do
    let next ← peek
    if next = none ∨ next = some '|' ∨ next = some ')' then pure parts
    else do
      let atom ← parseQuantified inner
      concatLoop inner rounds (parts ++ [atom])

/-- `parse_concat`. -/
def parseConcat (inner : Parse Ast) : Parse Ast := do
  let parts ← concatLoop inner (← roundsLeft) []
  match parts with
  | [] => pure .empty
  | [part] => pure part
  | parts => pure (.concat parts)

/-- The loop of `parse_alternation`. -/
def branchLoop (inner : Parse Ast) : Nat → List Ast → Parse (List Ast)
  | 0, branches => pure branches
  | rounds + 1, branches => do
    if ← eat '|' then do
      let branch ← parseConcat inner
      branchLoop inner rounds (branches ++ [branch])
    else pure branches

/-- `parse_alternation`, where `levels` more levels are allowed: `depth > MAX_DEPTH` is no level. -/
def parseAlternation : Nat → Parse Ast
  | 0 => fail .nestingTooDeep
  | levels + 1 => do
    let first ← parseConcat (parseAlternation levels)
    let branches ← branchLoop (parseAlternation levels) (← roundsLeft) [first]
    match branches with
    | [branch] => pure branch
    | branches => pure (.alternate branches)

/-- The parser's part of `Regex::new`: the syntax tree and `n_groups`. -/
def parse (pattern : List Char) : Except RegexError (Ast × Nat) := do
  let (ast, p) ← parseAlternation (maxDepth + 1) (Parser.new pattern)
  if p.rest = [] then .ok (ast, p.nextGroup) else .error .unbalancedParen

end AthenaOS.RegexEngine
