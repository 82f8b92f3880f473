import AthenaOS.Json.Parser

/-!
# The JSON grammar

RFC 8259, over the characters of a text. Each rule also says which value its text stands for.
-/

namespace AthenaOS.Json

open Lib Lib.Wire

/-- Whitespace. -/
def IsWs (cs : List Char) : Prop := ∀ c ∈ cs, c = ' ' ∨ c = '\t' ∨ c = '\n' ∨ c = '\r'

/-! ## Numbers -/

/-- `DIGIT`. -/
def Digit (c : Char) : Prop := '0'.toNat ≤ c.toNat ∧ c.toNat ≤ '9'.toNat

instance (c : Char) : Decidable (Digit c) := inferInstanceAs (Decidable (_ ∧ _))

/-- The parts of a number: sign, integer part, fraction, and the mark, sign and digits of the
exponent. -/
structure Lexeme where
  neg : Bool
  int : List Char
  frac : Option (List Char)
  exp : Option (Char × Option Char × List Char)

namespace Lexeme

/-- `int = zero / ( digit1-9 *DIGIT )`. -/
inductive IsInt : List Char → Prop
  | zero : IsInt ['0']
  | digits {c : Char} {cs : List Char} : Digit c → c ≠ '0' → (∀ d ∈ cs, Digit d) → IsInt (c :: cs)

/-- `1*DIGIT`. -/
def IsDigits (cs : List Char) : Prop := cs ≠ [] ∧ ∀ d ∈ cs, Digit d

/-- `number = [ minus ] int [ frac ] [ exp ]`. -/
structure Valid (l : Lexeme) : Prop where
  int : IsInt l.int
  frac : ∀ ds, l.frac = some ds → IsDigits ds
  exp : ∀ mark sign ds, l.exp = some (mark, sign, ds) →
    (mark = 'e' ∨ mark = 'E') ∧ (sign = none ∨ sign = some '+' ∨ sign = some '-') ∧ IsDigits ds

/-- The text of the fraction. -/
def fracChars : Option (List Char) → List Char
  | none => []
  | some ds => '.' :: ds

/-- The text of the exponent. -/
def expChars : Option (Char × Option Char × List Char) → List Char
  | none => []
  | some (mark, sign, ds) => mark :: (sign.toList ++ ds)

/-- The text of a number. -/
def chars (l : Lexeme) : List Char :=
  (if l.neg then ['-'] else []) ++ (l.int ++ (fracChars l.frac ++ expChars l.exp))

/-- The exponent. -/
def exponent : Option (Char × Option Char × List Char) → Int
  | none => 0
  | some (_, sign, ds) =>
    let e := (encode ds).foldl pushExponent 0
    if sign = some '-' then -e else e

variable {F : Type}

/-- The number a lexeme stands for. -/
def value (D : Doubles F) (l : Lexeme) : F :=
  let frac := encode (l.frac.getD [])
  let mantissa := (encode l.int ++ frac).foldl (fun m b => D.pushDigit m (b - ascii '0')) D.zero
  let value := D.scalePow10 mantissa (satI32 (exponent l.exp + wrapI32 (-frac.length)))
  if l.neg then D.neg value else value

end Lexeme

/-! ## Strings -/

/-- `HEXDIG`, in either case. -/
def hexDigitVal (c : Char) : Option Nat :=
  if '0'.toNat ≤ c.toNat ∧ c.toNat ≤ '9'.toNat then some (c.toNat - '0'.toNat)
  else if 'a'.toNat ≤ c.toNat ∧ c.toNat ≤ 'f'.toNat then some (c.toNat - 'a'.toNat + 10)
  else if 'A'.toNat ≤ c.toNat ∧ c.toNat ≤ 'F'.toNat then some (c.toNat - 'A'.toNat + 10)
  else none

/-- Four hexadecimal digits. -/
inductive Hex4 : List Char → Nat → Prop
  | mk {c₁ c₂ c₃ c₄ : Char} {d₁ d₂ d₃ d₄ : Nat} : hexDigitVal c₁ = some d₁ → hexDigitVal c₂ = some d₂ →
    hexDigitVal c₃ = some d₃ → hexDigitVal c₄ = some d₄ →
    Hex4 [c₁, c₂, c₃, c₄] (((d₁ * 16 + d₂) * 16 + d₃) * 16 + d₄)

/-- The escapes of one character, and the character they stand for. -/
inductive Escape : Char → Char → Prop
  | quote : Escape '"' '"'
  | backslash : Escape '\\' '\\'
  | slash : Escape '/' '/'
  | backspace : Escape 'b' '\x08'
  | formFeed : Escape 'f' '\x0C'
  | lineFeed : Escape 'n' '\n'
  | carriageReturn : Escape 'r' '\r'
  | tab : Escape 't' '\t'

/-- One character of a string. -/
inductive Element : List Char → Char → Prop
  | plain {c : Char} : 0x20 ≤ c.toNat → c ≠ '"' → c ≠ '\\' → Element [c] c
  | escape {e c : Char} : Escape e c → Element ['\\', e] c
  | unicode {h : List Char} {u : Nat} : Hex4 h u → ¬ (0xD800 ≤ u ∧ u ≤ 0xDFFF) →
    Element ('\\' :: 'u' :: h) (Char.ofNat u)
  | pair {h l : List Char} {hi lo : Nat} : Hex4 h hi → 0xD800 ≤ hi ∧ hi ≤ 0xDBFF → Hex4 l lo →
    0xDC00 ≤ lo ∧ lo ≤ 0xDFFF →
    Element ('\\' :: 'u' :: (h ++ '\\' :: 'u' :: l))
      (Char.ofNat (0x10000 + (hi - 0xD800) * 1024 + (lo - 0xDC00)))

/-- The inside of a string, and the characters it stands for. -/
inductive Body : List Char → List Char → Prop
  | nil : Body [] []
  | cons {e cs out : List Char} {c : Char} : Element e c → Body cs out → Body (e ++ cs) (c :: out)

/-! ## Values -/

variable {F : Type}

mutual

/-- A value whose arrays and objects nest at most `n` deep. -/
inductive Value (D : Doubles F) : Nat → List Char → Json F → Prop
  | null {n : Nat} : Value D n ['n', 'u', 'l', 'l'] .null
  | true {n : Nat} : Value D n ['t', 'r', 'u', 'e'] (.bool Bool.true)
  | false {n : Nat} : Value D n ['f', 'a', 'l', 's', 'e'] (.bool Bool.false)
  | number {n : Nat} {l : Lexeme} : l.Valid → Value D n l.chars (.number (l.value D))
  | string {n : Nat} {cs out : List Char} : Body cs out →
    Value D n ('"' :: (cs ++ ['"'])) (.string (String.ofList out))
  | emptyArray {n : Nat} {w : List Char} : IsWs w → Value D (n + 1) ('[' :: (w ++ [']'])) (.array [])
  | array {n : Nat} {cs : List Char} {items : List (Json F)} : Items D n cs items →
    Value D (n + 1) ('[' :: (cs ++ [']'])) (.array items)
  | emptyObject {n : Nat} {w : List Char} : IsWs w →
    Value D (n + 1) ('\x7b' :: (w ++ ['\x7d'])) (.object [])
  | object {n : Nat} {cs : List Char} {members : List (String × Json F)} : Members D n cs members →
    Value D (n + 1) ('\x7b' :: (cs ++ ['\x7d'])) (.object members)

/-- One value or more, separated by commas. -/
inductive Items (D : Doubles F) : Nat → List Char → List (Json F) → Prop
  | one {n : Nat} {w₁ w₂ cs : List Char} {v : Json F} : IsWs w₁ → Value D n cs v → IsWs w₂ →
    Items D n (w₁ ++ (cs ++ w₂)) [v]
  | more {n : Nat} {w₁ w₂ cs rest : List Char} {v : Json F} {vs : List (Json F)} : IsWs w₁ →
    Value D n cs v → IsWs w₂ → Items D n rest vs →
    Items D n (w₁ ++ (cs ++ (w₂ ++ ',' :: rest))) (v :: vs)

/-- One member or more. -/
inductive Members (D : Doubles F) : Nat → List Char → List (String × Json F) → Prop
  | one {n : Nat} {w₁ w₂ w₃ w₄ k key cs : List Char} {v : Json F} : IsWs w₁ → Body k key → IsWs w₂ →
    IsWs w₃ → Value D n cs v → IsWs w₄ →
    Members D n (w₁ ++ '"' :: (k ++ '"' :: (w₂ ++ ':' :: (w₃ ++ (cs ++ w₄))))) [(String.ofList key, v)]
  | more {n : Nat} {w₁ w₂ w₃ w₄ k key cs rest : List Char} {v : Json F} {ms : List (String × Json F)} :
    IsWs w₁ → Body k key → IsWs w₂ → IsWs w₃ → Value D n cs v → IsWs w₄ → Members D n rest ms →
    Members D n (w₁ ++ '"' :: (k ++ '"' :: (w₂ ++ ':' :: (w₃ ++ (cs ++ (w₄ ++ ',' :: rest))))))
      ((String.ofList key, v) :: ms)

end

/-- `JSON-text = ws value ws`. -/
inductive Text (D : Doubles F) (n : Nat) : List Char → Json F → Prop
  | mk {w₁ w₂ cs : List Char} {v : Json F} : IsWs w₁ → Value D n cs v → IsWs w₂ →
    Text D n (w₁ ++ (cs ++ w₂)) v

end AthenaOS.Json
