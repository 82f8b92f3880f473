import AthenaOS.Lib.Decoder
import AthenaOS.Lib.Utf8

/-!
# The JSON parser and serializer

`components/ath_json/src/lib.rs`: recursive descent over the bytes of a text, and the writer.
-/

namespace AthenaOS

/-- A JSON value over the numbers `F`; members keep their order. -/
inductive Json (F : Type) where
  | null
  | bool (b : Bool)
  | number (n : F)
  | string (s : String)
  | array (items : List (Json F))
  | object (members : List (String × Json F))

namespace Json

open Lib Lib.Wire

/-- `MAX_DEPTH`. -/
def maxDepth : Nat := 256

/-- The operations on `f64`: `0.0`, `m * 10.0 + d`, `scale_pow10`, negation, `write_number`. -/
structure Doubles (F : Type) where
  zero : F
  pushDigit : F → UInt8 → F
  scalePow10 : F → Int → F
  neg : F → F
  write : F → String

inductive JsonError where
  | empty | unexpected | unterminated | badEscape | loneSurrogate | badNumber | controlChar
  | depthExceeded | trailingData
  deriving DecidableEq

/-- A parser; the state is what is left of the bytes. -/
abbrev Parser (α : Type) : Type := Decoder ByteString JsonError α

/-- Return an error unless `c` holds. -/
def ensure (c : Bool) (e : JsonError) : Parser Unit := if c then pure () else throw e

/-- `Some(a)` or an error. -/
def okOr {α : Type} (o : Option α) (e : JsonError) : Parser α :=
  match o with
  | some a => pure a
  | none => throw e

variable {F : Type}

/-! ## Leaves -/

def peek : Parser (Option UInt8) := fun data => .ok (data.head?, data)

def bump : Parser (Option UInt8) := fun data => .ok (data.head?, data.tail)

/-- A byte, or an error at the end. -/
def next (e : JsonError) : Parser UInt8
  | [] => .error e
  | b :: rest => .ok (b, rest)

/-- `if self.bump() != Some(b)`, return an error. -/
def expectByte (b : UInt8) (e : JsonError) : Parser Unit := do
  ensure ((← bump) = some b) e

/-- `self.pos += k`. -/
def advance (k : Nat) : Parser Unit := fun data => .ok ((), data.drop k)

def isWs (b : UInt8) : Bool := b == ascii ' ' || b == ascii '\t' || b == ascii '\n' || b == ascii '\r'

def skipWs : Parser Unit := fun data => .ok ((), data.dropWhile isWs)

def expectLiteral (lit : ByteString) : Parser Unit := fun data =>
  if data.length < lit.length then .error .unexpected
  else if data.take lit.length ≠ lit then .error .unexpected
  else .ok ((), data.drop lit.length)

/-! ## Strings -/

def hexVal (b : UInt8) : Option Nat :=
  if ascii '0' ≤ b ∧ b ≤ ascii '9' then some (b.toNat - '0'.toNat)
  else if ascii 'a' ≤ b ∧ b ≤ ascii 'f' then some (b.toNat - 'a'.toNat + 10)
  else if ascii 'A' ≤ b ∧ b ≤ ascii 'F' then some (b.toNat - 'A'.toNat + 10)
  else none

/-- One digit of `read_hex4`; the value stays below 2^16. -/
def readHex (v : Nat) : Parser Nat := do
  let b ← next .badEscape
  let d ← okOr (hexVal b) .badEscape
  return v * 16 + d

def readHex4 : Parser Nat := do
  let v ← readHex 0
  let v ← readHex v
  let v ← readHex v
  readHex v

/-- `char::from_u32`. -/
def charFromU32 (n : Nat) : Option Char := if n.isValidChar then some (Char.ofNat n) else none

def parseUnicodeEscape (out : String) : Parser String := do
  let hi ← readHex4
  if 0xD800 ≤ hi ∧ hi ≤ 0xDBFF then
    expectByte (ascii '\\') .loneSurrogate
    expectByte (ascii 'u') .loneSurrogate
    let lo ← readHex4
    ensure (0xDC00 ≤ lo ∧ lo ≤ 0xDFFF) .loneSurrogate
    let scalar := 0x10000 + (hi - 0xD800) * 1024 + (lo - 0xDC00)
    let c ← okOr (charFromU32 scalar) .loneSurrogate
    return out.push c
  else if 0xDC00 ≤ hi ∧ hi ≤ 0xDFFF then throw .loneSurrogate
  else
    let c ← okOr (charFromU32 hi) .badEscape
    return out.push c

/-- The escapes of one character. -/
def simpleEscape (b : UInt8) : Option Char :=
  if b = ascii '"' then some '"'
  else if b = ascii '\\' then some '\\'
  else if b = ascii '/' then some '/'
  else if b = ascii 'b' then some '\x08'
  else if b = ascii 'f' then some '\x0C'
  else if b = ascii 'n' then some '\n'
  else if b = ascii 'r' then some '\r'
  else if b = ascii 't' then some '\t'
  else none

def parseEscape (out : String) : Parser String := do
  let b ← next .unterminated
  if b = ascii 'u' then parseUnicodeEscape out
  else
    let c ← okOr (simpleEscape b) .badEscape
    return out.push c

def utf8Len (lead : UInt8) : Nat :=
  if lead < 0x80 then 1
  else if lead &&& 0xE0 = 0xC0 then 2
  else if lead &&& 0xF0 = 0xE0 then 3
  else if lead &&& 0xF8 = 0xF0 then 4
  else 0

/-- A UTF-8 sequence after its lead byte `b` is taken over as it is. -/
def copySequence (b : UInt8) (out : String) : Parser String := fun data =>
  if utf8Len b = 0 ∨ data.length < utf8Len b - 1 then .error .unexpected
  else
    match ofUtf8? (b :: data.take (utf8Len b - 1)) with
    | some s => .ok (out ++ s, data.drop (utf8Len b - 1))
    | none => .error .unexpected

/-- One round of `parse_string`: go on with more output, or end at the closing quote. -/
def stringRound (out : String) : Parser (String ⊕ String) := do
  let b ← next .unterminated
  if b = ascii '"' then return .inr out
  else if b = ascii '\\' then return .inl (← parseEscape out)
  else if b < 0x20 then throw .controlChar
  else if b < 0x80 then return .inl (out.push (Char.ofNat b.toNat))
  else return .inl (← copySequence b out)

section Progress

open Decoder

/-- A byte that must be there is taken. -/
theorem next_eq_ok {e : JsonError} {data rest : ByteString} {b : UInt8} (h : next e data = .ok (b, rest)) :
    data = b :: rest := by
  cases data with
  | nil => exact nomatch h
  | cons b' data =>
    obtain ⟨rfl, rfl⟩ := Prod.mk.inj (Except.ok.inj h)
    rfl

theorem consumes_next (e : JsonError) : Consumes List.length 1 (next e) := by
  intro data b rest h
  rw [next_eq_ok h]
  exact Nat.le_refl _

theorem consumes_bump : Consumes List.length 0 bump := by
  intro data b rest h
  obtain ⟨-, rfl⟩ := Prod.mk.inj (Except.ok.inj h)
  rw [List.length_tail]
  omega

theorem consumes_peek : Consumes List.length 0 peek := by
  intro data b rest h
  obtain ⟨-, rfl⟩ := Prod.mk.inj (Except.ok.inj h)
  exact Nat.le_refl _

theorem consumes_advance (k : Nat) : Consumes List.length 0 (advance k) := by
  intro data b rest h
  obtain ⟨-, rfl⟩ := Prod.mk.inj (Except.ok.inj h)
  rw [List.length_drop]
  omega

theorem consumes_skipWs : Consumes List.length 0 skipWs := by
  intro data b rest h
  obtain ⟨-, rfl⟩ := Prod.mk.inj (Except.ok.inj h)
  exact (List.dropWhile_suffix _).length_le

theorem consumes_expectLiteral (lit : ByteString) : Consumes List.length 0 (expectLiteral lit) := by
  intro data b rest h
  rw [expectLiteral] at h
  split at h
  · exact nomatch h
  split at h
  · exact nomatch h
  · obtain ⟨-, rfl⟩ := Prod.mk.inj (Except.ok.inj h)
    rw [List.length_drop]
    omega

theorem consumes_ensure (c : Bool) (e : JsonError) : Consumes List.length 0 (ensure c e) :=
  .ite (.pure _) (.throw _ 0)

theorem consumes_expectByte (b : UInt8) (e : JsonError) : Consumes List.length 0 (expectByte b e) :=
  consumes_bump.bind_left fun _ => consumes_ensure _ _

theorem consumes_okOr {α : Type} (o : Option α) (e : JsonError) : Consumes List.length 0 (okOr o e) := by
  cases o with
  | none => exact .throw _ 0
  | some a => exact .pure a

theorem consumes_readHex (v : Nat) : Consumes List.length 0 (readHex v) :=
  ((consumes_next _).mono (Nat.zero_le _)).bind_left fun _ =>
    (consumes_okOr _ _).bind_left fun _ => .pure _

theorem consumes_readHex4 : Consumes List.length 0 readHex4 :=
  (consumes_readHex 0).bind_left fun _ => (consumes_readHex _).bind_left fun _ =>
    (consumes_readHex _).bind_left fun _ => consumes_readHex _

theorem consumes_parseUnicodeEscape (out : String) : Consumes List.length 0 (parseUnicodeEscape out) := by
  refine consumes_readHex4.bind_left fun hi => .ite ?_ (.ite (.throw _ 0) ?_)
  · refine (consumes_expectByte _ _).bind_left fun _ => ?_
    refine (consumes_expectByte _ _).bind_left fun _ => ?_
    refine consumes_readHex4.bind_left fun _ => (consumes_ensure _ _).bind_left fun _ => ?_
    exact (consumes_okOr _ _).bind_left fun _ => .pure _
  · exact (consumes_okOr _ _).bind_left fun _ => .pure _

theorem consumes_parseEscape (out : String) : Consumes List.length 0 (parseEscape out) := by
  refine ((consumes_next _).mono (Nat.zero_le _)).bind_left fun _ => ?_
  exact .ite (consumes_parseUnicodeEscape out) ((consumes_okOr _ _).bind_left fun _ => .pure _)

theorem consumes_copySequence (b : UInt8) (out : String) : Consumes List.length 0 (copySequence b out) := by
  intro data s rest h
  rw [copySequence] at h
  split at h
  · exact nomatch h
  split at h
  · obtain ⟨-, rfl⟩ := Prod.mk.inj (Except.ok.inj h)
    rw [List.length_drop]
    omega
  · exact nomatch h

theorem consumes_stringRound (out : String) : Consumes List.length 1 (stringRound out) := by
  refine (consumes_next _).bind_left fun b => ?_
  refine .ite (.pure _) (.ite ?_ (.ite (.throw _ 0) (.ite (.pure _) ?_)))
  · exact (consumes_parseEscape out).bind_left fun _ => .pure _
  · exact (consumes_copySequence b out).bind_left fun _ => .pure _

theorem progresses_stringRound : Progresses List.length stringRound := .of_consumes consumes_stringRound

end Progress

def parseString : Parser String := do
  expectByte (ascii '"') .unexpected
  Decoder.loop List.length stringRound progresses_stringRound ""

/-! ## Numbers -/

def isDigit (b : UInt8) : Bool := ascii '0' ≤ b && b ≤ ascii '9'

/-- `while let Some(b'0'..=b'9') = self.peek()`. -/
def digits : Parser ByteString := fun data => .ok (data.takeWhile isDigit, data.dropWhile isDigit)

/-- The same, with at least one digit. -/
def someDigits : Parser ByteString := do
  ensure ((← peek).any isDigit) .badNumber
  digits

/-- `i32` wraps around. -/
def wrapI32 (n : Int) : Int := (n + 2 ^ 31) % 2 ^ 32 - 2 ^ 31

/-- `i32` saturates. -/
def satI32 (n : Int) : Int := max (-2 ^ 31) (min n (2 ^ 31 - 1))

/-- The digits of the integer part. -/
def parseIntPart : Parser ByteString := do
  let b ← next .badNumber
  if b = ascii '0' then
    ensure (!(← peek).any isDigit) .badNumber
    return [b]
  else
    ensure (isDigit b) .badNumber
    return b :: (← digits)

/-- The digits after the point, if there is one. -/
def parseFraction : Parser ByteString := do
  if (← peek) = some (ascii '.') then
    advance 1
    someDigits
  else return []

/-- `e = e.saturating_mul(10).saturating_add(d)`. -/
def pushExponent (e : Int) (b : UInt8) : Int := satI32 (satI32 (e * 10) + (b - ascii '0').toNat)

/-- The sign of the exponent. -/
def parseExponentSign : Parser Bool := do
  let sign ← peek
  if sign = some (ascii '+') then
    advance 1
    return false
  else if sign = some (ascii '-') then
    advance 1
    return true
  else return false

def parseExponent : Parser Int := do
  let mark ← peek
  if mark = some (ascii 'e') ∨ mark = some (ascii 'E') then
    advance 1
    let expNeg ← parseExponentSign
    let e := (← someDigits).foldl pushExponent 0
    return if expNeg then -e else e
  else return 0

/-- The sign of the number. -/
def parseSign : Parser Bool := do
  if (← peek) = some (ascii '-') then
    advance 1
    return true
  else return false

def parseNumber (D : Doubles F) : Parser (Json F) := do
  let neg ← parseSign
  let int ← parseIntPart
  let frac ← parseFraction
  let exp ← parseExponent
  let mantissa := (int ++ frac).foldl (fun m b => D.pushDigit m (b - ascii '0')) D.zero
  let fracExp := wrapI32 (-frac.length)
  let value := D.scalePow10 mantissa (satI32 (exp + fracExp))
  return .number (if neg then D.neg value else value)

/-! ## Values -/

/-- A parser that gives nothing back. -/
structure Forward (α : Type) where
  run : Parser α
  consumes : Decoder.Consumes List.length 0 run

/-- One round of the loop of `parse_array`. -/
def arrayRound (value : Parser (Json F)) (items : List (Json F)) :
    Parser (List (Json F) ⊕ List (Json F)) := do
  let val ← value
  skipWs
  let b ← next .unterminated
  if b = ascii ',' then return .inl (items ++ [val])
  else if b = ascii ']' then return .inr (items ++ [val])
  else throw .unexpected

/-- One round of the loop of `parse_object`. -/
def objectRound (value : Parser (Json F)) (members : List (String × Json F)) :
    Parser (List (String × Json F) ⊕ List (String × Json F)) := do
  skipWs
  let first ← peek
  ensure first.isSome .unterminated
  ensure (first = some (ascii '"')) .unexpected
  let key ← parseString
  skipWs
  expectByte (ascii ':') .unexpected
  let val ← value
  skipWs
  let b ← next .unterminated
  if b = ascii ',' then return .inl (members ++ [(key, val)])
  else if b = ascii '\x7d' then return .inr (members ++ [(key, val)])
  else throw .unexpected

section Progress

open Decoder

theorem consumes_parseString : Consumes List.length 0 parseString := by
  refine (consumes_expectByte _ _).bind_left fun _ => ?_
  exact .loop (fun out => (consumes_stringRound out).mono (Nat.zero_le _)) ""

variable {value : Parser (Json F)}

theorem consumes_arrayRound (hvalue : Consumes List.length 0 value) (items : List (Json F)) :
    Consumes List.length 1 (arrayRound value items) := by
  refine hvalue.bind_right fun val => consumes_skipWs.bind_right fun _ => ?_
  exact (consumes_next _).bind_left fun b => .ite (.pure _) (.ite (.pure _) (.throw _ 0))

theorem progresses_arrayRound (hvalue : Consumes List.length 0 value) :
    Progresses List.length (arrayRound value) := .of_consumes (consumes_arrayRound hvalue)

theorem consumes_objectRound (hvalue : Consumes List.length 0 value)
    (members : List (String × Json F)) : Consumes List.length 1 (objectRound value members) := by
  refine consumes_skipWs.bind_right fun _ => ?_
  refine consumes_peek.bind_right fun _ => (consumes_ensure _ _).bind_right fun _ => ?_
  refine (consumes_ensure _ _).bind_right fun _ => consumes_parseString.bind_right fun _ => ?_
  refine consumes_skipWs.bind_right fun _ => (consumes_expectByte _ _).bind_right fun _ => ?_
  refine hvalue.bind_right fun _ => ?_
  refine consumes_skipWs.bind_right fun _ => (consumes_next _).bind_left fun _ => ?_
  exact .ite (.pure _) (.ite (.pure _) (.throw _ 0))

theorem progresses_objectRound (hvalue : Consumes List.length 0 value) :
    Progresses List.length (objectRound value) := .of_consumes (consumes_objectRound hvalue)

end Progress

def parseArray (depth : Nat) (value : Forward (Json F)) : Parser (Json F) := do
  ensure (depth < maxDepth) .depthExceeded
  advance 1
  skipWs
  if (← peek) = some (ascii ']') then
    advance 1
    return .array []
  else
    let items ← Decoder.loop List.length (arrayRound value.run) (progresses_arrayRound value.consumes) []
    return .array items

def parseObject (depth : Nat) (value : Forward (Json F)) : Parser (Json F) := do
  ensure (depth < maxDepth) .depthExceeded
  advance 1
  skipWs
  if (← peek) = some (ascii '\x7d') then
    advance 1
    return .object []
  else
    let members ← Decoder.loop List.length (objectRound value.run) (progresses_objectRound value.consumes) []
    return .object members

/-- The kinds of values, by their first byte. -/
def parseKind (D : Doubles F) (depth : Nat) (value : Forward (Json F)) (first : Option UInt8) :
    Parser (Json F) :=
  if first = some (ascii '\x7b') then parseObject depth value
  else if first = some (ascii '[') then parseArray depth value
  else if first = some (ascii '"') then do
    return .string (← parseString)
  else if first = some (ascii 't') then do
    expectLiteral (utf8 "true")
    return .bool true
  else if first = some (ascii 'f') then do
    expectLiteral (utf8 "false")
    return .bool false
  else if first = some (ascii 'n') then do
    expectLiteral (utf8 "null")
    return .null
  else if first = some (ascii '-') ∨ first.any isDigit then parseNumber D
  else throw .unexpected

/-- `parse_value` at `depth`, with `value` for the values one level down. -/
def parseValueWith (D : Doubles F) (depth : Nat) (value : Forward (Json F)) : Parser (Json F) := do
  ensure (depth ≤ maxDepth) .depthExceeded
  skipWs
  parseKind D depth value (← peek)

section Progress

open Decoder

theorem consumes_digits : Consumes List.length 0 digits := by
  intro data b rest h
  obtain ⟨-, rfl⟩ := Prod.mk.inj (Except.ok.inj h)
  exact (List.dropWhile_suffix _).length_le

theorem consumes_someDigits : Consumes List.length 0 someDigits :=
  consumes_peek.bind_left fun _ => (consumes_ensure _ _).bind_left fun _ => consumes_digits

theorem consumes_parseIntPart : Consumes List.length 0 parseIntPart := by
  refine ((consumes_next _).mono (Nat.zero_le _)).bind_left fun b => .ite ?_ ?_
  · exact consumes_peek.bind_left fun _ => (consumes_ensure _ _).bind_left fun _ => .pure _
  · exact (consumes_ensure _ _).bind_left fun _ => consumes_digits.bind_left fun _ => .pure _

theorem consumes_parseFraction : Consumes List.length 0 parseFraction := by
  refine consumes_peek.bind_left fun _ => .ite ?_ (.pure _)
  exact (consumes_advance 1).bind_left fun _ => consumes_someDigits

theorem consumes_parseExponentSign : Consumes List.length 0 parseExponentSign := by
  refine consumes_peek.bind_left fun _ => .ite ?_ (.ite ?_ (.pure _))
  · exact (consumes_advance 1).bind_left fun _ => .pure _
  · exact (consumes_advance 1).bind_left fun _ => .pure _

theorem consumes_parseExponent : Consumes List.length 0 parseExponent := by
  refine consumes_peek.bind_left fun _ => .ite ?_ (.pure _)
  refine (consumes_advance 1).bind_left fun _ => consumes_parseExponentSign.bind_left fun _ => ?_
  exact consumes_someDigits.bind_left fun _ => .pure _

theorem consumes_parseSign : Consumes List.length 0 parseSign := by
  refine consumes_peek.bind_left fun _ => .ite ?_ (.pure _)
  exact (consumes_advance 1).bind_left fun _ => .pure _

theorem consumes_parseNumber (D : Doubles F) : Consumes List.length 0 (parseNumber D) := by
  refine consumes_parseSign.bind_left fun _ => consumes_parseIntPart.bind_left fun _ => ?_
  exact consumes_parseFraction.bind_left fun _ => consumes_parseExponent.bind_left fun _ => .pure _

theorem consumes_parseArray (depth : Nat) (value : Forward (Json F)) :
    Consumes List.length 0 (parseArray depth value) := by
  refine (consumes_ensure _ _).bind_left fun _ => (consumes_advance 1).bind_left fun _ => ?_
  refine consumes_skipWs.bind_left fun _ => consumes_peek.bind_left fun _ => .ite ?_ ?_
  · exact (consumes_advance 1).bind_left fun _ => .pure _
  · refine Consumes.bind_left (.loop (fun items => ?_) []) fun _ => .pure _
    exact (consumes_arrayRound value.consumes items).mono (Nat.zero_le _)

theorem consumes_parseObject (depth : Nat) (value : Forward (Json F)) :
    Consumes List.length 0 (parseObject depth value) := by
  refine (consumes_ensure _ _).bind_left fun _ => (consumes_advance 1).bind_left fun _ => ?_
  refine consumes_skipWs.bind_left fun _ => consumes_peek.bind_left fun _ => .ite ?_ ?_
  · exact (consumes_advance 1).bind_left fun _ => .pure _
  · refine Consumes.bind_left (.loop (fun members => ?_) []) fun _ => .pure _
    exact (consumes_objectRound value.consumes members).mono (Nat.zero_le _)

theorem consumes_parseValueWith (D : Doubles F) (depth : Nat) (value : Forward (Json F)) :
    Consumes List.length 0 (parseValueWith D depth value) := by
  refine (consumes_ensure _ _).bind_left fun _ => consumes_skipWs.bind_left fun _ => ?_
  refine consumes_peek.bind_left fun _ => .ite (consumes_parseObject depth value) ?_
  refine .ite (consumes_parseArray depth value) (.ite ?_ (.ite ?_ (.ite ?_ (.ite ?_ (.ite ?_ (.throw _ 0))))))
  · exact consumes_parseString.bind_left fun _ => .pure _
  · exact (consumes_expectLiteral _).bind_left fun _ => .pure _
  · exact (consumes_expectLiteral _).bind_left fun _ => .pure _
  · exact (consumes_expectLiteral _).bind_left fun _ => .pure _
  · exact consumes_parseNumber D

end Progress

/-- Values with `levels - 1` levels of nesting below the limit. -/
def parseValueAt (D : Doubles F) : Nat → Forward (Json F)
  | 0 => ⟨throw .depthExceeded, .throw _ 0⟩
  | levels + 1 =>
    ⟨parseValueWith D (maxDepth - levels) (parseValueAt D levels), consumes_parseValueWith D _ _⟩

/-- `parse_value`. -/
def parseValue (D : Doubles F) (depth : Nat) : Parser (Json F) :=
  (parseValueAt D (maxDepth + 1 - depth)).run

/-- `parse`. -/
def parse (D : Doubles F) (input : String) : Except JsonError (Json F) :=
  let parser : Parser (Json F) := do
    skipWs
    ensure (← peek).isSome .empty
    let value ← parseValue D 0
    skipWs
    ensure (← peek).isNone .trailingData
    return value
  (parser (utf8 input)).map Prod.fst

/-! ## The serializer -/

def hexDigit (v : Nat) : Char := if v < 10 then Char.ofNat ('0'.toNat + v) else Char.ofNat ('a'.toNat + (v - 10))

/-- One character of `write_escaped_string`. -/
def escapeChar (c : Char) : String :=
  if c = '"' then "\\\""
  else if c = '\\' then "\\\\"
  else if c = '\x08' then "\\b"
  else if c = '\x0C' then "\\f"
  else if c = '\n' then "\\n"
  else if c = '\r' then "\\r"
  else if c = '\t' then "\\t"
  else if c.toNat < 0x20 then
    "\\u00" ++ String.singleton (hexDigit (c.toNat / 16 % 16)) ++ String.singleton (hexDigit (c.toNat % 16))
  else String.singleton c

/-- The characters of a string, escaped. -/
def escapeChars : List Char → String
  | [] => ""
  | c :: cs => escapeChar c ++ escapeChars cs

def writeEscapedString (s : String) : String := "\"" ++ escapeChars s.toList ++ "\""

mutual

/-- `write_value`. -/
def writeValue (D : Doubles F) : Json F → String
  | .null => "null"
  | .bool true => "true"
  | .bool false => "false"
  | .number n => D.write n
  | .string s => writeEscapedString s
  | .array items => "[" ++ writeItems D true items ++ "]"
  | .object members => "\x7b" ++ writeMembers D true members ++ "\x7d"

/-- The items of an array; `first` before the first of them. -/
def writeItems (D : Doubles F) : Bool → List (Json F) → String
  | _, [] => ""
  | first, item :: items => (if first then "" else ",") ++ writeValue D item ++ writeItems D false items

/-- The members of an object. -/
def writeMembers (D : Doubles F) : Bool → List (String × Json F) → String
  | _, [] => ""
  | first, (k, v) :: members =>
    (if first then "" else ",") ++ writeEscapedString k ++ ":" ++ writeValue D v ++ writeMembers D false members

end

/-- `to_string`. -/
def toString (D : Doubles F) (value : Json F) : String := writeValue D value

end Json

end AthenaOS
