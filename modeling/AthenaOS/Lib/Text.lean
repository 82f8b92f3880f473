import Mathlib

/-!
# Text

White space, signed decimal numbers, and texts split at the occurrences of another.
-/

namespace AthenaOS.Lib.Text

/-- The characters with the White_Space property. -/
def isWhitespace (c : Char) : Bool :=
  let n := c.toNat
  (9 ≤ n && n ≤ 13) || n == 0x20 || n == 0x85 || n == 0xA0 || n == 0x1680 ||
    (0x2000 ≤ n && n ≤ 0x200A) || n == 0x2028 || n == 0x2029 || n == 0x202F || n == 0x205F ||
    n == 0x3000

def trim (s : List Char) : List Char :=
  ((s.dropWhile isWhitespace).reverse.dropWhile isWhitespace).reverse

/-- The number the digits spell; `none` without digits or with another character. -/
def parseDigits (digits : List Char) : Option Nat :=
  if digits.isEmpty || digits.any (!·.isDigit) then none
  else some (digits.foldl (fun n c => n * 10 + (c.toNat - 48)) 0)

/-- A number of `bits` bits and a sign. -/
def parseSigned (bits : Nat) : List Char → Option Int
  | '-' :: digits => do
    let n ← parseDigits digits
    if n ≤ 2 ^ bits then some (-(n : Int)) else none
  | '+' :: digits => do
    let n ← parseDigits digits
    if n < 2 ^ bits then some n else none
  | digits => do
    let n ← parseDigits digits
    if n < 2 ^ bits then some n else none

/-- The parts between the occurrences of a separator that is not empty, from the left. `skip`
counts the characters of an occurrence that are still to be passed over. -/
def splitOn (sep : List Char) : Nat → List Char → List Char → List (List Char)
  | _, part, [] => [part.reverse]
  | skip + 1, part, _ :: s => splitOn sep skip part s
  | 0, part, c :: s =>
    if sep.isPrefixOf (c :: s) then part.reverse :: splitOn sep (sep.length - 1) [] s
    else splitOn sep 0 (c :: part) s

def containsSlice (needle s : List Char) : Bool := s.tails.any needle.isPrefixOf

example : splitOn ", ".toList 0 [] "a, b,c".toList = ["a".toList, "b,c".toList] := by decide

end AthenaOS.Lib.Text
