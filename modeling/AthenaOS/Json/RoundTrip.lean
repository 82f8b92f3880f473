import AthenaOS.Json.Recognition

/-!
# Writing and parsing back

What is written for a value is derived by the grammar, with that value, so parsing undoes writing.
-/

namespace AthenaOS.Json

open Lib Lib.Wire

variable {F : Type} {D : Doubles F}

/-! ## Values -/

mutual

/-- How deep arrays and objects nest. -/
def nesting : Json F → Nat
  | .array items => nestingItems items + 1
  | .object members => nestingMembers members + 1
  | _ => 0

/-- The deepest of the items. -/
def nestingItems : List (Json F) → Nat
  | [] => 0
  | item :: items => max (nesting item) (nestingItems items)

/-- The deepest of the members. -/
def nestingMembers : List (String × Json F) → Nat
  | [] => 0
  | (_, v) :: members => max (nesting v) (nestingMembers members)

end

mutual

/-- No number is in the value. -/
def NumberFree : Json F → Prop
  | .number _ => False
  | .array items => NumberFreeItems items
  | .object members => NumberFreeMembers members
  | _ => True

/-- No number is in the items. -/
def NumberFreeItems : List (Json F) → Prop
  | [] => True
  | item :: items => NumberFree item ∧ NumberFreeItems items

/-- No number is in the members. -/
def NumberFreeMembers : List (String × Json F) → Prop
  | [] => True
  | (_, v) :: members => NumberFree v ∧ NumberFreeMembers members

end

/-! ## Strings -/

/-- A hexadecimal digit is read back. -/
theorem hexDigitVal_hexDigit : ∀ v < 16, hexDigitVal (hexDigit v) = some v := by decide

/-- A control character is written with two digits. -/
theorem element_control {c : Char} (h : c.toNat < 0x20) :
    Element ['\\', 'u', '0', '0', hexDigit (c.toNat / 16 % 16), hexDigit (c.toNat % 16)] c := by
  have hzero : hexDigitVal '0' = some 0 := rfl
  have hhex : Hex4 ['0', '0', hexDigit (c.toNat / 16 % 16), hexDigit (c.toNat % 16)] _ :=
    .mk hzero hzero (hexDigitVal_hexDigit _ (Nat.mod_lt _ (by decide)))
      (hexDigitVal_hexDigit _ (Nat.mod_lt _ (by decide)))
  have hval : ((0 * 16 + 0) * 16 + c.toNat / 16 % 16) * 16 + c.toNat % 16 = c.toNat := by omega
  rw [hval] at hhex
  have helement := Element.unicode hhex (by omega)
  rwa [Char.ofNat_toNat] at helement

/-- **The escape of a character stands for it.** -/
theorem element_escapeChar (c : Char) : Element (escapeChar c).toList c := by
  rw [escapeChar]
  split
  · next h => exact h ▸ .escape .quote
  split
  · next h => exact h ▸ .escape .backslash
  split
  · next h => exact h ▸ .escape .backspace
  split
  · next h => exact h ▸ .escape .formFeed
  split
  · next h => exact h ▸ .escape .lineFeed
  split
  · next h => exact h ▸ .escape .carriageReturn
  split
  · next h => exact h ▸ .escape .tab
  split
  · next h =>
    rw [String.toList_append, String.toList_append, String.toList_singleton, String.toList_singleton]
    exact element_control h
  · next hquote hbackslash _ _ _ _ _ hcontrol =>
    rw [String.toList_singleton]
    exact .plain (Nat.le_of_not_lt hcontrol) hquote hbackslash

theorem body_escapeChars (cs : List Char) : Body (escapeChars cs).toList cs := by
  induction cs with
  | nil => exact .nil
  | cons c cs ih =>
    rw [escapeChars, String.toList_append]
    exact .cons (element_escapeChar c) ih

theorem toList_writeEscapedString (s : String) :
    (writeEscapedString s).toList = '"' :: ((escapeChars s.toList).toList ++ ['"']) := by
  rw [writeEscapedString, String.toList_append, String.toList_append]
  rfl

/-! ## Values are written by the grammar -/

/-- After the first item, a comma comes before each. -/
theorem writeItems_false_cons (item : Json F) (items : List (Json F)) :
    (writeItems D false (item :: items)).toList = ',' :: (writeItems D true (item :: items)).toList := by
  simp [writeItems]

theorem writeMembers_false_cons (m : String × Json F) (members : List (String × Json F)) :
    (writeMembers D false (m :: members)).toList = ',' :: (writeMembers D true (m :: members)).toList := by
  simp [writeMembers]

mutual

/-- **What is written for a value is a text of it.** -/
theorem value_writeValue (n : Nat) (v : Json F) (hfree : NumberFree v) (hdepth : nesting v ≤ n) :
    Value D n (writeValue D v).toList v := by
  cases v with
  | null =>
    rw [writeValue]
    exact .null
  | bool b =>
    cases b with
    | false =>
      rw [writeValue]
      exact .false
    | true =>
      rw [writeValue]
      exact .true
  | number x => exact hfree.elim
  | string s =>
    rw [writeValue, toList_writeEscapedString]
    have hvalue : Value D n _ _ := .string (body_escapeChars s.toList)
    rwa [String.ofList_toList] at hvalue
  | array items =>
    rw [nesting] at hdepth
    obtain ⟨m, rfl⟩ := Nat.exists_eq_add_one_of_ne_zero (Nat.ne_zero_of_lt hdepth)
    rw [writeValue, String.toList_append, String.toList_append]
    cases items with
    | nil => exact .emptyArray isWs_nil
    | cons item items =>
      exact .array (items_writeItems m item items hfree (Nat.le_of_succ_le_succ hdepth))
  | object members =>
    rw [nesting] at hdepth
    obtain ⟨m, rfl⟩ := Nat.exists_eq_add_one_of_ne_zero (Nat.ne_zero_of_lt hdepth)
    rw [writeValue, String.toList_append, String.toList_append]
    cases members with
    | nil => exact .emptyObject isWs_nil
    | cons member members =>
      exact .object (members_writeMembers m member members hfree (Nat.le_of_succ_le_succ hdepth))

/-- The items of an array. -/
theorem items_writeItems (n : Nat) (item : Json F) (items : List (Json F))
    (hfree : NumberFreeItems (item :: items)) (hdepth : nestingItems (item :: items) ≤ n) :
    Items D n (writeItems D true (item :: items)).toList (item :: items) := by
  rw [nestingItems, Nat.max_le] at hdepth
  have hitem := value_writeValue n item hfree.1 hdepth.1
  rw [writeItems, if_pos rfl, String.empty_append, String.toList_append]
  cases items with
  | nil => exact .one isWs_nil hitem isWs_nil
  | cons item' items =>
    rw [writeItems_false_cons]
    exact .more isWs_nil hitem isWs_nil (items_writeItems n item' items hfree.2 hdepth.2)

/-- The members of an object. -/
theorem members_writeMembers (n : Nat) (member : String × Json F) (members : List (String × Json F))
    (hfree : NumberFreeMembers (member :: members)) (hdepth : nestingMembers (member :: members) ≤ n) :
    Members D n (writeMembers D true (member :: members)).toList (member :: members) := by
  obtain ⟨k, v⟩ := member
  rw [nestingMembers, Nat.max_le] at hdepth
  have hvalue := value_writeValue n v hfree.1 hdepth.1
  have hkey := body_escapeChars k.toList
  rw [writeMembers, if_pos rfl, String.empty_append]
  simp only [String.toList_append, toList_writeEscapedString, List.append_assoc, List.cons_append]
  cases members with
  | nil =>
    have hmember := Members.one isWs_nil hkey isWs_nil isWs_nil hvalue isWs_nil
    rwa [String.ofList_toList] at hmember
  | cons member' members =>
    rw [writeMembers_false_cons]
    have hmember := Members.more isWs_nil hkey isWs_nil isWs_nil hvalue isWs_nil
      (members_writeMembers n member' members hfree.2 hdepth.2)
    rwa [String.ofList_toList] at hmember

end

/-- **Parsing undoes writing** for every value without numbers that nests at most `maxDepth`
deep. -/
theorem parse_toString (D : Doubles F) (v : Json F) (hfree : NumberFree v) (hdepth : nesting v ≤ maxDepth) :
    parse D (toString D v) = .ok v := by
  have hvalue : Value D maxDepth (toString D v).toList v := value_writeValue maxDepth v hfree hdepth
  have htext : Text D maxDepth ([] ++ ((toString D v).toList ++ [])) v := .mk isWs_nil hvalue isWs_nil
  rw [List.nil_append, List.append_nil] at htext
  exact parse_of_text htext

/-- Rationals in place of doubles. -/
def rationals : Doubles Rat where
  zero := 0
  pushDigit m d := m * 10 + d.toNat
  scalePow10 m e := m * 10 ^ e
  neg m := -m
  write m := ToString.toString m

/-- An object with a key twice, an escape and an empty array. -/
def twice : Json Rat := .object [("k", .array [.string "a\n\x01", .null]), ("k", .array [])]

theorem twice_parse_toString :
    NumberFree twice ∧ nesting twice ≤ maxDepth ∧ parse rationals (toString rationals twice) = .ok twice := by
  have hfree : NumberFree twice := by
    simp [twice, NumberFree, NumberFreeItems, NumberFreeMembers]
  have hdepth : nesting twice ≤ maxDepth := by
    simp [twice, nesting, nestingItems, nestingMembers, maxDepth]
  exact ⟨hfree, hdepth, parse_toString rationals twice hfree hdepth⟩

end AthenaOS.Json
