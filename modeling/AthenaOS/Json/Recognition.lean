import AthenaOS.Json.Leaves

/-!
# The parser recognises the grammar

What the parser reads is derived by the grammar and what is derived is read, both by induction on
the levels that are left. A value may be followed by whitespace, a comma or a closing bracket.
-/

namespace AthenaOS.Json

open Lib Lib.Wire Lib.Decoder

variable {F : Type} {D : Doubles F}

/-- The parser reads whitespace and a value that nests at most `n` deep. -/
def Reads (D : Doubles F) (n : Nat) (value : Parser (Json F)) : Prop :=
  ∀ (cs : List Char) (v : Json F) (rest : ByteString), value (encode cs) = .ok (v, rest) →
    ∃ w cs₁ cs₂, IsWs w ∧ Value D n cs₁ v ∧ cs = w ++ (cs₁ ++ cs₂) ∧ rest = encode cs₂

variable {cs w lit rest : List Char} {u : Unit} {c : Char} {n depth : Nat} {value : Parser (Json F)}
variable {v : Json F} {input : String}

theorem IsWs.append {w' : List Char} (hw : IsWs w) (hw' : IsWs w') : IsWs (w ++ w') := by
  intro c hc
  rcases List.mem_append.mp hc with hc | hc
  · exact hw c hc
  · exact hw' c hc

/-! ## Entries between brackets -/

theorem noWs_cons (h : ¬ IsWs [c]) : NoWs (c :: cs) := by
  intro d hd
  obtain rfl := Option.some.inj hd
  exact h

instance (c : Char) : Decidable (IsWs [c]) := decidable_of_iff _ isWs_singleton.symm

theorem next_cons (hc : c.toNat < 128) (e : JsonError) (cs : List Char) :
    next e (encode (c :: cs)) = .ok (ascii c, encode cs) := by
  rw [encode_cons_ascii hc]
  rfl

theorem Digit.not_ws (h : Digit c) : ¬ IsWs [c] := by
  intro hws
  rcases isWs_singleton.mp hws with rfl | rfl | rfl | rfl
  · exact absurd h (by decide)
  · exact absurd h (by decide)
  · exact absurd h (by decide)
  · exact absurd h (by decide)

section Entries

variable {β : Type} {Entry : List Char → β → Prop} {Entries : List Char → List β → Prop} {close : Char}
variable {round : List β → Parser (List β ⊕ List β)} {hbody : Progresses List.length round}
variable {wrap : List β → Json F} {cs w : List Char} {xs ys : List β}

/-- One or more entries, separated by commas. An entry may start with whitespace, and then with
something other than the closing bracket. -/
structure Separated (close : Char) (Entry : List Char → β → Prop) (Entries : List Char → List β → Prop) :
    Prop where
  one : ∀ {cs x}, Entry cs x → Entries cs [x]
  more : ∀ {cs rest x xs}, Entry cs x → Entries rest xs → Entries (cs ++ ',' :: rest) (x :: xs)
  cases : ∀ {cs ys}, Entries cs ys → ∃ cs₁ x, Entry cs₁ x ∧
    (cs = cs₁ ∧ ys = [x] ∨ ∃ rest xs, Entries rest xs ∧ cs = cs₁ ++ ',' :: rest ∧ ys = x :: xs)
  ws : ∀ {w cs x}, IsWs w → Entry cs x → Entry (w ++ cs) x
  head : ∀ {cs x}, Entry cs x → ∃ w c cs', cs = w ++ c :: cs' ∧ IsWs w ∧ ¬ IsWs [c] ∧ c ≠ close ∧
    Entry (c :: cs') x

theorem Separated.entries_head (hsep : Separated close Entry Entries) (h : Entries cs xs) :
    ∃ w c cs', cs = w ++ c :: cs' ∧ IsWs w ∧ ¬ IsWs [c] ∧ c ≠ close ∧ Entries (c :: cs') xs := by
  obtain ⟨cs₁, x, hx, hrest⟩ := hsep.cases h
  obtain ⟨w, c, cs', rfl, hw, hc, hne, hx'⟩ := hsep.head hx
  obtain ⟨rfl, rfl⟩ | ⟨rest, xs, hxs, rfl, rfl⟩ := hrest
  · exact ⟨w, c, cs', rfl, hw, hc, hne, hsep.one hx'⟩
  · refine ⟨w, c, cs' ++ ',' :: rest, ?_, hw, hc, hne, hsep.more hx' hxs⟩
    rw [List.append_assoc, List.cons_append]

/-- After an entry, a comma goes on and the closing bracket ends. -/
inductive After (close : Char) (xs : List β) : Char → List β ⊕ List β → Prop
  | comma : After close xs ',' (.inl xs)
  | close : After close xs close (.inr xs)

/-- What both rounds do after a value. -/
def entryEnd (close : Char) (xs : List β) : Parser (List β ⊕ List β) := do
  skipWs
  let b ← next .unterminated
  if b = ascii ',' then return .inl xs
  else if b = ascii close then return .inr xs
  else throw .unexpected

variable {rest : ByteString}

theorem entryEnd_append (hclose : close = ']' ∨ close = '\x7d') (hw : IsWs w) {c : Char} {r : List β ⊕ List β}
    (hc : After close xs c r) (rest : List Char) :
    entryEnd close xs (encode (w ++ c :: rest)) = .ok (r, encode rest) := by
  cases hc with
  | comma =>
    refine (bind_ok (skipWs_append hw (noWs_cons (by decide)))).trans ?_
    exact bind_ok (next_cons (by decide) _ rest)
  | close =>
    rcases hclose with rfl | rfl
    · refine (bind_ok (skipWs_append hw (noWs_cons (by decide)))).trans ?_
      exact bind_ok (next_cons (by decide) _ rest)
    · refine (bind_ok (skipWs_append hw (noWs_cons (by decide)))).trans ?_
      exact bind_ok (next_cons (by decide) _ rest)

/-- A round that succeeds has taken one entry. -/
def Takes (close : Char) (Entry : List Char → β → Prop) (round : List β → Parser (List β ⊕ List β)) : Prop :=
  ∀ {xs : List β} {r : List β ⊕ List β} {cs : List Char} {rest : ByteString},
    round xs (encode cs) = .ok (r, rest) → ∃ cs₁ x c cs₂, Entry cs₁ x ∧ cs = cs₁ ++ c :: cs₂ ∧
      rest = encode cs₂ ∧ After close (xs ++ [x]) c r

/-- A round takes any entry. -/
def Admits (close : Char) (Entry : List Char → β → Prop) (round : List β → Parser (List β ⊕ List β)) : Prop :=
  ∀ {cs : List Char} {x : β}, Entry cs x → ∀ {xs : List β} {c : Char} {r : List β ⊕ List β},
    After close (xs ++ [x]) c r → ∀ rest : List Char,
    round xs (encode (cs ++ c :: rest)) = .ok (r, encode rest)

/-- The loop takes the entries and the bracket. -/
theorem Takes.loop_eq_ok (htakes : Takes close Entry round) (hsep : Separated close Entry Entries)
    (h : loop List.length round hbody xs (encode cs) = .ok (ys, rest)) :
    ∃ cs₁ zs cs₂, Entries cs₁ zs ∧ cs = cs₁ ++ close :: cs₂ ∧ rest = encode cs₂ ∧ ys = xs ++ zs :=
      by
  induction hlen : cs.length using Nat.strongRecOn generalizing cs xs with
  | _ k ih =>
    rcases Decoder.loop_eq_ok h with hlast | ⟨xs₁, data₁, hround, hrest⟩
    · obtain ⟨cs₁, x, c, cs₂, hx, rfl, rfl, hr⟩ := htakes hlast
      cases hr
      exact ⟨cs₁, [x], cs₂, hsep.one hx, rfl, rfl, rfl⟩
    · obtain ⟨cs₁, x, c, cs₂, hx, rfl, rfl, hr⟩ := htakes hround
      cases hr
      have hless : cs₂.length < k := by
        rw [← hlen, List.length_append, List.length_cons]
        omega
      obtain ⟨cs₃, zs, cs₄, hzs, rfl, rfl, rfl⟩ := ih cs₂.length hless hrest rfl
      refine ⟨_, x :: zs, cs₄, hsep.more hx hzs, ?_, rfl, ?_⟩
      · rw [List.append_assoc, List.cons_append]
      · rw [List.append_assoc]
        rfl

/-- By induction on the entries. -/
theorem Admits.loop_append (hadmits : Admits close Entry round) (hsep : Separated close Entry Entries)
    (h : Entries cs ys) (xs : List β) (rest : List Char) :
    loop List.length round hbody xs (encode (cs ++ close :: rest)) = .ok (xs ++ ys, encode rest) := by
  induction ys generalizing cs xs with
  | nil =>
    obtain ⟨_, _, -, ⟨-, h⟩ | ⟨_, _, -, -, h⟩⟩ := hsep.cases h
    · exact nomatch h
    · exact nomatch h
  | cons y ys ih =>
    obtain ⟨cs₁, x, hx, ⟨rfl, heq⟩ | ⟨rest', ys', hys, rfl, heq⟩⟩ := hsep.cases h
    · obtain ⟨rfl, rfl⟩ := List.cons.inj heq
      exact loop_break (hadmits hx .close rest)
    · obtain ⟨rfl, rfl⟩ := List.cons.inj heq
      rw [List.append_assoc, List.cons_append, loop_continue (hadmits hx .comma _), ih hys, List.append_assoc]
      rfl

/-- What `parse_array` and `parse_object` do after their opening bracket. -/
def bracketed (close : Char) (wrap : List β → Json F) (round : List β → Parser (List β ⊕ List β))
    (hbody : Progresses List.length round) : Parser (Json F) := do
  skipWs
  if (← peek) = some (ascii close) then
    advance 1
    return wrap []
  else
    let xs ← loop List.length round hbody []
    return wrap xs

theorem bracketed_empty (hclose : close.toNat < 128) (hno : ¬ IsWs [close]) (hw : IsWs w) (rest : List Char) :
    bracketed close wrap round hbody (encode (w ++ close :: rest)) = .ok (wrap [], encode rest) := by
  have hfirst : (encode (close :: rest)).head? = some (ascii close) := (head?_encode hclose _).mpr rfl
  refine (bind_ok (skipWs_append hw (noWs_cons hno))).trans ((bind_ok (m := peek) rfl).trans ?_)
  refine (congrFun (if_pos hfirst) _).trans ?_
  exact bind_ok (advance_cons hclose rest)

theorem bracketed_append (hclose : close.toNat < 128) (hadmits : Admits close Entry round)
    (hsep : Separated close Entry Entries) (h : Entries cs xs) (rest : List Char) :
    bracketed close wrap round hbody (encode (cs ++ close :: rest)) = .ok (wrap xs, encode rest) := by
  obtain ⟨w, c, cs', rfl, hw, hc, hne, h'⟩ := hsep.entries_head h
  have hfirst : ¬ (encode ((c :: cs') ++ close :: rest)).head? = some (ascii close) := by
    intro heq
    exact hne (Option.some.inj ((head?_encode hclose _).mp heq))
  rw [List.append_assoc]
  refine (bind_ok (skipWs_append hw (noWs_cons hc))).trans ((bind_ok (m := peek) rfl).trans ?_)
  refine (congrFun (if_neg hfirst) _).trans ?_
  exact bind_ok (hadmits.loop_append hsep h' [] rest)

end Entries

/-! ## Items and members -/

section Grammar

variable {n : Nat} {value : Parser (Json F)} {cs : List Char}

/-- A value starts with a character of its own. -/
theorem Value.head {v : Json F} (h : Value D n cs v) : ∃ c cs', cs = c :: cs' ∧ ¬ IsWs [c] ∧ c ≠ ']' := by
  cases h with
  | null => exact ⟨_, _, rfl, by decide⟩
  | true => exact ⟨_, _, rfl, by decide⟩
  | false => exact ⟨_, _, rfl, by decide⟩
  | string _ => exact ⟨_, _, rfl, by decide⟩
  | emptyArray _ => exact ⟨_, _, rfl, by decide⟩
  | array _ => exact ⟨_, _, rfl, by decide⟩
  | emptyObject _ => exact ⟨_, _, rfl, by decide⟩
  | object _ => exact ⟨_, _, rfl, by decide⟩
  | number hl =>
    obtain ⟨c, cs', hchars, rfl | hc⟩ := hl.head
    · exact ⟨_, cs', hchars, by decide⟩
    · refine ⟨c, cs', hchars, hc.not_ws, ?_⟩
      rintro rfl
      exact absurd hc (by decide)

/-- A value between whitespace. -/
inductive Item (D : Doubles F) (n : Nat) : List Char → Json F → Prop
  | mk {w₁ w₂ cs : List Char} {v : Json F} : IsWs w₁ → Value D n cs v → IsWs w₂ → Item D n (w₁ ++ (cs ++ w₂)) v

/-- A key, a colon and a value, with whitespace around each. -/
inductive Member (D : Doubles F) (n : Nat) : List Char → String × Json F → Prop
  | mk {w₁ w₂ w₃ w₄ k key cs : List Char} {v : Json F} : IsWs w₁ → Body k key → IsWs w₂ → IsWs w₃ →
    Value D n cs v → IsWs w₄ →
    Member D n (w₁ ++ '"' :: (k ++ '"' :: (w₂ ++ ':' :: (w₃ ++ (cs ++ w₄))))) (String.ofList key, v)

theorem separated_items : Separated ']' (Item D n) (Items D n) where
  one := fun ⟨hw₁, hv, hw₂⟩ => .one hw₁ hv hw₂
  more := by
    rintro _ rest x xs ⟨hw₁, hv, hw₂⟩ hrest
    rw [List.append_assoc, List.append_assoc]
    exact .more hw₁ hv hw₂ hrest
  cases := by
    rintro _ _ (⟨hw₁, hv, hw₂⟩ | ⟨hw₁, hv, hw₂, hrest⟩)
    · exact ⟨_, _, .mk hw₁ hv hw₂, .inl ⟨rfl, rfl⟩⟩
    · refine ⟨_, _, .mk hw₁ hv hw₂, .inr ⟨_, _, hrest, ?_, rfl⟩⟩
      rw [List.append_assoc, List.append_assoc]
  ws := by
    rintro w _ x hw ⟨hw₁, hv, hw₂⟩
    rw [← List.append_assoc]
    exact .mk (hw.append hw₁) hv hw₂
  head := by
    rintro _ x ⟨hw₁, hv, hw₂⟩
    obtain ⟨c, cs', rfl, hc, hne⟩ := hv.head
    exact ⟨_, c, _, rfl, hw₁, hc, hne, .mk isWs_nil hv hw₂⟩

theorem separated_members : Separated '\x7d' (Member D n) (Members D n) where
  one := fun ⟨hw₁, hk, hw₂, hw₃, hv, hw₄⟩ => .one hw₁ hk hw₂ hw₃ hv hw₄
  more := by
    rintro _ rest x xs ⟨hw₁, hk, hw₂, hw₃, hv, hw₄⟩ hrest
    simp only [List.append_assoc, List.cons_append]
    exact .more hw₁ hk hw₂ hw₃ hv hw₄ hrest
  cases := by
    rintro _ _ (⟨hw₁, hk, hw₂, hw₃, hv, hw₄⟩ | ⟨hw₁, hk, hw₂, hw₃, hv, hw₄, hrest⟩)
    · exact ⟨_, _, .mk hw₁ hk hw₂ hw₃ hv hw₄, .inl ⟨rfl, rfl⟩⟩
    · refine ⟨_, _, .mk hw₁ hk hw₂ hw₃ hv hw₄, .inr ⟨_, _, hrest, ?_, rfl⟩⟩
      simp only [List.append_assoc, List.cons_append]
  ws := by
    rintro w _ x hw ⟨hw₁, hk, hw₂, hw₃, hv, hw₄⟩
    rw [← List.append_assoc]
    exact .mk (hw.append hw₁) hk hw₂ hw₃ hv hw₄
  head := by
    rintro _ x ⟨hw₁, hk, hw₂, hw₃, hv, hw₄⟩
    exact ⟨_, '"', _, rfl, hw₁, by decide, by decide, .mk isWs_nil hk hw₂ hw₃ hv hw₄⟩

end Grammar

/-! ## What is read is derived -/

section Derived

variable {n depth : Nat} {value : Forward (Json F)} {cs : List Char} {v : Json F} {rest : ByteString}

end Derived

theorem expectLiteral_append (lit cs : List Char) :
    expectLiteral (encode lit) (encode (lit ++ cs)) = .ok ((), encode cs) := by
  rw [expectLiteral, encode_append, if_neg (by rw [List.length_append]; omega), List.take_left,
    if_neg (not_not_intro rfl), List.drop_left]

theorem utf8_true : utf8 "true" = encode ['t', 'r', 'u', 'e'] := utf8_eq_encode _

theorem utf8_false : utf8 "false" = encode ['f', 'a', 'l', 's', 'e'] := utf8_eq_encode _

theorem utf8_null : utf8 "null" = encode ['n', 'u', 'l', 'l'] := utf8_eq_encode _

/-- What may follow a value: whitespace, a comma or a closing bracket. -/
def Ends (cs : List Char) : Prop :=
  ∀ c, cs.head? = some c → IsWs [c] ∨ c = ',' ∨ c = ']' ∨ c = '\x7d'

theorem Ends.follow (h : Ends cs) : Follow cs := by
  intro c hc
  rcases h c hc with hws | rfl | rfl | rfl
  · rcases isWs_singleton.mp hws with rfl | rfl | rfl | rfl
    · decide
    · decide
    · decide
    · decide
  · decide
  · decide
  · decide

/-- Whitespace before what may follow. -/
theorem Ends.ws (hw : IsWs w) (h : Ends cs) : Ends (w ++ cs) := by
  cases w with
  | nil => exact h
  | cons d w =>
    intro c hc
    obtain rfl := Option.some.inj hc
    exact .inl hw.tail.1

theorem ends_cons (h : c = ',' ∨ c = ']' ∨ c = '\x7d') : Ends (c :: cs) := by
  intro d hd
  obtain rfl := Option.some.inj hd
  exact .inr h

/-- The kind of a value is chosen after the whitespace before it. -/
theorem parseValueAt_append (hw : IsWs w) (hcs : NoWs cs) :
    (parseValueAt D (n + 1)).run (encode (w ++ cs)) =
      parseKind D (maxDepth - n) (parseValueAt D n) (encode cs).head? (encode cs) := by
  have hdepth : decide (maxDepth - n ≤ maxDepth) = true := decide_eq_true (Nat.sub_le _ _)
  refine (bind_ok (ensure_of hdepth _ _)).trans ((bind_ok (skipWs_append hw hcs)).trans ?_)
  exact bind_ok (m := peek) rfl

/-- A number is read after its first character was seen. -/
theorem parseKind_number {l : Lexeme} (hl : l.Valid) (depth : Nat) (value : Forward (Json F))
    (hrest : Ends rest) :
    parseKind D depth value (encode (l.chars ++ rest)).head? (encode (l.chars ++ rest)) =
      .ok (.number (l.value D), encode rest) := by
  have hnumber := parseNumber_chars D hl hrest.follow
  obtain ⟨c, cs, hchars, hc⟩ := hl.head
  have hlt : c.toNat < 128 := by
    rcases hc with rfl | hc
    · decide
    · exact hc.lt
  have hhead : (encode (l.chars ++ rest)).head? = some (ascii c) := by
    rw [hchars]
    exact (head?_encode hlt _).mpr rfl
  have hne : ∀ d : Char, d.toNat < 128 → d ≠ '-' → ¬ Digit d → ¬ some (ascii c) = some (ascii d) := by
    intro d hd hminus hdigit heq
    obtain rfl := ascii_inj hlt hd (Option.some.inj heq)
    exact hc.elim hminus hdigit
  have hkind : some (ascii c) = some (ascii '-') ∨ (some (ascii c)).any isDigit = true := by
    rcases hc with rfl | hc
    · exact .inl rfl
    · exact .inr ((isDigit_ascii hlt).mpr hc)
  rw [hhead, parseKind, if_neg (hne '\x7b' (by decide) (by decide) (by decide)),
    if_neg (hne '[' (by decide) (by decide) (by decide)), if_neg (hne '"' (by decide) (by decide) (by decide)),
    if_neg (hne 't' (by decide) (by decide) (by decide)), if_neg (hne 'f' (by decide) (by decide) (by decide)),
    if_neg (hne 'n' (by decide) (by decide) (by decide)), if_pos hkind]
  exact hnumber

theorem parseKind_array (cs : List Char) :
    parseKind D (maxDepth - (n + 1)) (parseValueAt D (n + 1)) (encode ('[' :: cs)).head?
      (encode ('[' :: cs)) = bracketed ']' .array (arrayRound (parseValueAt D (n + 1)).run)
      (progresses_arrayRound (parseValueAt D (n + 1)).consumes) (encode cs) := by
  have hhead : (encode ('[' :: cs)).head? = some (ascii '[') := (head?_encode (by decide) _).mpr rfl
  have hdepth : decide (maxDepth - (n + 1) < maxDepth) = true :=
    decide_eq_true (Nat.sub_lt (by decide) (Nat.succ_pos n))
  rw [hhead, parseKind, if_neg (by decide), if_pos rfl]
  exact (bind_ok (ensure_of hdepth _ _)).trans (bind_ok (advance_cons (by decide) _))

theorem parseKind_object (cs : List Char) :
    parseKind D (maxDepth - (n + 1)) (parseValueAt D (n + 1)) (encode ('\x7b' :: cs)).head?
        (encode ('\x7b' :: cs)) =
      bracketed '\x7d' .object (objectRound (parseValueAt D (n + 1)).run)
        (progresses_objectRound (parseValueAt D (n + 1)).consumes) (encode cs) := by
  have hhead : (encode ('\x7b' :: cs)).head? = some (ascii '\x7b') := (head?_encode (by decide) _).mpr rfl
  have hdepth : decide (maxDepth - (n + 1) < maxDepth) = true :=
    decide_eq_true (Nat.sub_lt (by decide) (Nat.succ_pos n))
  rw [hhead, parseKind, if_pos rfl]
  exact (bind_ok (ensure_of hdepth _ _)).trans (bind_ok (advance_cons (by decide) _))

/-- A literal is read after its first character was seen. -/
theorem parseKind_literal (hc : c.toNat < 128)
    {value : Forward (Json F)}
    (hkind : parseKind D depth value (some (ascii c)) = do
      expectLiteral (encode (c :: lit))
      return v) :
    parseKind D depth value (encode (c :: lit ++ rest)).head? (encode (c :: lit ++ rest)) =
      .ok (v, encode rest) := by
  have hhead : (encode (c :: lit ++ rest)).head? = some (ascii c) := (head?_encode hc _).mpr rfl
  rw [hhead, hkind]
  exact bind_ok (expectLiteral_append (c :: lit) rest)

/-- The parser reads a value that nests at most `n` deep, with the whitespace before it. -/
def Accepts (D : Doubles F) (n : Nat) (value : Parser (Json F)) : Prop :=
  ∀ (w cs rest : List Char) (v : Json F), IsWs w → Value D n cs v → Ends rest →
    value (encode (w ++ (cs ++ rest))) = .ok (v, encode rest)

/-- What ends an entry may follow a value. -/
theorem After.ends {β : Type} {close : Char} {xs : List β} {r : List β ⊕ List β}
    (h : After close xs c r) (hclose : close = ']' ∨ close = '\x7d') (rest : List Char) :
    Ends (c :: rest) := by
  cases h with
  | comma => exact ends_cons (.inl rfl)
  | close => exact ends_cons (.inr hclose)

theorem admits_item (hvalue : Accepts D n value) : Admits ']' (Item D n) (arrayRound value) := by
  rintro _ v ⟨hw₁, hv, hw₂⟩ items c r hc rest
  rw [List.append_assoc, List.append_assoc]
  refine (bind_ok (hvalue _ _ _ v hw₁ hv (Ends.ws hw₂ (hc.ends (.inl rfl) rest)))).trans ?_
  exact entryEnd_append (.inl rfl) hw₂ hc rest

theorem admits_member (hvalue : Accepts D n value) :
    Admits '\x7d' (Member D n) (objectRound value) := by
  rintro _ _ ⟨hw₁, hk, hw₂, hw₃, hv, hw₄⟩ members c r hc rest
  simp only [List.append_assoc, List.cons_append]
  refine (bind_ok (skipWs_append hw₁ (noWs_cons (by decide)))).trans ?_
  refine (bind_ok (m := peek) rfl).trans ?_
  rw [(head?_encode (by decide) _).mpr rfl]
  refine (bind_ok (ensure_of rfl _ _)).trans ((bind_ok (ensure_of (decide_eq_true rfl) _ _)).trans ?_)
  refine (bind_ok (parseString_append hk _)).trans ?_
  refine (bind_ok (skipWs_append hw₂ (noWs_cons (by decide)))).trans ?_
  refine (bind_ok (expectByte_cons (by decide) _ _)).trans ?_
  refine (bind_ok (hvalue _ _ _ _ hw₃ hv (Ends.ws hw₄ (hc.ends (.inr rfl) rest)))).trans ?_
  exact entryEnd_append (.inr rfl) hw₄ hc rest

/-- One level, given the levels below. -/
theorem accepts_of_below (hbelow : ∀ m, n = m + 1 → Accepts D m (parseValueAt D (m + 1)).run) :
    Accepts D n (parseValueAt D (n + 1)).run := by
  intro w cs rest v hw h hrest
  obtain ⟨c, cs', hcs, hc, -⟩ := h.head
  have hno : NoWs (cs ++ rest) := by
    rw [hcs]
    exact noWs_cons hc
  rw [parseValueAt_append hw hno]
  cases h with
  | null =>
    refine parseKind_literal (by decide) ?_
    rw [← utf8_null]
    rfl
  | true =>
    refine parseKind_literal (by decide) ?_
    rw [← utf8_true]
    rfl
  | false =>
    refine parseKind_literal (by decide) ?_
    rw [← utf8_false]
    rfl
  | number hl => exact parseKind_number hl _ _ hrest
  | string hbody =>
    rw [List.cons_append, List.append_assoc, (head?_encode (c := '"') (by decide) _).mpr rfl]
    exact bind_ok (parseString_append hbody rest)
  | emptyArray hw' =>
    rw [List.cons_append, List.append_assoc, parseKind_array]
    exact bracketed_empty (by decide) (by decide) hw' rest
  | array hitems =>
    rw [List.cons_append, List.append_assoc, parseKind_array]
    exact bracketed_append (by decide) (admits_item (hbelow _ rfl)) separated_items hitems rest
  | emptyObject hw' =>
    rw [List.cons_append, List.append_assoc, parseKind_object]
    exact bracketed_empty (by decide) (by decide) hw' rest
  | object hmembers =>
    rw [List.cons_append, List.append_assoc, parseKind_object]
    exact bracketed_append (by decide) (admits_member (hbelow _ rfl)) separated_members hmembers rest

/-- **A value of the grammar is read**, by induction on the levels left. -/
theorem parseValueAt_accepts (n : Nat) : Accepts D n (parseValueAt D (n + 1)).run := by
  induction n with
  | zero => exact accepts_of_below fun m hm => nomatch hm
  | succ n ih =>
    refine accepts_of_below fun m hm => ?_
    obtain rfl := Nat.succ.inj hm
    exact ih

/-! ## Texts -/

/-- What is derived is parsed. -/
theorem parse_of_text (h : Text D maxDepth input.toList v) : parse D input = .ok v := by
  rw [parse, utf8_eq_encode]
  generalize input.toList = text at h
  obtain ⟨hw₁, hv, hw₂⟩ := h
  rename_i w₁ w₂ cs
  obtain ⟨c, cs', hcs, hc, -⟩ := hv.head
  have hno : NoWs (cs ++ w₂) := by
    rw [hcs]
    exact noWs_cons hc
  have hsome : (encode (cs ++ w₂)).head?.isSome = true := by
    cases hhead : (encode (cs ++ w₂)).head? with
    | some b => rfl
    | none =>
      have hnil := encode_eq_nil (List.head?_eq_none_iff.mp hhead)
      rw [hcs] at hnil
      exact nomatch hnil
  have hends : Ends w₂ := by
    rw [← List.append_nil w₂]
    exact Ends.ws hw₂ fun c hc => nomatch hc
  have hvalue : parseValue D 0 (encode (cs ++ w₂)) = .ok (v, encode w₂) :=
    parseValueAt_accepts maxDepth [] cs w₂ v isWs_nil hv hends
  have hskip : skipWs (encode w₂) = .ok ((), encode []) := by
    have hall : skipWs (encode (w₂ ++ [])) = .ok ((), encode []) := skipWs_append hw₂ fun c hc => nomatch hc
    rwa [List.append_nil] at hall
  refine congrArg (Except.map Prod.fst) (?_ : _ = .ok (v, encode []))
  refine (bind_ok (skipWs_append hw₁ hno)).trans ((bind_ok (m := peek) rfl).trans ?_)
  refine (bind_ok (ensure_of hsome _ _)).trans ((bind_ok hvalue).trans ((bind_ok hskip).trans ?_))
  exact (bind_ok (m := peek) rfl).trans (bind_ok (ensure_of rfl _ _))

end AthenaOS.Json
