import AthenaOS.Lib.Text

/-!
# Lines and fields

Text that is read a line at a time, each line a key and a value.
-/

namespace AthenaOS.Lib.Text

/-! ## Trimming -/

/-- No white space at either end. -/
structure Trimmed (s : List Char) : Prop where
  head : ∀ c ∈ s.head?, isWhitespace c = false
  last : ∀ c ∈ s.getLast?, isWhitespace c = false

theorem trim_eq_rdropWhile (s : List Char) :
    trim s = (s.dropWhile isWhitespace).rdropWhile isWhitespace := rfl

variable {s line rest : List Char}

/-- There is nothing to trim. -/
theorem Trimmed.trim_eq (h : Trimmed s) : trim s = s := by
  have hfront : s.dropWhile isWhitespace = s := by
    cases s with
    | nil => rfl
    | cons c s => exact List.dropWhile_cons_of_neg (by rw [h.head c rfl]; decide)
  rw [trim_eq_rdropWhile, hfront, List.rdropWhile_eq_self_iff]
  intro hne
  rw [h.last _ (List.getLast?_eq_some_getLast hne)]
  decide

/-- A last character of a suffix that is not empty is a last character of the whole. -/
theorem getLast?_append_some {α : Type} (pre : List α) {suf : List α} {a : α} (h : a ∈ suf.getLast?) :
    a ∈ (pre ++ suf).getLast? := by
  rw [List.getLast?_append, show suf.getLast? = some a from h]
  rfl

/-- What is trimmed does not end in white space. -/
theorem trim_last (s : List Char) : ∀ c ∈ (trim s).getLast?, isWhitespace c = false := by
  intro c hc
  rw [trim_eq_rdropWhile] at hc
  have hne : (s.dropWhile isWhitespace).rdropWhile isWhitespace ≠ [] := by
    intro hnil
    rw [hnil] at hc
    exact nomatch hc
  rw [List.getLast?_eq_some_getLast hne, Option.mem_some_iff] at hc
  subst hc
  simpa using List.rdropWhile_last_not isWhitespace _ hne

/-- Trimming adds no character. -/
theorem mem_of_mem_trim {c : Char} (h : c ∈ trim s) : c ∈ s := by
  rw [trim_eq_rdropWhile] at h
  exact (List.dropWhile_sublist _).subset ((List.rdropWhile_prefix _ _).subset h)

/-! ## Lines -/

/-- `str::split_inclusive('\n')`. -/
def splitInclusive : List Char → List (List Char)
  | [] => []
  | c :: s =>
    if c = '\n' then [c] :: splitInclusive s
    else
      match splitInclusive s with
      | [] => [[c]]
      | line :: rest => (c :: line) :: rest

/-- A line without its `\n` or `\r\n`. -/
def stripEnding (line : List Char) : List Char :=
  match line.reverse with
  | '\n' :: '\r' :: rest => rest.reverse
  | '\n' :: rest => rest.reverse
  | _ => line

/-- `str::lines`. -/
def lines (s : List Char) : List (List Char) := (splitInclusive s).map stripEnding

/-- A line that is ended. -/
theorem splitInclusive_append (h : '\n' ∉ line) :
    splitInclusive (line ++ '\n' :: rest) = (line ++ ['\n']) :: splitInclusive rest := by
  induction line with
  | nil => rw [List.nil_append, splitInclusive, if_pos rfl, List.nil_append]
  | cons c line ih =>
    rw [List.mem_cons, not_or] at h
    rw [List.cons_append, splitInclusive, if_neg (Ne.symm h.1), ih h.2]
    rfl

/-- The line, unless it ends in a carriage return. -/
theorem stripEnding_append (h : ∀ c ∈ line.getLast?, c ≠ '\r') :
    stripEnding (line ++ ['\n']) = line := by
  rw [stripEnding, List.reverse_append, List.reverse_singleton, List.singleton_append]
  split
  · rename_i rest hrev
    rw [List.cons.injEq] at hrev
    have hlast : '\r' ∈ line.getLast? := by
      rw [← List.head?_reverse, hrev.2]
      rfl
    exact absurd rfl (h _ hlast)
  · rename_i rest _ hrev
    rw [List.cons.injEq] at hrev
    rw [← hrev.2, List.reverse_reverse]
  · rename_i _ hother
    exact absurd rfl (hother _)

/-- **The first line of a text**, when it is ended by a line feed alone. -/
theorem lines_append (h : '\n' ∉ line) (hcr : ∀ c ∈ line.getLast?, c ≠ '\r') :
    lines (line ++ '\n' :: rest) = line :: lines rest := by
  rw [lines, splitInclusive_append h, List.map_cons, stripEnding_append hcr]
  rfl

/-- The text of some lines, each ended. -/
def unlines (ls : List (List Char)) : List Char := ls.flatMap (· ++ ['\n'])

/-- **The lines of a text made of lines.** -/
theorem lines_unlines {ls : List (List Char)}
    (h : ∀ line ∈ ls, '\n' ∉ line ∧ ∀ c ∈ line.getLast?, c ≠ '\r') : lines (unlines ls) = ls := by
  induction ls with
  | nil => rfl
  | cons line ls ih =>
    rw [List.forall_mem_cons] at h
    have hcons : unlines (line :: ls) = line ++ '\n' :: unlines ls := by
      rw [unlines, List.flatMap_cons, List.append_assoc]
      rfl
    rw [hcons, lines_append h.1.1 h.1.2, ih h.2]

/-- Every piece has its line feed at the end only. -/
theorem not_mem_dropLast_splitInclusive (h : line ∈ splitInclusive s) : '\n' ∉ line.dropLast := by
  induction s generalizing line with
  | nil => exact nomatch h
  | cons c s ih =>
    rw [splitInclusive] at h
    split at h
    · rcases List.mem_cons.mp h with rfl | h
      · simp
      · exact ih h
    · rename_i hc
      cases hs : splitInclusive s with
      | nil =>
        rw [hs] at h
        rw [List.mem_singleton.mp h]
        simp
      | cons first rest =>
        rw [hs] at h ih
        rcases List.mem_cons.mp h with rfl | h
        · have hfirst := ih List.mem_cons_self
          cases first with
          | nil => simp
          | cons d first =>
            rw [List.dropLast_cons_cons, List.mem_cons, not_or]
            exact ⟨Ne.symm hc, hfirst⟩
        · exact ih (List.mem_cons_of_mem _ h)

/-- **A line has no line feed.** -/
theorem not_mem_of_mem_lines (h : line ∈ lines s) : '\n' ∉ line := by
  obtain ⟨piece, hpiece, rfl⟩ := List.mem_map.mp h
  have hlast := not_mem_dropLast_splitInclusive hpiece
  rw [stripEnding]
  split
  · rename_i rest hrev
    rw [List.reverse_eq_iff, List.reverse_cons, List.reverse_cons] at hrev
    rw [hrev, List.dropLast_concat, List.mem_append, not_or] at hlast
    exact hlast.1
  · rename_i rest _ hrev
    rw [List.reverse_eq_iff, List.reverse_cons] at hrev
    rwa [hrev, List.dropLast_concat] at hlast
  · rename_i hcr hlf
    intro hmem
    rcases List.eq_nil_or_concat' piece with rfl | ⟨front, c, rfl⟩
    · exact nomatch hmem
    · rw [List.dropLast_concat] at hlast
      rcases List.mem_append.mp hmem with hmem | hmem
      · exact hlast hmem
      · rw [List.mem_singleton] at hmem
        subst hmem
        exact hlf front.reverse (by rw [List.reverse_append]; rfl)

/-! ## Fields -/

/-- `str::split_once` at a character. -/
def splitOnce (sep : Char) : List Char → Option (List Char × List Char)
  | [] => none
  | c :: s =>
    if c = sep then some ([], s)
    else (splitOnce sep s).map fun p => (c :: p.1, p.2)

/-- **A text splits at its first separator.** -/
theorem splitOnce_eq_some_iff {sep : Char} {key val : List Char} :
    splitOnce sep s = some (key, val) ↔ s = key ++ sep :: val ∧ sep ∉ key := by
  induction s generalizing key with
  | nil => simp [splitOnce]
  | cons c s ih =>
    rw [splitOnce]
    split
    · rename_i hc
      subst hc
      rw [Option.some.injEq, Prod.mk.injEq]
      constructor
      · rintro ⟨rfl, rfl⟩
        exact ⟨rfl, List.not_mem_nil⟩
      · rintro ⟨hs, hkey⟩
        cases key with
        | nil => exact ⟨rfl, (List.cons.inj hs).2⟩
        | cons d key => exact absurd ((List.cons.inj hs).1 ▸ List.mem_cons_self) hkey
    · rename_i hc
      rw [Option.map_eq_some_iff]
      constructor
      · rintro ⟨⟨key', val'⟩, hsplit, hpair⟩
        obtain ⟨rfl, rfl⟩ := Prod.mk.inj hpair
        obtain ⟨rfl, hkey⟩ := ih.mp hsplit
        exact ⟨rfl, fun hmem => (List.mem_cons.mp hmem).elim (fun h => hc h.symm) hkey⟩
      · rintro ⟨hs, hkey⟩
        cases key with
        | nil => exact absurd (List.cons.inj hs).1 hc
        | cons d key =>
          obtain ⟨rfl, rfl⟩ := List.cons.inj hs
          exact ⟨(key, val), ih.mpr ⟨rfl, fun h => hkey (List.mem_cons_of_mem _ h)⟩, rfl⟩

/-- A number of `bits` bits, with an optional plus sign. -/
def parseUnsigned (bits : Nat) (s : List Char) : Option Nat := do
  let n ← parseDigits (match s with
    | '+' :: digits => digits
    | digits => digits)
  if n < 2 ^ bits then some n else none

end AthenaOS.Lib.Text
