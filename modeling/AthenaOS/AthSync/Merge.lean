import AthenaOS.Lib.Utf8

/-!
# Three-way merges (`components/athsync/src/lib.rs`)

Two versions of a text are compared with their ancestor, line by line.
-/

namespace AthenaOS.AthSync

open Lib Lib.Wire

/-- `b'\n'`. -/
def newline : UInt8 := 10

/-- `MergeResult`. -/
inductive MergeResult where
  | clean (merged : ByteString)
  | conflictMarkers (merged : ByteString)
  | cannotMerge
  deriving DecidableEq, Repr

/-- The lines from here on; `line` is the one that has been started. -/
def splitLoop (line : ByteString) : ByteString → List ByteString
  | [] => if line = [] then [] else [line]
  | b :: rest => if b = newline then line :: splitLoop [] rest else splitLoop (line ++ [b]) rest

/-- `split_lines`. -/
def splitLines (data : ByteString) : List ByteString := splitLoop [] data

/-- `get(i).copied().unwrap_or(b"")`. -/
def lineAt (lines : List ByteString) (i : Nat) : ByteString := lines[i]?.getD []

/-- What one line of the three texts adds, and whether it is a conflict. -/
def mergeLine (a l r : ByteString) : ByteString × Bool :=
  if l = r then (l ++ [newline], false)
  else if l = a then (r ++ [newline], false)
  else if r = a then (l ++ [newline], false)
  else
    (utf8 "<<<<<<< LOCAL\n" ++ l ++ [newline] ++ utf8 "=======\n" ++ r ++ [newline] ++ utf8 ">>>>>>> REMOTE\n", true)

/-- One round of the loop of `three_way_merge`. -/
def mergeRound (ancestor loc remote : List ByteString) (acc : ByteString × Bool) (i : Nat) : ByteString × Bool :=
  let line := mergeLine (lineAt ancestor i) (lineAt loc i) (lineAt remote i)
  (acc.1 ++ line.1, acc.2 || line.2)

/-- `three_way_merge`. -/
def threeWayMerge (ancestor loc remote : ByteString) : MergeResult :=
  let ancestorLines := splitLines ancestor
  let localLines := splitLines loc
  let remoteLines := splitLines remote
  let maxLen := max (max ancestorLines.length localLines.length) remoteLines.length
  let (result, hasConflicts) := (List.range maxLen).foldl (mergeRound ancestorLines localLines remoteLines) ([], false)
  if hasConflicts then .conflictMarkers result else .clean result

/-! ## Lines -/

/-- A text that is empty or ends in a newline. -/
def Ended (data : ByteString) : Prop := ∀ b ∈ data.getLast?, b = newline

instance (data : ByteString) : Decidable (Ended data) := inferInstanceAs (Decidable (∀ b ∈ data.getLast?, b = newline))

/-- The newline that a text lacks. -/
def lacks (data : ByteString) : ByteString := if Ended data then [] else [newline]

/-- Lines, each with its newline. -/
def joinLines (lines : List ByteString) : ByteString := lines.flatMap (· ++ [newline])

theorem ended_append_cons {line rest : ByteString} : Ended (line ++ newline :: rest) ↔ Ended rest := by
  rw [Ended, Ended, List.getLast?_append]
  cases rest with
  | nil =>
    constructor
    · exact fun _ => nofun
    · rintro - b ⟨⟩
      rfl
  | cons b rest =>
    rw [List.getLast?_cons_cons, List.getLast?_eq_some_getLast (List.cons_ne_nil b rest), Option.some_or]

theorem joinLines_splitLoop {line : ByteString} (h : newline ∉ line) (data : ByteString) :
    joinLines (splitLoop line data) = line ++ data ++ lacks (line ++ data) := by
  induction data generalizing line with
  | nil =>
    rw [splitLoop, List.append_nil, lacks]
    split
    · next hnil =>
      subst hnil
      rw [if_pos (by exact fun b hb => nomatch hb)]
      rfl
    · next hne =>
      rw [if_neg, joinLines, List.flatMap_singleton]
      intro hended
      have hlast := List.getLast?_eq_some_getLast hne
      exact h (hended _ hlast ▸ List.getLast_mem hne)
  | cons b rest ih =>
    rw [splitLoop]
    split
    · next hb =>
      subst hb
      have hrest := @ih [] List.not_mem_nil
      rw [List.nil_append] at hrest
      have hlacks : lacks (line ++ newline :: rest) = lacks rest := if_congr ended_append_cons rfl rfl
      rw [joinLines, List.flatMap_cons, ← joinLines, hrest, hlacks, List.append_assoc line, List.append_assoc line,
        List.singleton_append, List.cons_append]
    · next hb =>
      have hline : newline ∉ line ++ [b] := by
        rw [List.mem_append, List.mem_singleton, not_or]
        exact ⟨h, Ne.symm hb⟩
      rw [ih hline, List.append_assoc line, List.singleton_append]

/-- **A text made of its lines again** ends in a newline. -/
theorem joinLines_splitLines (data : ByteString) : joinLines (splitLines data) = data ++ lacks data :=
  joinLines_splitLoop List.not_mem_nil data

/-- Lines beyond the end of a text are empty. -/
theorem flatMap_lineAt {lines : List ByteString} {n : Nat} (h : lines.length ≤ n) :
    ((List.range n).flatMap fun i => lineAt lines i ++ [newline]) =
      joinLines lines ++ List.replicate (n - lines.length) newline := by
  induction lines generalizing n with
  | nil =>
    clear h
    induction n with
    | zero => rfl
    | succ n ih =>
      rw [List.range_succ, List.flatMap_append, ih, List.flatMap_singleton]
      simp [joinLines, lineAt, List.replicate_succ']
  | cons line lines ih =>
    obtain ⟨n, rfl⟩ := Nat.exists_eq_add_of_le' h
    have hrest := ih (Nat.le_add_left lines.length n)
    rw [List.length_cons, ← Nat.add_assoc, List.range_succ_eq_map, List.flatMap_cons, List.flatMap_map, joinLines,
      List.flatMap_cons, ← joinLines, Nat.add_sub_add_right, List.append_assoc (line ++ [newline]), ← hrest]
    rfl

/-! ## The loop -/

section Merge

variable {a l r : ByteString}

theorem mergeLine_comm (h : (mergeLine a l r).2 = false) : mergeLine a r l = mergeLine a l r := by
  rw [mergeLine] at h
  rw [mergeLine, mergeLine]
  by_cases hlr : l = r
  · subst hlr
    rfl
  · rw [if_neg hlr] at h ⊢
    rw [if_neg (Ne.symm hlr)]
    by_cases hl : l = a
    · rw [if_pos hl, if_neg (fun hr => hlr (hl.trans hr.symm)), if_pos hl]
    · rw [if_neg hl] at h ⊢
      by_cases hr : r = a
      · rw [if_pos hr, if_neg hl, if_pos hr]
      · rw [if_neg hr] at h
        cases h

/-- Only the other side changed. -/
theorem mergeLine_left (a r : ByteString) : mergeLine a a r = (r ++ [newline], false) := by
  rw [mergeLine]
  split
  · next h => rw [h]
  · rw [if_pos rfl]

theorem mergeLine_right (a l : ByteString) : mergeLine a l a = (l ++ [newline], false) :=
  (mergeLine_comm (by rw [mergeLine_left])).trans (mergeLine_left a l)

theorem mergeLine_both (a l : ByteString) : mergeLine a l l = (l ++ [newline], false) := if_pos rfl

variable {as ls rs : List ByteString}

/-- The rounds: what each line adds, and whether there is a conflict. -/
theorem foldl_mergeRound (is : List Nat) (acc : ByteString × Bool) :
    is.foldl (mergeRound as ls rs) acc =
      (acc.1 ++ is.flatMap fun i => (mergeLine (lineAt as i) (lineAt ls i) (lineAt rs i)).1,
        acc.2 || is.any fun i => (mergeLine (lineAt as i) (lineAt ls i) (lineAt rs i)).2) := by
  induction is generalizing acc with
  | nil => rw [List.foldl_nil, List.flatMap_nil, List.append_nil, List.any_nil, Bool.or_false]
  | cons i is ih =>
    rw [List.foldl_cons, ih, mergeRound, List.flatMap_cons, List.any_cons, List.append_assoc, Bool.or_assoc]

/-- What round `i` of a merge adds. -/
def mergedAt (a l r : ByteString) (i : Nat) : ByteString × Bool :=
  mergeLine (lineAt (splitLines a) i) (lineAt (splitLines l) i) (lineAt (splitLines r) i)

/-- `max_len`. -/
def rounds (a l r : ByteString) : Nat := max (max (splitLines a).length (splitLines l).length) (splitLines r).length

/-- **A merge without conflicts** is one line after the other. -/
theorem threeWayMerge_eq_clean {m : ByteString} : threeWayMerge a l r = .clean m ↔
    (∀ i < rounds a l r, (mergedAt a l r i).2 = false) ∧
      m = (List.range (rounds a l r)).flatMap fun i => (mergedAt a l r i).1 := by
  have hany : (List.range (rounds a l r)).any (fun i => (mergedAt a l r i).2) = false ↔
      ∀ i < rounds a l r, (mergedAt a l r i).2 = false := by
    simp only [List.any_eq_false, List.mem_range, Bool.not_eq_true]
  rw [threeWayMerge, foldl_mergeRound, List.nil_append, Bool.false_or, ← hany]
  show (if (List.range (rounds a l r)).any (fun i => (mergedAt a l r i).2) = true then MergeResult.conflictMarkers _
    else MergeResult.clean ((List.range (rounds a l r)).flatMap fun i => (mergedAt a l r i).1)) = _ ↔ _
  split
  · next h =>
    constructor
    · exact nofun
    · rintro ⟨hnone, -⟩
      exact nomatch h.symm.trans hnone
  · next h =>
    rw [MergeResult.clean.injEq]
    exact ⟨fun hm => ⟨Bool.eq_false_iff.mpr h, hm.symm⟩, fun hm => hm.2.symm⟩

/-- **The sides may be exchanged.** -/
theorem threeWayMerge_comm {m : ByteString} (h : threeWayMerge a l r = .clean m) : threeWayMerge a r l = .clean m := by
  rw [threeWayMerge_eq_clean] at h ⊢
  obtain ⟨hnone, rfl⟩ := h
  have hrounds : rounds a r l = rounds a l r := max_right_comm _ _ _
  have hline : ∀ i < rounds a l r, mergedAt a r l i = mergedAt a l r i := fun i hi => mergeLine_comm (hnone i hi)
  rw [hrounds]
  refine ⟨fun i hi => ?_, List.flatMap_congr fun i hi => ?_⟩
  · rw [hline i hi]
    exact hnone i hi
  · rw [hline i (List.mem_range.mp hi)]

/-- Where every line of a merge is that of one text, the rest is empty lines. -/
theorem threeWayMerge_eq_self {data : ByteString}
    (hline : ∀ i, mergedAt a l r i = (lineAt (splitLines data) i ++ [newline], false))
    (hrounds : rounds a l r = max (splitLines a).length (splitLines data).length) :
    threeWayMerge a l r = .clean data ↔ Ended data ∧ (splitLines a).length ≤ (splitLines data).length := by
  rw [threeWayMerge_eq_clean, hrounds]
  simp only [hline, implies_true, true_and]
  rw [flatMap_lineAt (le_max_right _ _), joinLines_splitLines, List.append_assoc, List.self_eq_append_right,
    List.append_eq_nil_iff, List.replicate_eq_nil_iff, Nat.sub_eq_zero_iff_le, max_le_iff, lacks, ite_eq_left_iff]
  simp

end Merge

/-! ## The laws -/

/-- A change on one side is kept exactly, and the sides may be exchanged. -/
structure Laws (a l r : ByteString) : Prop where
  remoteOnly : threeWayMerge a a r = .clean r
  localOnly : threeWayMerge a l a = .clean l
  same : threeWayMerge a l l = .clean l
  comm : ∀ m, threeWayMerge a l r = .clean m → threeWayMerge a r l = .clean m

/-- **The laws hold** exactly where both versions end in a newline and have as many lines as the ancestor. -/
theorem laws_iff (a l r : ByteString) : Laws a l r ↔ (Ended l ∧ (splitLines a).length ≤ (splitLines l).length) ∧
    Ended r ∧ (splitLines a).length ≤ (splitLines r).length := by
  have hremote : threeWayMerge a a r = .clean r ↔ Ended r ∧ (splitLines a).length ≤ (splitLines r).length :=
    threeWayMerge_eq_self (fun i => mergeLine_left _ _) (by rw [rounds, max_self])
  have hlocal : threeWayMerge a l a = .clean l ↔ Ended l ∧ (splitLines a).length ≤ (splitLines l).length :=
    threeWayMerge_eq_self (fun i => mergeLine_right _ _) (by rw [rounds, max_right_comm, max_self])
  have hsame : threeWayMerge a l l = .clean l ↔ Ended l ∧ (splitLines a).length ≤ (splitLines l).length :=
    threeWayMerge_eq_self (fun i => mergeLine_both _ _) (by rw [rounds, max_assoc, max_self])
  constructor
  · exact fun h => ⟨hlocal.mp h.localOnly, hremote.mp h.remoteOnly⟩
  · exact fun ⟨hl, hr⟩ => ⟨hremote.mpr hr, hlocal.mpr hl, hsame.mpr hl, fun _ => threeWayMerge_comm⟩

/-- A last line without a newline gets one. -/
theorem threeWayMerge_adds : ¬ ∀ a l r : ByteString, Laws a l r := by
  intro h
  have hline := (h [] (utf8 "x") []).localOnly
  exact absurd hline (by decide)

end AthenaOS.AthSync
