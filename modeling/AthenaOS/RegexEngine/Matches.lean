import AthenaOS.RegexEngine.Threads

/-!
# All matches

`find_all` and `replace_all`. Both loops make the same searches, and both take a match that ends after
the start of its search for progress, even an empty one.
-/

namespace AthenaOS.RegexEngine

open Lib Lib.Offsets

/-! ## One search -/

/-- The search from character `k` finds the characters from `i` to `j`. -/
def Finds (re : Regex) (text : List Char) (k i j : Nat) : Prop :=
  re.matchFrom text (offset text k) = some (some ⟨offset text i, offset text j⟩)

/-- A search finds nothing, or characters from its start on. -/
def Searchable (re : Regex) (text : List Char) : Prop :=
  ∀ k ≤ text.length, re.matchFrom text (offset text k) = some none ∨
    ∃ i j, k ≤ i ∧ i ≤ j ∧ j ≤ text.length ∧ Finds re text k i j

/-- **Every compiled pattern can be searched for.** -/
theorem searchable {pattern : List Char} {re : Regex} (h : Regex.new pattern = .ok re) (text : List Char) :
    Searchable re text := by
  obtain ⟨ast, nGroups, hparse, rfl⟩ := Regex.new_eq h
  obtain ⟨hast, hgroups⟩ := parse_wf hparse
  intro k hk
  obtain ⟨found, hfound⟩ : ∃ found,
      Regex.matchFrom ⟨program ast, max (nGroups * 2) 2, nGroups⟩ text (offset text k) = some found := by
    rw [Regex.matchFrom, capturesFrom_offset hk]
    exact ⟨_, rfl⟩
  cases found with
  | none => exact .inl hfound
  | some m =>
    obtain ⟨i, j, hki, hij, hj, rfl, -⟩ := matchFrom_sound hast hgroups (Nat.le_max_right _ _) hk hfound
    exact .inr ⟨i, j, hki, hij, hj, hfound⟩

section Matches

variable {re : Regex} {text : List Char} {b i j k l i' j' : Nat}

/-- The loop of `next_char_boundary` goes on inside a character. -/
theorem nextCharBoundary_go (hk : k < text.length) (hlo : offset text k < b) (hhi : b ≤ offset text (k + 1)) :
    nextCharBoundary.go text b = offset text (k + 1) := by
  obtain ⟨d, hd⟩ := Nat.exists_eq_add_of_le hhi
  induction d generalizing b with
  | zero =>
    obtain rfl : offset text (k + 1) = b := hd
    have hboundary : isCharBoundary text (offset text (k + 1)) = true := by
      rw [isCharBoundary, charIndex_offset hk]
      rfl
    rw [nextCharBoundary.go, hboundary, if_neg (by simp)]
  | succ d ih =>
    have hinside : isCharBoundary text b = false := by
      rw [isCharBoundary, Option.isSome_eq_false_iff, Option.isNone_iff_eq_none]
      by_contra hne
      obtain ⟨m, hm⟩ := Option.ne_none_iff_exists'.mp hne
      obtain ⟨hmle, rfl⟩ := charIndex_eq_some hm
      have hlow : k < m := by
        by_contra hle
        exact absurd hlo (Nat.not_lt.mpr (offset_le (Nat.le_of_not_lt hle) (Nat.le_of_lt hk)))
      have hhigh : offset text (k + 1) ≤ offset text m := offset_le hlow hmle
      omega
    have hlen : offset text (k + 1) ≤ byteLen text := offset_length text ▸ offset_le hk (Nat.le_refl _)
    rw [nextCharBoundary.go, if_pos ⟨by omega, by rw [hinside]; rfl⟩]
    exact ih (by omega) (by omega) (by omega)

/-- One character on. -/
theorem nextCharBoundary_offset (hk : k < text.length) : nextCharBoundary text (offset text k) = offset text (k + 1) := by
  have hlt := offset_lt_succ hk
  have hlen := offset_lt hk (Nat.le_refl _)
  rw [offset_length] at hlen
  rw [nextCharBoundary, if_neg (Nat.not_le.mpr hlen)]
  exact nextCharBoundary_go hk (Nat.lt_succ_self _) hlt

/-! ## The loops -/

/-- The matches that the loops collect from character `k` on. -/
inductive Scan (re : Regex) (text : List Char) : Nat → List (Nat × Nat) → Prop
  | stop {k : Nat} : re.matchFrom text (offset text k) = some none → Scan re text k []
  | last : Finds re text text.length text.length text.length → Scan re text text.length [(text.length, text.length)]
  | ahead {k i j : Nat} {spans : List (Nat × Nat)} : k ≤ i → i ≤ j → j ≤ text.length → k < j → Finds re text k i j →
    Scan re text j spans → Scan re text k ((i, j) :: spans)
  | here {k : Nat} {spans : List (Nat × Nat)} : k < text.length → Finds re text k k k → Scan re text (k + 1) spans →
    Scan re text k ((k, k) :: spans)

/-- Every search is the beginning of a scan. -/
theorem Searchable.exists_scan (h : Searchable re text) (hk : k ≤ text.length) : ∃ spans, Scan re text k spans := by
  obtain ⟨d, hd⟩ := Nat.exists_eq_add_of_le hk
  induction d using Nat.strongRecOn generalizing k with
  | ind d ih =>
    rcases h k hk with hnone | ⟨i, j, hki, hij, hj, hfinds⟩
    · exact ⟨[], .stop hnone⟩
    rcases Nat.lt_or_ge k j with hkj | hjk
    · obtain ⟨spans, hspans⟩ := ih (text.length - j) (by omega) hj (by omega)
      exact ⟨_, .ahead hki hij hj hkj hfinds hspans⟩
    · obtain rfl : i = k := by omega
      obtain rfl : j = i := by omega
      rcases Nat.eq_or_lt_of_le hk with rfl | hlt
      · exact ⟨_, .last hfinds⟩
      · obtain ⟨spans, hspans⟩ := ih (text.length - (j + 1)) (by omega) hlt (by omega)
        exact ⟨_, .here hlt hfinds hspans⟩

/-- The bytes of a span of characters. -/
def toMatch (text : List Char) (span : Nat × Nat) : Match := ⟨offset text span.1, offset text span.2⟩

variable {spans all : List (Nat × Nat)} {rounds : Nat} {r : List Char}

theorem Scan.le (h : Scan re text k spans) (hk : k ≤ text.length) :
    ∀ span ∈ spans, k ≤ span.1 ∧ span.1 ≤ span.2 ∧ span.2 ≤ text.length := by
  induction h with
  | stop => simp
  | last => simp
  | ahead hki hij hj hkj _ _ ih =>
    rw [List.forall_mem_cons]
    refine ⟨⟨hki, hij, hj⟩, fun span hspan => ?_⟩
    obtain ⟨h₁, h₂, h₃⟩ := ih hj span hspan
    exact ⟨by omega, h₂, h₃⟩
  | here hlt _ _ ih =>
    rw [List.forall_mem_cons]
    refine ⟨⟨Nat.le_refl _, Nat.le_refl _, hk⟩, fun span hspan => ?_⟩
    obtain ⟨h₁, h₂, h₃⟩ := ih hlt span hspan
    exact ⟨by omega, h₂, h₃⟩

/-- **No match begins before the one in front of it ends.** -/
theorem Scan.pairwise (h : Scan re text k spans) (hk : k ≤ text.length) :
    spans.Pairwise fun span span' => span.2 ≤ span'.1 := by
  induction h with
  | stop => exact .nil
  | last => exact List.pairwise_singleton _ _
  | ahead _ _ hj _ _ hscan ih => exact .cons (fun span hspan => (hscan.le hj span hspan).1) (ih hj)
  | here hlt _ hscan ih =>
    exact .cons (fun span hspan => Nat.le_of_succ_le (hscan.le hlt span hspan).1) (ih hlt)

theorem offset_le_byteLen (hk : k ≤ text.length) : offset text k ≤ byteLen text :=
  offset_length text ▸ offset_le hk (Nat.le_refl _)

/-- A round that finds nothing. -/
theorem findAllLoop_none (hk : k ≤ text.length) (hnone : re.matchFrom text (offset text k) = some none) (rounds : Nat)
    (out : List Match) : findAllLoop re text (rounds + 1) (offset text k) out = some out := by
  rw [findAllLoop, if_neg (Nat.not_lt.mpr (offset_le_byteLen hk)), hnone]
  rfl

/-- A round that finds a match. -/
theorem findAllLoop_some (hk : k ≤ text.length) (hfinds : Finds re text k i j) (rounds : Nat) (out : List Match) :
    findAllLoop re text (rounds + 1) (offset text k) out =
      if offset text k < offset text j then
        findAllLoop re text rounds (offset text j) (out ++ [⟨offset text i, offset text j⟩])
      else if nextCharBoundary text (offset text j) ≤ offset text j ∧ byteLen text ≤ offset text j then
        some (out ++ [⟨offset text i, offset text j⟩])
      else findAllLoop re text rounds (nextCharBoundary text (offset text j)) (out ++ [⟨offset text i, offset text j⟩]) := by
  rw [findAllLoop, if_neg (Nat.not_lt.mpr (offset_le_byteLen hk)), show re.matchFrom text _ = _ from hfinds]
  rfl

/-- **`find_all` collects a scan.** -/
theorem findAllLoop_scan (h : Scan re text k spans) (hk : k ≤ text.length)
    (hrounds : text.length - k < rounds) (out : List Match) :
    findAllLoop re text rounds (offset text k) out = some (out ++ spans.map (toMatch text)) := by
  induction h generalizing rounds out with
  | stop hnone =>
    obtain ⟨rounds, rfl⟩ := Nat.exists_eq_add_of_lt hrounds
    rw [findAllLoop_none hk hnone, List.map_nil, List.append_nil]
  | last hfinds =>
    obtain ⟨rounds, rfl⟩ := Nat.exists_eq_add_of_lt hrounds
    have hnext : nextCharBoundary text (offset text text.length) = byteLen text := by
      rw [nextCharBoundary, if_pos (Nat.le_of_eq (offset_length text).symm)]
    rw [findAllLoop_some hk hfinds, if_neg (Nat.lt_irrefl _), if_pos]
    · rfl
    · rw [hnext, offset_length]
      exact ⟨Nat.le_refl _, Nat.le_refl _⟩
  | ahead _ _ hj hkj hfinds _ ih =>
    obtain ⟨rounds, rfl⟩ := Nat.exists_eq_add_of_lt hrounds
    rw [findAllLoop_some hk hfinds, if_pos (offset_lt hkj hj), ih hj (by omega), List.append_assoc]
    rfl
  | @here k spans hlt hfinds _ ih =>
    obtain ⟨rounds, rfl⟩ := Nat.exists_eq_add_of_lt hrounds
    have hstep := offset_lt_succ hlt
    rw [findAllLoop_some hk hfinds, if_neg (Nat.lt_irrefl _), nextCharBoundary_offset hlt,
      if_neg (fun h => absurd h.1 (Nat.not_le.mpr hstep)), ih hlt (by omega), List.append_assoc]
    rfl

/-! ## Replacing -/

/-- The text from byte `last` on with every span replaced by `r`. -/
def replaceSpans (text r : List Char) : Nat → List Match → Option (List Char)
  | last, [] => sliceFrom text last
  | last, m :: spans => do
    let gap ← slice text last m.first
    let rest ← replaceSpans text r m.last spans
    some (gap ++ r ++ rest)

/-- A replacement without `$` stands for itself. -/
theorem expandRepl_plain {caps : Captures} (hr : '$' ∉ r) : expandRepl caps text r = some r := by
  induction r with
  | nil => rfl
  | cons c r ih =>
    obtain ⟨hc, hr⟩ := not_or.mp (mt List.mem_cons.mpr hr)
    rw [expandRepl, ih hr]
    · rfl
    · exact fun _ _ h _ => hc h.symm

/-- A round of `replace_all` that finds nothing. -/
theorem replaceAllLoop_none (hk : k ≤ text.length)
    (hnone : re.matchFrom text (offset text k) = some none) (rounds last : Nat) (out : List Char) :
    replaceAllLoop re text r (rounds + 1) (offset text k) last out =
      (sliceFrom text last).map (out ++ ·) := by
  obtain ⟨caps, hcaps, hspan⟩ := Option.bind_eq_some_iff.mp hnone
  rw [replaceAllLoop, if_neg (Nat.not_lt.mpr (offset_le_byteLen hk)), hcaps]
  cases caps with
  | none => rfl
  | some caps =>
    have hspan : caps[0]?.join = none := Option.some.inj hspan
    simp only [Option.bind_eq_bind, Option.bind_some, hspan]

/-- A round that finds a match. -/
theorem replaceAllLoop_some (hr : '$' ∉ r) (hk : k ≤ text.length) (hl : l ≤ i)
    (hi : i ≤ text.length) (hfinds : Finds re text k i j) (rounds : Nat) (out : List Char) :
    replaceAllLoop re text r (rounds + 1) (offset text k) (offset text l) out =
      let out := out ++ (text.take i).drop l ++ r
      if offset text k < offset text j then replaceAllLoop re text r rounds (offset text j) (offset text j) out
      else if byteLen text ≤ offset text j then (sliceFrom text (offset text j)).map (out ++ ·)
      else replaceAllLoop re text r rounds (nextCharBoundary text (offset text j)) (offset text j) out := by
  obtain ⟨caps, hcaps, hspan⟩ := Option.bind_eq_some_iff.mp hfinds
  rw [replaceAllLoop, if_neg (Nat.not_lt.mpr (offset_le_byteLen hk)), hcaps]
  cases caps with
  | none => cases hspan
  | some caps =>
    have hspan : caps[0]?.join = some ⟨offset text i, offset text j⟩ := Option.some.inj hspan
    simp only [Option.bind_eq_bind, Option.bind_some, hspan]
    rw [slice_offset hl hi, expandRepl_plain hr]
    rfl

theorem replaceSpans_cons (hl : l ≤ i) (hi : i ≤ text.length) (spans : List (Nat × Nat))
    (out : List Char) :
    (replaceSpans text r (offset text l) (((i, j) :: spans).map (toMatch text))).map (out ++ ·) =
      (replaceSpans text r (offset text j) (spans.map (toMatch text))).map
        (out ++ (text.take i).drop l ++ r ++ ·) := by
  rw [List.map_cons, replaceSpans, show slice text _ (toMatch text (i, j)).first = _ from slice_offset hl hi]
  show ((replaceSpans text r (offset text j) (spans.map (toMatch text))).bind fun rest =>
    some ((text.take i).drop l ++ r ++ rest)).map _ = _
  cases replaceSpans text r (offset text j) (spans.map (toMatch text)) with
  | none => rfl
  | some rest => simp only [Option.bind_some, Option.map_some, List.append_assoc]

/-- **`replace_all` replaces the spans of a scan.** -/
theorem replaceAllLoop_scan (hr : '$' ∉ r) (h : Scan re text k spans) (hk : k ≤ text.length)
    (hl : l ≤ k) (hrounds : text.length - k < rounds) (out : List Char) :
    replaceAllLoop re text r rounds (offset text k) (offset text l) out =
      (replaceSpans text r (offset text l) (spans.map (toMatch text))).map (out ++ ·) := by
  induction h generalizing rounds out l with
  | stop hnone =>
    obtain ⟨rounds, rfl⟩ := Nat.exists_eq_add_of_lt hrounds
    exact replaceAllLoop_none hk hnone _ _ _
  | last hfinds =>
    obtain ⟨rounds, rfl⟩ := Nat.exists_eq_add_of_lt hrounds
    rw [replaceAllLoop_some hr hk hl (Nat.le_refl _) hfinds, if_neg (Nat.lt_irrefl _),
      if_pos (Nat.le_of_eq (offset_length text).symm), replaceSpans_cons hl (Nat.le_refl _)]
    rfl
  | ahead hki hij hj hkj hfinds _ ih =>
    obtain ⟨rounds, rfl⟩ := Nat.exists_eq_add_of_lt hrounds
    have hl := Nat.le_trans hl hki
    have hi := Nat.le_trans hij hj
    rw [replaceAllLoop_some hr hk hl hi hfinds, if_pos (offset_lt hkj hj), ih hj (Nat.le_refl _) (by omega),
      replaceSpans_cons hl hi]
  | @here k spans hlt hfinds _ ih =>
    obtain ⟨rounds, rfl⟩ := Nat.exists_eq_add_of_lt hrounds
    have hend := offset_lt hlt (Nat.le_refl _)
    rw [offset_length] at hend
    rw [replaceAllLoop_some hr hk hl hk hfinds, if_neg (Nat.lt_irrefl _), if_neg (Nat.not_le.mpr hend),
      nextCharBoundary_offset hlt, ih hlt (Nat.le_succ k) (by omega), replaceSpans_cons hl hk]

/-! ## Matches found twice -/

/-- The bytes that the two loops search from. -/
inductive Searches (re : Regex) (text : List Char) : Nat → Prop
  | zero : Searches re text 0
  | ahead {b : Nat} {m : Match} : Searches re text b → re.matchFrom text b = some (some m) → b < m.last →
    Searches re text m.last
  | here {b : Nat} {m : Match} : Searches re text b → re.matchFrom text b = some (some m) → ¬ b < m.last →
    m.last < byteLen text → Searches re text (nextCharBoundary text m.last)

/-- No search finds an empty match ahead of its start that the search from there finds again. -/
def FindsOnce (re : Regex) (text : List Char) : Prop :=
  ∀ b p, Searches re text b → b < p → re.matchFrom text b = some (some ⟨p, p⟩) →
    re.matchFrom text p ≠ some (some ⟨p, p⟩)

/-- What a list of matches in a text should be. -/
structure NonOverlapping (text : List Char) (spans : List Match) : Prop where
  distinct : spans.Nodup
  boundaries : ∀ m ∈ spans, isCharBoundary text m.first ∧ isCharBoundary text m.last ∧ m.first ≤ m.last
  ordered : spans.Pairwise fun m m' => m.last ≤ m'.first

/-- A scan starts where one of the searches does, and is the rest of what the loops collect. -/
theorem Searches.exists_suffix (h : Searches re text b) (hall : Scan re text 0 all) :
    ∃ k pre spans, k ≤ text.length ∧ b = offset text k ∧ all = pre ++ spans ∧
      Scan re text k spans := by
  induction h with
  | zero => exact ⟨0, [], all, Nat.zero_le _, (offset_zero text).symm, rfl, hall⟩
  | ahead _ hm hlt ih =>
    obtain ⟨k, pre, spans, hk, rfl, rfl, hspans⟩ := ih
    cases hspans with
    | stop hnone => exact nomatch hnone.symm.trans hm
    | last hfinds =>
      obtain rfl := Option.some.inj (Option.some.inj (hm.symm.trans hfinds))
      exact absurd hlt (Nat.lt_irrefl _)
    | ahead hki hij hj hkj hfinds hrest =>
      obtain rfl := Option.some.inj (Option.some.inj (hm.symm.trans hfinds))
      exact ⟨_, _, _, hj, rfl, (List.append_cons ..), hrest⟩
    | here hlt' hfinds hrest =>
      obtain rfl := Option.some.inj (Option.some.inj (hm.symm.trans hfinds))
      exact absurd hlt (Nat.lt_irrefl _)
  | here _ hm hle hend ih =>
    obtain ⟨k, pre, spans, hk, rfl, rfl, hspans⟩ := ih
    cases hspans with
    | stop hnone => exact nomatch hnone.symm.trans hm
    | last hfinds =>
      obtain rfl := Option.some.inj (Option.some.inj (hm.symm.trans hfinds))
      exact absurd hend (Nat.not_lt.mpr (Nat.le_of_eq (offset_length text).symm))
    | ahead hki hij hj hkj hfinds hrest =>
      obtain rfl := Option.some.inj (Option.some.inj (hm.symm.trans hfinds))
      exact absurd (offset_lt hkj hj) hle
    | here hlt hfinds hrest =>
      obtain rfl := Option.some.inj (Option.some.inj (hm.symm.trans hfinds))
      exact ⟨_, _, _, hlt, nextCharBoundary_offset hlt, (List.append_cons ..), hrest⟩

/-- Found once, a span is not there twice. -/
theorem Scan.nodup (h : Scan re text k spans) (hk : k ≤ text.length)
    (hsearch : Searches re text (offset text k)) (honce : FindsOnce re text) : spans.Nodup := by
  induction h with
  | stop => exact List.nodup_nil
  | last => exact List.nodup_singleton _
  | @ahead k i j spans _ hij hj hkj hfinds hrest ih =>
    refine List.nodup_cons.mpr ⟨fun hmem => ?_, ih hj (.ahead hsearch hfinds (offset_lt hkj hj))⟩
    obtain rfl : i = j := Nat.le_antisymm hij (hrest.le hj _ hmem).1
    have hagain := honce _ _ hsearch (offset_lt hkj hj) hfinds
    cases hrest with
    | stop => cases hmem
    | last hfinds' => exact hagain hfinds'
    | ahead _ _ hj' hlt _ hrest =>
      rcases List.mem_cons.mp hmem with heq | hmem
      · obtain ⟨-, rfl⟩ := Prod.mk.inj heq
        exact absurd hlt (Nat.lt_irrefl _)
      · exact absurd (hrest.le hj' _ hmem).1 (Nat.not_le.mpr hlt)
    | here _ hfinds' _ => exact hagain hfinds'
  | @here k spans hlt hfinds hrest ih =>
    have hnext := Searches.here hsearch hfinds (Nat.lt_irrefl _) (offset_length text ▸ offset_lt hlt (Nat.le_refl _))
    refine List.nodup_cons.mpr ⟨fun hmem => ?_, ih hlt (nextCharBoundary_offset hlt ▸ hnext)⟩
    exact absurd (hrest.le hlt _ hmem).1 (Nat.not_succ_le_self k)

/-- Without duplicates nothing was found twice. -/
theorem Scan.findsOnce (hall : Scan re text 0 all) (hnodup : all.Nodup) : FindsOnce re text := by
  intro b p hsearch hlt hm hagain
  obtain ⟨k, pre, spans, hk, rfl, rfl, hspans⟩ := hsearch.exists_suffix hall
  have hnodup := (List.nodup_append.mp hnodup).2.1
  cases hspans with
  | stop hnone => exact nomatch hnone.symm.trans hm
  | last hfinds =>
    obtain ⟨rfl, -⟩ := Match.mk.injEq .. ▸ Option.some.inj (Option.some.inj (hm.symm.trans hfinds))
    exact absurd hlt (Nat.lt_irrefl _)
  | here _ hfinds _ =>
    obtain ⟨rfl, -⟩ := Match.mk.injEq .. ▸ Option.some.inj (Option.some.inj (hm.symm.trans hfinds))
    exact absurd hlt (Nat.lt_irrefl _)
  | @ahead _ i j rest _ hij hj _ hfinds hrest =>
    obtain ⟨rfl, hj'⟩ := Match.mk.injEq .. ▸ Option.some.inj (Option.some.inj (hm.symm.trans hfinds))
    obtain rfl := offset_inj (Nat.le_trans hij hj) hj hj'
    cases hrest with
    | stop hnone => exact nomatch hnone.symm.trans hagain
    | last => exact (List.nodup_cons.mp hnodup).1 List.mem_cons_self
    | here => exact (List.nodup_cons.mp hnodup).1 List.mem_cons_self
    | ahead _ _ hj' hlt' hfinds' _ =>
      obtain ⟨-, heq⟩ := Match.mk.injEq .. ▸ Option.some.inj (Option.some.inj (hagain.symm.trans hfinds'))
      exact absurd (offset_lt hlt' hj') (Nat.not_lt.mpr (Nat.le_of_eq heq.symm))

theorem Scan.exists_replaced (h : Scan re text k spans) (hk : k ≤ text.length) (hl : l ≤ k)
    (r : List Char) :
    ∃ out, replaceSpans text r (offset text l) (spans.map (toMatch text)) = some out := by
  have hcons : ∀ {i j : Nat} {spans : List (Nat × Nat)} {l : Nat}, l ≤ i → i ≤ text.length →
      (∃ out, replaceSpans text r (offset text j) (spans.map (toMatch text)) = some out) →
      ∃ out, replaceSpans text r (offset text l) (((i, j) :: spans).map (toMatch text)) = some out := by
    rintro i j spans l hl hi ⟨out, hout⟩
    have h := replaceSpans_cons (r := r) (j := j) hl hi spans []
    rw [hout, Option.map_some] at h
    obtain ⟨out', hout', -⟩ := Option.map_eq_some_iff.mp h
    exact ⟨out', hout'⟩
  induction h generalizing l with
  | stop => exact ⟨_, sliceFrom_offset (Nat.le_trans hl hk)⟩
  | last => exact hcons hl (Nat.le_refl _) ⟨_, sliceFrom_offset (Nat.le_refl _)⟩
  | ahead hki hij hj _ _ _ ih => exact hcons (Nat.le_trans hl hki) (Nat.le_trans hij hj) (ih hj (Nat.le_refl _))
  | here hlt _ _ ih => exact hcons hl hk (ih hlt (Nat.le_succ _))

theorem toMatch_inj {span span' : Nat × Nat} (h : span.1 ≤ text.length) (h' : span'.1 ≤ text.length)
    (h₂ : span.2 ≤ text.length) (h₂' : span'.2 ≤ text.length) (heq : toMatch text span = toMatch text span') :
    span = span' := by
  obtain ⟨hfirst, hlast⟩ := Match.mk.injEq .. ▸ heq
  exact Prod.ext (offset_inj h h' hfirst) (offset_inj h₂ h₂' hlast)

/-- **What the two loops do** with a compiled pattern: they return, the matches are in order and on
boundaries, and `replace_all` replaces just them. -/
theorem findAll_scan {pattern : List Char} (h : Regex.new pattern = .ok re) (text : List Char) :
    ∃ spans, Scan re text 0 spans ∧ re.findAll text = some (spans.map (toMatch text)) ∧
      ∀ r, '$' ∉ r → ∃ out, re.replaceAll text r = some out ∧
        replaceSpans text r 0 (spans.map (toMatch text)) = some out := by
  obtain ⟨spans, hscan⟩ := (searchable h text).exists_scan (Nat.zero_le _)
  have hlen : text.length - 0 < byteLen text + 2 := by
    have hle : ∀ s : List Char, s.length ≤ byteLen s := by
      intro s
      induction s with
      | nil => exact Nat.le_refl 0
      | cons c s ih =>
        have := c.utf8Size_pos
        have hcons : byteLen (c :: s) = c.utf8Size + byteLen s := rfl
        rw [hcons, List.length_cons]
        omega
    have := hle text
    omega
  refine ⟨spans, hscan, ?_, fun r hr => ?_⟩
  · exact findAllLoop_scan hscan (Nat.zero_le _) hlen []
  · obtain ⟨out, hout⟩ := hscan.exists_replaced (Nat.zero_le _) (Nat.le_refl 0) r
    refine ⟨out, ?_, hout⟩
    have hloop := replaceAllLoop_scan hr hscan (Nat.zero_le _) (Nat.le_refl 0) hlen []
    rw [hout] at hloop
    exact hloop

/-- **The matches are distinct, and each is replaced once**, exactly where no empty match ahead of a search is
found again. -/
theorem findAll_iff {pattern : List Char} (h : Regex.new pattern = .ok re) (text : List Char) :
    (∃ spans, re.findAll text = some spans ∧ NonOverlapping text spans ∧
      ∀ r, '$' ∉ r → ∃ out, re.replaceAll text r = some out ∧ replaceSpans text r 0 spans = some out) ↔
    FindsOnce re text := by
  obtain ⟨spans, hscan, hfind, hreplace⟩ := findAll_scan h text
  have hle := hscan.le (Nat.zero_le _)
  constructor
  · rintro ⟨_, hfind', hspans, -⟩
    obtain rfl := Option.some.inj (hfind.symm.trans hfind')
    exact hscan.findsOnce (List.Nodup.of_map _ hspans.distinct)
  · intro honce
    refine ⟨_, hfind, ⟨?_, ?_, ?_⟩, hreplace⟩
    · refine (hscan.nodup (Nat.zero_le _) .zero honce).map_on fun span hspan span' hspan' heq => ?_
      obtain ⟨-, h₁, h₂⟩ := hle span hspan
      obtain ⟨-, h₁', h₂'⟩ := hle span' hspan'
      exact toMatch_inj (Nat.le_trans h₁ h₂) (Nat.le_trans h₁' h₂') h₂ h₂' heq
    · intro m hm
      obtain ⟨span, hspan, rfl⟩ := List.mem_map.mp hm
      obtain ⟨-, h₁, h₂⟩ := hle span hspan
      refine ⟨?_, ?_, offset_le h₁ h₂⟩
      · rw [isCharBoundary, toMatch, charIndex_offset (Nat.le_trans h₁ h₂)]
        rfl
      · rw [isCharBoundary, toMatch, charIndex_offset h₂]
        rfl
    · refine List.pairwise_map.mpr ((hscan.pairwise (Nat.zero_le _)).imp_of_mem ?_)
      intro span span' hspan hspan' hord
      obtain ⟨-, h₁', h₂'⟩ := hle span' hspan'
      exact offset_le hord (Nat.le_trans h₁' h₂')

end Matches

/-- The compiled `b*`. -/
def star : Regex := ⟨[.save 0, .split 2 4, .char 'b', .jmp 1, .save 1, .accept], 2, 1⟩

/-- Where `abba` is searched for `b*`, and what each search finds: empty matches where it starts,
and the two in the middle. -/
theorem searches_star {b : Nat} (h : Searches star ['a', 'b', 'b', 'a'] b) :
    (b, star.matchFrom ['a', 'b', 'b', 'a'] b) ∈
      [(0, some (some ⟨0, 0⟩)), (1, some (some ⟨1, 3⟩)), (3, some (some ⟨3, 3⟩)),
        (4, some (some ⟨4, 4⟩))] := by
  induction h with
  | zero => decide +kernel
  | ahead _ hm hlt ih =>
    rw [hm] at ih
    simp only [List.mem_cons, List.not_mem_nil, or_false, Prod.mk.injEq, Option.some.injEq] at ih
    obtain ⟨rfl, rfl⟩ | ⟨rfl, rfl⟩ | ⟨rfl, rfl⟩ | ⟨rfl, rfl⟩ := ih
    · exact absurd hlt (Nat.lt_irrefl _)
    · decide +kernel
    · exact absurd hlt (Nat.lt_irrefl _)
    · exact absurd hlt (Nat.lt_irrefl _)
  | here _ hm hle hend ih =>
    rw [hm] at ih
    simp only [List.mem_cons, List.not_mem_nil, or_false, Prod.mk.injEq, Option.some.injEq] at ih
    obtain ⟨rfl, rfl⟩ | ⟨rfl, rfl⟩ | ⟨rfl, rfl⟩ | ⟨rfl, rfl⟩ := ih
    · decide +kernel
    · exact absurd (by decide) hle
    · decide +kernel
    · exact absurd hend (by decide)

theorem findAll_iff_star : ∃ spans, star.findAll ['a', 'b', 'b', 'a'] = some spans ∧
    NonOverlapping ['a', 'b', 'b', 'a'] spans ∧ ∀ r, '$' ∉ r → ∃ out,
      star.replaceAll ['a', 'b', 'b', 'a'] r = some out ∧
        replaceSpans ['a', 'b', 'b', 'a'] r 0 spans = some out := by
  refine (findAll_iff (show Regex.new ['b', '*'] = .ok star by decide) ['a', 'b', 'b', 'a']).mpr ?_
  intro b p hsearch hlt hm
  have hfound := searches_star hsearch
  rw [hm] at hfound
  simp only [List.mem_cons, List.not_mem_nil, or_false, Prod.mk.injEq, Option.some.injEq,
    Match.mk.injEq] at hfound
  omega

/-- The compiled `$`. -/
def dollar : Regex := ⟨[.save 0, .assertEnd, .save 1, .accept], 2, 1⟩

/-- `$` matches the end of a text, and once more. -/
theorem findAll_repeats : ¬ ∀ (pattern : List Char) (re : Regex) (text : List Char), Regex.new pattern = .ok re →
    ∃ spans, re.findAll text = some spans ∧ NonOverlapping text spans ∧
      ∀ r, '$' ∉ r → ∃ out, re.replaceAll text r = some out ∧ replaceSpans text r 0 spans = some out := by
  intro h
  obtain ⟨spans, hfind, hspans, -⟩ := h ['$'] dollar ['a', 'b'] (by decide)
  have htwice : dollar.findAll ['a', 'b'] = some [⟨2, 2⟩, ⟨2, 2⟩] := by decide +kernel
  obtain rfl := Option.some.inj (hfind.symm.trans htwice)
  exact absurd hspans.distinct (by decide)

end AthenaOS.RegexEngine
