import AthenaOS.RegexEngine.Paths

/-!
# What a thread carries

A thread comes along a path from the program's start. The search keeps that, whatever the stamps in
`seen` are.
-/

namespace AthenaOS.RegexEngine

open Lib Lib.Offsets

/-! ## Steps of a text -/

/-- The steps from character `i` on. -/
def stepsAt (text : List Char) (i : Nat) : List (Char × Nat) := charIndices (offset text i) (text.drop i)

section Steps

variable {text : List Char} {i : Nat} {c : Char}

theorem stepsAt_cons (h : text[i]? = some c) : stepsAt text i = (c, offset text i) :: stepsAt text (i + 1) := by
  obtain ⟨hlt, rfl⟩ := List.getElem?_eq_some_iff.mp h
  rw [stepsAt, List.drop_eq_getElem_cons hlt, charIndices, stepsAt, offset_succ h]

theorem stepsAt_end (h : text.length ≤ i) : stepsAt text i = [] := by
  rw [stepsAt, List.drop_eq_nil_of_le h]
  rfl

theorem byteAt_stepsAt (h : i ≤ text.length) : byteAt (byteLen text) (stepsAt text i) = offset text i := by
  rcases hc : text[i]? with _ | c
  · obtain rfl := Nat.le_antisymm h (List.getElem?_eq_none_iff.mp hc)
    rw [stepsAt_end (Nat.le_refl _), offset_length]
    rfl
  · rw [stepsAt_cons hc]
    rfl

theorem isEmpty_stepsAt (h : i ≤ text.length) : (stepsAt text i).isEmpty = decide (i = text.length) := by
  rcases hc : text[i]? with _ | c
  · obtain rfl := Nat.le_antisymm h (List.getElem?_eq_none_iff.mp hc)
    rw [stepsAt_end (Nat.le_refl _)]
    simp
  · have hlt := (List.getElem?_eq_some_iff.mp hc).1
    rw [stepsAt_cons hc, decide_eq_false (Nat.ne_of_lt hlt)]
    rfl

theorem head_stepsAt (text : List Char) (i : Nat) : (stepsAt text i).head?.map (·.1) = text[i]? := by
  rcases hc : text[i]? with _ | c
  · rw [stepsAt_end (List.getElem?_eq_none_iff.mp hc)]
    rfl
  · rw [stepsAt_cons hc]
    rfl

end Steps

/-! ## Properties that the search keeps -/

section All

variable {prog : Prog} {gen : BitVec 32} {posByte : Nat} {s e : Bool} {P : Nat → Slots → Prop}

/-- All that `add_thread` adds comes from its stack. -/
theorem addThread_all (hfollow : ∀ pc cur inst next, P pc cur → prog[pc]? = some inst →
      inst.follow pc cur posByte s e = some next → ∀ entry ∈ next, P entry.1 entry.2)
    (stack : List (Nat × Slots)) (seen : Seen) (list : List Thread) (hstack : ∀ entry ∈ stack, P entry.1 entry.2)
    (hlist : ∀ t ∈ list, P t.pc t.slots) :
    ∀ t ∈ (addThread prog gen posByte s e stack seen list).2, P t.pc t.slots := by
  induction stack, seen, list using addThread.induct prog gen posByte s e with
  | case1 seen list => rwa [addThread_nil]
  | case2 pc cur stack seen list inst hinst hseen ih =>
    rw [addThread_seen hinst hseen]
    exact ih (fun entry hentry => hstack entry (List.mem_cons_of_mem _ hentry)) hlist
  | case3 pc cur stack seen list inst stamp hseen hinst hne next hnext ih =>
    rw [addThread_follow hinst hseen hne hnext]
    refine ih (fun entry hentry => ?_) hlist
    rcases List.mem_append.mp hentry with hentry | hentry
    · exact hfollow pc cur inst next (hstack _ List.mem_cons_self) hinst hnext entry hentry
    · exact hstack entry (List.mem_cons_of_mem _ hentry)
  | case4 pc cur stack seen list inst stamp hseen hinst hne hnone ih =>
    rw [addThread_waits hinst hseen hne hnone]
    refine ih (fun entry hentry => hstack entry (List.mem_cons_of_mem _ hentry)) fun t ht => ?_
    rcases List.mem_append.mp ht with ht | ht
    · exact hlist t ht
    · obtain rfl := List.mem_singleton.mp ht
      exact hstack _ List.mem_cons_self
  | case5 pc cur stack seen list hskip ih =>
    rw [addThread_skip hskip]
    exact ih (fun entry hentry => hstack entry (List.mem_cons_of_mem _ hentry)) hlist

/-- All threads of the next position come from one of this position, and so does what accepts. -/
theorem advance_all (prog : Prog) (gen : BitVec 32) (ch : Option Char) (posByte : Nat) (e : Bool)
    {P Q : Nat → Slots → Prop}
    (hreads : ∀ pc cur inst c, P pc cur → prog[pc]? = some inst → ch = some c → inst.reads c = true → Q (pc + 1) cur)
    (hfollow : ∀ pc cur inst next, Q pc cur → prog[pc]? = some inst →
      inst.follow pc cur posByte false e = some next → ∀ entry ∈ next, Q entry.1 entry.2)
    (clist : List Thread) (seen : Seen) (nlist : List Thread) (hclist : ∀ t ∈ clist, P t.pc t.slots)
    (hnlist : ∀ t ∈ nlist, Q t.pc t.slots) :
    (∀ t ∈ (advance prog gen ch posByte e clist seen nlist).2.1, Q t.pc t.slots) ∧
      ∀ slots, (advance prog gen ch posByte e clist seen nlist).2.2 = some slots →
        ∃ pc, P pc slots ∧ prog[pc]? = some .accept := by
  induction clist generalizing seen nlist with
  | nil => exact ⟨hnlist, nofun⟩
  | cons t clist ih =>
    have ht := hclist t List.mem_cons_self
    have hrest : ∀ t ∈ clist, P t.pc t.slots := fun t ht => hclist t (List.mem_cons_of_mem _ ht)
    rw [advance]
    split
    · next haccept =>
      refine ⟨hnlist, ?_⟩
      rintro _ ⟨⟩
      exact ⟨t.pc, ht, haccept⟩
    · next inst _ hinst =>
      split
      · next hany =>
        obtain ⟨c, hc, hread⟩ := (Option.any_eq_true _ _).mp hany
        refine ih _ _ hrest (addThread_all hfollow _ _ _ (fun entry hentry => ?_) hnlist)
        obtain rfl := List.mem_singleton.mp hentry
        exact hreads t.pc t.slots inst c ht hinst hc hread
      · exact ih _ _ hrest hnlist
    · exact ih _ _ hrest hnlist

end All

/-- A property of a thread at a position that the instructions keep. -/
structure Kept (re : Regex) (text : List Char) (k : Nat) (I : Nat → Nat → Slots → Prop) : Prop where
  seed : ∀ i, k ≤ i → i ≤ text.length → I i 0 (List.replicate re.nSlots none)
  silent : ∀ i pc cur inst next, I i pc cur → re.prog[pc]? = some inst →
    inst.follow pc cur (offset text i) (i = 0) (i = text.length) = some next → ∀ entry ∈ next, I i entry.1 entry.2
  reads : ∀ i pc cur inst c, I i pc cur → re.prog[pc]? = some inst → text[i]? = some c → inst.reads c = true →
    I (i + 1) (pc + 1) cur

section Run

variable {re : Regex} {text : List Char} {k i : Nat} {I : Nat → Nat → Slots → Prop} {s : Search}

/-- What is left after a character. -/
theorem tail_stepsAt (h : i < text.length) : (stepsAt text i).tail = stepsAt text (i + 1) := by
  rw [stepsAt_cons (List.getElem?_eq_getElem h), List.tail_cons]

/-- One position. -/
theorem Kept.round (hI : Kept re text k I) (hk : k ≤ i) (hi : i ≤ text.length)
    (hs : ∀ t ∈ s.clist, I i t.pc t.slots) :
    (∀ t ∈ (s.round re (byteLen text) (i = 0) (stepsAt text i)).clist, I (i + 1) t.pc t.slots) ∧
      ∀ slots, (s.round re (byteLen text) (i = 0) (stepsAt text i)).matched = some slots →
        s.matched = some slots ∨ ∃ pc, I i pc slots ∧ re.prog[pc]? = some .accept := by
  have hseed : ∀ t ∈ (s.seed re (byteLen text) (i = 0) (stepsAt text i)).2, I i t.pc t.slots := by
    rw [Search.seed, byteAt_stepsAt hi, isEmpty_stepsAt hi]
    split
    · refine addThread_all (hI.silent i) _ _ _ (fun entry hentry => ?_) hs
      obtain rfl := List.mem_singleton.mp hentry
      exact hI.seed i hk hi
    · exact hs
  obtain ⟨hnlist, haccept⟩ := advance_all re.prog (s.gen + 1 + 1) text[i]?
    (byteAt (byteLen text) (stepsAt text i).tail) (stepsAt text i).tail.isEmpty
    (P := I i) (Q := fun pc cur => i < text.length ∧ I (i + 1) pc cur)
    (fun pc cur inst c h hinst hc hread => ⟨(List.getElem?_eq_some_iff.mp hc).1, hI.reads i pc cur inst c h hinst hc hread⟩)
    (fun pc cur inst next h hinst hnext entry hentry => by
      have hlt := h.1
      rw [tail_stepsAt hlt, byteAt_stepsAt hlt, isEmpty_stepsAt hlt] at hnext
      exact ⟨hlt, hI.silent (i + 1) pc cur inst next h.2 hinst hnext entry hentry⟩)
    _ (s.seed re (byteLen text) (i = 0) (stepsAt text i)).1 [] hseed (by simp)
  rw [Search.round, head_stepsAt]
  refine ⟨fun t ht => (hnlist t ht).2, fun slots hslots => ?_⟩
  rcases Option.or_eq_some_iff.mp hslots with hnew | ⟨-, hold⟩
  · exact .inr (haccept slots hnew)
  · exact .inl hold

/-- **All positions from `i` on.** -/
theorem Kept.run (hI : Kept re text k I) (hk : k ≤ i) (hi : i ≤ text.length)
    (hs : ∀ t ∈ s.clist, I i t.pc t.slots) {slots : Slots}
    (hmatched : (Search.run re (byteLen text) (i = 0) (stepsAt text i) s).matched = some slots) :
    s.matched = some slots ∨ ∃ j pc, j ≤ text.length ∧ I j pc slots ∧ re.prog[pc]? = some .accept := by
  obtain ⟨d, hd⟩ := Nat.exists_eq_add_of_le hi
  obtain ⟨hclist, haccept⟩ := hI.round hk hi hs
  induction d generalizing i s with
  | zero =>
    rw [stepsAt_end (by omega), Search.run, ← @stepsAt_end text i (by omega)] at hmatched
    exact (haccept slots hmatched).imp_right fun ⟨pc, h⟩ => ⟨i, pc, hi, h⟩
  | succ d ih =>
    have hlt : i < text.length := by omega
    rw [stepsAt_cons (List.getElem?_eq_getElem hlt), Search.run, ← stepsAt_cons (List.getElem?_eq_getElem hlt)]
      at hmatched
    obtain ⟨hclist', haccept'⟩ := hI.round (i := i + 1) (by omega) hlt hclist
    rcases ih (i := i + 1) (by omega) hlt hclist hmatched (by omega) hclist' haccept' with hmatched | hmatched
    · exact (haccept slots hmatched).imp_right fun ⟨pc, h⟩ => ⟨i, pc, hi, h⟩
    · exact .inr hmatched

end Run

/-! ## Slots 0 and 1 -/

/-- A thread of the search from character `k`: it started at some `j`, and slot 1 is right where it accepts. -/
def Carries (ast : Ast) (text : List Char) (nSlots k i pc : Nat) (cur : Slots) : Prop :=
  cur.length = nSlots ∧ (pc = 0 ∨ 1 ≤ pc ∧ ∃ j, k ≤ j ∧ j ≤ i ∧ cur[0]? = some (some (offset text j)) ∧
    Path (program ast) text (0, j) (pc, i) ∧ (pc = ast.last + 1 → cur[1]? = some (some (offset text i))))

section Carries

variable {ast : Ast} {text : List Char} {nSlots nGroups k i pc : Nat} {cur : Slots} {inst : Inst}

/-- Instructions of the code keep slot 0, and stay in the code or get to its end. -/
theorem follow_within {hi posByte : Nat} {s e : Bool} {next : List (Nat × Slots)} (hwithin : inst.Within 1 hi)
    (hpc : pc < hi) (hnext : inst.follow pc cur posByte s e = some next) :
    ∀ entry ∈ next, 1 ≤ entry.1 ∧ entry.1 ≤ hi ∧ entry.2.length = cur.length ∧ entry.2[0]? = cur[0]? := by
  intro entry hentry
  cases inst with
  | jmp t =>
    obtain rfl := Option.some.inj hnext
    obtain rfl := List.mem_singleton.mp hentry
    exact ⟨hwithin.1, hwithin.2, rfl, rfl⟩
  | split a b =>
    obtain rfl := Option.some.inj hnext
    rcases List.mem_cons.mp hentry with rfl | hentry
    · exact ⟨hwithin.1.1, hwithin.1.2, rfl, rfl⟩
    · obtain rfl := List.mem_singleton.mp hentry
      exact ⟨hwithin.2.1, hwithin.2.2, rfl, rfl⟩
  | save slot =>
    obtain rfl := Option.some.inj hnext
    obtain rfl := List.mem_singleton.mp hentry
    have hslot : slot ≠ 0 := Nat.ne_of_gt (Nat.lt_of_lt_of_le Nat.two_pos hwithin)
    exact ⟨Nat.le_add_left 1 pc, hpc, List.length_set, List.getElem?_set_ne hslot⟩
  | assertStart | assertEnd =>
    obtain rfl := Option.some.inj hnext
    split at hentry
    · obtain rfl := List.mem_singleton.mp hentry
      exact ⟨Nat.le_add_left 1 pc, hpc, rfl, rfl⟩
    · cases hentry
  | _ => cases hnext

/-- **The search keeps what threads carry.** -/
theorem kept_carries (hast : ast.Wf) (hslots : 2 ≤ nSlots) :
    Kept ⟨program ast, nSlots, nGroups⟩ text k fun i pc cur => k ≤ i ∧ Carries ast text nSlots k i pc cur where
  seed i hk _ := ⟨hk, List.length_replicate, .inl rfl⟩
  silent i pc cur inst next := by
    rintro ⟨hk, hlen, hpc⟩ hinst hnext entry hentry
    have hstep : Step (program ast) text (pc, i) (entry.1, i) := by
      refine .silent hinst ?_
      rw [Inst.succs_of_follow hnext]
      exact List.mem_map_of_mem hentry
    refine ⟨hk, ?_⟩
    rcases program_inst hast hinst with ⟨rfl, rfl⟩ | ⟨hpos, hlt, hwithin⟩ | ⟨rfl, rfl⟩ | ⟨rfl, rfl⟩
    · -- the start of a thread
      obtain rfl := Option.some.inj hnext
      obtain rfl := List.mem_singleton.mp hentry
      refine ⟨(List.length_set).trans hlen, .inr ⟨Nat.le_refl 1, i, hk, Nat.le_refl i, ?_, .single hstep, ?_⟩⟩
      · exact List.getElem?_set_self (by omega)
      · intro h
        rw [Ast.last] at h
        omega
    · obtain ⟨hone, hle, hlen', hzero⟩ := follow_within hwithin hlt hnext entry hentry
      obtain ⟨-, j, hkj, hji, hslot, hpath, -⟩ := hpc.resolve_left (by omega)
      refine ⟨hlen'.trans hlen, .inr ⟨hone, j, hkj, hji, hzero.trans hslot, hpath.tail hstep, ?_⟩⟩
      omega
    · -- the end of the match
      obtain rfl := Option.some.inj hnext
      obtain rfl := List.mem_singleton.mp hentry
      obtain ⟨-, j, hkj, hji, hslot, hpath, -⟩ := hpc.resolve_left (by rw [Ast.last]; omega)
      refine ⟨(List.length_set).trans hlen, .inr ⟨Nat.le_add_left 1 _, j, hkj, hji, ?_, hpath.tail hstep, fun _ => ?_⟩⟩
      · exact (List.getElem?_set_ne Nat.one_ne_zero).trans hslot
      · exact List.getElem?_set_self (by omega)
    · cases hnext
  reads i pc cur inst c := by
    rintro ⟨hk, hlen, hpc⟩ hinst hc hread
    have hstep : Step (program ast) text (pc, i) (pc + 1, i + 1) := .reads hinst hc hread
    refine ⟨Nat.le_succ_of_le hk, hlen, .inr ⟨Nat.le_add_left 1 pc, ?_⟩⟩
    rcases program_inst hast hinst with ⟨rfl, rfl⟩ | ⟨hpos, hlt, -⟩ | ⟨rfl, rfl⟩ | ⟨rfl, rfl⟩
    · cases hread
    · obtain ⟨-, j, hkj, hji, hslot, hpath, -⟩ := hpc.resolve_left (by omega)
      refine ⟨j, hkj, Nat.le_succ_of_le hji, hslot, hpath.tail hstep, ?_⟩
      omega
    · cases hread
    · cases hread

/-- The search from a boundary. -/
theorem capturesFrom_offset {re : Regex} (hk : k ≤ text.length) : re.capturesFrom text (offset text k) =
    some ((Search.run re (byteLen text) (k = 0) (stepsAt text k) (Search.init re)).matched.map re.slotsToCaptures) := by
  have hstart : (decide (offset text k = 0)) = decide (k = 0) := by
    refine decide_eq_decide.mpr ⟨fun h => ?_, fun h => by rw [h, offset_zero]⟩
    exact offset_inj hk (Nat.zero_le _) (h.trans (offset_zero text).symm)
  rw [Regex.capturesFrom, sliceFrom_offset hk, hstart]
  rfl

theorem slotsToCaptures_zero {re : Regex} (hgroups : 1 ≤ re.nGroups) (slots : Slots) :
    (re.slotsToCaptures slots)[0]? = some (match slots[0]?.join, slots[1]?.join with
      | some s, some e => if s ≤ e then some ⟨s, e⟩ else none
      | _, _ => none) := by
  rw [Regex.slotsToCaptures, List.getElem?_map, List.getElem?_range hgroups]
  rfl

/-- **A match is a path** from the start of the program to its end. -/
theorem matchFrom_sound (hast : ast.Wf) (hgroups : 1 ≤ nGroups) (hslots : 2 ≤ nSlots) (hk : k ≤ text.length) {m : Match}
    (h : Regex.matchFrom ⟨program ast, nSlots, nGroups⟩ text (offset text k) = some (some m)) :
    ∃ i j, k ≤ i ∧ i ≤ j ∧ j ≤ text.length ∧ m = ⟨offset text i, offset text j⟩ ∧
      Path (program ast) text (0, i) (ast.last + 1, j) := by
  rw [Regex.matchFrom, capturesFrom_offset hk, Option.bind_eq_bind, Option.bind_some, Option.some.injEq] at h
  obtain ⟨caps, hcaps, hm⟩ := Option.bind_eq_some_iff.mp h
  obtain ⟨slots, hmatched, rfl⟩ := Option.map_eq_some_iff.mp hcaps
  have hI : Kept ⟨program ast, nSlots, nGroups⟩ text k _ := kept_carries hast hslots
  obtain hnone | ⟨j, pc, hj, ⟨-, -, hpc⟩, haccept⟩ := hI.run (Nat.le_refl k) hk (by simp [Search.init]) hmatched
  · cases hnone
  rcases program_inst hast haccept with ⟨rfl, heq⟩ | ⟨-, -, hwithin⟩ | ⟨-, heq⟩ | ⟨rfl, -⟩
  · cases heq
  · exact hwithin.elim
  · cases heq
  · obtain ⟨-, i, hki, hij, hfirst, hpath, hlast⟩ := hpc.resolve_left (Nat.succ_ne_zero _)
    have hle := offset_le hij hj
    rw [slotsToCaptures_zero hgroups, hfirst, hlast rfl] at hm
    obtain rfl : (⟨offset text i, offset text j⟩ : Match) = m := by
      simpa only [Option.join_some, if_pos hle, Option.some.injEq] using hm
    exact ⟨i, j, hki, hij, hj, rfl, hpath⟩

end Carries

end AthenaOS.RegexEngine
