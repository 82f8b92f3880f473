import AthenaOS.Wasm.Encoding

/-!
# Skipping and running agree

The scans over untaken code and the interpreter decode instructions on their own. Here they are
compared on any bytes, valid or not.
-/

namespace AthenaOS.Wasm

open Lib Lib.Wire Lib.Fallible

/-! ## Scans with an unbounded depth -/

/-- `block`, `loop` and `if`. -/
def IsOpen (b : UInt8) : Prop := b = 0x02 ∨ b = 0x03 ∨ b = 0x04

instance (b : UInt8) : Decidable (IsOpen b) := inferInstanceAs (Decidable (_ ∨ _))

/-- What a scan from `start` passes; whether it passes an `else` at depth 0 is up to `elses`. -/
inductive Visits (code : ByteString) (elses : Bool) (start : Nat) : Nat → Nat → Prop
  | start : Visits code elses start 0 start
  | opens {depth pos next : Nat} {b : UInt8} : Visits code elses start depth pos → code[pos]? = some b →
    IsOpen b → skipInstr code pos = some next → Visits code elses start (depth + 1) next
  | closes {depth pos : Nat} : Visits code elses start (depth + 1) pos → code[pos]? = some 0x0B →
    Visits code elses start depth (pos + 1)
  | others {depth pos next : Nat} {b : UInt8} : Visits code elses start depth pos → code[pos]? = some b →
    ¬ IsOpen b → b ≠ 0x0B → (b = 0x05 → elses = true ∨ depth ≠ 0) → skipInstr code pos = some next →
    Visits code elses start depth next

/-- The depth of a scan from `start` fits an `i32`. -/
def Shallow (code : ByteString) (elses : Bool) (start : Nat) : Prop :=
  ∀ depth pos, Visits code elses start depth pos → depth < 2 ^ 31

/-- A scan from `start` gets to the delimiter `b` of its own block, which ends at `p`. -/
def Reaches (code : ByteString) (elses : Bool) (start : Nat) (b : UInt8) (p : Nat) : Prop :=
  ∃ q, p = q + 1 ∧ Visits code elses start 0 q ∧ code[q]? = some b

section Visits

variable {code : ByteString} {elses elses' : Bool} {start depth pos k s p : Nat}

theorem Visits.passElse (h : Visits code elses start depth pos) : Visits code true start depth pos := by
  induction h with
  | start => exact .start
  | opens _ hb hopen hskip ih => exact ih.opens hb hopen hskip
  | closes _ hb ih => exact ih.closes hb
  | others _ hb hopen hclose _ hskip ih => exact ih.others hb hopen hclose (fun _ => .inl rfl) hskip

/-- **A scan inside a block** is part of the scan around it, deeper by the blocks it is in. -/
theorem Visits.inside (h : Visits code elses start (k + 1) s) (h' : Visits code elses' s depth pos) :
    Visits code elses start (k + 1 + depth) pos := by
  induction h' with
  | start => exact h
  | opens _ hb hopen hskip ih => exact ih.opens hb hopen hskip
  | closes _ hb ih => exact ih.closes hb
  | others _ hb hopen hclose _ hskip ih => exact ih.others hb hopen hclose (fun _ => .inr (by omega)) hskip

variable {α : Type} {rounds : Nat} {found : Bool}

/-- **From every point of a scan** the rest of it gives the same, unless it got too deep on the
way. -/
theorem Scanner.visits {f : Nat → Nat → Option α} (hf : Scanner code f)
    (hvisits : Visits code elses start depth pos)
    (helse : ∀ pos, elses = true → code[pos]? = some 0x05 → f 0 pos = f 0 (pos + 1)) :
    depth < 2 ^ 31 ∧ f 0 start = f depth pos ∨ f 0 start = none ∧ ¬ Shallow code elses start := by
  induction hvisits with
  | start => exact .inl ⟨by decide, rfl⟩
  | @opens depth pos next b hpre hb hopen hskip ih =>
    refine ih.elim (fun h => ?_) .inr
    have heq := h.2
    rw [hf.opens _ pos next b hb hopen hskip, deeper] at heq
    by_cases hdeep : depth + 1 < 2 ^ 31
    · rw [if_pos hdeep] at heq
      exact .inl ⟨hdeep, heq⟩
    · rw [if_neg hdeep] at heq
      exact .inr ⟨heq, fun h => hdeep (h _ _ (hpre.opens hb hopen hskip))⟩
  | @closes depth pos _ hb ih =>
    refine ih.imp_left fun h => ⟨by omega, ?_⟩
    rw [h.2, hf.closes _ pos hb]
  | @others depth pos next b _ hb hopen hclose hb5 hskip ih =>
    refine ih.imp_left fun h => ⟨h.1, h.2.trans ?_⟩
    by_cases helse' : b = 0x05
    · subst helse'
      obtain rfl : pos + 1 = next := Option.some.inj ((skipInstr_delim hb (.inl rfl)).symm.trans hskip)
      cases depth with
      | zero => exact helse pos ((hb5 rfl).resolve_right (not_not_intro rfl)) hb
      | succ depth => exact hf.elses _ pos hb
    · simp only [IsOpen, not_or] at hopen
      exact hf.others _ pos next b hb ⟨hopen.1, hopen.2.1, hopen.2.2, helse', hclose⟩ hskip

/-- A scan that gets to its delimiter gives what it finds there just when it is shallow. -/
theorem Scanner.iff_shallow {f : Nat → Nat → Option α} (hf : Scanner code f)
    (hvisits : Visits code elses start 0 pos)
    (helse : ∀ pos, elses = true → code[pos]? = some 0x05 → f 0 pos = f 0 (pos + 1)) {r : α}
    (hr : f 0 pos = some r) : f 0 start = some r ↔ Shallow code elses start := by
  constructor
  · intro hsome depth pos hvisits
    obtain ⟨hdepth, -⟩ | ⟨hnone, -⟩ := hf.visits hvisits helse
    · exact hdepth
    · exact nomatch hnone.symm.trans hsome
  · intro h
    obtain ⟨-, heq⟩ | ⟨-, hdeep⟩ := hf.visits hvisits helse
    · exact heq.trans hr
    · exact absurd h hdeep

theorem skipBlockBody_iff (h : Reaches code true start 0x0B p) :
    skipBlockBody code start = some p ↔ Shallow code true start := by
  obtain ⟨q, rfl, hvisits, hq⟩ := h
  refine (scanner_skipFrom code).iff_shallow hvisits (fun pos _ hb => ?_) ?_
  · rw [skipFrom_eq hb, if_neg (by decide), if_neg (by decide), skipInstr_delim hb (.inl rfl), Option.bind_some]
  · rw [skipFrom_eq hq, if_neg (by decide), if_pos rfl, if_pos rfl]

theorem skipThen_iff (h : Reaches code false start 0x05 p) :
    skipThen code start = some (true, p) ↔ Shallow code false start := by
  obtain ⟨q, rfl, hvisits, hq⟩ := h
  refine (scanner_skipThenFrom code).iff_shallow hvisits (fun _ he _ => nomatch he) ?_
  rw [skipThenFrom_eq hq, if_neg (by decide), if_pos ⟨rfl, rfl⟩]

theorem eq_of_deeper {d : Nat} (h : deeper depth = some d) : d = depth + 1 := by
  rw [deeper] at h
  split at h
  · exact (Option.some.inj h).symm
  · cases h

theorem skipBlockBodyLoop_eq_some (hvisits : Visits code true start depth pos)
    (hloop : skipBlockBodyLoop code rounds depth pos = some p) :
    Reaches code true start 0x0B p := by
  induction rounds generalizing depth pos with
  | zero => cases hloop
  | succ rounds ih =>
    rw [skipBlockBodyLoop] at hloop
    obtain ⟨b, hb, hrest⟩ := Option.bind_eq_some_iff.mp hloop
    split at hrest
    · next hopen =>
      obtain ⟨d, hd, hrest⟩ := Option.bind_eq_some_iff.mp hrest
      obtain ⟨next, hskip, hloop⟩ := Option.bind_eq_some_iff.mp hrest
      obtain rfl := eq_of_deeper hd
      exact ih (hvisits.opens hb hopen hskip) hloop
    · next hopen =>
      split at hrest
      · next hclose =>
        subst hclose
        split at hrest
        · next hzero =>
          subst hzero
          exact ⟨pos, (Option.some.inj hrest).symm, hvisits, hb⟩
        · next hzero =>
          obtain ⟨next, hskip, hloop⟩ := Option.bind_eq_some_iff.mp hrest
          obtain rfl : pos + 1 = next := Option.some.inj ((skipInstr_delim hb (.inr rfl)).symm.trans hskip)
          cases depth with
          | zero => exact absurd rfl hzero
          | succ depth => exact ih (hvisits.closes hb) hloop
      · next hclose =>
        obtain ⟨next, hskip, hloop⟩ := Option.bind_eq_some_iff.mp hrest
        exact ih (hvisits.others hb hopen hclose (fun _ => .inl rfl) hskip) hloop

/-- `skip_block_body` stops past an `end` at depth 0. -/
theorem skipBlockBody_eq_some (hskip : skipBlockBody code start = some p) :
    Reaches code true start 0x0B p := skipBlockBodyLoop_eq_some .start hskip

theorem skipThenLoop_eq_some (hvisits : Visits code false start depth pos)
    (hloop : skipThenLoop code rounds depth pos = some (found, p)) :
    Reaches code false start (if found then 0x05 else 0x0B) p := by
  induction rounds generalizing depth pos with
  | zero => cases hloop
  | succ rounds ih =>
    rw [skipThenLoop] at hloop
    obtain ⟨b, hb, hrest⟩ := Option.bind_eq_some_iff.mp hloop
    split at hrest
    · next hopen =>
      obtain ⟨d, hd, hrest⟩ := Option.bind_eq_some_iff.mp hrest
      obtain ⟨next, hskip, hloop⟩ := Option.bind_eq_some_iff.mp hrest
      obtain rfl := eq_of_deeper hd
      exact ih (hvisits.opens hb hopen hskip) hloop
    next hopen =>
    split at hrest
    · next helse =>
      obtain ⟨rfl, rfl⟩ := helse
      obtain ⟨rfl, rfl⟩ := Prod.mk.inj (Option.some.inj hrest)
      exact ⟨pos, rfl, hvisits, hb⟩
    next helse =>
    split at hrest
    · next hclose =>
      subst hclose
      split at hrest
      · next hzero =>
        subst hzero
        obtain ⟨rfl, rfl⟩ := Prod.mk.inj (Option.some.inj hrest)
        exact ⟨pos, rfl, hvisits, hb⟩
      · next hzero =>
        obtain ⟨next, hskip, hloop⟩ := Option.bind_eq_some_iff.mp hrest
        obtain rfl : pos + 1 = next := Option.some.inj ((skipInstr_delim hb (.inr rfl)).symm.trans hskip)
        cases depth with
        | zero => exact absurd rfl hzero
        | succ depth => exact ih (hvisits.closes hb) hloop
    · next hclose =>
      obtain ⟨next, hskip, hloop⟩ := Option.bind_eq_some_iff.mp hrest
      refine ih (hvisits.others hb hopen hclose (fun hb5 => .inr ?_) hskip) hloop
      rintro rfl
      exact helse ⟨hb5, rfl⟩

/-- `skip_then` stops past an `else` or an `end` at depth 0. -/
theorem skipThen_eq_some (hskip : skipThen code start = some (found, p)) :
    Reaches code false start (if found then 0x05 else 0x0B) p := skipThenLoop_eq_some .start hskip

end Visits

/-! ## Plain instructions -/

/-- An opcode that neither opens nor closes a block. -/
def IsPlain (b : UInt8) : Prop := ¬ IsOpen b ∧ b ≠ 0x05 ∧ b ≠ 0x0B

instance (b : UInt8) : Decidable (IsPlain b) := inferInstanceAs (Decidable (_ ∧ _))

section Plain

variable {σ : Type} {code : ByteString} {pos : Nat} {b : UInt8}

/-- The instruction at `pos` is skipped up to `next`. -/
def Skips (code : ByteString) (pos next : Nat) : Prop :=
  skipInstr code pos = some next ∧ ∀ b, code[pos]? = some b → IsPlain b

variable {next : Nat} {stack stack' : List I32}

theorem Skips.of (hb : code[pos]? = some b) (hplain : IsPlain b)
    (hskip : skipInstr code pos = some next) : Skips code pos next := by
  refine ⟨hskip, fun b' hb' => ?_⟩
  obtain rfl := Option.some.inj (hb.symm.trans hb')
  exact hplain

/-- An opcode alone. -/
theorem skips_alone (hb : code[pos]? = some b) (hop : b = 0x01 ∨ b = 0x1A ∨ b = 0x1B) :
    Skips code pos (pos + 1) := by
  rcases hop with rfl | rfl | rfl
  all_goals
    refine .of hb (by decide) ?_
    rw [skipInstr, hb]
    rfl

/-- An opcode and an index. -/
theorem skips_index {v : Nat} (hb : code[pos]? = some b)
    (hop : b = 0x0C ∨ b = 0x0D ∨ b = 0x10 ∨ b = 0x20 ∨ b = 0x21 ∨ b = 0x22)
    (hread : readUleb code 32 (pos + 1) = some (v, next)) : Skips code pos next := by
  rcases hop with rfl | rfl | rfl | rfl | rfl | rfl
  all_goals
    refine .of hb (by decide) ?_
    rw [skipInstr, hb]
    show (readUleb code 32 (pos + 1)).map (·.2) = _
    rw [hread, Option.map_some]

/-- An opcode, an alignment and an offset. -/
theorem skips_memArg {align off p : Nat} (hb : code[pos]? = some b)
    (hop : b = 0x28 ∨ b = 0x2D ∨ b = 0x36 ∨ b = 0x3A)
    (halign : readUleb code 32 (pos + 1) = some (align, p))
    (hoff : readUleb code 32 p = some (off, next)) : Skips code pos next := by
  rcases hop with rfl | rfl | rfl | rfl
  all_goals
    refine .of hb (by decide) ?_
    rw [skipInstr, hb]
    show ((readUleb code 32 (pos + 1)).bind fun r => (readUleb code 32 r.2).map (·.2)) = _
    rw [halign, Option.bind_some, hoff, Option.map_some]

/-- An opcode and a byte. -/
theorem skips_memIndex (hb : code[pos]? = some b) (hop : b = 0x3F ∨ b = 0x40) : Skips code pos (pos + 1 + 1) := by
  rcases hop with rfl | rfl
  all_goals
    refine .of hb (by decide) ?_
    rw [skipInstr, hb]
    rfl

/-- A signed integer that fits fewer bits is read to the same end. -/
theorem slebLoop_bits {bits bits' : Nat} (hle : bits ≤ bits') {bytes : ByteString} {shift : Nat}
    {result : BitVec 64} {r : BitVec 64 × Nat} (h : slebLoop bits bytes pos shift result = some r) :
    slebLoop bits' bytes pos shift result = some r := by
  induction bytes generalizing pos shift result with
  | nil => cases h
  | cons byte rest ih =>
    rw [slebLoop] at h ⊢
    split at h
    · cases h
    · next hshift =>
      rw [if_neg (by omega)]
      dsimp only at h ⊢
      split at h
      · next hlast =>
        rw [if_pos hlast]
        exact h
      · next hlast =>
        rw [if_neg hlast]
        exact ih h

/-- A constant. The scan allows it more bits. -/
theorem skips_const {v : BitVec 64} (hb : code[pos]? = some 0x41)
    (hread : readSleb code 32 (pos + 1) = some (v, next)) : Skips code pos next := by
  refine .of hb (by decide) ?_
  rw [skipInstr, hb]
  show (readSleb code 64 (pos + 1)).map (·.2) = _
  rw [show readSleb code 64 (pos + 1) = some (v, next) from slebLoop_bits (by decide) hread, Option.map_some]

/-- The numeric instructions have no immediates. -/
theorem numeric_range {op : Nat} (h : numeric op stack = some stack') : 0x45 ≤ op ∧ op ≤ 0x78 := by
  unfold numeric at h
  split at h
  · omega
  · split at h
    · obtain ⟨r, hr, -⟩ := Option.map_eq_some_iff.mp h
      unfold binop at hr
      split at hr <;> first | omega | cases hr
    · cases h

theorem skips_numeric (hb : code[pos]? = some b) (h : numeric b.toNat stack = some stack') :
    Skips code pos (pos + 1) := by
  obtain ⟨hlo, hhi⟩ := numeric_range h
  refine .of hb ?_ ?_
  · have hne : ∀ c : UInt8, c.toNat < 0x45 → b ≠ c := by
      rintro c hc rfl
      omega
    exact ⟨not_or_intro (hne _ (by decide)) (not_or_intro (hne _ (by decide)) (hne _ (by decide))),
      hne _ (by decide), hne _ (by decide)⟩
  · rw [skipInstr, hb]
    show (if _ then some (pos + 1) else _) = _
    rw [if_pos (by omega)]

/-- The memory argument, as the scan reads it. -/
theorem yields_memArg (code : ByteString) (pos : Nat) :
    Yields (memArg code pos : Interp σ (Nat × Nat)) fun r =>
      ∃ align p, readUleb code 32 pos = some (align, p) ∧ readUleb code 32 p = some r := by
  refine .bind (.ofOption fun _ h => h) ?_
  rintro ⟨align, p⟩ halign
  exact .ofOption fun r hoff => ⟨align, p, halign, hoff⟩

theorem yields_memIndex (code : ByteString) (pos : Nat) :
    Yields (memIndex code pos : Interp σ Nat) fun next => next = pos + 1 := by
  unfold memIndex
  split
  · exact .ite (fun _ => .pure rfl) fun _ => .fail
  · exact .fail

/-- **A plain instruction that ran** is skipped up to where the run goes on. -/
theorem plain_skips (hb : code[pos]? = some b) (fr : Frame) :
    Yields (plain code b.toNat (pos + 1) fr : Interp σ (Nat × Frame)) fun r => Skips code pos r.1 := by
  have hop : ∀ c : UInt8, b.toNat = c.toNat → b = c := fun c h => UInt8.toNat_inj.mp h
  unfold plain
  split
  · next h => exact .pure (skips_alone hb (.inl (hop 0x01 h)))
  · next h =>
    refine .bind (.any _) fun _ _ => ?_
    exact .pure (skips_alone hb (.inr (.inl (hop 0x1A h))))
  · next h =>
    refine .bind (.any _) fun _ _ => ?_
    refine .bind (.any _) fun _ _ => ?_
    refine .bind (.any _) fun _ _ => ?_
    exact .pure (skips_alone hb (.inr (.inr (hop 0x1B h))))
  · next h =>
    have hcase := hop 0x20 h
    refine .bind (.ofOption fun _ hread => hread) fun _ hread => ?_
    refine .bind (.any _) fun _ _ => ?_
    exact .pure (skips_index hb (by tauto) hread)
  · next h =>
    have hcase := hop 0x21 h
    refine .bind (.ofOption fun _ hread => hread) fun _ hread => ?_
    refine .bind (.any _) fun _ _ => ?_
    exact .ite (fun _ => .pure (skips_index hb (by tauto) hread)) fun _ => .fail
  · next h =>
    have hcase := hop 0x22 h
    refine .bind (.ofOption fun _ hread => hread) fun _ hread => ?_
    refine .bind (.any _) fun _ _ => ?_
    exact .ite (fun _ => .pure (skips_index hb (by tauto) hread)) fun _ => .fail
  · next h =>
    have hcase := hop 0x28 h
    refine .bind (yields_memArg _ _) ?_
    rintro ⟨off, next⟩ ⟨align, p, halign, hoff⟩
    refine .bind (.any _) fun _ _ => ?_
    refine .bind (.any _) fun _ _ => ?_
    exact .pure (skips_memArg hb (by tauto) halign hoff)
  · next h =>
    have hcase := hop 0x2D h
    refine .bind (yields_memArg _ _) ?_
    rintro ⟨off, next⟩ ⟨align, p, halign, hoff⟩
    refine .bind (.any _) fun _ _ => ?_
    refine .bind (.any _) fun _ _ => ?_
    exact .pure (skips_memArg hb (by tauto) halign hoff)
  · next h =>
    have hcase := hop 0x36 h
    refine .bind (yields_memArg _ _) ?_
    rintro ⟨off, next⟩ ⟨align, p, halign, hoff⟩
    refine .bind (.any _) fun _ _ => ?_
    refine .bind (.any _) fun _ _ => ?_
    refine .bind (.any _) fun _ _ => ?_
    exact .pure (skips_memArg hb (by tauto) halign hoff)
  · next h =>
    have hcase := hop 0x3A h
    refine .bind (yields_memArg _ _) ?_
    rintro ⟨off, next⟩ ⟨align, p, halign, hoff⟩
    refine .bind (.any _) fun _ _ => ?_
    refine .bind (.any _) fun _ _ => ?_
    refine .bind (.any _) fun _ _ => ?_
    exact .pure (skips_memArg hb (by tauto) halign hoff)
  · next h =>
    refine .bind (yields_memIndex _ _) ?_
    rintro _ rfl
    refine .bind (.any _) fun _ _ => ?_
    exact .pure (skips_memIndex hb (.inl (hop 0x3F h)))
  · next h =>
    refine .bind (yields_memIndex _ _) ?_
    rintro _ rfl
    refine .bind (.any _) fun _ _ => ?_
    refine .bind (.any _) fun _ _ => ?_
    exact .pure (skips_memIndex hb (.inr (hop 0x40 h)))
  · next h =>
    obtain rfl := hop 0x41 h
    refine .bind (.ofOption fun _ hread => hread) fun _ hread => ?_
    exact .pure (skips_const hb hread)
  · refine .bind (.ofOption fun _ hstack => hstack) fun _ hstack => ?_
    exact .pure (skips_numeric hb hstack)

end Plain

/-! ## Blocks -/

section Blocks

variable {code : ByteString} {start s p pos : Nat} {b bt : UInt8}

/-- Into a block. -/
theorem Visits.enter (h : Visits code false start 0 pos) (hb : code[pos]? = some b) (hopen : IsOpen b)
    (hbt : code[pos + 1]? = some bt) : Visits code false start 1 (pos + 1 + 1) := by
  refine h.opens hb hopen ?_
  rw [skipInstr, hb]
  rcases hopen with rfl | rfl | rfl
  all_goals
    show code[pos + 1]?.map (fun _ => pos + 1 + 1) = _
    rw [hbt, Option.map_some]

/-- Out of it, past its `end`. -/
theorem Visits.leave {elses : Bool} (hs : Visits code false start 1 s) (h : Reaches code elses s 0x0B p) :
    Visits code false start 0 p := by
  obtain ⟨q, rfl, hvisits, hq⟩ := h
  exact (hs.inside hvisits).closes hq

/-- From the first arm of an `if` to the second. -/
theorem Visits.toElse (hs : Visits code false start 1 s) (h : Reaches code false s 0x05 p) :
    Visits code false start 1 p := by
  obtain ⟨q, rfl, hvisits, hq⟩ := h
  exact (hs.inside hvisits).others hq (by decide) (by decide) (fun _ => .inr (by decide))
    (skipInstr_delim hq (.inl rfl))

/-- Past any other instruction. -/
theorem Visits.pass (h : Visits code false start 0 pos) (hb : code[pos]? = some b) (hskips : Skips code pos p) :
    Visits code false start 0 p := by
  obtain ⟨hopen, helse, hclose⟩ := hskips.2 b hb
  exact h.others hb hopen hclose (fun h => absurd h helse) hskips.1

end Blocks

/-! ## Runs -/

/-- A body that starts at `start` stops where a scan gets to a delimiter. -/
def StopsAt (code : ByteString) (start : Nat) : Stop → Prop
  | .ended p => Reaches code true start 0x0B p
  | .elseAt p => Reaches code false start 0x05 p
  | .branch _ => True
  | .returned => True

section Runs

variable {σ : Type} {inst : Instance} {host : Host σ} {self : Body σ}

/-- `self` stops right from every position that a scan at depth 0 gets to. -/
def StopsRight (self : Body σ) : Prop :=
  ∀ code start isLoop pos fr, Visits code false start 0 pos →
    Yields (self code start isLoop pos fr) fun r => StopsAt code start r.1

variable {code : ByteString} {start s pos : Nat} {isLoop : Bool} {b : UInt8}

theorem StopsRight.branchTo (hself : StopsRight self) (l : Nat) (fr : Frame) :
    Yields (branchTo self code start isLoop l fr) fun r => StopsAt code start r.1 := by
  refine .ite (fun _ => .ite (fun _ => ?_) fun _ => ?_) fun _ => .pure trivial
  · exact hself _ _ _ _ _ .start
  · exact .bind (.ofOption fun _ hskip => hskip) fun _ hskip =>
      .pure (skipBlockBody_eq_some hskip)

/-- After an inner block that stopped right, the outer one goes on right. -/
theorem StopsRight.resume (hself : StopsRight self) (hs : Visits code false start 1 s)
    {onElse : Nat → Option Nat}
    (helse : ∀ p q, Reaches code false s 0x05 p → onElse p = some q → Visits code false start 0 q)
    {r : Stop × Frame} (hr : StopsAt code s r.1) :
    Yields (resume self code start isLoop onElse r) fun r => StopsAt code start r.1 := by
  obtain ⟨stop, fr⟩ := r
  cases stop with
  | ended p => exact hself _ _ _ _ _ (hs.leave hr)
  | elseAt p =>
    refine .bind (.ofOption fun _ hq => hq) fun q hq => ?_
    exact hself _ _ _ _ _ (helse p q hr hq)
  | branch n => exact hself.branchTo n fr
  | returned => exact .pure trivial

theorem yields_blockType (code : ByteString) (pos : Nat) :
    Yields (blockType code pos : Interp σ Unit) fun _ => ∃ bt, code[pos]? = some bt := by
  unfold blockType
  split
  · exact .fail
  · next bt hbt => exact .ite (fun _ => .fail) fun _ => .pure ⟨bt, hbt⟩

/-- An index, as the scan reads it. -/
theorem readUleb_of_readU32 {v next : Nat} (h : readU32 code pos = some (v, next)) :
    ∃ u, readUleb code 32 pos = some (u, next) := by
  obtain ⟨⟨u, p⟩, hread, h⟩ := Option.bind_eq_some_iff.mp h
  obtain ⟨-, rfl⟩ := Prod.mk.inj (Option.some.inj h)
  exact ⟨u, hread⟩

/-- A `block` or a `loop`. -/
theorem StopsRight.block (hself : StopsRight self) (hvisits : Visits code false start 0 pos)
    (hb : code[pos]? = some b) (hopen : IsOpen b) (loop : Bool) (fr : Frame) :
    Yields (do
      blockType code (pos + 1)
      let r ← self code (pos + 1 + 1) loop (pos + 1 + 1) fr
      Wasm.resume self code start isLoop (fun _ => none) r) fun r => StopsAt code start r.1 := by
  refine .bind (yields_blockType _ _) ?_
  rintro _ ⟨bt, hbt⟩
  have hs := hvisits.enter hb hopen hbt
  refine .bind (hself _ _ _ _ _ .start) fun r hr => ?_
  exact hself.resume hs (by rintro _ _ - ⟨⟩) hr

/-- **One instruction**, and the rest of the block. -/
theorem StopsRight.execute (hself : StopsRight self)
    (hvisits : Visits code false start 0 pos) (hb : code[pos]? = some b) (fr : Frame) :
    Yields (execute inst host self code start isLoop b.toNat (pos + 1) fr) fun r => StopsAt code start r.1 := by
  have hop : ∀ c : UInt8, b.toNat = c.toNat → b = c := fun c h => UInt8.toNat_inj.mp h
  unfold Wasm.execute
  split
  · exact .fail
  · next hcode =>
    obtain rfl := hop 0x0B hcode
    exact .pure ⟨pos, rfl, hvisits.passElse, hb⟩
  · next hcode =>
    obtain rfl := hop 0x05 hcode
    exact .pure ⟨pos, rfl, hvisits, hb⟩
  · exact .pure trivial
  · exact .bind (.any _) fun _ _ => hself.branchTo _ fr
  · next hcode =>
    have hcase := hop 0x0D hcode
    refine .bind (.ofOption fun _ hread => hread) ?_
    rintro ⟨l, next⟩ hread
    obtain ⟨u, hread⟩ := readUleb_of_readU32 hread
    refine .bind (.any _) ?_
    rintro ⟨c, fr⟩ -
    refine .ite (fun _ => hself.branchTo l fr) fun _ => ?_
    exact hself _ _ _ _ _ (hvisits.pass hb (skips_index hb (by tauto) hread))
  · next hcode => exact hself.block hvisits hb (.inl (hop 0x02 hcode)) false fr
  · next hcode => exact hself.block hvisits hb (.inr (.inl (hop 0x03 hcode))) true fr
  · next hcode =>
    refine .bind (yields_blockType _ _) ?_
    rintro _ ⟨bt, hbt⟩
    have hs := hvisits.enter hb (.inr (.inr (hop 0x04 hcode))) hbt
    refine .bind (.any _) ?_
    rintro ⟨cond, fr⟩ -
    refine .ite (fun _ => ?_) fun _ => ?_
    · refine .bind (hself _ _ _ _ _ .start) fun r hr => ?_
      refine hself.resume hs (fun p q hp hq => ?_) hr
      exact (hs.toElse hp).leave (skipBlockBody_eq_some hq)
    · refine .bind (.ofOption fun _ hskip => hskip) ?_
      rintro ⟨foundElse, p⟩ hskip
      refine .ite (fun hfound => ?_) fun hfound => ?_
      · rw [hfound] at hskip
        have hp := hs.toElse (skipThen_eq_some hskip)
        refine .bind (hself _ _ _ _ _ .start) fun r hr => ?_
        exact hself.resume hp (by rintro _ _ - ⟨⟩) hr
      · rw [Bool.not_eq_true] at hfound
        rw [hfound] at hskip
        exact hself _ _ _ _ _ (hs.leave (skipThen_eq_some hskip))
  · next hcode =>
    have hcase := hop 0x10 hcode
    refine .bind (.ofOption fun _ hread => hread) ?_
    rintro ⟨f, next⟩ hread
    obtain ⟨u, hread⟩ := readUleb_of_readU32 hread
    refine .bind (.any _) fun _ _ => ?_
    exact hself _ _ _ _ _ (hvisits.pass hb (skips_index hb (by tauto) hread))
  · refine .bind (plain_skips hb fr) ?_
    rintro ⟨next, fr⟩ hskips
    exact hself _ _ _ _ _ (hvisits.pass hb hskips)

theorem yields_fetch (code : ByteString) (pos : Nat) :
    Yields (fetch code pos : Interp σ UInt8) fun b => code[pos]? = some b := by
  intro w b w' hrun
  rw [fetch] at hrun
  split at hrun
  · cases congrArg Prod.fst hrun
  · dsimp only at hrun
    split at hrun
    · cases congrArg Prod.fst hrun
    · next op hop =>
      obtain rfl := Option.some.inj (congrArg Prod.fst hrun)
      exact hop

/-- **Every body stops right**, by induction on the recursion of the interpreter. -/
theorem runBody_stopsRight (inst : Instance) (host : Host σ) (gas : Nat) : StopsRight (runBody inst host gas) := by
  induction gas with
  | zero => exact fun _ _ _ _ _ _ => .fail
  | succ gas ih =>
    intro code start isLoop pos fr hvisits
    exact .bind (yields_fetch code pos) fun b hb => ih.execute hvisits hb fr

/-- **Skipping agrees with running** just where the scan's depth fits its counter. -/
theorem runBody_agrees_skip_iff (gas : Nat) (code : ByteString) (start : Nat) (isLoop : Bool)
    (fr : Frame) (w : World σ) {stop : Stop} {fr' : Frame} {w' : World σ}
    (hrun : runBody inst host gas code start isLoop start fr w = (some (stop, fr'), w')) :
    (∀ p, stop = .ended p → (skipBlockBody code start = some p ↔ Shallow code true start)) ∧
      ∀ p, stop = .elseAt p → (skipThen code start = some (true, p) ↔ Shallow code false start) := by
  have hstops : StopsAt code start stop :=
    runBody_stopsRight inst host gas code start isLoop start fr .start w (stop, fr') w' hrun
  constructor
  · rintro p rfl
    exact skipBlockBody_iff hstops
  · rintro p rfl
    exact skipThen_iff hstops

end Runs

/-! ## A counter that overflows -/

/-- `n` blocks, one inside the other. -/
def openers : Nat → ByteString
  | 0 => []
  | n + 1 => 0x02 :: 0x40 :: openers n

/-- `i32.const 0`, and an `if` around `n` nested blocks. -/
def deep (n : Nat) : ByteString :=
  0x41 :: 0x00 :: 0x04 :: 0x40 :: (openers n ++ (List.replicate (n + 1) 0x0B ++ [0x0B]))

section Deep

variable {α : Type} {code rest : ByteString} {f : Nat → Nat → Option α} {pos : Nat}

theorem length_openers (n : Nat) : (openers n).length = 2 * n := by
  induction n with
  | zero => rfl
  | succ n ih =>
    rw [openers, List.length_cons, List.length_cons, ih]
    omega

/-- The counter goes up as far as it can. -/
theorem Scanner.opening (hf : Scanner code f) (n : Nat) {depth : Nat} (hdepth : depth < 2 ^ 31)
    (hcode : code.drop pos = openers n ++ rest) :
    f depth pos = if depth + n < 2 ^ 31 then f (depth + n) (pos + 2 * n) else none := by
  induction n generalizing depth pos with
  | zero => exact (if_pos hdepth).symm
  | succ n ih =>
    have hcode' : code.drop pos = 0x02 :: 0x40 :: (openers n ++ rest) := hcode
    rw [hf.opens depth pos (pos + 2) 0x02 (getElem?_of_drop hcode') (.inl rfl)
      (skipInstr_open (.inl rfl) hcode'), deeper]
    by_cases hfits : depth + 1 < 2 ^ 31
    · rw [if_pos hfits, Option.bind_some, ih hfits (drop_succ_of_drop (drop_succ_of_drop hcode')),
        show depth + 1 + n = depth + (n + 1) by omega, show pos + 2 + 2 * n = pos + 2 * (n + 1) by omega]
    · rw [if_neg hfits, if_neg (by omega)]
      rfl

/-- And down. -/
theorem Scanner.closing (hf : Scanner code f) (n : Nat) (depth : Nat)
    (hcode : code.drop pos = List.replicate n 0x0B ++ rest) : f (depth + n) pos = f depth (pos + n) := by
  induction n generalizing pos with
  | zero => rfl
  | succ n ih =>
    have hcode' : code.drop pos = 0x0B :: (List.replicate n 0x0B ++ rest) := hcode
    rw [← Nat.add_assoc, hf.closes (depth + n) pos (getElem?_of_drop hcode'), ih (drop_succ_of_drop hcode'),
      Nat.add_assoc, Nat.add_comm 1]

variable {n : Nat}

theorem drop_deep (n : Nat) : (deep n).drop (4 + 2 * n) = List.replicate (n + 1) 0x0B ++ [0x0B] := by
  have hcode : (deep n).drop 4 = openers n ++ (List.replicate (n + 1) 0x0B ++ [0x0B]) := rfl
  rw [← length_openers]
  exact drop_add_of_drop hcode

/-- Inside the `if`, the counter comes back to 0 at its `end`. -/
theorem skipThen_deep (hn : n < 2 ^ 31) : skipThen (deep n) 4 = some (false, 4 + 2 * n + n + 1) := by
  have hclose : (deep n).drop (4 + 2 * n) = List.replicate n 0x0B ++ [0x0B, 0x0B] := by
    rw [drop_deep, List.replicate_succ', List.append_assoc]
    rfl
  have hlast : (deep n).drop (4 + 2 * n + n) = [0x0B, 0x0B] := by
    have hdrop := drop_add_of_drop hclose
    rwa [List.length_replicate] at hdrop
  show skipThenFrom (deep n) 0 4 = _
  rw [(scanner_skipThenFrom (deep n)).opening n (by decide) rfl, if_pos (by omega),
    (scanner_skipThenFrom (deep n)).closing n 0 hclose,
    skipThenFrom_eq (getElem?_of_drop hlast), if_neg (by decide), if_neg (by decide), if_pos rfl]
  rfl

/-- From outside it is one deeper, and overflows. -/
theorem skipBlockBody_deep (hn : n + 1 = 2 ^ 31) : skipBlockBody (deep n) 0 = none := by
  have hs := scanner_skipFrom (deep n)
  show skipFrom (deep n) 0 0 = _
  rw [hs.others 0 0 2 0x41 rfl (by decide) rfl, hs.opens 0 2 4 0x04 rfl (.inr (.inr rfl)) rfl]
  show skipFrom (deep n) 1 4 = _
  rw [hs.opening n (by decide) rfl, if_neg (by omega)]

/-- A module with nothing in it, and an embedder that denies every import. -/
def bare : Instance := ⟨[], [], [], [], [], 0, 0⟩

def deny : Host Unit := ⟨fun h _ _ => (none, h)⟩

/-- One round, with fuel left. -/
theorem runBody_round {σ : Type} {inst : Instance} {host : Host σ} {gas start : Nat} {isLoop : Bool} {b : UInt8}
    {fr : Frame} {w : World σ} (hb : code[pos]? = some b) (hfuel : w.vm.fuel ≠ 0) :
    runBody inst host (gas + 1) code start isLoop pos fr w =
      execute inst host (runBody inst host gas) code start isLoop b.toNat (pos + 1) fr
        { w with vm := { w.vm with fuel := w.vm.fuel - 1 }, log := .instr b w.vm.mem.length :: w.log } := by
  refine Fallible.bind_some (a := b) ?_
  rw [fetch, if_neg hfuel]
  dsimp only
  rw [hb]

/-- A run pushes the 0, skips the `if`, and ends at the last byte. -/
theorem runBody_deep (hn : n < 2 ^ 31) {w : World Unit} (hfuel : 3 ≤ w.vm.fuel) :
    (runBody bare deny 3 (deep n) 0 false 0 ⟨[], []⟩ w).1 = some (.ended (4 + 2 * n + n + 1 + 1), ⟨[], []⟩) := by
  have hlast : (deep n).drop (4 + 2 * n + n + 1) = [0x0B] := by
    have hdrop := drop_add_of_drop (drop_deep n)
    rwa [List.length_replicate] at hdrop
  -- the constant
  rw [runBody_round (b := 0x41) rfl (by omega)]
  refine (congrArg Prod.fst (bind_some (a := ((2, ⟨[0], []⟩) : Nat × Frame)) rfl)).trans ?_
  -- the `if`, whose condition is 0
  show (runBody bare deny 2 (deep n) 0 false 2 ⟨[0], []⟩ _).1 = _
  rw [runBody_round (b := 0x04) rfl (by dsimp only; omega)]
  refine (congrArg Prod.fst (bind_some (a := ()) rfl)).trans ?_
  refine (congrArg Prod.fst (bind_some (a := ((0, ⟨[], []⟩) : I32 × Frame)) rfl)).trans ?_
  show ((ofOption (skipThen (deep n) 4) >>= _ : Interp Unit _) _).1 = _
  rw [skipThen_deep hn]
  -- the last `end`
  show (runBody bare deny 1 (deep n) 0 false (4 + 2 * n + n + 1) ⟨[], []⟩ _).1 = _
  rw [runBody_round (getElem?_of_drop hlast) (by dsimp only; omega)]
  rfl

/-- With 2³¹ - 1 blocks in the `if` the scan from outside overflows, and the run ends. -/
theorem deep_disagrees : ¬ ∀ (inst : Instance) (host : Host Unit) (gas : Nat) (code : ByteString) (start : Nat)
    (isLoop : Bool) (fr : Frame) (w : World Unit) (p : Nat) (fr' : Frame) (w' : World Unit),
    runBody inst host gas code start isLoop start fr w = (some (.ended p, fr'), w') →
      skipBlockBody code start = some p := by
  intro h
  obtain ⟨n, hn⟩ : ∃ n, n + 1 = 2 ^ 31 := ⟨2 ^ 31 - 1, rfl⟩
  have hrun := runBody_deep (by omega : n < 2 ^ 31) (w := ⟨⟨[], 0, 3, maxCallDepth⟩, (), []⟩) (by decide)
  have hskip : skipBlockBody (deep n) 0 = some (4 + 2 * n + n + 1 + 1) :=
    h _ _ _ _ _ _ _ _ _ _ _ (Prod.ext hrun rfl)
  exact nomatch (skipBlockBody_deep hn).symm.trans hskip

end Deep

/-- `i32.const 1`, an `if` with two arms, and a block that is left by a branch. -/
def branching : ByteString :=
  [0x41, 0x01, 0x04, 0x40, 0x01, 0x05, 0x01, 0x0B, 0x02, 0x40, 0x0C, 0x00, 0x01, 0x0B, 0x0B]

/-- The whole body ends at its last byte, and its first arm stops at the `else`. -/
theorem runBody_agrees_skip_branching :
    (skipBlockBody branching 0 = some 15 ∧ Shallow branching true 0) ∧
      skipThen branching 4 = some (true, 6) ∧ Shallow branching false 4 := by
  have hbody : skipBlockBody branching 0 = some 15 := by decide
  have harm : skipThen branching 4 = some (true, 6) := by decide
  have hends : (runBody bare deny 20 branching 0 false 0 ⟨[], []⟩ ⟨⟨[], 0, 20, maxCallDepth⟩, (), []⟩).1 =
      some (.ended 15, ⟨[], []⟩) := rfl
  have helse : (runBody bare deny 20 branching 4 false 4 ⟨[], []⟩ ⟨⟨[], 0, 20, maxCallDepth⟩, (), []⟩).1 =
      some (.elseAt 6, ⟨[], []⟩) := rfl
  exact ⟨⟨hbody, ((runBody_agrees_skip_iff _ _ _ _ _ _ (Prod.ext hends rfl)).1 15 rfl).mp hbody⟩, harm,
    ((runBody_agrees_skip_iff _ _ _ _ _ _ (Prod.ext helse rfl)).2 6 rfl).mp harm⟩

end AthenaOS.Wasm
