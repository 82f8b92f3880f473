import AthenaOS.Wasm.Encoding

/-!
# Plain instructions follow the reduction semantics

Each operator computes the number the specification names for it, and one plain instruction of the
interpreter is one reduction step.
-/

namespace AthenaOS.Wasm

open Lib Lib.Wire Lib.Fallible

/-! ## Operators -/

theorem unop_opcode (op : UnOp) (a : I32) : unop op.opcode.toNat a = some (op.eval a) := by
  cases op with
  | eqz =>
    have hzero : a = 0 ↔ a.toNat = 0 := BitVec.toNat_inj.symm
    show some (ofBool (decide (a = 0))) = some (ofBool (decide (a.toNat = 0)))
    rw [decide_eq_decide.mpr hzero]
  | clz => rfl
  | ctz => rfl
  | popcnt => rfl

/-- The quotient is not a number of the type in one case only. -/
theorem tdiv_eq_iff {a b : I32} (hb : b ≠ 0) :
    a.toInt.tdiv b.toInt = 2 ^ 31 ↔ a = BitVec.intMin 32 ∧ b = -1 := by
  have hb' : b.toInt ≠ 0 := fun hc => hb (BitVec.toInt_inj.mp hc)
  have hmin : a = BitVec.intMin 32 ↔ a.toInt = -2 ^ 31 := by
    rw [← BitVec.toInt_inj]
    exact Iff.rfl
  have hneg : b = -1 ↔ b.toInt = -1 := by
    rw [← BitVec.toInt_inj]
    exact Iff.rfl
  rw [hmin, hneg]
  have hdiv := Int.mul_tdiv_add_tmod a.toInt b.toInt
  have hmod : (a.toInt.tmod b.toInt).natAbs < b.toInt.natAbs := by
    rw [Int.natAbs_tmod]
    exact Nat.mod_lt _ (Int.natAbs_pos.mpr hb')
  have hlow : -2 ^ 31 ≤ a.toInt := BitVec.le_toInt a
  have hhigh : a.toInt < 2 ^ 31 := BitVec.toInt_lt
  constructor
  · intro hq
    rw [hq] at hdiv
    omega
  · rintro ⟨ha, hb⟩
    rw [ha, hb]
    decide

theorem binop_opcode (op : BinOp) (a b : I32) : binop op.opcode.toNat a b = op.eval a b := by
  cases op with
  | eq =>
    show some (ofBool (decide (a = b))) = some (ofBool (decide (a.toNat = b.toNat)))
    rw [decide_eq_decide.mpr BitVec.toNat_inj.symm]
  | ne =>
    show some (ofBool (decide (a ≠ b))) = some (ofBool (decide (a.toNat ≠ b.toNat)))
    rw [decide_eq_decide.mpr (not_congr BitVec.toNat_inj.symm)]
  | ltS => rfl
  | ltU => rfl
  | gtS => rfl
  | gtU => rfl
  | leS => rfl
  | leU => rfl
  | geS => rfl
  | geU => rfl
  | add => exact congrArg some (BitVec.eq_of_toNat_eq rfl)
  | sub =>
    refine congrArg some (BitVec.eq_of_toNat_eq ?_)
    have ha := a.isLt
    have hb := b.isLt
    rw [BitVec.toNat_sub, BitVec.toNat_ofInt]
    omega
  | mul => exact congrArg some (BitVec.eq_of_toNat_eq rfl)
  | divS =>
    show (if b = 0 ∨ (a = BitVec.intMin 32 ∧ b = -1) then none else some (a.sdiv b)) =
      if b.toInt = 0 ∨ a.toInt.tdiv b.toInt = 2 ^ 31 then none
      else some (BitVec.ofInt 32 (a.toInt.tdiv b.toInt))
    have hsdiv : a.sdiv b = BitVec.ofInt 32 (a.toInt.tdiv b.toInt) := by
      rw [← BitVec.toInt_inj, BitVec.toInt_sdiv, BitVec.toInt_ofInt]
    by_cases hb : b = 0
    · rw [if_pos (.inl hb), if_pos (.inl (BitVec.toInt_inj.mpr hb))]
    · have hb' : b.toInt ≠ 0 := fun hc => hb (BitVec.toInt_inj.mp hc)
      simp only [hb, hb', false_or, tdiv_eq_iff hb, hsdiv]
  | divU =>
    show (if b = 0 then none else some (a / b)) =
      if b.toNat = 0 then none else some (BitVec.ofNat 32 (a.toNat / b.toNat))
    have hb : b = 0 ↔ b.toNat = 0 := BitVec.toNat_inj.symm
    have hdiv : a / b = BitVec.ofNat 32 (a.toNat / b.toNat) := by
      rw [← BitVec.toNat_inj, BitVec.toNat_udiv, BitVec.toNat_ofNat]
      exact (Nat.mod_eq_of_lt (Nat.lt_of_le_of_lt (Nat.div_le_self _ _) a.isLt)).symm
    simp only [hb, hdiv]
  | remS =>
    show (if b = 0 then none else some (a.srem b)) =
      if b.toInt = 0 then none else some (BitVec.ofInt 32 (a.toInt.tmod b.toInt))
    have hb : b = 0 ↔ b.toInt = 0 := BitVec.toInt_inj.symm
    have hrem : a.srem b = BitVec.ofInt 32 (a.toInt.tmod b.toInt) := by
      rw [← BitVec.toInt_srem, BitVec.ofInt_toInt]
    simp only [hb, hrem]
  | remU =>
    show (if b = 0 then none else some (a % b)) =
      if b.toNat = 0 then none else some (BitVec.ofNat 32 (a.toNat % b.toNat))
    have hb : b = 0 ↔ b.toNat = 0 := BitVec.toNat_inj.symm
    have hrem : a % b = BitVec.ofNat 32 (a.toNat % b.toNat) := by
      rw [← BitVec.toNat_inj, BitVec.toNat_umod, BitVec.toNat_ofNat]
      exact (Nat.mod_eq_of_lt (Nat.lt_of_le_of_lt (Nat.mod_le _ _) a.isLt)).symm
    simp only [hb, hrem]
  | and => rfl
  | or => rfl
  | xor => rfl
  | shl => rfl
  | shrS => rfl
  | shrU => rfl
  | rotl => rfl
  | rotr => rfl

/-! ## Plain instructions -/

/-- The store of the semantics: the memory and its limit. -/
def storeOf {σ : Type} (w : World σ) : Store := ⟨w.vm.mem, w.vm.maxPages⟩

/-- The interpreter's operands for the semantics' values. -/
def lows (vs : List Val) : List I32 := vs.map Val.low

/-- The types of values. -/
def types (vs : List Val) : List ValType := vs.map Val.type

variable {vs : List Val} {ts : List ValType}

theorem types_cons {t : ValType} (h : types vs = t :: ts) :
    ∃ v vs₀, vs = v :: vs₀ ∧ v.type = t ∧ types vs₀ = ts := by
  obtain ⟨v, vs₀, rfl, hv, hvs⟩ := List.map_eq_cons_iff.mp h
  exact ⟨v, vs₀, rfl, hv, hvs⟩

theorem types_append {us : List ValType} (h : types vs = ts ++ us) :
    ∃ vs₁ vs₂, vs = vs₁ ++ vs₂ ∧ types vs₁ = ts ∧ types vs₂ = us := List.map_eq_append_iff.mp h

theorem type_i32 {v : Val} (h : v.type = .i32) : ∃ c, v = .i32 c := by
  cases v with
  | i32 c => exact ⟨c, rfl⟩
  | i64 c => exact nomatch h
  | f32 c => exact nomatch h
  | f64 c => exact nomatch h

/-- One `i32` operand. -/
theorem types_i32 (h : types vs = .i32 :: ts) : ∃ c vs₀, vs = .i32 c :: vs₀ ∧ types vs₀ = ts := by
  obtain ⟨v, vs₀, rfl, hv, hvs⟩ := types_cons h
  obtain ⟨c, rfl⟩ := type_i32 hv
  exact ⟨c, vs₀, rfl, hvs⟩

section Plain

variable {σ : Type} {C : Context} {i : Instr} {ts us rs : List ValType} {b rest code : ByteString}
variable {pos pos' : Nat} {vs F : List Val} {base : List I32} {w w' : World σ} {fr' : Frame}

/-- What a plain instruction has to do: move past its bytes and make one step, with the types
validation gives. -/
def PlainSim (C : Context) (i : Instr) (b : ByteString) (pos : Nat) (us : List ValType) (base : List I32)
    (w : World σ) (F vs : List Val) (pos' : Nat) (fr' : Frame) (w' : World σ) : Prop :=
  ∃ vs' F', pos' = pos + b.length ∧ fr' = ⟨lows vs' ++ base, lows F'⟩ ∧ types vs' = us ∧
    types F' = C.locals ∧ PlainStep (storeOf w) F vs i (storeOf w') F' vs'

theorem scan_eq_some {α : Type} {s : Scan α} {r : α × Nat} (h : scan s pos w = (some r, w')) :
    s pos = some r ∧ w' = w := ofOption_eq_some h

variable {n ea p x : Nat} {op : UInt8} {r : Nat × Nat} {bytes : ByteString} {fr : Frame}

/-- The index of a local. -/
theorem scan_index {u : ByteString} (hu : ULeb 32 u n) (hcode : code.drop pos = (op :: u) ++ rest)
    (h : scan (readUleb code 32) (pos + 1) w = (some r, w')) :
    r = (n, pos + (op :: u).length) ∧ w' = w := by
  obtain ⟨hread, rfl⟩ := scan_eq_some h
  rw [readUleb_of hu (drop_succ_of_drop hcode)] at hread
  refine ⟨?_, rfl⟩
  rw [← Option.some.inj hread, List.length_cons, Nat.add_assoc, Nat.add_comm 1]

/-- The offset of a load or store. -/
theorem memArg_of {a o : ByteString} {align off : Nat} (ha : ULeb 32 a align) (ho : ULeb 32 o off)
    (hcode : code.drop pos = (op :: (a ++ o)) ++ rest)
    (h : memArg code (pos + 1) w = (some r, w')) :
    r = (off, pos + (op :: (a ++ o)).length) ∧ w' = w := by
  have hcode' : code.drop pos = op :: (a ++ (o ++ rest)) := by simpa using hcode
  have hfirst := drop_succ_of_drop hcode'
  obtain ⟨⟨n, p⟩, w₁, halign, hoff⟩ := bind_eq_some h
  obtain ⟨halign', rfl⟩ := scan_eq_some halign
  obtain ⟨hoff', rfl⟩ := scan_eq_some hoff
  rw [readUleb_of ha hfirst] at halign'
  obtain ⟨rfl, rfl⟩ := Prod.mk.inj (Option.some.inj halign')
  rw [readUleb_of ho (drop_add_of_drop hfirst)] at hoff'
  refine ⟨?_, rfl⟩
  rw [← Option.some.inj hoff', List.length_cons, List.length_append]
  congr 1
  omega

theorem memLoad_of (h : memLoad ea n w = (some bytes, w')) :
    ea + n ≤ w.vm.mem.length ∧ bytes = slice w.vm.mem ea n ∧ w' = w := by
  rw [memLoad] at h
  split at h
  · obtain ⟨hb, hw⟩ := Prod.mk.inj h
    exact ⟨‹_›, (Option.some.inj hb).symm, hw.symm⟩
  · cases congrArg Prod.fst h

theorem memStore_of {u : Unit} (h : memStore ea bytes w = (some u, w')) :
    ea + bytes.length ≤ w.vm.mem.length ∧ storeOf w' = { storeOf w with
      data := w.vm.mem.take ea ++ (bytes ++ w.vm.mem.drop (ea + bytes.length)) } := by
  rw [memStore] at h
  split at h
  · obtain ⟨-, hw⟩ := Prod.mk.inj h
    exact ⟨‹_›, by rw [← hw]; rfl⟩
  · cases congrArg Prod.fst h

/-- The memory index byte. -/
theorem memIndex_of (hcode : code.drop pos = 0x00 :: rest)
    (h : memIndex code pos w = (some p, w')) : p = pos + 1 ∧ w' = w := by
  rw [memIndex, getElem?_of_drop hcode] at h
  exact pure_eq_some h

/-- Growing the memory, and failing to. -/
theorem memGrow_of (hpages : w.vm.mem.length % pageSize = 0) {n r : I32}
    (h : memGrow n.toNat w = (some r, w')) :
    PlainStep (storeOf w) F (.i32 n :: vs) .memoryGrow (storeOf w') F (.i32 r :: vs) := by
  rw [memGrow, Vm.memGrow] at h
  dsimp only at h
  split at h
  · rename_i hfits
    obtain ⟨hr, rfl⟩ := Prod.mk.inj h
    obtain rfl := Option.some.inj hr
    have hold : w.vm.memPages * pageSize = w.vm.mem.length :=
      Nat.div_mul_cancel (Nat.dvd_of_mod_eq_zero hpages)
    have hnew : (w.vm.memPages + n.toNat) * pageSize - w.vm.mem.length = n.toNat * pageSize := by
      rw [Nat.add_mul, hold, Nat.add_sub_cancel_left]
    rw [hnew]
    exact .memoryGrow hfits.2
  · obtain ⟨hr, rfl⟩ := Prod.mk.inj h
    obtain rfl := Option.some.inj hr
    exact .memoryGrowFail

theorem localIndex_lt {t : ValType} (hF : types F = C.locals) (hx : C.locals[x]? = some t) :
    x < F.length := by
  rw [← hF, types, List.getElem?_map] at hx
  obtain ⟨v, hv, -⟩ := Option.map_eq_some_iff.mp hx
  exact (List.getElem?_eq_some_iff.mp hv).1

theorem lows_lt (h : x < F.length) : x < (lows F).length := by
  rw [lows, List.length_map]
  exact h

theorem lows_set (F : List Val) (x : Nat) (v : Val) : lows (F.set x v) = (lows F).set x v.low := List.map_set

theorem types_set {v : Val} (h : (types F)[x]? = some v.type) : types (F.set x v) = types F := by
  obtain ⟨hx, hv⟩ := List.getElem?_eq_some_iff.mp h
  rw [types, List.map_set, ← hv]
  exact List.set_getElem_self hx

theorem setWidth_ofInt (n : Int) : (BitVec.ofInt 64 n).setWidth 32 = BitVec.ofInt 32 n := by
  refine BitVec.eq_of_toNat_eq ?_
  rw [BitVec.toNat_setWidth, BitVec.toNat_ofInt, BitVec.toNat_ofInt]
  omega

/-- The numeric opcodes are the last arm of `plain`. -/
theorem plain_unary (op : UnOp) :
    (plain code op.opcode.toNat p fr : Interp σ (Nat × Frame)) =
      Fallible.ofOption (numeric op.opcode.toNat fr.stack) >>= fun stack =>
        pure (p, { fr with stack := stack }) := by
  cases op <;> rfl

theorem plain_binary (op : BinOp) :
    (plain code op.opcode.toNat p fr : Interp σ (Nat × Frame)) =
      Fallible.ofOption (numeric op.opcode.toNat fr.stack) >>= fun stack =>
        pure (p, { fr with stack := stack }) := by
  cases op <;> rfl

theorem numeric_unary (op : UnOp) (a : I32) (stack : List I32) :
    numeric op.opcode.toNat (a :: stack) = some (op.eval a :: stack) := by
  have hop : op.opcode.toNat = 0x45 ∨ (0x67 ≤ op.opcode.toNat ∧ op.opcode.toNat ≤ 0x69) := by
    cases op <;> decide
  rw [numeric, if_pos hop, unop_opcode, Option.map_some]

theorem numeric_binary (op : BinOp) (a b : I32) (stack : List I32) :
    numeric op.opcode.toNat (b :: a :: stack) = (op.eval a b).map (· :: stack) := by
  have hop : ¬ (op.opcode.toNat = 0x45 ∨ (0x67 ≤ op.opcode.toNat ∧ op.opcode.toNat ≤ 0x69)) := by
    cases op <;> decide
  rw [numeric, if_neg hop]
  show (binop op.opcode.toNat a b).map (· :: stack) = _
  rw [binop_opcode]

theorem pop_of {v : I32} {stack locals : List I32} {r : I32 × Frame}
    (h : pop ⟨v :: stack, locals⟩ w = (some r, w')) : r = (v, ⟨stack, locals⟩) ∧ w' = w := pure_eq_some h

theorem result_inj (h : (some (p, fr), w) = (some (pos', fr'), w')) :
    pos' = p ∧ fr' = fr ∧ w' = w := by
  obtain ⟨hres, rfl⟩ := Prod.mk.inj h
  obtain ⟨rfl, rfl⟩ := Prod.mk.inj (Option.some.inj hres)
  exact ⟨rfl, rfl, rfl⟩

/-- **One plain instruction is one reduction step.** -/
theorem plain_sim (hvalid : ValidPlain C i ts us) (henc : EncPlain i b)
    (hcode : code.drop pos = b ++ rest) (hop : code[pos]? = some op) (hvs : types vs = ts ++ rs)
    (hF : types F = C.locals) (hpages : w.vm.mem.length % pageSize = 0)
    (hrun : plain code op.toNat (pos + 1) ⟨lows vs ++ base, lows F⟩ w = (some (pos', fr'), w')) :
    PlainSim C i b pos (us ++ rs) base w F vs pos' fr' w' := by
  -- the opcode is the first byte of the encoding
  have hop' : ∀ {op' t}, b = op' :: t → op = op' := by
    rintro op' t rfl
    exact Option.some.inj (hop.symm.trans (getElem?_of_drop hcode))
  cases hvalid with
  | nop =>
    cases henc
    obtain rfl := hop' rfl
    obtain ⟨rfl, rfl, rfl⟩ := result_inj hrun
    exact ⟨vs, F, rfl, rfl, hvs, hF, .nop⟩
  | drop t =>
    cases henc
    obtain rfl := hop' rfl
    obtain ⟨v, vs₀, rfl, -, hvs₀⟩ := types_cons hvs
    obtain ⟨rfl, rfl, rfl⟩ := result_inj hrun
    exact ⟨vs₀, F, rfl, rfl, hvs₀, hF, .drop⟩
  | select t =>
    cases henc
    obtain rfl := hop' rfl
    obtain ⟨c, vs₁, rfl, hvs₁⟩ := types_i32 hvs
    obtain ⟨v₂, vs₂, rfl, hv₂, hvs₂⟩ := types_cons hvs₁
    obtain ⟨v₁, vs₀, rfl, hv₁, hvs₀⟩ := types_cons hvs₂
    obtain ⟨rfl, rfl, rfl⟩ := result_inj hrun
    refine ⟨(if c ≠ 0 then v₁ else v₂) :: vs₀, F, rfl, ?_, ?_, hF, .select⟩
    · show (⟨(if c ≠ 0 then v₁.low else v₂.low) :: (lows vs₀ ++ base), lows F⟩ : Frame) =
        ⟨(if c ≠ 0 then v₁ else v₂).low :: (lows vs₀ ++ base), lows F⟩
      rw [apply_ite Val.low]
    · show (if c ≠ 0 then v₁ else v₂).type :: types vs₀ = t :: rs
      rw [apply_ite Val.type, hv₁, hv₂, ite_self, hvs₀]
      rfl
  | @localGet x t hx =>
    obtain _ | _ | _ | hu := henc
    obtain rfl := hop' rfl
    obtain ⟨r, w₁, hscan, hrun₁⟩ := bind_eq_some hrun
    obtain ⟨rfl, rfl⟩ := scan_index hu hcode hscan
    obtain ⟨v, w₂, hget, hrun₂⟩ := bind_eq_some hrun₁
    obtain ⟨hlow, rfl⟩ := ofOption_eq_some hget
    obtain ⟨rfl, rfl, rfl⟩ := result_inj hrun₂
    rw [← hF, types, List.getElem?_map] at hx
    obtain ⟨v', hv', rfl⟩ := Option.map_eq_some_iff.mp hx
    have hlow' : (lows F)[x]? = some v := hlow
    rw [lows, List.getElem?_map, hv'] at hlow'
    obtain rfl := Option.some.inj hlow'
    exact ⟨v' :: vs, F, rfl, rfl, congrArg (v'.type :: ·) hvs, hF, .localGet hv'⟩
  | @localSet x t hx =>
    obtain _ | _ | _ | _ | hu := henc
    obtain rfl := hop' rfl
    obtain ⟨v, vs₀, rfl, hv, hvs₀⟩ := types_cons hvs
    obtain ⟨r, w₁, hscan, hrun₁⟩ := bind_eq_some hrun
    obtain ⟨rfl, rfl⟩ := scan_index hu hcode hscan
    obtain ⟨r, w₂, hpop, hrun₂⟩ := bind_eq_some hrun₁
    obtain ⟨rfl, rfl⟩ := pop_of hpop
    have hlt := localIndex_lt hF hx
    obtain ⟨rfl, rfl, rfl⟩ := result_inj ((congrFun (if_pos (lows_lt hlt)) _).symm.trans hrun₂)
    refine ⟨vs₀, F.set x v, rfl, ?_, hvs₀, ?_, .localSet hlt⟩
    · rw [lows_set]
      rfl
    · rw [types_set (by rw [hF, hv]; exact hx), hF]
  | @localTee x t hx =>
    obtain _ | _ | _ | _ | _ | hu := henc
    obtain rfl := hop' rfl
    obtain ⟨v, vs₀, rfl, hv, hvs₀⟩ := types_cons hvs
    obtain ⟨r, w₁, hscan, hrun₁⟩ := bind_eq_some hrun
    obtain ⟨rfl, rfl⟩ := scan_index hu hcode hscan
    obtain ⟨r, w₂, htop, hrun₂⟩ := bind_eq_some hrun₁
    obtain ⟨htop', rfl⟩ := ofOption_eq_some htop
    obtain rfl : v.low = r := Option.some.inj htop'
    have hlt := localIndex_lt hF hx
    obtain ⟨rfl, rfl, rfl⟩ := result_inj ((congrFun (if_pos (lows_lt hlt)) _).symm.trans hrun₂)
    refine ⟨v :: vs₀, F.set x v, rfl, ?_, hvs, ?_, .localTee hlt⟩
    · rw [lows_set]
    · rw [types_set (by rw [hF, hv]; exact hx), hF]
  | load _ _ | load8 _ _ =>
    cases henc
    rename_i ha ho
    obtain rfl := hop' rfl
    obtain ⟨i, vs₀, rfl, hvs₀⟩ := types_i32 hvs
    obtain ⟨r, w₁, harg, hrun₁⟩ := bind_eq_some hrun
    obtain ⟨rfl, rfl⟩ := memArg_of ha ho hcode harg
    obtain ⟨r, w₂, hpop, hrun₂⟩ := bind_eq_some hrun₁
    obtain ⟨rfl, rfl⟩ := pop_of hpop
    obtain ⟨bytes, w₃, hload, hrun₃⟩ := bind_eq_some hrun₂
    obtain ⟨hfits, rfl, rfl⟩ := memLoad_of hload
    obtain ⟨rfl, rfl, rfl⟩ := result_inj hrun₃
    exact ⟨.i32 _ :: vs₀, F, rfl, rfl, congrArg (ValType.i32 :: ·) hvs₀, hF, by constructor; exact hfits⟩
  | store _ _ | store8 _ _ =>
    cases henc
    rename_i ha ho
    obtain rfl := hop' rfl
    obtain ⟨c, vs₁, rfl, hvs₁⟩ := types_i32 hvs
    obtain ⟨i, vs₀, rfl, hvs₀⟩ := types_i32 hvs₁
    obtain ⟨r, w₁, harg, hrun₁⟩ := bind_eq_some hrun
    obtain ⟨rfl, rfl⟩ := memArg_of ha ho hcode harg
    obtain ⟨r, w₂, hpop, hrun₂⟩ := bind_eq_some hrun₁
    obtain ⟨rfl, rfl⟩ := pop_of hpop
    obtain ⟨r, w₃, hpop, hrun₃⟩ := bind_eq_some hrun₂
    obtain ⟨rfl, rfl⟩ := pop_of hpop
    obtain ⟨u, w₄, hstore, hrun₄⟩ := bind_eq_some hrun₃
    obtain ⟨hfits, hstore'⟩ := memStore_of hstore
    obtain ⟨rfl, rfl, rfl⟩ := result_inj hrun₄
    rw [length_leBytes] at hfits hstore'
    exact ⟨vs₀, F, rfl, rfl, hvs₀, hF, hstore' ▸ by constructor; exact hfits⟩
  | memorySize _ =>
    cases henc
    obtain rfl := hop' rfl
    obtain ⟨p, w₁, hindex, hrun₁⟩ := bind_eq_some hrun
    obtain ⟨rfl, rfl⟩ := memIndex_of (drop_succ_of_drop hcode) hindex
    obtain ⟨rfl, rfl, rfl⟩ := result_inj hrun₁
    exact ⟨.i32 _ :: vs, F, rfl, rfl, congrArg (ValType.i32 :: ·) hvs, hF, .memorySize⟩
  | memoryGrow _ =>
    cases henc
    obtain rfl := hop' rfl
    obtain ⟨n, vs₀, rfl, hvs₀⟩ := types_i32 hvs
    obtain ⟨p, w₁, hindex, hrun₁⟩ := bind_eq_some hrun
    obtain ⟨rfl, rfl⟩ := memIndex_of (drop_succ_of_drop hcode) hindex
    obtain ⟨r, w₂, hpop, hrun₂⟩ := bind_eq_some hrun₁
    obtain ⟨rfl, rfl⟩ := pop_of hpop
    obtain ⟨r, w₃, hgrow, hrun₃⟩ := bind_eq_some hrun₂
    obtain ⟨rfl, rfl, rfl⟩ := result_inj hrun₃
    exact ⟨.i32 r :: vs₀, F, rfl, rfl, congrArg (ValType.i32 :: ·) hvs₀, hF, memGrow_of hpages hgrow⟩
  | const c =>
    obtain _ | _ | _ | _ | _ | _ | _ | _ | _ | _ | _ | _ | hs := henc
    obtain rfl := hop' rfl
    obtain ⟨r, w₁, hscan, hrun₁⟩ := bind_eq_some hrun
    obtain ⟨hread, rfl⟩ := scan_eq_some hscan
    rw [readSleb_of hs (by decide) (drop_succ_of_drop hcode)] at hread
    obtain rfl := Option.some.inj hread
    obtain ⟨rfl, rfl, rfl⟩ := result_inj hrun₁
    refine ⟨.i32 _ :: vs, F, ?_, ?_, congrArg (ValType.i32 :: ·) hvs, hF, .const⟩
    · rw [List.length_cons]
      omega
    · rw [setWidth_ofInt]
      rfl
  | unary op =>
    cases henc
    obtain rfl := hop' rfl
    obtain ⟨a, vs₀, rfl, hvs₀⟩ := types_i32 hvs
    obtain ⟨stack, w₁, hnum, hrun₁⟩ := bind_eq_some ((congrFun (plain_unary op) w).symm.trans hrun)
    obtain ⟨hstack, rfl⟩ := ofOption_eq_some hnum
    obtain rfl := Option.some.inj ((numeric_unary op a (lows vs₀ ++ base)).symm.trans hstack)
    obtain ⟨rfl, rfl, rfl⟩ := result_inj hrun₁
    exact ⟨.i32 _ :: vs₀, F, rfl, rfl, congrArg (ValType.i32 :: ·) hvs₀, hF, .unary⟩
  | binary op =>
    cases henc
    obtain rfl := hop' rfl
    obtain ⟨b, vs₁, rfl, hvs₁⟩ := types_i32 hvs
    obtain ⟨a, vs₀, rfl, hvs₀⟩ := types_i32 hvs₁
    obtain ⟨stack, w₁, hnum, hrun₁⟩ := bind_eq_some ((congrFun (plain_binary op) w).symm.trans hrun)
    obtain ⟨hstack, rfl⟩ := ofOption_eq_some hnum
    obtain ⟨c, hc, rfl⟩ := Option.map_eq_some_iff.mp
      ((numeric_binary op a b (lows vs₀ ++ base)).symm.trans hstack)
    obtain ⟨rfl, rfl, rfl⟩ := result_inj hrun₁
    exact ⟨.i32 c :: vs₀, F, rfl, rfl, congrArg (ValType.i32 :: ·) hvs₀, hF, .binary hc⟩

end Plain

end AthenaOS.Wasm
