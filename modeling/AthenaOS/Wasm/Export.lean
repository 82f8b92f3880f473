import AthenaOS.Wasm.Refinement

/-!
# Calls of exports

`Instance::call_export` as a whole: it looks the export up, checks the number of arguments,
starts a fresh machine and takes the results off the operand stack.
-/

namespace AthenaOS.Wasm

open Lib Lib.Wire Lib.Fallible

/-! ## Runs of the semantics -/

variable {i : Instr} {vs vs' vals spare : List Val} {es es' : List Admin} {n l x : Nat}
variable {cont : List Instr} {f : Func}

theorem Spare.not_instr : ¬ Spare vs (.instr i :: es) := by
  intro h
  cases h

theorem Spare.not_nil : ¬ Spare vs [] := by
  intro h
  cases h

theorem Spare.of_frame_label {k : Nat} {F vs'' : List Val} {es'' : List Admin}
    (h : Spare vs (.frame n F vs' (.label k [] vs'' es'' :: es') :: es)) : Spare vs'' es'' := by
  cases h with
  | frame h => exact h

theorem Spare.of_label (h : Spare vs (.label n cont vs' es' :: es)) :
    (∃ vals spare, Branches 0 vals spare vs' es' ∧ vals.length = n ∧ spare ≠ []) ∨ Spare vs' es' :=
      by
  cases h with
  | branch hb hlen hne => exact .inl ⟨_, _, hb, hlen, hne⟩
  | label h => exact .inr h

theorem Branches.instr_eq (h : Branches l vals spare vs (.instr i :: es)) : i = .br l := by
  cases h
  rfl

theorem Branches.instr_vals (h : Branches l vals spare vs (.instr i :: es)) :
    vs = vals ++ spare := by
  cases h
  rfl

theorem Branches.of_label (h : Branches l vals spare vs (.label n cont vs' es' :: es)) :
    ∃ spare', Branches (l + 1) vals spare' vs' es' := by
  cases h with
  | label h => exact ⟨_, h⟩

theorem Returns.instr_eq (h : Returns vals spare vs (.instr i :: es)) : i = .ret := by
  cases h
  rfl

theorem Returns.ne_nil (h : Returns vals spare vs es) : es ≠ [] := by
  cases h with
  | here => exact List.cons_ne_nil _ _
  | label _ => exact List.cons_ne_nil _ _

theorem Returns.of_label (h : Returns vals spare vs (.label n cont vs' es' :: es)) :
    ∃ spare', Returns vals spare' vs' es' := by
  cases h with
  | label h => exact ⟨_, h⟩

section Next

variable {funcs : Funcs} {S S₁ : Store} {F F' F₁ vs vs' vs₁ : List Val} {e : Admin} {es es' es₁ : List Admin}
variable {n : Nat} {cont : List Instr}

/-- The configuration has one successor at most. -/
def Next (funcs : Funcs) (c c₁ : Config) : Prop := ∀ c', Step funcs c c' → c' = c₁

theorem Next.reduces {c c₁ d : Config} (hnext : Next funcs c c₁) (hne : c ≠ d) (h : Reduces funcs c d) :
    Reduces funcs c₁ d := by
  rcases Relation.ReflTransGen.cases_head h with heq | ⟨c', hc', hrest⟩
  · exact absurd heq hne
  · exact hnext c' hc' ▸ hrest

/-- What holds of the configuration and of all that follows its successor, holds of all that
follows it. -/
theorem Next.forall_reduces {c c₁ : Config} {P : Config → Prop} (hnext : Next funcs c c₁) (hc : P c)
    (h : ∀ d, Reduces funcs c₁ d → P d) (d : Config) (hd : Reduces funcs c d) : P d := by
  rcases Relation.ReflTransGen.cases_head hd with rfl | ⟨c', hc', hrest⟩
  · exact hc
  · exact h d (hnext c' hc' ▸ hrest)

theorem Next.label (h : Next funcs ⟨S, F, vs', e :: es'⟩ ⟨S₁, F₁, vs₁, es₁⟩) (htrap : e ≠ .trap)
    (hbr : ∀ vals spare, ¬ Branches 0 vals spare vs' (e :: es')) :
    Next funcs ⟨S, F, vs, .label n cont vs' (e :: es') :: es⟩ ⟨S₁, F₁, vs, .label n cont vs₁ es₁ :: es⟩ := by
  intro c' hc
  cases hc with
  | labelBranch hb _ => exact absurd hb (hbr _ _)
  | labelTrap => exact absurd rfl htrap
  | label hin =>
    obtain ⟨rfl, rfl, rfl, rfl⟩ := Config.mk.inj (h _ hin)
    rfl

theorem Next.frame (h : Next funcs ⟨S, F', vs', e :: es'⟩ ⟨S₁, F₁, vs₁, es₁⟩) (htrap : e ≠ .trap)
    (hret : ∀ vals spare, ¬ Returns vals spare vs' (e :: es')) :
    Next funcs ⟨S, F, vs, .frame n F' vs' (e :: es') :: es⟩ ⟨S₁, F, vs, .frame n F₁ vs₁ es₁ :: es⟩ := by
  intro c' hc
  cases hc with
  | frameReturn hr _ => exact absurd hr (hret _ _)
  | frameTrap => exact absurd rfl htrap
  | frame hin =>
    obtain ⟨rfl, rfl, rfl, rfl⟩ := Config.mk.inj (h _ hin)
    rfl

theorem not_step_nil {c' : Config} : ¬ Step funcs ⟨S, F, vs, []⟩ c' := by
  intro hc
  cases hc

/-- A call without arguments. -/
theorem next_invoke {x : Nat} {f : Func} (hf : funcs x = some f) (hparams : f.type.params = []) :
    Next funcs ⟨S, F, vs, .invoke x :: es⟩ ⟨S, F, vs, .frame f.type.results.length
      (f.locals.map Val.zero) [] [.instr (.block f.type.results.head? f.body)] :: es⟩ := by
  intro c' hc
  cases hc with
  | @invoke _ _ _ args _ f' _ hf' hlen =>
    obtain rfl := Option.some.inj (hf.symm.trans hf')
    rw [hparams] at hlen
    obtain rfl := List.eq_nil_of_length_eq_zero hlen
    rfl

theorem next_const {c : I32} :
    Next funcs ⟨S, F, vs, .instr (.const c) :: es⟩ ⟨S, F, .i32 c :: vs, es⟩ := by
  intro c' hc
  cases hc with
  | plain hp =>
    cases hp
    rfl
  | trap ht => cases ht

theorem next_block {rt : Option ValType} {body : List Instr} :
    Next funcs ⟨S, F, vs, .instr (.block rt body) :: es⟩
      ⟨S, F, vs, .label rt.toList.length [] [] (instrs body) :: es⟩ := by
  intro c' hc
  cases hc with
  | plain hp => cases hp
  | trap ht => cases ht
  | block => rfl

theorem next_binary {op : BinOp} {a b c : I32} (h : op.eval a b = some c) :
    Next funcs ⟨S, F, .i32 b :: .i32 a :: vs, .instr (.binary op) :: es⟩ ⟨S, F, .i32 c :: vs, es⟩ := by
  intro c' hc
  generalize hvs : Val.i32 b :: .i32 a :: vs = us at hc
  cases hc with
  | plain hp =>
    subst hvs
    cases hp with
    | binary h' =>
      obtain rfl := Option.some.inj (h.symm.trans h')
      rfl
  | trap ht =>
    subst hvs
    cases ht with
    | binary h' => exact nomatch h.symm.trans h'

theorem next_labelEnd : Next funcs ⟨S, F, vs, .label n cont vs' [] :: es⟩ ⟨S, F, vs' ++ vs, es⟩ := by
  intro c' hc
  cases hc with
  | labelEnd => rfl
  | labelBranch hb _ => cases hb
  | label hin => cases hin

theorem next_frameEnd : Next funcs ⟨S, F, vs, .frame n F' vs' [] :: es⟩ ⟨S, F, vs' ++ vs, es⟩ := by
  intro c' hc
  cases hc with
  | frameEnd _ => rfl
  | frameReturn hr _ => cases hr
  | frame hin => cases hin

/-- A branch out of one label, with one value. -/
theorem next_br {v : Val} : Next funcs ⟨S, F, vs, .label 1 cont (v :: vs') (.instr (.br 0) :: es') :: es⟩
    ⟨S, F, v :: vs, instrs cont ++ es⟩ := by
  intro c' hc
  cases hc with
  | @labelBranch _ _ _ _ vals spare _ _ _ _ hb hlen =>
    generalize hvs : v :: vs' = us at hb
    cases hb
    obtain ⟨v', rfl⟩ := List.length_eq_one_iff.mp hlen
    obtain ⟨rfl, -⟩ := List.cons.inj hvs
    rfl
  | label hin =>
    generalize v :: vs' = us at hin
    cases hin with
    | plain hp => cases hp
    | trap ht => cases ht

end Next

/-! ## Exports -/

section Exports

variable {σ : Type} {funcs : Funcs} {inst : Instance} {host : Host σ} {memory : Bool}

/-- The start of a call: the instance's fresh memory, and the arguments. -/
def Instance.start (inst : Instance) (fuel x : Nat) (args : List Val) : Config :=
  ⟨⟨(inst.initialVm fuel).mem, (inst.initialVm fuel).maxPages⟩, [], args.reverse, [.invoke x]⟩

/-- A block inside a function ends with its results on top of the operands present when it was
entered, whether it is left by its `end` or by a branch. -/
theorem runBody_operands (hdec : Decodes inst funcs)
    (hvalid : ∀ x f, funcs x = some f → ValidFunc funcs memory f) {B : Block} {pos pos' gas : Nat}
    {is : List Instr} {F vs : List Val} {base : List I32} {w w' : World σ} {fr : Frame}
    (hB : Running funcs B pos is (storeOf w) F vs) (htop : B.top = false)
    (hrun : runBody inst host gas B.code B.start B.isLoop pos ⟨lows vs ++ base, lows F⟩ w =
      (some (.ended pos', fr), w')) :
    ∃ vs', fr.stack = lows vs' ++ base ∧ types vs' = B.results := by
  cases runBody_sim hdec hvalid gas hB rfl hrun with
  | ended _ hvs hspare _ =>
    obtain rfl := hspare htop
    exact ⟨_, rfl, hvs⟩

/-- **What `call_export` returns is what the module reduces to**, results and memory, in every
run in which no branch drops operands; and a block that is left has its results on top of the
operands present when it was entered. -/
theorem callExport_refines (hdec : Decodes inst funcs)
    (hvalid : ∀ x f, funcs x = some f → ValidFunc funcs memory f) {name : String} {exported : Export}
    (hexport : inst.findExport name = some exported) {f : Func} (hf : funcs exported.index = some f)
    {args : List Val} (hargs : types args = f.type.params) {s : σ} {fuel : Nat} {results : List I32}
    {w : World σ}
    (htight : ∀ c, Reduces funcs (inst.start fuel exported.index args) c → ¬ Spare c.vals c.code)
    (hrun : callExport inst host name (lows args) s fuel = (some results, w)) :
    (∃ vs, results = lows vs ∧ types vs = f.type.results ∧
      Reduces funcs (inst.start fuel exported.index args) ⟨storeOf w, [], vs.reverse, []⟩) ∧
    ∀ {B : Block} {pos pos' gas : Nat} {is : List Instr} {F vs : List Val} {base : List I32}
      {w₀ w₁ : World σ} {fr : Frame}, Running funcs B pos is (storeOf w₀) F vs → B.top = false →
      runBody inst host gas B.code B.start B.isLoop pos ⟨lows vs ++ base, lows F⟩ w₀ =
        (some (.ended pos', fr), w₁) →
      ∃ vs', fr.stack = lows vs' ++ base ∧ types vs' = B.results := by
  refine ⟨?_, fun hB htop hbody => runBody_operands hdec hvalid hB htop hbody⟩
  obtain ⟨e, w₁, he, hrun₁⟩ := bind_eq_some hrun
  obtain ⟨he', rfl⟩ := ofOption_eq_some he
  obtain rfl := Option.some.inj (hexport.symm.trans he')
  obtain ⟨ftype, w₂, hftype, hrun₂⟩ := bind_eq_some hrun₁
  obtain ⟨hftype', rfl⟩ := ofOption_eq_some hftype
  obtain ⟨-, htype, -⟩ := hdec _ f hf
  obtain rfl := Option.some.inj (htype.symm.trans hftype')
  have hlen : ¬ (lows args).length ≠ f.type.params.length := by
    rw [← hargs, lows, types, List.length_map, List.length_map]
    exact fun hc => hc rfl
  have hrun₃ := (congrFun (if_neg hlen) _).symm.trans hrun₂
  obtain ⟨stack, w₃, hinvoke, hrun₄⟩ := bind_eq_some hrun₃
  have hstack : (lows args).reverse = lows args.reverse ++ (lows [] ++ []) := by
    rw [lows, lows, List.map_reverse]
    exact (List.append_nil _).symm
  rw [invoke, hstack] at hinvoke
  have hpages : (inst.initialVm fuel).mem.length % pageSize = 0 := by
    show (List.replicate _ _).length % pageSize = 0
    rw [List.length_replicate]
    exact Nat.mul_mod_left _ _
  have hargs' : types args.reverse = f.type.params.reverse := by
    rw [← hargs, types, types, List.map_reverse]
  have hstart : args.reverse = args.reverse ++ [] := (List.append_nil _).symm
  have hconfig : inst.start fuel exported.index args = ⟨storeOf (⟨inst.initialVm fuel, s, []⟩ : World σ), [],
      args.reverse ++ [], [.invoke exported.index]⟩ := by
    rw [← hstart]
    rfl
  rw [hconfig] at htight ⊢
  obtain ⟨vs, rfl, hvs, hred⟩ := invoke_sim (runBody_sim hdec hvalid fuel) hdec (hvalid _ f hf) hf hargs'
    hpages htight hinvoke
  have hcount : (lows vs).length = f.type.results.length := by
    have hmap := congrArg List.length hvs
    rwa [types, List.length_map, List.length_reverse, ← List.length_map (f := Val.low)] at hmap
  have hempty : lows vs ++ (lows [] ++ []) = lows vs := List.append_nil _
  rw [hempty] at hrun₄
  have hrun₅ := (congrFun (if_neg (by omega)) _).symm.trans hrun₄
  obtain ⟨rfl, rfl⟩ := pure_eq_some hrun₅
  refine ⟨vs.reverse, ?_, ?_, ?_⟩
  · rw [← hcount, List.take_length, lows, lows, List.map_reverse]
  · rw [types, List.map_reverse, ← types, hvs, List.reverse_reverse]
  · rw [List.reverse_reverse]
    rw [List.append_nil vs] at hred
    exact hred

end Exports

/-- `block (result i32) i32.const 2; br 0 end`. -/
def tightFunc : Func where
  type := ⟨[], [.i32]⟩
  locals := []
  body := [.block (some .i32) [.const 2, .br 0]]

def tightFuncs : Funcs := fun x => if x = 0 then some tightFunc else none

/-- The instance that exports it. -/
def tightInstance : Instance where
  types := [⟨[], [.i32]⟩]
  imports := []
  funcTypes := [0]
  codes := [⟨[], [0x02, 0x7F, 0x41, 0x02, 0x0C, 0x00, 0x0B, 0x0B]⟩]
  exports := [⟨"f", .func, 0⟩]
  initPages := 0
  maxPages := 1024

theorem tightFuncs_eq (h : tightFuncs x = some f) : x = 0 ∧ f = tightFunc := by
  rw [tightFuncs] at h
  split at h
  · exact ⟨‹_›, (Option.some.inj h).symm⟩
  · exact nomatch h

theorem encPlain_const {b : UInt8} (hb : b.toNat < 2 ^ 6) :
    EncPlain (.const (BitVec.ofInt 32 b.toNat)) [0x41, b] :=
  .const (.pos hb (Nat.lt_trans hb (by decide)))

theorem decodes_tight : Decodes tightInstance tightFuncs := by
  intro x f hf
  obtain ⟨rfl, rfl⟩ := tightFuncs_eq hf
  have hzero : ULeb 32 [0x00] 0 := ULeb.last (b := 0x00) (by decide) (by decide)
  have hbody : Enc [.const 2, .br 0] [0x41, 0x02, 0x0C, 0x00] :=
    .plain (encPlain_const (b := 2) (by decide)) (.br hzero .nil)
  have hblock : Enc tightFunc.body [0x02, 0x7F, 0x41, 0x02, 0x0C, 0x00, 0x0B] := .block hbody .nil
  exact ⟨Nat.le_refl _, rfl, _, _, rfl, rfl, by decide, hblock, rfl⟩

theorem valid_tight (x : Nat) (f : Func) (hf : tightFuncs x = some f) : ValidFunc tightFuncs false f := by
  obtain ⟨rfl, rfl⟩ := tightFuncs_eq hf
  have hbr : ValidSeq tightFuncs ((tightFunc.context false).label [.i32]) [.br 0] ([.i32] ++ []) [.i32] :=
    .br rfl .nil
  have hbody : ValidSeq tightFuncs ((tightFunc.context false).label [.i32]) [.const 2, .br 0]
      ([] ++ []) [.i32] := .plain (.const 2) hbr
  exact ⟨by decide, .block hbody .nil⟩

/-- The branch drops nothing. -/
theorem tight_reduces (c : Config) (h : Reduces tightFuncs (tightInstance.start 100 0 []) c) :
    ¬ Spare c.vals c.code := by
  have hnext := @Next.forall_reduces tightFuncs
  refine hnext (P := fun c => ¬ Spare c.vals c.code) (next_invoke (f := tightFunc) rfl rfl)
    (by intro h; cases h) ?_ c h
  refine hnext (next_block.frame (by simp) fun _ _ hr => nomatch hr.instr_eq) (by intro h; cases h) ?_
  refine hnext ((next_block.label (by simp) fun _ _ hb => nomatch hb.instr_eq).frame (by simp)
    fun _ _ hr => nomatch hr.of_label.choose_spec.instr_eq) (fun h => Spare.not_instr h.of_frame_label) ?_
  refine hnext (((next_const.label (by simp) fun _ _ hb => nomatch hb.instr_eq).label (by simp)
    fun _ _ hb => nomatch hb.of_label.choose_spec.instr_eq).frame (by simp)
    fun _ _ hr => nomatch hr.of_label.choose_spec.of_label.choose_spec.instr_eq) ?_ ?_
  · intro h
    rcases h.of_frame_label.of_label with ⟨_, _, hb, _⟩ | hinner
    · exact nomatch hb.instr_eq
    · exact Spare.not_instr hinner
  refine hnext ((next_br.label (by simp) fun _ _ hb => nomatch hb.of_label.choose_spec.instr_eq).frame
    (by simp) fun _ _ hr => nomatch hr.of_label.choose_spec.of_label.choose_spec.instr_eq) ?_ ?_
  · intro h
    rcases h.of_frame_label.of_label with ⟨vals, spare, hb, hlen, hne⟩ | hinner
    · have hone : [Val.i32 2].length = (vals ++ spare).length := congrArg List.length hb.instr_vals
      rw [List.length_append, hlen] at hone
      exact hne (List.eq_nil_of_length_eq_zero (Nat.add_left_cancel hone.symm))
    · exact Spare.not_instr hinner
  refine hnext (next_labelEnd.frame (by simp) fun _ _ hr => hr.of_label.choose_spec.ne_nil rfl)
    (fun h => Spare.not_nil h.of_frame_label) ?_
  refine hnext next_frameEnd (by intro h; cases h) ?_
  intro d hd
  rcases Relation.ReflTransGen.cases_head hd with rfl | ⟨c', hc', -⟩
  · exact Spare.not_nil
  · exact absurd hc' not_step_nil

/-- Its call returns 2, and so does the semantics. -/
theorem tight_refines : callExport tightInstance denyHost "f" (lows []) () 100 =
      (some [2], (callExport tightInstance denyHost "f" (lows []) () 100).2) ∧
    ∃ vs, [(2 : I32)] = lows vs ∧ types vs = [.i32] ∧
      Reduces tightFuncs (tightInstance.start 100 0 [])
        ⟨storeOf (callExport tightInstance denyHost "f" (lows []) () 100).2, [], vs.reverse, []⟩ := by
  have hrun : (callExport tightInstance denyHost "f" (lows []) () 100).1 = some [2] := by decide
  have hexport : tightInstance.findExport "f" = some ⟨"f", .func, 0⟩ := by decide
  exact ⟨Prod.ext hrun rfl, (callExport_refines decodes_tight valid_tight hexport rfl rfl
    tight_reduces (Prod.ext hrun rfl)).1⟩

/-! ## A branch that drops an operand -/

/-- `i32.const 5; block (result i32) i32.const 1; i32.const 2; br 0 end; i32.add`. -/
def spareFunc : Func where
  type := ⟨[], [.i32]⟩
  locals := []
  body := [.const 5, .block (some .i32) [.const 1, .const 2, .br 0], .binary .add]

def spareFuncs : Funcs := fun x => if x = 0 then some spareFunc else none

/-- The module that exports it. -/
def spareModule : List UInt8 :=
  [0x00, 0x61, 0x73, 0x6d, 0x01, 0x00, 0x00, 0x00,
    0x01, 0x05, 0x01, 0x60, 0x00, 0x01, 0x7F,
    0x03, 0x02, 0x01, 0x00,
    0x07, 0x05, 0x01, 0x01, 0x66, 0x00, 0x00,
    0x0A, 0x10, 0x01, 0x0E, 0x00, 0x41, 0x05, 0x02, 0x7F, 0x41, 0x01, 0x41, 0x02, 0x0C, 0x00, 0x0B, 0x6A, 0x0B]

def spareInstance : Instance where
  types := [⟨[], [.i32]⟩]
  imports := []
  funcTypes := [0]
  codes := [⟨[], [0x41, 0x05, 0x02, 0x7F, 0x41, 0x01, 0x41, 0x02, 0x0C, 0x00, 0x0B, 0x6A, 0x0B]⟩]
  exports := [⟨"f", .func, 0⟩]
  initPages := 0
  maxPages := 1024

theorem instantiate_spareModule : instantiate spareModule = some spareInstance := by decide

theorem spareFuncs_eq (h : spareFuncs x = some f) : x = 0 ∧ f = spareFunc := by
  rw [spareFuncs] at h
  split at h
  · exact ⟨‹_›, (Option.some.inj h).symm⟩
  · exact nomatch h

theorem enc_spareFunc : Enc spareFunc.body
    [0x41, 0x05, 0x02, 0x7F, 0x41, 0x01, 0x41, 0x02, 0x0C, 0x00, 0x0B, 0x6A] := by
  have hzero : ULeb 32 [0x00] 0 := ULeb.last (b := 0x00) (by decide) (by decide)
  have hbr : Enc [.br 0] [0x0C, 0x00] := .br hzero .nil
  have hadd : Enc [.binary .add] [0x6A] := .plain (.binary .add) .nil
  have hbody : Enc [.const 1, .const 2, .br 0] [0x41, 0x01, 0x41, 0x02, 0x0C, 0x00] :=
    .plain (encPlain_const (b := 1) (by decide)) (.plain (encPlain_const (b := 2) (by decide)) hbr)
  have hblock : Enc [.block (some .i32) [.const 1, .const 2, .br 0], .binary .add]
      [0x02, 0x7F, 0x41, 0x01, 0x41, 0x02, 0x0C, 0x00, 0x0B, 0x6A] := .block hbody hadd
  exact .plain (encPlain_const (b := 5) (by decide)) hblock

theorem decodes_spare : Decodes spareInstance spareFuncs := by
  intro x f hf
  obtain ⟨rfl, rfl⟩ := spareFuncs_eq hf
  exact ⟨Nat.le_refl _, rfl, _, _, rfl, rfl, by decide, enc_spareFunc, rfl⟩

theorem valid_spare (x : Nat) (f : Func) (hf : spareFuncs x = some f) : ValidFunc spareFuncs false f := by
  obtain ⟨rfl, rfl⟩ := spareFuncs_eq hf
  have hbr : ValidSeq spareFuncs ((spareFunc.context false).label [.i32]) [.br 0] ([.i32] ++ [.i32]) [.i32] :=
    .br rfl .nil
  have htwo : ValidSeq spareFuncs ((spareFunc.context false).label [.i32]) [.const 2, .br 0]
      ([] ++ [.i32]) [.i32] := .plain (.const 2) hbr
  have hone : ValidSeq spareFuncs ((spareFunc.context false).label [.i32]) [.const 1, .const 2, .br 0]
      ([] ++ []) [.i32] := .plain (.const 1) htwo
  have hadd : ValidSeq spareFuncs (spareFunc.context false) [.binary .add] ([.i32, .i32] ++ []) [.i32] :=
    .plain (.binary .add) .nil
  have hblock : ValidSeq spareFuncs (spareFunc.context false)
      [.block (some .i32) [.const 1, .const 2, .br 0], .binary .add] ([.i32] ++ []) [.i32] :=
    .block hone hadd
  have hbody : ValidSeq spareFuncs (spareFunc.context false) spareFunc.body ([] ++ []) [.i32] :=
    .plain (.const 5) hblock
  exact ⟨by decide, hbody⟩

/-- The only result of the module is 7. -/
theorem spare_reduces {S : Store} {d : Config}
    (h : Reduces spareFuncs ⟨S, [], [], [.invoke 0]⟩ d) (hd : d.code = []) : d.vals = [.i32 7] := by
  have hne : ∀ {S : Store} {F vs : List Val} {e : Admin} {es : List Admin},
      (⟨S, F, vs, e :: es⟩ : Config) ≠ d := by
    rintro S F vs e es rfl
    exact nomatch hd
  have h₁ := (next_invoke (f := spareFunc) rfl rfl).reduces hne h
  have h₂ := (next_block.frame (by simp) fun _ _ hr => nomatch hr.instr_eq).reduces hne h₁
  have h₃ := ((next_const.label (by simp) fun _ _ hb => nomatch hb.instr_eq).frame (by simp)
    fun _ _ hr => nomatch hr.of_label.choose_spec.instr_eq).reduces hne h₂
  have h₄ := ((next_block.label (by simp) fun _ _ hb => nomatch hb.instr_eq).frame (by simp)
    fun _ _ hr => nomatch hr.of_label.choose_spec.instr_eq).reduces hne h₃
  have h₅ := (((next_const.label (by simp) fun _ _ hb => nomatch hb.instr_eq).label (by simp)
    fun _ _ hb => nomatch hb.of_label.choose_spec.instr_eq).frame (by simp)
    fun _ _ hr => nomatch hr.of_label.choose_spec.of_label.choose_spec.instr_eq).reduces hne h₄
  have h₆ := (((next_const.label (by simp) fun _ _ hb => nomatch hb.instr_eq).label (by simp)
    fun _ _ hb => nomatch hb.of_label.choose_spec.instr_eq).frame (by simp)
    fun _ _ hr => nomatch hr.of_label.choose_spec.of_label.choose_spec.instr_eq).reduces hne h₅
  -- the branch takes 2 and drops 1
  have h₇ := ((next_br.label (by simp) fun _ _ hb => nomatch hb.of_label.choose_spec.instr_eq).frame
    (by simp) fun _ _ hr => nomatch hr.of_label.choose_spec.of_label.choose_spec.instr_eq).reduces hne h₆
  have hadd : BinOp.add.eval 5 2 = some 7 := by decide
  have h₈ := (((next_binary hadd).label (by simp) fun _ _ hb => nomatch hb.instr_eq).frame (by simp)
    fun _ _ hr => nomatch hr.of_label.choose_spec.instr_eq).reduces hne h₇
  have h₉ := (next_labelEnd.frame (by simp) fun _ _ hr =>
    hr.of_label.choose_spec.ne_nil rfl).reduces hne h₈
  have h₁₀ := next_frameEnd.reduces hne h₉
  rcases Relation.ReflTransGen.cases_head h₁₀ with rfl | ⟨c', hc', -⟩
  · rfl
  · exact absurd hc' not_step_nil

/-- **The operand that the branch drops is added.** The module is valid and its call returns 3;
it reduces to 7. -/
theorem spare_not_refines : instantiate spareModule = some spareInstance ∧
    Decodes spareInstance spareFuncs ∧ (∀ x f, spareFuncs x = some f → ValidFunc spareFuncs false f) ∧
    (callExport spareInstance denyHost "f" (lows []) () 100).1 = some [3] ∧
    ¬ ∃ vs, [(3 : I32)] = lows vs ∧ types vs = [.i32] ∧
      Reduces spareFuncs (spareInstance.start 100 0 [])
        ⟨storeOf (callExport spareInstance denyHost "f" (lows []) () 100).2, [], vs.reverse, []⟩ := by
  refine ⟨instantiate_spareModule, decodes_spare, valid_spare, by decide, ?_⟩
  rintro ⟨vs, hthree, -, hred⟩
  have hvals : vs.reverse = [.i32 7] := spare_reduces hred rfl
  rw [← List.reverse_reverse vs, hvals] at hthree
  exact absurd hthree (by decide)

end AthenaOS.Wasm
