import AthenaOS.Wasm.Plain

/-!
# The interpreter follows the reduction semantics

The interpreter keeps one flat operand stack: a block's own operands lie on top of what was
there when it was entered (`base`). A run of a block body is a reduction of the block's label,
as long as no branch drops operands.
-/

namespace AthenaOS.Wasm

open Lib Lib.Wire Lib.Fallible

/-! ## Blocks -/

/-- A block the interpreter is in: its code and where it starts, and the label it stands for.
`top` marks the body of a function. -/
structure Block where
  code : ByteString
  start : Nat
  isLoop : Bool
  top : Bool
  context : Context
  arity : Nat
  cont : List Instr
  results : List ValType
  endPos : Nat
  elsePos : Option Nat

/-- Where a branch to the block's own label goes. -/
inductive Block.Target (funcs : Funcs) : Block → Prop
  | block {code : ByteString} {start endPos : Nat} {top : Bool} {C : Context} {us : List ValType}
      {elsePos : Option Nat} : C.labels[0]? = some us → skipBlockBody code start = some endPos →
    Target funcs ⟨code, start, false, top, C, us.length, [], us, endPos, elsePos⟩
  | loop {code b rest : ByteString} {start : Nat} {C : Context} {rt : Option ValType}
      {body : List Instr} : C.labels[0]? = some [] → Enc body b →
    code.drop start = b ++ 0x0B :: rest → ValidSeq funcs C body [] rt.toList →
    Target funcs ⟨code, start, true, false, C, 0, [.loop rt body], rt.toList, start + b.length + 1, none⟩

/-- The rest of the block's body lies at `pos`, up to its `end` or its `else`. -/
def Block.Rest (B : Block) (pos : Nat) (is : List Instr) : Prop :=
  ∃ b rest, Enc is b ∧ (B.code.drop pos = b ++ 0x0B :: rest ∧ B.endPos = pos + b.length + 1 ∨
    B.code.drop pos = b ++ 0x05 :: rest ∧ B.elsePos = some (pos + b.length + 1))

/-- Reduction of the contents of a label, wherever the label stands. -/
def LabelReduces (funcs : Funcs) (B : Block) (c c' : Config) : Prop :=
  ∀ vs es, Reduces funcs ⟨c.store, c.locals, vs, .label B.arity B.cont c.vals c.code :: es⟩
    ⟨c'.store, c'.locals, vs, .label B.arity B.cont c'.vals c'.code :: es⟩

/-- No branch inside the label drops operands; one to the label itself does not either, unless
it is that of a function body. -/
def Tight (funcs : Funcs) (B : Block) (c : Config) : Prop :=
  ∀ c', LabelReduces funcs B c c' → ¬ Spare c'.vals c'.code ∧
    (B.top = false → ∀ vals spare, Branches 0 vals spare c'.vals c'.code → vals.length = B.arity →
      spare = [])

section Labels

variable {funcs : Funcs} {B : Block} {c c' c'' : Config}

theorem LabelReduces.of_reduces (h : Reduces funcs c c') : LabelReduces funcs B c c' :=
  fun vs es => h.label vs es

theorem LabelReduces.trans (h : LabelReduces funcs B c c') (h' : LabelReduces funcs B c' c'') :
    LabelReduces funcs B c c'' := fun vs es => (h vs es).trans (h' vs es)

theorem Tight.mono (h : Tight funcs B c) (hred : LabelReduces funcs B c c') : Tight funcs B c' :=
  fun c'' hred' => h c'' (hred.trans hred')

variable {B' : Block} {es : List Admin}

/-- Inside a label inside the label. -/
theorem Tight.inner {vs : List Val}
    (h : Tight funcs B ⟨c.store, c.locals, vs, .label B'.arity B'.cont c.vals c.code :: es⟩) :
    Tight funcs B' c := by
  intro c' hred
  obtain ⟨hspare, -⟩ := h _ (.of_reduces (hred vs es))
  refine ⟨fun hc => hspare (.label hc), fun _ vals spare hbr hlen => ?_⟩
  by_contra hne
  exact hspare (.branch hbr hlen hne)

/-- Inside the body of a function. -/
theorem Tight.called (htop : B'.top = true) (hcont : B'.cont = []) {n : Nat} {F vs : List Val}
    (h : ∀ c', Reduces funcs ⟨c.store, F, vs,
      .frame n c.locals [] [.label B'.arity [] c.vals c.code] :: es⟩ c' → ¬ Spare c'.vals c'.code) :
    Tight funcs B' c := by
  intro c' hred
  have hframe := Reduces.frame (n := n) (hred [] []) F vs es
  rw [hcont] at hframe
  refine ⟨fun hc => h _ hframe (.frame hc), fun hnot => ?_⟩
  rw [htop] at hnot
  exact nomatch hnot

end Labels

/-- The interpreter stands at `pos` of the block, the semantics at `is` with the operands `vs`. -/
structure Running (funcs : Funcs) (B : Block) (pos : Nat) (is : List Instr) (S : Store)
    (F vs : List Val) : Prop where
  short : B.code.length < 2 ^ 32
  target : B.Target funcs
  rest : B.Rest pos is
  valid : ValidSeq funcs B.context is (types vs) B.results
  locals : types F = B.context.locals
  pages : S.data.length % pageSize = 0
  tight : Tight funcs B ⟨S, F, vs, instrs is⟩

/-- **How a block ends**, for both: started at `c` above the operands `base`, it stops with
`stop` and the frame `fr`, in the store `S`. -/
inductive Ends (funcs : Funcs) (B : Block) (c : Config) (base : List I32) (S : Store) :
    Stop → Frame → Prop
  | ended {F vs spare : List Val} : types F = B.context.locals → types vs = B.results →
    (B.top = false → spare = []) →
    (∀ vs₀ es₀, Reduces funcs ⟨c.store, c.locals, vs₀, .label B.arity B.cont c.vals c.code :: es₀⟩
      ⟨S, F, vs ++ vs₀, es₀⟩) →
    Ends funcs B c base S (.ended B.endPos) ⟨lows vs ++ (lows spare ++ base), lows F⟩
  | elseAt {F vs : List Val} {pos : Nat} : types F = B.context.locals → types vs = B.results →
    B.elsePos = some pos →
    (∀ vs₀ es₀, Reduces funcs ⟨c.store, c.locals, vs₀, .label B.arity B.cont c.vals c.code :: es₀⟩
      ⟨S, F, vs ++ vs₀, es₀⟩) →
    Ends funcs B c base S (.elseAt pos) ⟨lows vs ++ base, lows F⟩
  | branch {F vs vals spare : List Val} {es : List Admin} {k : Nat} {ls : List ValType} :
    types F = B.context.locals → B.context.labels[k + 1]? = some ls → types vals = ls →
    Branches (k + 1) vals spare vs es → LabelReduces funcs B c ⟨S, F, vs, es⟩ →
    Ends funcs B c base S (.branch k) ⟨lows vals ++ (lows spare ++ base), lows F⟩
  | returned {F vs vals spare : List Val} {es : List Admin} :
    types F = B.context.locals → types vals = B.context.results → Returns vals spare vs es →
    LabelReduces funcs B c ⟨S, F, vs, es⟩ →
    Ends funcs B c base S .returned ⟨lows vals ++ (lows spare ++ base), lows F⟩

/-- What the block does later, it does from the start. -/
theorem Ends.of_labelReduces {funcs : Funcs} {B : Block} {c c' : Config} {base : List I32} {S : Store}
    {stop : Stop} {fr : Frame} (h : Ends funcs B c' base S stop fr) (hred : LabelReduces funcs B c c') :
    Ends funcs B c base S stop fr := by
  cases h with
  | ended hF hvs hspare hend => exact .ended hF hvs hspare fun vs₀ es₀ => (hred vs₀ es₀).trans (hend vs₀ es₀)
  | elseAt hF hvs hpos hend => exact .elseAt hF hvs hpos fun vs₀ es₀ => (hred vs₀ es₀).trans (hend vs₀ es₀)
  | branch hF hl hvals hbr hred' => exact .branch hF hl hvals hbr (hred.trans hred')
  | returned hF hvals hret hred' => exact .returned hF hvals hret (hred.trans hred')

/-! ## Branches and inner blocks -/

/-- Operands on operands. -/
theorem lows_append (vs vs' : List Val) (base : List I32) :
    lows (vs ++ vs') ++ base = lows vs ++ (lows vs' ++ base) := by
  rw [lows, List.map_append, List.append_assoc]
  rfl

theorem types_of_append {vs vs' : List Val} {ts : List ValType} (h : types vs = ts) :
    types (vs ++ vs') = ts ++ types vs' := by
  rw [types, List.map_append, ← h]
  rfl

section Control

variable {σ : Type} {funcs : Funcs} {self : Body σ} {B : Block} {c : Config} {S : Store}
variable {F vs vals spare : List Val} {es : List Admin} {ls : List ValType} {base : List I32}
variable {w w' : World σ} {stop : Stop} {fr : Frame}

/-- The bodies that `self` runs follow the semantics. -/
def Simulates (funcs : Funcs) (self : Body σ) : Prop :=
  ∀ {B : Block} {pos : Nat} {is : List Instr} {S : Store} {F vs : List Val} {base : List I32}
    {w w' : World σ} {stop : Stop} {fr : Frame}, Running funcs B pos is S F vs → storeOf w = S →
    self B.code B.start B.isLoop pos ⟨lows vs ++ base, lows F⟩ w = (some (stop, fr), w') →
    Ends funcs B ⟨S, F, vs, instrs is⟩ base (storeOf w') stop fr

/-- The facts about a block that do not change while it runs. -/
structure Static (funcs : Funcs) (B : Block) (c : Config) : Prop where
  short : B.code.length < 2 ^ 32
  target : B.Target funcs
  tight : Tight funcs B c

variable {pos : Nat} {is body : List Instr} {onElse : Nat → Option Nat} {u : Unit}
variable {code : ByteString} {op : UInt8} {i : Instr}

/-- The block goes on at `pos`. -/
theorem Static.running (h : Static funcs B c) (hred : LabelReduces funcs B c ⟨S, F, vs, instrs is⟩)
    (hrest : B.Rest pos is) (hvalid : ValidSeq funcs B.context is (types vs) B.results)
    (hF : types F = B.context.locals) (hpages : S.data.length % pageSize = 0) :
    Running funcs B pos is S F vs :=
  ⟨h.short, h.target, hrest, hvalid, hF, hpages, h.tight.mono hred⟩

/-- A branch to the `l`-th label counted from the block. -/
theorem branchTo_sim (hself : Simulates funcs self) (hB : Static funcs B c) {l : Nat}
    (hred : LabelReduces funcs B c ⟨S, F, vs, es⟩) (hbr : Branches l vals spare vs es)
    (hlabel : B.context.labels[l]? = some ls) (hvals : types vals = ls)
    (hF : types F = B.context.locals) (hpages : S.data.length % pageSize = 0) (hw : storeOf w = S)
    (hrun : branchTo self B.code B.start B.isLoop l ⟨lows vals ++ (lows spare ++ base), lows F⟩ w =
      (some (stop, fr), w')) :
    Ends funcs B c base (storeOf w') stop fr := by
  cases l with
  | zero =>
    have htight := (hB.tight _ hred).2
    cases hB.target with
    | @block code start endPos top C us elsePos hhead hskip =>
      obtain rfl := Option.some.inj (hhead.symm.trans hlabel)
      obtain ⟨p, w₁, hp, hpure⟩ := bind_eq_some hrun
      obtain ⟨hp', rfl⟩ := ofOption_eq_some hp
      obtain rfl := Option.some.inj (hskip.symm.trans hp')
      obtain ⟨hres, rfl⟩ := pure_eq_some hpure
      obtain ⟨rfl, rfl⟩ := Prod.mk.inj hres
      have hlen : vals.length = us.length := by rw [← hvals, types, List.length_map]
      subst hw
      refine .ended hF hvals (fun htop => htight htop vals spare hbr hlen) fun vs₀ es₀ => ?_
      exact (hred vs₀ es₀).tail (.labelBranch hbr hlen)
    | @loop code b rest start C rt body hhead henc hbody hvalid =>
      obtain rfl := Option.some.inj (hhead.symm.trans hlabel)
      obtain rfl : vals = [] := List.map_eq_nil_iff.mp hvals
      obtain rfl := htight rfl [] spare hbr rfl
      -- the loop starts over: the label is gone, and `loop` puts it back
      have hagain : LabelReduces funcs ⟨code, start, true, false, C, 0, [.loop rt body], rt.toList,
          start + b.length + 1, none⟩ c ⟨S, F, [], instrs body⟩ := fun vs₀ es₀ =>
        ((hred vs₀ es₀).tail (.labelBranch hbr rfl)).tail .loop
      refine (hself (hB.running hagain ⟨b, rest, henc, .inl ⟨hbody, rfl⟩⟩ hvalid hF hpages) hw
        hrun).of_labelReduces hagain
  | succ k =>
    obtain ⟨hres, rfl⟩ := pure_eq_some hrun
    obtain ⟨rfl, rfl⟩ := Prod.mk.inj hres
    subst hw
    exact .branch hF hlabel hvals hbr hred

/-- A block inside the block has ended. -/
theorem resume_sim (hself : Simulates funcs self) (hB : Static funcs B c) {B' : Block} {S₁ : Store}
    {F₁ : List Val} (hin : B'.context = B.context.label ls) (htop : B'.top = false)
    (hred : LabelReduces funcs B c ⟨S₁, F₁, vs, .label B'.arity B'.cont [] (instrs body) ::
      instrs is⟩) (hends : Ends funcs B' ⟨S₁, F₁, [], instrs body⟩ (lows vs ++ base) S stop fr)
    (helse : ∀ pos pos', B'.elsePos = some pos → onElse pos = some pos' → pos' = B'.endPos)
    (hrest : B.Rest B'.endPos is)
    (hvalid : ValidSeq funcs B.context is (B'.results ++ types vs) B.results)
    (hpages : S.data.length % pageSize = 0) (hw : storeOf w = S) {stop' : Stop} {fr' : Frame}
    (hrun : resume self B.code B.start B.isLoop onElse (stop, fr) w = (some (stop', fr'), w')) :
    Ends funcs B c base (storeOf w') stop' fr' := by
  have hlocals : B'.context.locals = B.context.locals := by
    rw [hin]
    rfl
  -- the operands the inner block leaves lie on those of the outer one
  have hgo : ∀ {F' vs' : List Val}, types F' = B'.context.locals → types vs' = B'.results →
      (∀ vs₀ es₀, Reduces funcs ⟨S₁, F₁, vs₀, .label B'.arity B'.cont [] (instrs body) :: es₀⟩
        ⟨S, F', vs' ++ vs₀, es₀⟩) →
      self B.code B.start B.isLoop B'.endPos ⟨lows vs' ++ (lows vs ++ base), lows F'⟩ w =
        (some (stop', fr'), w') → Ends funcs B c base (storeOf w') stop' fr' := by
    intro F' vs' hF' hvs' hend hself'
    have hred' : LabelReduces funcs B c ⟨S, F', vs' ++ vs, instrs is⟩ :=
      hred.trans (.of_reduces (hend vs (instrs is)))
    refine (hself (hB.running hred' hrest (by rw [types_of_append hvs']; exact hvalid) (hF'.trans hlocals)
      hpages) hw ?_).of_labelReduces hred'
    rw [lows_append]
    exact hself'
  cases hends with
  | ended hF' hvs' hspare hend =>
    obtain rfl := hspare htop
    exact hgo hF' hvs' hend hrun
  | elseAt hF' hvs' hpos hend =>
    obtain ⟨p, w₁, hp, hself'⟩ := bind_eq_some hrun
    obtain ⟨hp', rfl⟩ := ofOption_eq_some hp
    obtain rfl := helse _ _ hpos hp'
    exact hgo hF' hvs' hend hself'
  | @branch F' vs₁ vals spare es₁ k ls' hF' hl hvals hbr hred' =>
    have hout : LabelReduces funcs B c ⟨S, F', vs, .label B'.arity B'.cont vs₁ es₁ :: instrs is⟩ :=
      hred.trans (.of_reduces (hred' vs (instrs is)))
    rw [hin] at hl
    rw [← lows_append spare] at hrun
    exact branchTo_sim hself hB hout (.label hbr) hl hvals (hF'.trans hlocals) hpages hw hrun
  | @returned F' vs₁ vals spare es₁ hF' hvals hret hred' =>
    have hout : LabelReduces funcs B c ⟨S, F', vs, .label B'.arity B'.cont vs₁ es₁ :: instrs is⟩ :=
      hred.trans (.of_reduces (hred' vs (instrs is)))
    obtain ⟨hres, rfl⟩ := pure_eq_some hrun
    obtain ⟨rfl, rfl⟩ := Prod.mk.inj hres
    subst hw
    rw [← lows_append spare]
    refine .returned (hF'.trans hlocals) ?_ (.label hret) hout
    rw [hvals, hin]
    rfl

/-! ## Calls -/

/-- The bytes of a module's defined functions are those of `funcs`. -/
def Decodes (inst : Instance) (funcs : Funcs) : Prop :=
  ∀ x f, funcs x = some f → inst.imports.length ≤ x ∧ inst.funcType x = some f.type ∧
    ∃ body b, inst.codes[x - inst.imports.length]? = some body ∧ body.code = b ++ [0x0B] ∧
      body.code.length < 2 ^ 32 ∧ Enc f.body b ∧
      f.locals = body.locals.flatMap fun group => List.replicate group.1 group.2

theorem zeroLocals_eq (body : FuncBody) : body.zeroLocals =
    lows ((body.locals.flatMap fun group => List.replicate group.1 group.2).map Val.zero) := by
  have hzero : ∀ t, (Val.zero t).low = 0 := by
    intro t
    cases t <;> rfl
  rw [FuncBody.zeroLocals, lows, List.map_map, List.map_flatMap]
  congr 1
  funext group
  rw [List.map_replicate, Function.comp_apply, hzero]

/-- Version 1.0 has at most one result. -/
theorem results_of_le_one {ts : List ValType} (h : ts.length ≤ 1) :
    ts.head?.toList = ts ∧ ts.reverse = ts := by
  match ts, h with
  | [], _ => exact ⟨rfl, rfl⟩
  | [t], _ => exact ⟨rfl, rfl⟩

theorem storeOf_enter (h : enter w = (some u, w')) : storeOf w' = storeOf w := by
  rw [enter] at h
  split at h
  · cases congrArg Prod.fst h
  · obtain ⟨-, rfl⟩ := Prod.mk.inj h
    rfl

theorem storeOf_leave (h : leave w = (some u, w')) : storeOf w' = storeOf w := by
  obtain ⟨-, rfl⟩ := Prod.mk.inj h
  rfl

/-- The body of a function as a block. -/
def Func.block (f : Func) (memory : Bool) (code : ByteString) : Block where
  code := code
  start := 0
  isLoop := false
  top := true
  context := f.context memory
  arity := f.type.results.reverse.length
  cont := []
  results := f.type.results.reverse
  endPos := code.length
  elsePos := none

variable {inst : Instance} {host : Host σ} {memory : Bool}

/-- **A call** pops its arguments, runs the body above nothing, and leaves the results. -/
theorem invoke_sim (hself : Simulates funcs self) (hdec : Decodes inst funcs) {x : Nat} {f : Func}
    (hvalid : ValidFunc funcs memory f) (hf : funcs x = some f) {args : List Val}
    (hargs : types args = f.type.params.reverse) (hpages : w.vm.mem.length % pageSize = 0)
    {stack : List I32} (hspare : ∀ c', Reduces funcs ⟨storeOf w, F, args ++ vs, .invoke x :: es⟩ c' →
      ¬ Spare c'.vals c'.code)
    (hrun : invokeWith inst host self x (lows args ++ (lows vs ++ base)) w = (some stack, w')) :
    ∃ vs', stack = lows vs' ++ (lows vs ++ base) ∧ types vs' = f.type.results.reverse ∧
      Reduces funcs ⟨storeOf w, F, args ++ vs, .invoke x :: es⟩ ⟨storeOf w', F, vs' ++ vs, es⟩ := by
  obtain ⟨himport, htype, body, b, hbody, hcode, hshort, henc, hlocals⟩ := hdec x f hf
  have hlen : args.length = f.type.params.length := by
    have hmap := congrArg List.length hargs
    rwa [types, List.length_map, List.length_reverse] at hmap
  have hlow : (lows args).length = f.type.params.length := by rw [lows, List.length_map, hlen]
  have htake : (lows args ++ (lows vs ++ base)).take f.type.params.length = lows args :=
    List.take_left' hlow
  have hdrop : (lows args ++ (lows vs ++ base)).drop f.type.params.length = lows vs ++ base :=
    List.drop_left' hlow
  obtain ⟨hhead, hrev⟩ := results_of_le_one hvalid.results
  have hcount : f.type.results.head?.toList.length = f.type.results.reverse.length := by rw [hhead, hrev]
  -- the interpreter's frame is the semantics'
  generalize hF₁ : args.reverse ++ f.locals.map Val.zero = F₁
  have hframe : (lows args).reverse ++ body.zeroLocals = lows F₁ := by
    rw [zeroLocals_eq, ← hlocals, ← hF₁]
    simp only [lows, List.map_append, List.map_reverse]
  have htypes : types F₁ = (f.context memory).locals := by
    have hzero : ∀ t, (Val.zero t).type = t := by
      intro t
      cases t <;> rfl
    rw [← hF₁, types, List.map_append, List.map_reverse, List.map_map]
    have hz : f.locals.map (Val.type ∘ Val.zero) = f.locals := by
      rw [show Val.type ∘ Val.zero = id from funext hzero, List.map_id]
    rw [hz, ← types, hargs, List.reverse_reverse]
    rfl
  have henter : Reduces funcs ⟨storeOf w, F, args ++ vs, .invoke x :: es⟩
      ⟨storeOf w, F, vs, .frame f.type.results.length F₁ []
        [.label f.type.results.reverse.length [] [] (instrs f.body)] :: es⟩ := by
    refine (Relation.ReflTransGen.single (.invoke hf hlen)).tail ?_
    rw [hF₁]
    have hblock : Step funcs ⟨storeOf w, F₁, [], [.instr (.block f.type.results.head? f.body)]⟩
        ⟨storeOf w, F₁, [], [.label f.type.results.head?.toList.length [] [] (instrs f.body)]⟩ := .block
    rw [hcount] at hblock
    exact .frame hblock
  -- run the interpreter up to the body
  obtain ⟨ftype, w₁, hftype, hrun₁⟩ := bind_eq_some hrun
  obtain ⟨hftype', rfl⟩ := ofOption_eq_some hftype
  obtain rfl := Option.some.inj (htype.symm.trans hftype')
  have hlong : ¬ (lows args ++ (lows vs ++ base)).length < f.type.params.length := by
    rw [List.length_append, hlow]
    omega
  have hrun₂ := ((congrFun (if_neg hlong) w₁).symm.trans hrun₁)
  have hrun₃ := ((congrFun (if_neg (Nat.not_lt.mpr himport)) w₁).symm.trans hrun₂)
  obtain ⟨u, w₂, hin, hrun₄⟩ := bind_eq_some hrun₃
  have hw₂ : storeOf w₂ = storeOf w₁ := storeOf_enter hin
  obtain ⟨body', w₃, hbody', hrun₅⟩ := bind_eq_some hrun₄
  obtain ⟨hbody'', rfl⟩ := ofOption_eq_some hbody'
  obtain rfl := Option.some.inj (hbody.symm.trans hbody'')
  obtain ⟨⟨stop₁, fr₁⟩, w₄, hself', hrun₆⟩ := bind_eq_some hrun₅
  obtain ⟨u', w₅, hout, hrun₇⟩ := bind_eq_some hrun₆
  have hw₅ : storeOf w₅ = storeOf w₄ := storeOf_leave hout
  rw [htake, hframe] at hself'
  have hrunning : Running funcs (f.block memory body.code) 0 f.body (storeOf w₁) F₁ [] := by
    have hdrop₀ : body.code.drop 0 = b ++ 0x0B :: [] := hcode
    have hend : body.code.length = 0 + b.length + 1 := by
      rw [hcode, List.length_append, List.length_singleton, Nat.zero_add]
    refine ⟨hshort, ?_, ⟨b, [], henc, .inl ⟨hdrop₀, hend⟩⟩, hvalid.body, htypes, hpages, ?_⟩
    · refine .block rfl ?_
      rw [skipBlockBody_end henc hdrop₀ hshort, hend]
    · exact Tight.called rfl rfl fun c' hred => hspare c' (henter.trans hred)
  have hends : Ends funcs (f.block memory body.code) ⟨storeOf w₁, F₁, [], instrs f.body⟩ [] (storeOf w₄)
      stop₁ fr₁ := hself hrunning hw₂ hself'
  -- the results are the topmost operands, whatever lies below them
  have hresults : ∀ {vs' spare : List Val}, types vs' = f.type.results.reverse →
      (if (lows vs' ++ (lows spare ++ [])).length < f.type.results.length then Fallible.fail
        else pure ((lows vs' ++ (lows spare ++ [])).take f.type.results.length ++
          (lows args ++ (lows vs ++ base)).drop f.type.params.length) : Interp σ (List I32)) w₅ =
        (some stack, w') →
      vs'.length = f.type.results.length ∧ stack = lows vs' ++ (lows vs ++ base) ∧
        storeOf w' = storeOf w₄ := by
    intro vs' spare hvs' hfinish
    have hvlen : vs'.length = f.type.results.length := by
      have hmap := congrArg List.length hvs'
      rwa [types, List.length_map, List.length_reverse] at hmap
    have hllen : (lows vs').length = f.type.results.length := by rw [lows, List.length_map, hvlen]
    rw [if_neg (by rw [List.length_append, hllen]; omega), hdrop, List.take_left' hllen] at hfinish
    obtain ⟨rfl, rfl⟩ := pure_eq_some hfinish
    exact ⟨hvlen, rfl, hw₅⟩
  cases hends with
  | @ended F' vs' spare _ hvs' _ hend =>
    obtain ⟨hvlen, rfl, hw'⟩ := hresults hvs' hrun₇
    refine ⟨vs', rfl, hvs', ?_⟩
    rw [hw']
    have hbodyRed := Reduces.frame (n := f.type.results.length) (hend [] []) F vs es
    rw [List.append_nil] at hbodyRed
    exact (henter.trans hbodyRed).tail (.frameEnd hvlen)
  | elseAt _ _ hpos _ => cases hpos
  | branch _ hl _ _ _ => cases hl
  | @returned F' vs₁ vals spare es₁ _ hvals hret hred =>
    obtain ⟨hvlen, rfl, hw'⟩ := hresults hvals hrun₇
    refine ⟨vals, rfl, hvals, ?_⟩
    rw [hw']
    have hbodyRed := Reduces.frame (n := f.type.results.length) (hred [] []) F vs es
    exact (henter.trans hbodyRed).tail (.frameReturn (.label hret) hvlen)

/-! ## One round -/

/-- The memory is whole pages. -/
def WholePages (w : World σ) : Prop := w.vm.mem.length % pageSize = 0

theorem kept_wholePages (inst : Instance) (host : Host σ) : Kept inst host WholePages where
  fetch code pos := by
    refine ⟨fun w hw => ?_⟩
    rw [fetch]
    split
    · exact hw
    · dsimp only
      split
      · exact hw
      · exact hw
  store ea bytes := by
    refine ⟨fun w hw => ?_⟩
    rw [memStore]
    split
    · show (w.vm.mem.take ea ++ (bytes ++ w.vm.mem.drop (ea + bytes.length))).length % pageSize = 0
      have hlen : (w.vm.mem.take ea ++ (bytes ++ w.vm.mem.drop (ea + bytes.length))).length =
          w.vm.mem.length := by
        rw [List.length_append, List.length_append, List.length_take, List.length_drop]
        omega
      rw [hlen]
      exact hw
    · exact hw
  grow delta := by
    refine ⟨fun w hw => ?_⟩
    rw [memGrow, Vm.memGrow]
    dsimp only
    split
    · show (w.vm.mem ++ List.replicate ((w.vm.memPages + delta) * pageSize - w.vm.mem.length)
        (0 : UInt8)).length % pageSize = 0
      have hold : w.vm.memPages * pageSize = w.vm.mem.length :=
        Nat.div_mul_cancel (Nat.dvd_of_mod_eq_zero hw)
      have hmul : (w.vm.memPages + delta) * pageSize = w.vm.mem.length + delta * pageSize := by
        rw [Nat.add_mul, hold]
      rw [List.length_append, List.length_replicate, hmul, Nat.add_sub_cancel_left, ← hmul]
      exact Nat.mul_mod_left _ _
    · exact hw
  enter := by
    refine ⟨fun w hw => ?_⟩
    rw [enter]
    split
    · exact hw
    · exact hw
  leave := ⟨fun _ hw => hw⟩
  callImport fi args _ _ _ _ _ := by
    refine ⟨fun w hw => ?_⟩
    rw [callImport]
    rcases host.callImport w.host fi args with ⟨_ | results, h⟩
    · exact hw
    · exact hw

/-- A kept property holds after a run that succeeds. -/
theorem preserved {α : Type} {m : Interp σ α} {a : α} (h : Preserves WholePages m)
    (hw : WholePages w) (hrun : m w = (some a, w')) : WholePages w' := by
  have hres := h.run w hw
  rw [hrun] at hres
  exact hres

theorem fetch_of (h : fetch code pos w = (some op, w')) :
    code[pos]? = some op ∧ storeOf w' = storeOf w := by
  rw [fetch] at h
  split at h
  · cases congrArg Prod.fst h
  · dsimp only at h
    split at h
    · cases congrArg Prod.fst h
    · rename_i hget
      obtain ⟨hop, rfl⟩ := Prod.mk.inj h
      rw [← hop]
      exact ⟨hget, rfl⟩

/-- The bytes `b` of the block's code lie at `pos`, with its `end` or its `else` behind them. -/
def Block.Closes (B : Block) (pos : Nat) (b rest : ByteString) : Prop :=
  B.code.drop pos = b ++ 0x0B :: rest ∧ B.endPos = pos + b.length + 1 ∨
    B.code.drop pos = b ++ 0x05 :: rest ∧ B.elsePos = some (pos + b.length + 1)

section Rest

variable {pos : Nat} {is : List Instr} {tag op : UInt8} {b bs rest : ByteString}

/-- The rest of a block, past its first bytes. -/
theorem Block.Rest.advance (hd : ByteString) (henc : Enc is b) (h : B.Closes pos (hd ++ b) rest) :
    B.Rest (pos + hd.length) is ∧ ∃ tail, B.code.drop pos = hd ++ tail := by
  rw [Block.Closes, List.length_append, ← Nat.add_assoc, List.append_assoc, List.append_assoc] at h
  rcases h with ⟨hcode, hend⟩ | ⟨hcode, helse⟩
  · exact ⟨⟨b, rest, henc, .inl ⟨drop_add_of_drop hcode, hend⟩⟩, _, hcode⟩
  · exact ⟨⟨b, rest, henc, .inr ⟨drop_add_of_drop hcode, helse⟩⟩, _, hcode⟩

/-- A block whose body the next `end` closes: its opcode, what follows it, and the bytes of its body. -/
theorem Block.Rest.enter {x : UInt8} (henc : Enc is bs) (hop : B.code[pos]? = some op)
    (h : B.Closes pos (tag :: x :: (b ++ 0x0B :: bs)) rest) :
    tag = op ∧ B.Rest (pos + 1 + 1 + b.length + 1) is ∧ ∃ tail, B.code.drop (pos + 1 + 1) = b ++ 0x0B :: tail := by
  have hsplit : tag :: x :: (b ++ 0x0B :: bs) = (tag :: x :: (b ++ [0x0B])) ++ bs := by
    simp
  rw [hsplit] at h
  obtain ⟨hrest, tail, hcode⟩ := Block.Rest.advance _ henc h
  have hcode' : B.code.drop pos = tag :: x :: (b ++ 0x0B :: tail) := by simpa using hcode
  have hend : pos + (tag :: x :: (b ++ [0x0B])).length = pos + 1 + 1 + b.length + 1 := by
    simp only [List.length_cons, List.length_append, List.length_nil]
    omega
  rw [hend] at hrest
  exact ⟨Option.some.inj ((getElem?_of_drop hcode).symm.trans hop), hrest, tail,
    drop_succ_of_drop (drop_succ_of_drop hcode')⟩

/-- An instruction with an index: its opcode, what follows it, and the index that is read. -/
theorem Block.Rest.index {n : Nat} (hn : ULeb 32 b n) (henc : Enc is bs) (hop : B.code[pos]? = some op)
    (h : B.Closes pos (tag :: (b ++ bs)) rest) :
    tag = op ∧ B.Rest (pos + 1 + b.length) is ∧ readU32 B.code (pos + 1) = some (n, pos + 1 + b.length) := by
  obtain ⟨hrest, tail, hcode⟩ := Block.Rest.advance (tag :: b) henc h
  have hnext : pos + (tag :: b).length = pos + 1 + b.length := by
    rw [List.length_cons]
    omega
  rw [hnext] at hrest
  exact ⟨Option.some.inj ((getElem?_of_drop hcode).symm.trans hop), hrest,
    readU32_of hn (drop_succ_of_drop hcode)⟩

end Rest

theorem execute_plain {t : ByteString} (h : EncPlain i (op :: t)) (code : ByteString) (start : Nat)
    (isLoop : Bool) (pos : Nat) (fr : Frame) :
    execute inst host self code start isLoop op.toNat pos fr =
      (plain code op.toNat pos fr >>= fun r => self code start isLoop r.1 r.2) := by
  cases h with
  | unary op => cases op <;> rfl
  | binary op => cases op <;> rfl
  | _ => rfl

theorem ValidSeq.plain_inv {C : Context} {b : ByteString} {ts us : List ValType} (hi : EncPlain i b)
    (h : ValidSeq funcs C (i :: is) ts us) :
    ∃ ts₁ us₁ rs, ts = ts₁ ++ rs ∧ ValidPlain C i ts₁ us₁ ∧ ValidSeq funcs C is (us₁ ++ rs) us := by
  cases h with
  | plain hp hrest => exact ⟨_, _, _, rfl, hp, hrest⟩
  | _ => cases hi

theorem Running.static (h : Running funcs B pos is S F vs) :
    Static funcs B ⟨S, F, vs, instrs is⟩ := ⟨h.short, h.target, h.tight⟩

theorem blockType_of (h : blockType code pos w = (some u, w')) : w' = w := by
  unfold blockType at h
  cases hget : code[pos]? with
  | none =>
    rw [hget] at h
    exact nomatch congrArg Prod.fst h
  | some bt =>
    rw [hget] at h
    dsimp only at h
    split at h
    · exact nomatch congrArg Prod.fst h
    · exact (pure_eq_some h).2

/-- The arm of a block inside the block: `body` with the label `B'`, followed by `is`. -/
theorem inner_sim (hself : Simulates funcs self) (hkeep : KeepsBody WholePages self)
    (hB : Static funcs B c) (B' : Block)
    (hcode : B'.code = B.code) (hin : B'.context = B.context.label ls)
    (htop : B'.top = false) (htarget : B'.Target funcs) (hbody : B'.Rest B'.start body)
    (hvalid : ValidSeq funcs B'.context body [] B'.results) (hF : types F = B.context.locals)
    (hred : LabelReduces funcs B c ⟨S, F, vs, .label B'.arity B'.cont [] (instrs body) :: instrs is⟩)
    (helse : ∀ pos pos', B'.elsePos = some pos → onElse pos = some pos' → pos' = B'.endPos)
    (hrest : B.Rest B'.endPos is)
    (hvalid' : ValidSeq funcs B.context is (B'.results ++ types vs) B.results)
    (hpages : WholePages w) (hw : storeOf w = S)
    (hrun : (self B.code B'.start B'.isLoop B'.start ⟨lows vs ++ base, lows F⟩ >>= fun r =>
      resume self B.code B.start B.isLoop onElse r) w = (some (stop, fr), w')) :
    Ends funcs B c base (storeOf w') stop fr := by
  obtain ⟨⟨stop₁, fr₁⟩, w₁, hinner, hresume⟩ := bind_eq_some hrun
  have hpages₁ : WholePages w₁ := preserved (hkeep _ _ _ _ _) hpages hinner
  have hrunning : Running funcs B' B'.start body S F [] := by
    refine ⟨hcode ▸ hB.short, htarget, hbody, hvalid, ?_, by rw [← hw]; exact hpages,
      (hB.tight.mono hred).inner⟩
    rw [hF, hin]
    rfl
  rw [← hcode] at hinner
  have hends : Ends funcs B' ⟨S, F, [], instrs body⟩ (lows vs ++ base) (storeOf w₁) stop₁ fr₁ :=
    hself hrunning hw hinner
  exact resume_sim hself hB hin htop hred hends helse hrest hvalid' hpages₁ rfl hresume

section Round

/-- A round that has read its opcode and stands before `is` follows the semantics. -/
def RoundSimulates (inst : Instance) (host : Host σ) (funcs : Funcs) (self : Body σ) (is : List Instr) : Prop :=
  ∀ {B : Block} {pos : Nat} {S : Store} {F vs : List Val} {base : List I32} {w w' : World σ} {op : UInt8}
    {stop : Stop} {fr : Frame}, Running funcs B pos is S F vs → WholePages w → storeOf w = S →
    B.code[pos]? = some op →
    execute inst host self B.code B.start B.isLoop op.toNat (pos + 1) ⟨lows vs ++ base, lows F⟩ w =
      (some (stop, fr), w') → Ends funcs B ⟨S, F, vs, instrs is⟩ base (storeOf w') stop fr

variable (hself : Simulates funcs self) (hkeep : KeepsBody WholePages self) {is : List Instr}

include hself hkeep

variable {rt : Option ValType} {body : List Instr} {l : Nat}

theorem block_sim : RoundSimulates inst host funcs self (.block rt body :: is) := by
  intro B pos S F vs base w w' op stop fr hR hpages hw hop hrun
  obtain ⟨bs, rest, henc, hpos⟩ := hR.rest
  cases henc with
  | plain hi _ => cases hi
  | @block _ _ _ b bs' hbody his =>
    obtain ⟨rfl, hrest, tail, hinner⟩ := Block.Rest.enter his hop hpos
    have hvalid := hR.valid
    generalize hts : types vs = ts at hvalid
    cases hvalid with
    | plain hp _ => cases hp
    | block hvbody hvis =>
      subst hts
      obtain ⟨u, w₁, hbt, hrun₁⟩ := bind_eq_some hrun
      obtain rfl := blockType_of hbt
      exact inner_sim hself hkeep hR.static ⟨B.code, pos + 1 + 1, false, false,
        B.context.label rt.toList, rt.toList.length, [], rt.toList, pos + 1 + 1 + b.length + 1, none⟩
        rfl rfl rfl (.block rfl (skipBlockBody_end hbody hinner hR.short))
        ⟨b, tail, hbody, .inl ⟨hinner, rfl⟩⟩ hvbody hR.locals (.of_reduces (.single .block))
        (fun _ _ hc => nomatch hc) hrest hvis hpages hw hrun₁

theorem loop_sim : RoundSimulates inst host funcs self (.loop rt body :: is) := by
  intro B pos S F vs base w w' op stop fr hR hpages hw hop hrun
  obtain ⟨bs, rest, henc, hpos⟩ := hR.rest
  cases henc with
  | plain hi _ => cases hi
  | @loop _ _ _ b bs' hbody his =>
    obtain ⟨rfl, hrest, tail, hinner⟩ := Block.Rest.enter his hop hpos
    have hvalid := hR.valid
    generalize hts : types vs = ts at hvalid
    cases hvalid with
    | plain hp _ => cases hp
    | loop hvbody hvis =>
      subst hts
      obtain ⟨u, w₁, hbt, hrun₁⟩ := bind_eq_some hrun
      obtain rfl := blockType_of hbt
      exact inner_sim hself hkeep hR.static ⟨B.code, pos + 1 + 1, true, false, B.context.label [], 0,
        [.loop rt body], rt.toList, pos + 1 + 1 + b.length + 1, none⟩
        rfl rfl rfl (.loop rfl hbody hinner hvbody)
        ⟨b, tail, hbody, .inl ⟨hinner, rfl⟩⟩ hvbody hR.locals (.of_reduces (.single .loop))
        (fun _ _ hc => nomatch hc) hrest hvis hpages hw hrun₁

/-- An `if`, with and without an `else`. -/
theorem ite_sim {thn els : List Instr} :
    RoundSimulates inst host funcs self (.ite rt thn els :: is) := by
  intro B pos S F vs base w w' op stop fr hR hpages hw hop hrun
  have hvalid := hR.valid
  generalize hts : types vs = ts at hvalid
  cases hvalid with
  | plain hp _ => cases hp
  | @ite _ _ _ _ _ ts' _ hvthn hvels hvis =>
  obtain ⟨cond, vs₀, rfl, rfl⟩ := types_i32 hts
  obtain ⟨bs, rest, henc, hpos⟩ := hR.rest
  cases henc with
  | plain hi _ => cases hi
  | @ite _ _ _ b bs' hthn his =>
    obtain ⟨rfl, hrest, tail, hinner⟩ := Block.Rest.enter his hop hpos
    obtain ⟨u, w₁, hbt, hrun₁⟩ := bind_eq_some hrun
    obtain rfl := blockType_of hbt
    obtain ⟨r, w₂, hpop, hrun₂⟩ := bind_eq_some hrun₁
    obtain ⟨rfl, rfl⟩ := pop_of hpop
    by_cases hcond : cond ≠ 0
    · have hrun₃ := (congrFun (if_pos hcond) w₂).symm.trans hrun₂
      have hred : Reduces funcs ⟨S, F, .i32 cond :: vs₀, instrs (.ite rt thn [] :: is)⟩
          ⟨S, F, vs₀, .label rt.toList.length [] [] (instrs thn) :: instrs is⟩ := by
        have hstep : Step funcs ⟨S, F, .i32 cond :: vs₀, instrs (.ite rt thn [] :: is)⟩ _ := .ite
        rw [if_pos hcond] at hstep
        exact .single hstep
      exact inner_sim hself hkeep hR.static ⟨B.code, pos + 1 + 1, false, false,
        B.context.label rt.toList, rt.toList.length, [], rt.toList, pos + 1 + 1 + b.length + 1, none⟩
        rfl rfl rfl (.block rfl (skipBlockBody_end hthn hinner hR.short))
        ⟨b, tail, hthn, .inl ⟨hinner, rfl⟩⟩ hvthn hR.locals (.of_reduces hred)
        (fun _ _ hc => nomatch hc) hrest hvis hpages hw hrun₃
    · -- no `else`: the empty arm ends at once
      have hrun₃ := (congrFun (if_neg hcond) w₂).symm.trans hrun₂
      obtain ⟨p, w₃, hskip, hrun₄⟩ := bind_eq_some hrun₃
      obtain ⟨hskip', rfl⟩ := ofOption_eq_some hskip
      obtain rfl := Option.some.inj ((skipThen_end hthn hinner hR.short).symm.trans hskip')
      have hstep : Step funcs ⟨S, F, .i32 cond :: vs₀, instrs (.ite rt thn [] :: is)⟩ _ := .ite
      rw [if_neg hcond] at hstep
      have hred : LabelReduces funcs B ⟨S, F, .i32 cond :: vs₀, instrs (.ite rt thn [] :: is)⟩
          ⟨S, F, vs₀, instrs is⟩ := .of_reduces ((Relation.ReflTransGen.single hstep).tail .labelEnd)
      have hnil : rt.toList = [] := by
        generalize rt.toList = us at hvels
        cases hvels
        rfl
      rw [hnil] at hvis
      exact (hself (hR.static.running hred hrest hvis hR.locals hR.pages) hw hrun₄).of_labelReduces hred
  | @iteElse _ _ _ _ b e bs' hthn hels his =>
    have hsplit : 0x04 :: blockByte rt :: (b ++ 0x05 :: (e ++ 0x0B :: bs')) =
        (0x04 :: blockByte rt :: (b ++ 0x05 :: (e ++ [0x0B]))) ++ bs' := by
      simp
    rw [hsplit] at hpos
    obtain ⟨hrest, tail, hcode⟩ := Block.Rest.advance _ his hpos
    obtain rfl := Option.some.inj (hop.symm.trans (getElem?_of_drop hcode))
    have hinner : B.code.drop (pos + 1 + 1) = b ++ 0x05 :: (e ++ 0x0B :: tail) := by
      have hcode' : B.code.drop pos = 0x04 :: blockByte rt :: (b ++ 0x05 :: (e ++ 0x0B :: tail)) := by
        simpa using hcode
      exact drop_succ_of_drop (drop_succ_of_drop hcode')
    have helse : B.code.drop (pos + 1 + 1 + b.length + 1) = e ++ 0x0B :: tail :=
      drop_succ_of_drop (drop_add_of_drop hinner)
    have hend : pos + (0x04 :: blockByte rt :: (b ++ 0x05 :: (e ++ [0x0B]))).length =
        pos + 1 + 1 + b.length + 1 + e.length + 1 := by
      simp only [List.length_cons, List.length_append, List.length_nil]
      omega
    rw [hend] at hrest
    obtain ⟨u, w₁, hbt, hrun₁⟩ := bind_eq_some hrun
    obtain rfl := blockType_of hbt
    obtain ⟨r, w₂, hpop, hrun₂⟩ := bind_eq_some hrun₁
    obtain ⟨rfl, rfl⟩ := pop_of hpop
    have hstep : Step funcs ⟨S, F, .i32 cond :: vs₀, instrs (.ite rt thn els :: is)⟩ _ := .ite
    by_cases hcond : cond ≠ 0
    · have hrun₃ := (congrFun (if_pos hcond) w₂).symm.trans hrun₂
      rw [if_pos hcond] at hstep
      refine inner_sim hself hkeep hR.static ⟨B.code, pos + 1 + 1, false, false,
        B.context.label rt.toList, rt.toList.length, [], rt.toList,
        pos + 1 + 1 + b.length + 1 + e.length + 1, some (pos + 1 + 1 + b.length + 1)⟩
        rfl rfl rfl (.block rfl (skipBlockBody_else hthn hels hinner hR.short))
        ⟨b, _, hthn, .inr ⟨hinner, rfl⟩⟩ hvthn hR.locals (.of_reduces (.single hstep))
        ?_ hrest hvis hpages hw hrun₃
      intro p p' hp hp'
      obtain rfl := Option.some.inj hp
      exact Option.some.inj (hp'.symm.trans (skipBlockBody_end hels helse hR.short))
    · have hrun₃ := (congrFun (if_neg hcond) w₂).symm.trans hrun₂
      rw [if_neg hcond] at hstep
      obtain ⟨p, w₃, hskip, hrun₄⟩ := bind_eq_some hrun₃
      obtain ⟨hskip', rfl⟩ := ofOption_eq_some hskip
      obtain rfl := Option.some.inj ((skipThen_else hthn hinner hR.short).symm.trans hskip')
      exact inner_sim hself hkeep hR.static ⟨B.code, pos + 1 + 1 + b.length + 1, false, false,
        B.context.label rt.toList, rt.toList.length, [], rt.toList,
        pos + 1 + 1 + b.length + 1 + e.length + 1, none⟩
        rfl rfl rfl (.block rfl (skipBlockBody_end hels helse hR.short))
        ⟨e, tail, hels, .inl ⟨helse, rfl⟩⟩ hvels hR.locals (.of_reduces (.single hstep))
        (fun _ _ hc => nomatch hc) hrest hvis hpages hw hrun₄

theorem call_sim (hdec : Decodes inst funcs) (hvalid : ∀ x f, funcs x = some f → ValidFunc funcs memory f) {x : Nat} :
    RoundSimulates inst host funcs self (.call x :: is) := by
  intro B pos S F vs base w w' op stop fr hR hpages hw hop hrun
  have hseq := hR.valid
  generalize hts : types vs = ts at hseq
  cases hseq with
  | plain hp _ => cases hp
  | @call _ _ f _ ts' _ hf hvis =>
  obtain ⟨args, vs₀, rfl, hargs, rfl⟩ := types_append hts
  obtain ⟨bs, rest, henc, hpos⟩ := hR.rest
  cases henc with
  | plain hi _ => cases hi
  | @call _ _ u bs' hu his =>
    obtain ⟨rfl, hrest, hindex⟩ := Block.Rest.index hu his hop hpos
    rw [lows_append] at hrun
    obtain ⟨r, w₁, hscan, hrun₁⟩ := bind_eq_some hrun
    obtain ⟨hread, rfl⟩ := scan_eq_some hscan
    obtain rfl := Option.some.inj (hindex.symm.trans hread)
    obtain ⟨stack, w₂, hinvoke, hrun₂⟩ := bind_eq_some hrun₁
    have hpages₂ : WholePages w₂ :=
      preserved ((kept_wholePages inst host).invokeWith hkeep _ _) hpages hinvoke
    subst hw
    have hcall : Reduces funcs ⟨storeOf w₁, F, args ++ vs₀, instrs (.call x :: is)⟩
        ⟨storeOf w₁, F, args ++ vs₀, .invoke x :: instrs is⟩ := .single .call
    obtain ⟨vs', rfl, hvs', hred⟩ := invoke_sim hself hdec (hvalid x f hf) hf hargs hpages
      (fun c' hred => (hR.tight _ (.of_reduces (hcall.trans hred))).1) hinvoke
    have hred' : LabelReduces funcs B ⟨storeOf w₁, F, args ++ vs₀, instrs (.call x :: is)⟩
        ⟨storeOf w₂, F, vs' ++ vs₀, instrs is⟩ := .of_reduces (hcall.trans hred)
    refine (hself (hR.static.running hred' hrest (by rw [types_of_append hvs']; exact hvis) hR.locals
      hpages₂) rfl ?_).of_labelReduces hred'
    rw [lows_append]
    exact hrun₂

omit hkeep in
theorem br_sim : RoundSimulates inst host funcs self (.br l :: is) := by
  intro B pos S F vs base w w' op stop fr hR hpages hw hop hrun
  have hseq := hR.valid
  generalize hts : types vs = ts at hseq
  cases hseq with
  | plain hp _ => cases hp
  | br hlabel _ =>
  obtain ⟨vals, spare, rfl, hvals, rfl⟩ := types_append hts
  obtain ⟨bs, rest, henc, hpos⟩ := hR.rest
  cases henc with
  | plain hi _ => cases hi
  | @br _ _ u bs' hu his =>
    obtain ⟨rfl, -, hindex⟩ := Block.Rest.index hu his hop hpos
    obtain ⟨r, w₁, hscan, hrun₁⟩ := bind_eq_some hrun
    obtain ⟨hread, rfl⟩ := scan_eq_some hscan
    obtain rfl := Option.some.inj (hindex.symm.trans hread)
    rw [lows_append] at hrun₁
    exact branchTo_sim hself hR.static (.of_reduces .refl) .here hlabel hvals hR.locals hR.pages hw hrun₁

omit hkeep in
theorem brIf_sim : RoundSimulates inst host funcs self (.brIf l :: is) := by
  intro B pos S F vs base w w' op stop fr hR hpages hw hop hrun
  have hseq := hR.valid
  generalize hts : types vs = ts at hseq
  cases hseq with
  | plain hp _ => cases hp
  | brIf hlabel hvis =>
  obtain ⟨cond, vs₁, rfl, hts₁⟩ := types_i32 hts
  obtain ⟨vals, spare, rfl, hvals, rfl⟩ := types_append hts₁
  obtain ⟨bs, rest, henc, hpos⟩ := hR.rest
  cases henc with
  | plain hi _ => cases hi
  | @brIf _ _ u bs' hu his =>
    obtain ⟨rfl, hrest, hindex⟩ := Block.Rest.index hu his hop hpos
    obtain ⟨r, w₁, hscan, hrun₁⟩ := bind_eq_some hrun
    obtain ⟨hread, rfl⟩ := scan_eq_some hscan
    obtain rfl := Option.some.inj (hindex.symm.trans hread)
    obtain ⟨r, w₂, hpop, hrun₂⟩ := bind_eq_some hrun₁
    obtain ⟨rfl, rfl⟩ := pop_of hpop
    by_cases hcond : cond ≠ 0
    · have hrun₃ : branchTo self B.code B.start B.isLoop l ⟨lows (vals ++ spare) ++ base, lows F⟩ w₂ =
          (some (stop, fr), w') := (congrFun (if_pos hcond) w₂).symm.trans hrun₂
      rw [lows_append] at hrun₃
      have hred : LabelReduces funcs B ⟨S, F, .i32 cond :: (vals ++ spare), instrs (.brIf l :: is)⟩
          ⟨S, F, vals ++ spare, instrs (.br l :: is)⟩ := .of_reduces (.single (.brIfTrue hcond))
      exact branchTo_sim hself hR.static hred .here hlabel hvals hR.locals hR.pages hw hrun₃
    · have hrun₃ := (congrFun (if_neg hcond) w₂).symm.trans hrun₂
      obtain rfl : cond = 0 := Decidable.not_not.mp hcond
      have hred : LabelReduces funcs B ⟨S, F, .i32 0 :: (vals ++ spare), instrs (.brIf l :: is)⟩
          ⟨S, F, vals ++ spare, instrs is⟩ := .of_reduces (.single .brIfFalse)
      refine (hself (hR.static.running hred hrest ?_ hR.locals hR.pages) hw hrun₃).of_labelReduces hred
      rw [types_of_append hvals]
      exact hvis

omit hkeep hself in
theorem ret_sim : RoundSimulates inst host funcs self (.ret :: is) := by
  intro B pos S F vs base w w' op stop fr hR hpages hw hop hrun
  have hseq := hR.valid
  generalize hts : types vs = ts at hseq
  cases hseq with
  | plain hp _ => cases hp
  | ret _ =>
  obtain ⟨vals, spare, rfl, hvals, rfl⟩ := types_append hts
  obtain ⟨bs, rest, henc, hpos⟩ := hR.rest
  cases henc with
  | plain hi _ => cases hi
  | @ret _ bs' his =>
    obtain ⟨-, tail, hcode⟩ := Block.Rest.advance [0x0F] his hpos
    obtain rfl := Option.some.inj (hop.symm.trans (getElem?_of_drop hcode))
    obtain ⟨hres, rfl⟩ := pure_eq_some hrun
    obtain ⟨rfl, rfl⟩ := Prod.mk.inj hres
    subst hw
    rw [lows_append]
    exact .returned hR.locals hvals .here (.of_reduces .refl)

omit hkeep hself in
/-- The end of a body, or the `else` between two arms. -/
theorem nil_sim : RoundSimulates inst host funcs self [] := by
  intro B pos S F vs base w w' op stop fr hR hpages hw hop hrun
  have hseq := hR.valid
  generalize hts : types vs = ts at hseq
  cases hseq
  obtain ⟨bs, rest, henc, hpos⟩ := hR.rest
  cases henc
  subst hw
  rcases hpos with ⟨hcode, hend⟩ | ⟨hcode, helse⟩
  · obtain rfl := Option.some.inj (hop.symm.trans (getElem?_of_drop hcode))
    obtain ⟨hres, rfl⟩ := pure_eq_some hrun
    obtain ⟨rfl, rfl⟩ := Prod.mk.inj hres
    have hpos : pos + 1 = B.endPos := by rw [hend]; rfl
    rw [hpos]
    have hends : Ends funcs B ⟨storeOf w', F, vs, instrs []⟩ base (storeOf w') (.ended B.endPos)
        ⟨lows vs ++ (lows [] ++ base), lows F⟩ :=
      .ended hR.locals hts (fun _ => rfl) fun vs₀ es₀ => .single .labelEnd
    exact hends
  · obtain rfl := Option.some.inj (hop.symm.trans (getElem?_of_drop hcode))
    obtain ⟨hres, rfl⟩ := pure_eq_some hrun
    obtain ⟨rfl, rfl⟩ := Prod.mk.inj hres
    exact .elseAt hR.locals hts helse fun vs₀ es₀ => .single .labelEnd

omit hkeep in
/-- A plain instruction, then the rest. -/
theorem plain_round_sim {i : Instr} {b : ByteString} (hi : EncPlain i b) :
    RoundSimulates inst host funcs self (i :: is) := by
  intro B pos S F vs base w w' op stop fr hR hpages hw hop hrun
  obtain ⟨bs, rest, henc, hpos⟩ := hR.rest
  cases henc with
  | @plain _ _ b _ hi his =>
    obtain ⟨hrest, tail, hcode⟩ := Block.Rest.advance b his hpos
    obtain ⟨ts₁, us₁, rs, hts, hp, hvis⟩ := ValidSeq.plain_inv hi hR.valid
    obtain ⟨op', t, rfl, -, -⟩ := skipInstr_plain hi hcode
    obtain rfl := Option.some.inj (hop.symm.trans (getElem?_of_drop hcode))
    rw [execute_plain hi] at hrun
    obtain ⟨⟨pos₁, fr₁⟩, w₁, hplain, hrun₁⟩ := bind_eq_some hrun
    obtain ⟨vs', F', rfl, rfl, hvs', hF', hstep⟩ := plain_sim hp hi hcode hop hts hR.locals hpages hplain
    have hpages₁ : WholePages w₁ := preserved ((kept_wholePages inst host).plain _ _ _ _) hpages hplain
    subst hw
    have hred : LabelReduces funcs B ⟨storeOf w, F, vs, instrs (i :: is)⟩ ⟨storeOf w₁, F', vs', instrs is⟩ :=
      .of_reduces (.single (.plain hstep))
    exact (hself (hR.static.running hred hrest (by rw [hvs']; exact hvis) hF' hpages₁) rfl
      hrun₁).of_labelReduces hred
  | _ => cases hi

/-- One round follows the semantics if the rounds after it do. -/
theorem round_sim (hdec : Decodes inst funcs) (hvalid : ∀ x f, funcs x = some f → ValidFunc funcs memory f) :
    Simulates funcs (round inst host self) := by
  intro B pos is S F vs base w w' stop fr hR hw hrun
  obtain ⟨op, w₁, hfetch, hexec⟩ := bind_eq_some hrun
  obtain ⟨hop, hw₁⟩ := fetch_of hfetch
  rw [hw] at hw₁
  have hpages : WholePages w₁ := by
    have hmem : w₁.vm.mem = S.data := congrArg Store.data hw₁
    rw [WholePages, hmem]
    exact hR.pages
  obtain ⟨bs, rest, henc, hpos⟩ := hR.rest
  cases henc with
  | nil => exact nil_sim hR hpages hw₁ hop hexec
  | plain hi _ => exact plain_round_sim hself hi hR hpages hw₁ hop hexec
  | unreachable his =>
    obtain ⟨-, tail, hcode⟩ := Block.Rest.advance [0x00] his hpos
    obtain rfl := Option.some.inj (hop.symm.trans (getElem?_of_drop hcode))
    exact nomatch congrArg Prod.fst hexec
  | ret _ => exact ret_sim hR hpages hw₁ hop hexec
  | br _ _ => exact br_sim hself hR hpages hw₁ hop hexec
  | brIf _ _ => exact brIf_sim hself hR hpages hw₁ hop hexec
  | call _ _ => exact call_sim hself hkeep hdec hvalid hR hpages hw₁ hop hexec
  | block _ _ => exact block_sim hself hkeep hR hpages hw₁ hop hexec
  | loop _ _ => exact loop_sim hself hkeep hR hpages hw₁ hop hexec
  | ite _ _ => exact ite_sim hself hkeep hR hpages hw₁ hop hexec
  | iteElse _ _ _ => exact ite_sim hself hkeep hR hpages hw₁ hop hexec

end Round

/-- **A run of a body is a reduction of its label**, however deep the recursion. -/
theorem runBody_sim (hdec : Decodes inst funcs) (hvalid : ∀ x f, funcs x = some f → ValidFunc funcs memory f)
    (gas : Nat) : Simulates funcs (runBody inst host gas) := by
  induction gas with
  | zero =>
    intro B pos is S F vs base w w' stop fr _ _ hrun
    exact nomatch congrArg Prod.fst hrun
  | succ gas ih => exact round_sim ih ((kept_wholePages inst host).runBody gas) hdec hvalid

end Control

end AthenaOS.Wasm
