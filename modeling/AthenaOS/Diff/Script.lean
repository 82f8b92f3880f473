import AthenaOS.Diff.Search

/-!
# The way back gives the script

The rounds are undone one by one, each along the part the search took. Merging the steps changes
neither the lines nor their number.
-/

namespace AthenaOS.Diff

open Lib

variable {a b : List String}

/-! ## Paths to the end -/

/-- These steps lead from here to the end. -/
inductive Path (a b : List String) : Nat → Nat → List Step → Prop
  | done : Path a b a.length b.length []
  | eq {x y : Nat} {c : String} {steps : List Step} : a[x]? = some c → b[y]? = some c →
    Path a b (x + 1) (y + 1) steps → Path a b x y (.eq x :: steps)
  | del {x y : Nat} {c : String} {steps : List Step} : a[x]? = some c → Path a b (x + 1) y steps →
    Path a b x y (.del x :: steps)
  | ins {x y : Nat} {c : String} {steps : List Step} : b[y]? = some c → Path a b x (y + 1) steps →
    Path a b x y (.ins y :: steps)

/-- A step off the diagonal. -/
def Step.edits : Step → Nat
  | .eq _ => 0
  | .del _ => 1
  | .ins _ => 1

def stepEdits (steps : List Step) : Nat := (steps.map Step.edits).sum

variable {x y d D : Nat} {steps : List Step} {v : Front} {trace : List Front} {ops : List DiffOp}

/-- The end is never passed. -/
theorem Path.le (h : Path a b x y steps) : x ≤ a.length ∧ y ≤ b.length := by
  induction h with
  | done => exact ⟨Nat.le_refl _, Nat.le_refl _⟩
  | eq _ _ _ ih => omega
  | del _ _ ih => omega
  | ins _ _ ih => omega

/-! ## Undoing a round -/

/-- **Back along the matches**, as far as the bounds allow. -/
theorem diagonalBack_spec {lowX lowY j : Nat} (hx : lowX ≤ x) (hy : lowY ≤ y)
    (hstop : x = lowX ∨ y = lowY) (hmatch : Matches a b x y j)
    (hpath : Path a b (x + j) (y + j) steps) :
    ∃ steps', diagonalBack lowX lowY (x + j : Nat) (y + j : Nat) steps =
      ((x : Int), (y : Int), steps') ∧ Path a b x y steps' ∧ stepEdits steps' = stepEdits steps :=
      by
  induction j generalizing steps with
  | zero =>
    refine ⟨steps, ?_, hpath, rfl⟩
    rw [diagonalBack, if_neg]
    · rfl
    · rintro ⟨hx', hy'⟩
      omega
  | succ j ih =>
    obtain ⟨c, ha, hb⟩ := hmatch j (Nat.lt_succ_self j)
    obtain ⟨steps', hback, hpath', hedits⟩ := ih (fun i hi => hmatch i (Nat.lt_succ_of_lt hi)) (.eq ha hb hpath)
    refine ⟨steps', ?_, hpath', hedits.trans (Nat.zero_add _)⟩
    rw [diagonalBack, if_pos ⟨by omega, by omega⟩]
    have hx' : ((x + (j + 1) : Nat) : Int) - 1 = (x + j : Nat) := by omega
    have hy' : ((y + (j + 1) : Nat) : Int) - 1 = (y + j : Nat) := by omega
    rw [hx', hy', Int.toNat_natCast]
    exact hback

/-- The search took this way to its furthest point. -/
theorem Rounded.from (hv : Rounded a b d v) (hpath : Edits a b (d + 1) x y)
    (hfurthest : Furthest a b (d + 1) (x - y) x) : From a b v d x y := by
  have hdiag := hpath.diagonal
  obtain ⟨x', y', -, hk, hfurthest', hfrom⟩ := reach_succ hv (k := x - y) (by omega) (by omega) (by omega)
  have hx := hfurthest.unique hfurthest'
  obtain rfl : x = x' := by omega
  obtain rfl : y = y' := by omega
  exact hfrom

/-- The rounds that are left, at a furthest point. -/
structure Remaining (a b : List String) (d x y : Nat) : Prop where
  path : Edits a b d x y
  furthest : Furthest a b d (x - y) x

theorem Rounded.remaining (hv : Rounded a b d v) {k : Int} (hlo : -d ≤ k) (hhi : k ≤ d)
    (hparity : (k + d) % 2 = 0) (hx : v k = x) (hk : (x : Int) - y = k) : Remaining a b d x y := by
  have hfurthest := hv k hlo hhi hparity
  obtain ⟨x', y', hpath, hx', hy'⟩ := hfurthest.path
  obtain rfl : x = x' := by omega
  obtain rfl : y = y' := by omega
  refine ⟨hpath, ?_⟩
  rw [hk, ← hx]
  exact hfurthest

section Round

variable {trace : List Front} {v : Front} {d : Nat} {x y prevX x₁ y₁ : Int} {steps steps₁ : List Step}

/-- A round that went down is undone by an insertion. -/
theorem backtrackLoop_down (hv : trace.getD (d + 1) (fun _ => 0) = v) (hdown : goesDown v (d + 1) (x - y) = true)
    (hprev : v (x - y + 1) = prevX)
    (hback : diagonalBack prevX (prevX - (x - y + 1)) x y steps = (x₁, y₁, steps₁)) (hy : 0 < y₁) :
    backtrackLoop trace (d + 1) x y steps =
      backtrackLoop trace d prevX (prevX - (x - y + 1)) (.ins (y₁ - 1).toNat :: steps₁) := by
  rw [backtrackLoop]
  dsimp only
  rw [hv, hdown, if_pos rfl, if_pos rfl, hprev, hback]
  dsimp only
  rw [if_pos hy]

/-- A round that went right is undone by a deletion. -/
theorem backtrackLoop_right (hv : trace.getD (d + 1) (fun _ => 0) = v) (hdown : goesDown v (d + 1) (x - y) = false)
    (hprev : v (x - y - 1) = prevX)
    (hback : diagonalBack prevX (prevX - (x - y - 1)) x y steps = (x₁, y₁, steps₁)) (hx : 0 < x₁) :
    backtrackLoop trace (d + 1) x y steps =
      backtrackLoop trace d prevX (prevX - (x - y - 1)) (.del (x₁ - 1).toNat :: steps₁) := by
  rw [backtrackLoop]
  dsimp only
  rw [hv, hdown, if_neg Bool.false_ne_true, if_neg Bool.false_ne_true, hprev, hback]
  dsimp only
  rw [if_pos hx]

end Round

/-- **The rounds are undone** down to the first one. -/
theorem backtrackLoop_spec (hrounds : ∀ i < d, Rounded a b i (trace.getD (i + 1) fun _ => 0))
    (hleft : Remaining a b d x y) (hpath : Path a b x y steps) :
    ∃ (z : Nat) (steps' : List Step), backtrackLoop trace d x y steps =
      ((z : Int), (z : Int), steps') ∧ Edits a b 0 z z ∧ Path a b z z steps' ∧
      stepEdits steps' = stepEdits steps + d := by
  induction d generalizing x y steps with
  | zero =>
    obtain rfl := hleft.path.of_zero
    exact ⟨x, steps, rfl, hleft.path, hpath, rfl⟩
  | succ d ih =>
    have hv := hrounds d (Nat.lt_succ_self d)
    have hrounds' : ∀ i < d, Rounded a b i (trace.getD (i + 1) fun _ => 0) :=
      fun i hi => hrounds i (Nat.lt_succ_of_lt hi)
    have hdiag := hleft.path.diagonal
    have hle := hpath.le
    cases hv.from hleft.path hleft.furthest with
    | down x' y' j hdown hprev hx hy hmatch =>
      subst hx hy
      have hcase := goesDown_eq_true hdown
      have hleft' : Remaining a b d x' y' :=
        hv.remaining (by omega) (by omega) (by omega) hprev (by omega)
      have hlow : (x' : Int) - (((x' + j : Nat) : Int) - (y' + 1 + j : Nat) + 1) = (y' : Nat) := by omega
      obtain ⟨steps₁, hback, hpath₁, hedits₁⟩ := diagonalBack_spec (Nat.le_refl x') (Nat.le_succ y') (.inl rfl)
        hmatch hpath
      have hline : b[y']? = some (b.get ⟨y', by omega⟩) := List.getElem?_eq_getElem _
      obtain ⟨z, steps', hloop, hz, hpath', hedits⟩ := ih hrounds' hleft' (.ins hline hpath₁)
      refine ⟨z, steps', ?_, hz, hpath', ?_⟩
      · rw [← hlow] at hback
        rw [backtrackLoop_down rfl hdown hprev hback (by omega), hlow]
        have hindex : ((y'.succ : Nat) - 1 : Int).toNat = y' := by omega
        rw [hindex]
        exact hloop
      · rw [hedits, show stepEdits (.ins y' :: steps₁) = 1 + stepEdits steps₁ from rfl, hedits₁]
        omega
    | right x' y' j hdown hprev hx hy hmatch =>
      subst hx hy
      have hcase := goesDown_eq_false hdown
      have hleft' : Remaining a b d x' y' :=
        hv.remaining (by omega) (by omega) (by omega) hprev (by omega)
      have hlow : (x' : Int) - (((x' + 1 + j : Nat) : Int) - (y' + j : Nat) - 1) = (y' : Nat) := by omega
      obtain ⟨steps₁, hback, hpath₁, hedits₁⟩ := diagonalBack_spec (Nat.le_succ x') (Nat.le_refl y') (.inr rfl)
        hmatch hpath
      have hline : a[x']? = some (a.get ⟨x', by omega⟩) := List.getElem?_eq_getElem _
      obtain ⟨z, steps', hloop, hz, hpath', hedits⟩ := ih hrounds' hleft' (.del hline hpath₁)
      refine ⟨z, steps', ?_, hz, hpath', ?_⟩
      · rw [← hlow] at hback
        rw [backtrackLoop_right rfl hdown hprev hback (by omega), hlow]
        have hindex : ((x'.succ : Nat) - 1 : Int).toNat = x' := by omega
        rw [hindex]
        exact hloop
      · rw [hedits, show stepEdits (.del x' :: steps₁) = 1 + stepEdits steps₁ from rfl, hedits₁]
        omega

/-- Without steps off the diagonal, everything matches. -/
theorem matches_of_zero {z : Nat} (h : Edits a b 0 z z) : Matches a b 0 0 z := by
  have hall : ∀ d x y, Edits a b d x y → d = 0 → ∀ i < x, ∃ c, a[i]? = some c ∧ b[i]? = some c := by
    intro d x y hpath
    induction hpath with
    | origin => exact fun _ i hi => absurd hi (Nat.not_lt_zero i)
    | @keep d x y c hpath ha hb ih =>
      rintro rfl i hi
      rcases Nat.lt_succ_iff_lt_or_eq.mp hi with hlt | rfl
      · exact ih rfl i hlt
      · rw [← hpath.of_zero] at hb
        exact ⟨c, ha, hb⟩
    | delete _ _ => exact fun h => nomatch h
    | insert _ _ => exact fun h => nomatch h
  intro i hi
  rw [Nat.zero_add]
  exact hall 0 z z h rfl i hi

/-- The end is the furthest point of the last round. -/
theorem Searched.remaining (h : Searched a b D trace) : Remaining a b D a.length b.length := by
  refine ⟨h.path, ⟨_, _, h.path, rfl, by omega⟩, fun x y hpath hdiag => ?_⟩
  -- a point further on would have passed the end before
  obtain ⟨d', hclip, hle⟩ := hpath.clip
  by_contra hfurther
  rw [Nat.min_eq_right (by omega), Nat.min_eq_right (by omega)] at hclip
  exact h.short d' (by omega) hclip

/-- **The steps lead from the origin to the end**, on a shortest path. -/
theorem stepsBack_spec (h : Searched a b D trace) :
    Path a b 0 0 (stepsBack a b trace) ∧ stepEdits (stepsBack a b trace) = D := by
  obtain ⟨z, steps, hloop, hz, hpath, hedits⟩ := backtrackLoop_spec h.rounds h.remaining .done
  have hmatch := matches_of_zero hz
  rw [← Nat.zero_add z] at hpath
  obtain ⟨steps', hback, hpath', hedits'⟩ := diagonalBack_spec (Nat.le_refl 0) (Nat.le_refl 0) (.inl rfl) hmatch hpath
  rw [Nat.zero_add] at hback
  have hsteps : stepsBack a b trace = steps' := by
    rw [stepsBack, h.length, Nat.add_sub_cancel, hloop]
    dsimp only
    rw [show (0 : Int) = (0 : Nat) from rfl, hback]
    dsimp only
    rw [insertsBack, if_neg (by decide), deletesBack, if_neg (by decide)]
  rw [hsteps]
  exact ⟨hpath', by rw [hedits', hedits]; exact Nat.zero_add D⟩

/-! ## Merging the steps -/

/-- The line a step gives. -/
def Step.lines (a b : List String) : Step → List String
  | .eq i => [a.getD i ""]
  | .del _ => []
  | .ins j => [b.getD j ""]

/-- The old line of a step is there. -/
def Step.InRange (a : List String) : Step → Prop
  | .eq i => i < a.length
  | .del i => i < a.length
  | .ins _ => True

/-- The lines an operation gives. -/
def DiffOp.lines (a : List String) : DiffOp → List String
  | .equal start len => (a.drop start).take len
  | .delete _ _ => []
  | .insert lines => lines

/-- The old lines of an operation are there. -/
def DiffOp.InRange (a : List String) : DiffOp → Prop
  | .equal start len => start + len ≤ a.length
  | .delete start len => start + len ≤ a.length
  | .insert _ => True

/-- What a script gives. -/
structure Renders (a : List String) (ops : List DiffOp) (lines : List String) (edits : Nat) : Prop where
  lines : ops.flatMap (DiffOp.lines a) = lines
  inRange : ∀ op ∈ ops, op.InRange a
  edits : (ops.map DiffOp.edits).sum = edits

section Merging

variable {ops : List DiffOp} {op op' : DiffOp} {lines more : List String} {n k : Nat}

/-- One more operation. -/
theorem Renders.push (h : Renders a ops lines n) (hop : op.InRange a) :
    Renders a (ops ++ [op]) (lines ++ op.lines a) (n + op.edits) where
  lines := by rw [List.flatMap_append, h.lines, List.flatMap_singleton]
  inRange := by
    rintro op' hmem
    rcases List.mem_append.mp hmem with hmem | hmem
    · exact h.inRange op' hmem
    · rw [List.mem_singleton.mp hmem]
      exact hop
  edits := by rw [List.map_append, List.sum_append, h.edits, List.map_singleton, List.sum_singleton]

/-- The last operation goes on. -/
theorem Renders.extend (h : Renders a (ops ++ [op]) lines n) (hop : op'.InRange a)
    (hlines : op'.lines a = op.lines a ++ more) (hedits : op'.edits = op.edits + k) :
    Renders a (ops ++ [op']) (lines ++ more) (n + k) where
  lines := by
    rw [← h.lines, List.flatMap_append, List.flatMap_append, List.flatMap_singleton, List.flatMap_singleton,
      hlines, List.append_assoc]
  inRange := by
    rintro op'' hmem
    rcases List.mem_append.mp hmem with hmem | hmem
    · exact h.inRange op'' (List.mem_append_left _ hmem)
    · rw [List.mem_singleton.mp hmem]
      exact hop
  edits := by
    have hall := h.edits
    simp only [List.map_append, List.sum_append, List.map_singleton, List.sum_singleton] at hall ⊢
    omega

/-- One line of the old text. -/
theorem take_drop_one {i : Nat} (hi : i < a.length) : (a.drop i).take 1 = [a.getD i ""] := by
  rw [List.drop_eq_getElem_cons hi, List.getD_eq_getElem _ _ hi]
  rfl

/-- One line more of the old text. -/
theorem take_drop_succ {start len : Nat} (hi : start + len < a.length) :
    (a.drop start).take (len + 1) = (a.drop start).take len ++ [a.getD (start + len) ""] := by
  rw [List.take_add_one, List.getElem?_drop, List.getElem?_eq_getElem hi, List.getD_eq_getElem _ _ hi]
  rfl

/-- **A step is merged** into the script. -/
theorem pushStep_spec {step : Step} (h : Renders a ops lines n) (hstep : step.InRange a) :
    Renders a (pushStep b ops step) (lines ++ step.lines a b) (n + step.edits) := by
  cases step with
  | eq i =>
    have hnew : Renders a (ops ++ [.equal i 1]) (lines ++ (Step.eq i).lines a b) (n + (Step.eq i).edits) := by
      rw [Step.lines, ← take_drop_one hstep]
      exact h.push hstep
    cases hlast : ops.getLast? with
    | none => simpa only [pushStep, hlast] using hnew
    | some last =>
      cases last with
      | equal start len =>
        simp only [pushStep, hlast]
        split
        · next hnext =>
          subst hnext
          obtain ⟨ops, rfl⟩ := List.getLast?_eq_some_iff.mp hlast
          rw [List.dropLast_concat]
          exact h.extend hstep (take_drop_succ hstep) rfl
        · exact hnew
      | delete start len => simpa only [pushStep, hlast] using hnew
      | insert lines => simpa only [pushStep, hlast] using hnew
  | del i =>
    have hnew : Renders a (ops ++ [.delete i 1]) (lines ++ (Step.del i).lines a b) (n + (Step.del i).edits) :=
      h.push hstep
    cases hlast : ops.getLast? with
    | none => simpa only [pushStep, hlast] using hnew
    | some last =>
      cases last with
      | delete start len =>
        simp only [pushStep, hlast]
        split
        · next hnext =>
          subst hnext
          obtain ⟨ops, rfl⟩ := List.getLast?_eq_some_iff.mp hlast
          rw [List.dropLast_concat]
          exact h.extend hstep rfl rfl
        · exact hnew
      | equal start len => simpa only [pushStep, hlast] using hnew
      | insert lines => simpa only [pushStep, hlast] using hnew
  | ins j =>
    have hnew : Renders a (ops ++ [.insert [b.getD j ""]]) (lines ++ (Step.ins j).lines a b)
        (n + (Step.ins j).edits) := h.push trivial
    cases hlast : ops.getLast? with
    | none => simpa only [pushStep, hlast] using hnew
    | some last =>
      cases last with
      | insert lines =>
        simp only [pushStep, hlast]
        obtain ⟨ops, rfl⟩ := List.getLast?_eq_some_iff.mp hlast
        rw [List.dropLast_concat]
        exact h.extend trivial rfl (List.length_append ..)
      | equal start len => simpa only [pushStep, hlast] using hnew
      | delete start len => simpa only [pushStep, hlast] using hnew

end Merging

/-- A line in front of the rest. -/
theorem drop_eq_getD (hy : y < b.length) : b.drop y = [b.getD y ""] ++ b.drop (y + 1) := by
  rw [List.drop_eq_getElem_cons hy, List.getD_eq_getElem _ _ hy]
  rfl

/-- **A path to the end**, merged: the new lines that are left, and its edits. -/
theorem foldl_pushStep (hpath : Path a b x y steps) {lines : List String} {n : Nat}
    (h : Renders a ops lines n) :
    Renders a (steps.foldl (pushStep b) ops) (lines ++ b.drop y) (n + stepEdits steps) := by
  induction hpath generalizing ops lines n with
  | done =>
    rw [List.drop_length, List.append_nil]
    exact h
  | @eq x y c steps ha hb _ ih =>
    obtain ⟨hx, rfl⟩ := List.getElem?_eq_some_iff.mp ha
    obtain ⟨hy, hsame⟩ := List.getElem?_eq_some_iff.mp hb
    have hstep : Step.InRange a (.eq x) := hx
    have hpush := ih (pushStep_spec (b := b) h hstep)
    rw [Step.edits, Nat.add_assoc] at hpush
    have hline : b.getD y "" = a.getD x "" := by
      rw [List.getD_eq_getElem _ _ hy, List.getD_eq_getElem _ _ hx, hsame]
    rw [drop_eq_getD hy, hline, ← List.append_assoc]
    exact hpush
  | @del x y c steps ha _ ih =>
    obtain ⟨hx, -⟩ := List.getElem?_eq_some_iff.mp ha
    have hstep : Step.InRange a (.del x) := hx
    have hpush := ih (pushStep_spec (b := b) h hstep)
    rw [Step.lines, List.append_nil, Step.edits, Nat.add_assoc] at hpush
    exact hpush
  | @ins x y c steps hb _ ih =>
    obtain ⟨hy, rfl⟩ := List.getElem?_eq_some_iff.mp hb
    have hstep : Step.InRange a (.ins y) := trivial
    have hpush := ih (pushStep_spec (b := b) h hstep)
    rw [Step.edits, Nat.add_assoc] at hpush
    rw [drop_eq_getD hy, ← List.append_assoc]
    exact hpush

/-! ## Application -/

/-- Lines put together. -/
def unlines (lines : List String) : String := lines.foldl (· ++ ·) ""

theorem foldl_append (lines : List String) (out : String) : lines.foldl (· ++ ·) out = out ++ unlines lines := by
  induction lines generalizing out with
  | nil => exact (String.append_empty).symm
  | cons line lines ih =>
    rw [unlines, List.foldl_cons, List.foldl_cons, ih, ih ("" ++ line), String.empty_append, String.append_assoc]

/-- **Nothing is lost by the lines.** -/
theorem unlines_splitLoop (line rest : List Char) :
    unlines (splitLoop line rest) = String.ofList (line ++ rest) := by
  induction rest generalizing line with
  | nil =>
    rw [splitLoop, List.append_nil]
    split
    · next hnil =>
      subst hnil
      rfl
    · exact String.empty_append
  | cons c rest ih =>
    rw [splitLoop]
    split
    · rw [unlines, List.foldl_cons, String.empty_append, foldl_append, ih, ← String.ofList_append, List.append_assoc]
      rfl
    · rw [ih, List.append_assoc]
      rfl

theorem unlines_splitLines (s : String) : unlines (splitLines s) = s := by
  rw [splitLines, unlines_splitLoop, List.nil_append, String.ofList_toList]

/-- A line has a character of its own. -/
theorem length_splitLoop (line rest : List Char) : (splitLoop line rest).length ≤ line.length + rest.length := by
  induction rest generalizing line with
  | nil =>
    rw [splitLoop]
    split
    · exact Nat.zero_le _
    · next hne => exact List.length_pos_iff.mpr hne
  | cons c rest ih =>
    rw [splitLoop]
    split
    · have hrest := ih []
      rw [List.length_cons, List.length_cons]
      rw [List.length_nil] at hrest
      omega
    · have hrest := ih (line ++ [c])
      rw [List.length_append, List.length_singleton] at hrest
      rw [List.length_cons]
      omega

/-- The operations of a script in range are applied in order. -/
theorem foldlM_applyOp (hlen : a.length < 2 ^ 64) (hrange : ∀ op ∈ ops, op.InRange a)
    (out : String) : ops.foldlM (applyOp a) out = .ok (out ++ unlines (ops.flatMap (DiffOp.lines a))) := by
  induction ops generalizing out with
  | nil => exact congrArg Except.ok String.append_empty.symm
  | cons op ops ih =>
    have hop : applyOp a out op = .ok (out ++ unlines (op.lines a)) := by
      have hcheck : ∀ start len, start + len ≤ a.length → checkRange a start len = .ok () := by
        intro start len hle
        rw [checkRange, if_neg (by omega), if_neg (by omega)]
      have hop := hrange op List.mem_cons_self
      cases op with
      | equal start len =>
        rw [applyOp, hcheck start len hop]
        exact congrArg Except.ok (foldl_append _ _)
      | delete start len =>
        rw [applyOp, hcheck start len hop]
        exact congrArg Except.ok String.append_empty.symm
      | insert lines => exact congrArg Except.ok (foldl_append _ _)
    rw [List.foldlM_cons, hop]
    show ops.foldlM (applyOp a) _ = _
    rw [ih (fun op hmem => hrange op (List.mem_cons_of_mem _ hmem)), List.flatMap_cons, String.append_assoc]
    rw [unlines.eq_def (op.lines a ++ _), List.foldl_append, foldl_append]
    rfl

/-- The lines of a `str` fit a `usize`. -/
theorem Str.length_lines (s : Str) : (splitLines s.text).length < 2 ^ 64 := by
  have hlines := length_splitLoop [] s.text.toList
  have hbytes := Wire.length_le_encode s.text.toList
  have hfits := s.fits
  rw [Wire.utf8_eq_encode] at hfits
  rw [splitLines]
  rw [List.length_nil] at hlines
  omega

/-- **The script gives the new text, with as few edits as there can be.** -/
theorem diffLines_minimal (old new : Str) :
    applyLineOps old.text (diffLines old.text new.text) = .ok new.text ∧
      ∃ l, CommonLength (splitLines old.text) (splitLines new.text) l ∧
        ((diffLines old.text new.text).map DiffOp.edits).sum + 2 * l =
          (splitLines old.text).length + (splitLines new.text).length := by
  obtain ⟨D, hsearched⟩ := myersTrace_spec (splitLines old.text) (splitLines new.text)
  obtain ⟨hpath, hedits⟩ := stepsBack_spec hsearched
  have hempty : Renders (splitLines old.text) [] [] 0 := ⟨rfl, fun _ h => absurd h List.not_mem_nil, rfl⟩
  have hrenders : Renders (splitLines old.text) (diffLines old.text new.text) (splitLines new.text) D := by
    have hall := foldl_pushStep hpath hempty
    rw [hedits, Nat.zero_add] at hall
    exact hall
  obtain ⟨l, hcommon, hlen⟩ := commonLength_of_shortest hsearched.path hsearched.short
  refine ⟨?_, l, hcommon, by rw [hrenders.edits]; exact hlen⟩
  rw [applyLineOps, foldlM_applyOp old.length_lines hrenders.inRange, hrenders.lines, unlines_splitLines,
    String.empty_append]

end AthenaOS.Diff
