import AthenaOS.Athlang.Immutability

/-!
# Integers near their limits

Negation, the count of a range and the loop over one use the plain operators of `i64`: a build
with overflow checks stops where they overflow.
-/

namespace AthenaOS.Athlang

open Lib

/-- The integers from `start` to `last`. -/
def upTo (start last : Int) : List Int := (List.range (last + 1 - start).toNat).map fun (k : Nat) => start + (k : Int)

/-- The integers of a range, in increasing order. -/
def integers (start stop : Int64) (inclusive : Bool) : List Int :=
  upTo start.toInt (if inclusive then stop.toInt else stop.toInt - 1)

/-- As values of the script. -/
def intValues (xs : List Int) : List Value := xs.map fun x => .int (.ofInt x)

/-! ## Checked results -/

theorem inRange_toInt (n : Int64) : InRange 64 n.toInt := inRange_64.mpr ⟨Int64.le_toInt n, Int64.toInt_le n⟩

theorem toInt_bounds (n : Int64) : -9223372036854775808 ≤ n.toInt ∧ n.toInt ≤ 9223372036854775807 :=
  inRange_64.mp (inRange_toInt n)

theorem toInt_ofInt {x : Int} (h : InRange 64 x) : (Int64.ofInt x).toInt = x := Int64.toInt_ofInt_of_le h.1 h.2

theorem arith_of {x : Int} (h : InRange 64 x) : arith x = .pure (.ofInt x) := if_pos h

theorem arith_overflow {x : Int} (h : ¬ InRange 64 x) :
    arith x = .op (S := signature) (.overflow x) Empty.elim := if_neg h

theorem upTo_cons {start last : Int} (h : start ≤ last) : upTo start last = start :: upTo (start + 1) last := by
  have hlen : (last + 1 - start).toNat = (last + 1 - (start + 1)).toNat + 1 := by omega
  rw [upTo, hlen, List.range_succ_eq_map, List.map_cons, List.map_map]
  refine congrArg₂ List.cons (by omega) (List.map_congr_left fun k _ => ?_)
  show start + ((k + 1 : Nat) : Int) = start + 1 + k
  omega

theorem upTo_nil {start last : Int} (h : last < start) : upTo start last = [] := by
  have hlen : (last + 1 - start).toNat = 0 := by omega
  rw [upTo, hlen]
  rfl

/-! ## Rounds -/

section

variable {H : Type} {rt : Runtime} {host : Host H} {name : String} {body : Run Flow}

/-- What the round of a loop does with the flow of its body. -/
theorem run_round {α : Type} (frame : Frame) (f : Flow → α) (s : Interp H) (n : Nat) :
    (semantics rt host).run n (do return f (← inScope frame body)) s =
      ((semantics rt host).run n (inScope frame body) s).map fun r => (r.1.map f, r.2) :=
  (semantics rt host).run_inScope_map frame body f s n

/-- Below the last integer of a range that ends below the largest one, there is a next one. -/
theorem inRange_next {i last : Int64} (hle : i ≤ last) (hlast : last.toInt < 9223372036854775807) :
    InRange 64 (i.toInt + 1) := by
  have hlei : i.toInt ≤ last.toInt := Int64.le_iff_toInt_le.mp hle
  have hbounds := toInt_bounds i
  exact inRange_64.mpr ⟨by omega, by omega⟩

/-- The rounds of a loop over a range go with those of the loop over its integers, as long as the
next integer is one. -/
theorem sameRounds (name : String) (body : Run Flow) {last : Int64}
    (hlast : last.toInt < 9223372036854775807) :
    Semantics.SameRounds (S := signature) (fun items i => items = intValues (upTo i.toInt last.toInt))
      Except.ok (fun items : List Value => if items.isEmpty then some .normal else none)
      (fun i : Int64 => if i ≤ last then none else some (.ok .normal))
      (fun items =>
        match items with
        | [] => .pure (.inr .normal)
        | it :: items => do return afterRound items (← inScope (.loopVar name it) body))
      (fun i => do return afterRangeRound i (← inScope (.loopVar name (.int i)) body)) where
  ends := by
    rintro _ i rfl
    by_cases hle : i ≤ last
    · rw [if_pos hle, upTo_cons (Int64.le_iff_toInt_le.mp hle)]
      rfl
    · rw [if_neg hle, upTo_nil (by have := mt Int64.le_iff_toInt_le.mpr hle; omega)]
      rfl
  rounds := by
    rintro _ i rfl hdone
    by_cases hle : i ≤ last
    · have hnext := inRange_next hle hlast
      refine ⟨.loopVar name (.int i), body, afterRound (intValues (upTo (i.toInt + 1) last.toInt)),
        afterRangeRound i, ?_, rfl, ?_⟩
      · rw [upTo_cons (Int64.le_iff_toInt_le.mp hle), intValues, List.map_cons, Int64.ofInt_toInt]
        rfl
      · rintro (_ | v | _ | _)
        · rw [afterRangeRound, if_pos hnext]
          exact .inl (by rw [toInt_ofInt hnext])
        · exact .inr rfl
        · exact .inr rfl
        · rw [afterRangeRound, if_pos hnext]
          exact .inl (by rw [toInt_ofInt hnext])
    · rw [upTo_nil (by have := mt Int64.le_iff_toInt_le.mpr hle; omega)] at hdone
      exact nomatch hdone

/-- Below the largest integer the loop runs its body for each integer of the range. -/
theorem run_forRange (rt : Runtime) (host : Host H) (name : String) (body : Run Flow)
    (last : Int64) (hlast : last.toInt < 9223372036854775807) (n : Nat) (i : Int64) (s : Interp H) :
    (semantics rt host).run n (forRange name body i last) s =
      (semantics rt host).run n (forItems name body (intValues (upTo i.toInt last.toInt))) s :=
  (semantics rt host).run_sameRounds (sameRounds name body hlast) (fun _ => rfl) n _ i s rfl

/-- A round of the body that does nothing uses up fuel and leaves the scopes. -/
theorem run_idle (frame : Frame) (s : Interp H) (n : Nat) :
    (semantics rt host).run (n + 2) (inScope frame (.pure .normal)) s = some (.ok .normal, s) := rfl

/-- Up to the largest integer the loop overflows behind its last round, where the loop over the
integers ends. The induction is on the integers that are left. -/
theorem run_forRange_max (rt : Runtime) (host : Host H) (name : String) (k : Nat) :
    ∀ (i : Int64) (s : Interp H), 9223372036854775807 - i.toInt = k → k < s.fuel → ∃ n s',
      (semantics rt host).run (n + 3) (forRange name (.pure .normal) i Int64.maxValue) s =
        some (.error .overflow, s') ∧
      (semantics rt host).run (n + 3) (forItems name (.pure .normal)
        (intValues (upTo i.toInt Int64.maxValue.toInt))) s = some (.ok .normal, s') := by
  induction k with
  | zero =>
    intro i s hk hfuel
    have hi : i.toInt = 9223372036854775807 := by omega
    have hle : i ≤ Int64.maxValue := Int64.le_iff_toInt_le.mpr (Int64.toInt_le i)
    have hover : ¬ InRange 64 (i.toInt + 1) := fun h => by have := inRange_64.mp h; omega
    have htick : (semantics rt host).tick s = .ok { s with fuel := s.fuel - 1, steps := s.steps + 1 } :=
      if_neg (by omega)
    refine ⟨0, { s with fuel := s.fuel - 1, steps := s.steps + 1 }, ?_, ?_⟩
    · rw [forRange, Semantics.run, if_pos hle, htick]
      dsimp only
      rw [run_round, run_idle, Option.map_some]
      simp only [Except.map, afterRangeRound, if_neg hover]
      rfl
    · rw [upTo_cons (Int64.le_iff_toInt_le.mp hle), upTo_nil (by rw [hi]; decide), forItems,
        Semantics.run, htick]
      rfl
  | succ k ih =>
    intro i s hk hfuel
    have hle : i ≤ Int64.maxValue := Int64.le_iff_toInt_le.mpr (Int64.toInt_le i)
    have hbounds := toInt_bounds i
    have hnext : InRange 64 (i.toInt + 1) := inRange_64.mpr ⟨by omega, by omega⟩
    have htick : (semantics rt host).tick s = .ok { s with fuel := s.fuel - 1, steps := s.steps + 1 } :=
      if_neg (by omega)
    obtain ⟨n, s', hrange, hitems⟩ := ih (.ofInt (i.toInt + 1))
      { s with fuel := s.fuel - 1, steps := s.steps + 1 }
      (by rw [toInt_ofInt hnext]; omega) (by show k < s.fuel - 1; omega)
    refine ⟨n + 1, s', ?_, ?_⟩
    · rw [forRange, Semantics.run, if_pos hle, htick]
      dsimp only
      rw [run_round, run_idle, Option.map_some]
      simp only [Except.map, afterRangeRound, if_pos hnext]
      exact hrange
    · rw [toInt_ofInt hnext] at hitems
      rw [upTo_cons (Int64.le_iff_toInt_le.mp hle), intValues, List.map_cons, forItems, Semantics.run, htick]
      dsimp only [List.isEmpty_cons]
      rw [run_round, run_idle, Option.map_some]
      exact hitems

end

/-! ## What a pair of integers can be used for -/

/-- The three places compute with the integers of the range, without overflow. -/
structure Exact (start stop : Int64) (inclusive : Bool) : Prop where
  neg : ∃ m : Int64, m.toInt = -start.toInt ∧ ∀ rt, evalUnary rt .neg (.int start) = .pure (.int m)
  count : ∃ n : Int64, n.toInt = (integers start stop inclusive).length ∧
    evalField (.range start stop inclusive) "count" = .pure (.int n)
  loop : ∀ {H : Type} (rt : Runtime) (host : Host H) (name : String) (body : Run Flow) (n : Nat) (s : Interp H),
    (semantics rt host).run n (forValue name body (.range start stop inclusive)) s =
      (semantics rt host).run n (forItems name body (intValues (integers start stop inclusive))) s

theorem length_upTo (start last : Int) : (upTo start last).length = (last + 1 - start).toNat := by
  rw [upTo, List.length_map, List.length_range]

theorem eq_minValue_iff (n : Int64) : n = Int64.minValue ↔ n.toInt = -9223372036854775808 := by
  rw [← Int64.toInt_inj]
  rfl

theorem eq_maxValue_iff (n : Int64) : n = Int64.maxValue ↔ n.toInt = 9223372036854775807 := by
  rw [← Int64.toInt_inj]
  rfl

theorem neg_iff (n : Int64) :
    (∃ m : Int64, m.toInt = -n.toInt ∧ ∀ rt, evalUnary rt .neg (.int n) = .pure (.int m)) ↔
      n ≠ Int64.minValue := by
  have hbounds := toInt_bounds n
  rw [Ne, eq_minValue_iff]
  constructor
  · rintro ⟨m, hm, -⟩ hmin
    have hmbounds := toInt_bounds m
    omega
  · intro h
    have hneg : InRange 64 (-n.toInt) := inRange_64.mpr ⟨by omega, by omega⟩
    refine ⟨.ofInt (-n.toInt), toInt_ofInt hneg, fun rt => ?_⟩
    rw [evalUnary, arith_of hneg]
    rfl

/-- The count is the length of the range wherever its two steps do not overflow. -/
theorem count_iff (start stop : Int64) (inclusive : Bool) :
    (∃ n : Int64, n.toInt = (integers start stop inclusive).length ∧
      evalField (.range start stop inclusive) "count" = .pure (.int n)) ↔
      InRange 64 (stop.toInt - start.toInt) ∧ InRange 64 (stop.toInt - start.toInt + if inclusive then 1 else 0) := by
  rw [show evalField (.range start stop inclusive) "count" = rangeCount start stop inclusive from rfl]
  constructor
  · rintro ⟨n, -, hn⟩
    by_cases hdiff : InRange 64 (stop.toInt - start.toInt)
    · rw [rangeCount, arith_of hdiff] at hn
      by_cases hsum : InRange 64 (stop.toInt - start.toInt + if inclusive then 1 else 0)
      · exact ⟨hdiff, hsum⟩
      · rw [← toInt_ofInt hdiff] at hsum
        have hstops : Prog.bind (arith ((Int64.ofInt (stop.toInt - start.toInt)).toInt + if inclusive then 1 else 0))
            _ = Prog.pure (Value.int n) := hn
        rw [arith_overflow hsum] at hstops
        exact nomatch hstops
    · rw [rangeCount, arith_overflow hdiff] at hn
      exact nomatch hn
  · rintro ⟨hdiff, hsum⟩
    have hcount := toInt_ofInt hsum
    have hrange : rangeCount start stop inclusive = .pure (.int
        (if 0 < Int64.ofInt (stop.toInt - start.toInt + if inclusive then 1 else 0)
          then .ofInt (stop.toInt - start.toInt + if inclusive then 1 else 0) else 0)) := by
      rw [← toInt_ofInt hdiff] at hsum
      show Prog.bind (arith (stop.toInt - start.toInt)) _ = _
      rw [arith_of hdiff]
      show Prog.bind (arith _) _ = _
      rw [arith_of hsum, toInt_ofInt hdiff]
      rfl
    refine ⟨_, ?_, hrange⟩
    generalize Int64.ofInt (stop.toInt - start.toInt + if inclusive then 1 else 0) = n at hcount ⊢
    rw [integers, length_upTo]
    by_cases hpos : 0 < n
    · have hlt : (0 : Int) < n.toInt := Int64.lt_iff_toInt_lt.mp hpos
      rw [if_pos hpos, hcount]
      cases inclusive <;> simp only [Bool.false_eq_true, if_false, if_true] at hcount ⊢ <;> omega
    · have hle : n.toInt ≤ 0 := Int.not_lt.mp fun hlt => hpos (Int64.lt_iff_toInt_lt.mpr hlt)
      rw [if_neg hpos]
      show (0 : Int) = _
      cases inclusive <;> simp only [Bool.false_eq_true, if_false, if_true] at hcount ⊢ <;> omega

theorem run_forValue {H : Type} (rt : Runtime) (host : Host H) (name : String) (body : Run Flow) {start stop : Int64}
    {inclusive : Bool} (h : stop ≠ if inclusive then Int64.maxValue else Int64.minValue) (n : Nat) (s : Interp H) :
    (semantics rt host).run n (forValue name body (.range start stop inclusive)) s =
      (semantics rt host).run n (forItems name body (intValues (integers start stop inclusive))) s := by
  have hbounds := toInt_bounds stop
  cases inclusive with
  | true =>
    rw [if_pos rfl, Ne, eq_maxValue_iff] at h
    exact run_forRange rt host name body stop (by omega) n start s
  | false =>
    rw [if_neg Bool.false_ne_true, Ne, eq_minValue_iff] at h
    have hlast : InRange 64 (stop.toInt - 1) := inRange_64.mpr ⟨by omega, by omega⟩
    have hstop := toInt_ofInt hlast
    have hrun := run_forRange rt host name body (.ofInt (stop.toInt - 1)) (by omega) n start s
    rw [hstop] at hrun
    rw [forValue, arith_of hlast]
    exact hrun

theorem run_forValue_twice :
    (semantics .withoutFloats noHost).run 9 (forValue "i" (.pure .normal) (.range 0 2 false)) (Interp.start 9 ()) =
      (semantics .withoutFloats noHost).run 9 (forItems "i" (.pure .normal) [.int 0, .int 1]) (Interp.start 9 ()) :=
  run_forValue .withoutFloats noHost "i" _ (by decide) 9 _

theorem loop_iff (start stop : Int64) (inclusive : Bool) :
    (∀ {H : Type} (rt : Runtime) (host : Host H) (name : String) (body : Run Flow) (n : Nat) (s : Interp H),
      (semantics rt host).run n (forValue name body (.range start stop inclusive)) s =
        (semantics rt host).run n (forItems name body (intValues (integers start stop inclusive))) s) ↔
      stop ≠ if inclusive then Int64.maxValue else Int64.minValue := by
  refine ⟨?_, fun h _ rt host name body n s => run_forValue rt host name body h n s⟩
  cases inclusive with
  | true =>
    rintro h rfl
    have hstart := toInt_bounds start
    have hfuel : (9223372036854775807 - start.toInt).toNat < (Interp.start (2 ^ 64) ()).fuel := by
      show _ < 2 ^ 64
      omega
    obtain ⟨n, s', hover, hitems⟩ := run_forRange_max .withoutFloats noHost "" _ start (Interp.start (2 ^ 64) ())
      (Int.toNat_of_nonneg (by omega)).symm hfuel
    exact nomatch hover.symm.trans ((h .withoutFloats noHost "" (.pure .normal) (n + 3) _).trans hitems)
  | false =>
    rintro h rfl
    have hnil : integers start Int64.minValue false = [] := by
      rw [integers, if_neg Bool.false_ne_true, (eq_minValue_iff _).mp rfl]
      exact upTo_nil (by have := toInt_bounds start; omega)
    have hrun := h .withoutFloats noHost "" (.pure .normal) 2 (Interp.start 0 ())
    rw [if_neg Bool.false_ne_true, hnil] at hrun
    exact nomatch hrun

/-- A script can use two integers in all three places just when the first one is not the smallest,
their distance fits, and the range does not end at the end of the integers. -/
theorem limits_iff (start stop : Int64) (inclusive : Bool) :
    Exact start stop inclusive ↔ start ≠ Int64.minValue ∧
      InRange 64 (stop.toInt - start.toInt) ∧ InRange 64 (stop.toInt - start.toInt + if inclusive then 1 else 0) ∧
      stop ≠ if inclusive then Int64.maxValue else Int64.minValue := by
  constructor
  · intro h
    obtain ⟨hdiff, hsum⟩ := (count_iff start stop inclusive).mp h.count
    exact ⟨(neg_iff start).mp h.neg, hdiff, hsum, (loop_iff start stop inclusive).mp h.loop⟩
  · rintro ⟨hmin, hdiff, hsum, hstop⟩
    exact ⟨(neg_iff start).mpr hmin, (count_iff start stop inclusive).mpr ⟨hdiff, hsum⟩,
      (loop_iff start stop inclusive).mpr hstop⟩

/-- The range of the largest integer alone has one round, and an overflow behind it. -/
theorem maxValue_not_exact : ¬ Exact Int64.maxValue Int64.maxValue true :=
  fun h => absurd rfl ((loop_iff Int64.maxValue Int64.maxValue true).mp h.loop)

end AthenaOS.Athlang
