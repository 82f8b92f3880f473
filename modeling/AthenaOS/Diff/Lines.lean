import AthenaOS.Lib.Utf8

/-!
# Line diffs

`diff_lines` and `apply_line_ops` of `components/ath_diff/src/lib.rs`. The array `v` is a function
of the diagonal: the offset that the source adds keeps all its indices in the array.
-/

namespace AthenaOS.Diff

/-- A `str` has at most `isize::MAX` bytes. -/
structure Str where
  text : String
  fits : (Lib.Wire.utf8 text).length < 2 ^ 63

/-- `DiffOp`. -/
inductive DiffOp where
  | equal (start len : Nat)
  | delete (start len : Nat)
  | insert (lines : List String)
  deriving DecidableEq, Repr

/-- `DiffError`. -/
inductive DiffError where
  | badHunkHeader
  | badHunkLine
  | contextMismatch
  | truncated
  | deltaOutOfRange
  deriving DecidableEq, Repr

/-! ## Lines -/

/-- The lines from here on; `line` is the one that has been started. -/
def splitLoop (line : List Char) : List Char → List String
  | [] => if line = [] then [] else [String.ofList line]
  | c :: rest =>
    if c = '\n' then String.ofList (line ++ [c]) :: splitLoop [] rest
    else splitLoop (line ++ [c]) rest

/-- `split_lines`. -/
def splitLines (s : String) : List String := splitLoop [] s.toList

/-! ## The search -/

/-- The array `V`: how far each diagonal was followed. -/
abbrev Front : Type := Int → Int

/-- Follow the diagonal over lines that match. -/
def snake (a b : List String) (x y : Int) : Int × Int :=
  if x < a.length ∧ y < b.length ∧ a[x.toNat]? = b[y.toNat]? then snake a b (x + 1) (y + 1)
  else (x, y)
termination_by (a.length - x).toNat

/-- Whether the step onto diagonal `k` goes down. -/
def goesDown (v : Front) (d k : Int) : Bool := k = -d || (k ≠ d && v (k - 1) < v (k + 1))

/-- The diagonals from `k` on; `none` when the end was reached. -/
def diagonalLoop (a b : List String) (d : Int) (v : Front) (k : Int) : Option Front :=
  if k ≤ d then
    let x := if goesDown v d k then v (k + 1) else v (k - 1) + 1
    let (x, y) := snake a b x (x - k)
    let v := Function.update v k x
    if a.length ≤ x ∧ b.length ≤ y then none
    else diagonalLoop a b d v (k + 2)
  else some v
termination_by (d + 1 - k).toNat

/-- The rounds from `d` on, and the arrays before each. -/
def traceLoop (a b : List String) (d : Nat) (v : Front) (trace : List Front) : List Front :=
  if d ≤ a.length + b.length then
    match diagonalLoop a b d v (-d) with
    | none => trace ++ [v]
    | some v' => traceLoop a b (d + 1) v' (trace ++ [v])
  else trace
termination_by a.length + b.length + 1 - d

/-- `myers_trace`. -/
def myersTrace (a b : List String) : List Front := traceLoop a b 0 (fun _ => 0) []

/-! ## The way back -/

/-- `Step`. -/
inductive Step where
  | eq (i : Nat)
  | del (i : Nat)
  | ins (j : Nat)
  deriving DecidableEq, Repr

/-- Back along the diagonal as long as `x` and `y` are above the bounds. What is pushed comes
first, as after the final reversal. -/
def diagonalBack (lowX lowY x y : Int) (steps : List Step) : Int × Int × List Step :=
  if lowX < x ∧ lowY < y then diagonalBack lowX lowY (x - 1) (y - 1) (.eq (x - 1).toNat :: steps)
  else (x, y, steps)
termination_by (x - lowX).toNat

/-- The rounds above 0, from the last one back. -/
def backtrackLoop (trace : List Front) : Nat → Int → Int → List Step → Int × Int × List Step
  | 0, x, y, steps => (x, y, steps)
  | d + 1, x, y, steps =>
    let v := trace.getD (d + 1) fun _ => 0
    let k := x - y
    let down := goesDown v (d + 1) k
    let prevK := if down then k + 1 else k - 1
    let prevX := v prevK
    let prevY := prevX - prevK
    let (x, y, steps) := diagonalBack prevX prevY x y steps
    let steps :=
      if down then if 0 < y then .ins (y - 1).toNat :: steps else steps
      else if 0 < x then .del (x - 1).toNat :: steps else steps
    backtrackLoop trace d prevX prevY steps

/-- Insertions that are left at the origin. -/
def insertsBack (y : Int) (steps : List Step) : List Step :=
  if 0 < y then insertsBack (y - 1) (.ins (y - 1).toNat :: steps) else steps
termination_by y.toNat

/-- Deletions that are left at the origin. -/
def deletesBack (x : Int) (steps : List Step) : List Step :=
  if 0 < x then deletesBack (x - 1) (.del (x - 1).toNat :: steps) else steps
termination_by x.toNat

/-- The single steps of `backtrack_to_ops`, in order. -/
def stepsBack (a b : List String) (trace : List Front) : List Step :=
  let (x, y, steps) := backtrackLoop trace (trace.length - 1) a.length b.length []
  let (x, y, steps) := diagonalBack 0 0 x y steps
  deletesBack x (insertsBack y steps)

/-- A step is merged into the last operation where it goes on. -/
def pushStep (b : List String) (ops : List DiffOp) (step : Step) : List DiffOp :=
  match step, ops.getLast? with
  | .eq i, some (.equal start len) =>
    if start + len = i then ops.dropLast ++ [.equal start (len + 1)] else ops ++ [.equal i 1]
  | .eq i, _ => ops ++ [.equal i 1]
  | .del i, some (.delete start len) =>
    if start + len = i then ops.dropLast ++ [.delete start (len + 1)] else ops ++ [.delete i 1]
  | .del i, _ => ops ++ [.delete i 1]
  | .ins j, some (.insert lines) => ops.dropLast ++ [.insert (lines ++ [b.getD j ""])]
  | .ins j, _ => ops ++ [.insert [b.getD j ""]]

/-- `backtrack_to_ops`. -/
def backtrackToOps (a b : List String) (trace : List Front) : List DiffOp :=
  (stepsBack a b trace).foldl (pushStep b) []

/-- `diff_lines`. -/
def diffLines (old new : String) : List DiffOp :=
  let a := splitLines old
  let b := splitLines new
  backtrackToOps a b (myersTrace a b)

/-! ## Application -/

/-- `start.checked_add(len)`, and the check against the number of lines. -/
def checkRange (a : List String) (start len : Nat) : Except DiffError Unit :=
  if 2 ^ 64 ≤ start + len then .error .truncated
  else if a.length < start + len then .error .contextMismatch
  else .ok ()

/-- What one operation appends. -/
def applyOp (a : List String) (out : String) : DiffOp → Except DiffError String
  | .equal start len => do
    checkRange a start len
    return ((a.drop start).take len).foldl (· ++ ·) out
  | .delete start len => do
    checkRange a start len
    return out
  | .insert lines => return lines.foldl (· ++ ·) out

/-- `apply_line_ops`. -/
def applyLineOps (old : String) (ops : List DiffOp) : Except DiffError String :=
  ops.foldlM (applyOp (splitLines old)) ""

/-- The lines an operation inserts or deletes. -/
def DiffOp.edits : DiffOp → Nat
  | .equal _ _ => 0
  | .delete _ len => len
  | .insert lines => lines.length

example : diffLines "1\n2\n3\n" "1\nTWO\n3\n" =
    [.equal 0 1, .delete 1 1, .insert ["TWO\n"], .equal 2 1] := by decide +kernel

end AthenaOS.Diff
