import Mathlib.Algebra.Group.Int.Defs
import Mathlib.Algebra.Group.Nat.Defs
import TraceFS.Lib.Interrupts

/-!
`ISR2_minmax` and `task_100ms_nexus` of `scenarios_a3.c`.

The interrupt and the task share `x`, `y` and `z`. An `int` is its 32-bit pattern, as
the core computes with it; the signed operations and the table index that C leaves
undefined out of range are logged with their operands.
-/
namespace TraceFS.Scenarios
open Access

abbrev CInt := BitVec 32

inductive Var
  | x | y | z | signal | result
  deriving DecidableEq, Repr

inductive Arith
  | add | sub | mul
  deriving DecidableEq, Repr

def Arith.eval : Arith → CInt → CInt → CInt
  | .add, a, b => a + b
  | .sub, a, b => a - b
  | .mul, a, b => a * b

/-- The value in the integers. -/
def Arith.exact : Arith → Int → Int → Int
  | .add, a, b => a + b
  | .sub, a, b => a - b
  | .mul, a, b => a * b

inductive Logged
  | signed (f : Arith) (a b : CInt)
  | index (i : CInt)
  deriving DecidableEq, Repr

def vectorLength : Nat := 20

/-- The operation does not overflow, the index lies in the table. -/
def Logged.Defined : Logged → Prop
  | .signed f a b => -2 ^ 31 ≤ f.exact a.toInt b.toInt ∧ f.exact a.toInt b.toInt < 2 ^ 31
  | .index i => 0 ≤ i.toInt ∧ i.toInt < vectorLength

instance : DecidablePred Logged.Defined
  | .signed _ _ _ => inferInstanceAs (Decidable (_ ∧ _))
  | .index _ => inferInstanceAs (Decidable (_ ∧ _))

inductive Op
  | read (v : Var)
  | write (v : Var) (n : CInt)
  | signed (f : Arith) (a b : CInt)
  | index (i : CInt)
  deriving DecidableEq, Repr

abbrev Op.Res : Op → Type
  | .write _ _ => Unit
  | _ => CInt

abbrev Code := Prog Op Op.Res

def read (v : Var) : Code CInt := .perform (Op.read v)
def write (v : Var) (n : CInt) : Code Unit := .perform (Op.write v n)
def signed (f : Arith) (a b : CInt) : Code CInt := .perform (Op.signed f a b)
def index (i : CInt) : Code CInt := .perform (Op.index i)

/-! `minmax.c` -/

def swap (a b : Var) : Code Unit := do
  let tmp ← read a
  write a (← read b)
  write b tmp

def cMin (a b c : CInt) : CInt :=
  if a.sle b then
    if a.sle c then a else c
  else if b.sle c then b else c

def cMax (a b c : CInt) : CInt :=
  let (a, _) := if a.sle b then (b, a) else (a, b)
  let (a, _) := if a.sle c then (c, a) else (a, c)
  a

/-- The first statement of `ISR2_minmax`. -/
def rearrange : Code Unit := do
  if (← read .x).sle (← read .y) then swap .x .y
  else if (← read .x).sle (← read .z) then do
    let least := cMin (← read .x) (← read .y) (← read .z)
    write .x (← signed .add (← read .x) least)
  else do
    let greatest := cMax (← read .z) (← read .y) (← read .x)
    write .z (← signed .mul (← read .z) greatest)

/-- `result = (y <= z ? y+z : y-z)` -/
def setResult : Code Unit := do
  if (← read .y).sle (← read .z) then
    write .result (← signed .add (← read .y) (← read .z))
  else write .result (← signed .sub (← read .y) (← read .z))

def isr2Minmax : Code Unit := do
  rearrange
  setResult

def initVector : List CInt :=
  [90, 47, 85, 66, 49, 7, 93, 35, 78, 63, 90, 47, 85, 66, 49, 7, 93, 35, 78, 63]

/-- `f`; the shift instruction takes its count modulo 32. -/
def f (x : CInt) : CInt :=
  let v : CInt := 255
  let v := if x.getLsbD 0 then v + x else v
  let v := if x.getLsbD 1 then v * x else v
  let v := if x.getLsbD 2 then v - x else v
  let v := if x.getLsbD 3 then v.sdiv x else v
  let v := if x.getLsbD 4 then v.sshiftRight (x.toNat % 32) else v
  let v := if x.getLsbD 5 then v &&& x else v
  let v := if x.getLsbD 6 then v ^^^ x else v
  if x.getLsbD 7 then v ||| x else v

def task100msNexus : Code Unit := do
  let z ← read .z
  write .signal (if z.srem 3 = 0 then 1 else 0)
  let x ← read .x
  write .y (f (← index (x.srem 20)))
  let z ← read .z
  write .z (← signed .add z 1)

/-! The shared variables and what has been computed so far. -/

structure World where
  vars : Var → CInt
  log : List Logged

/-- The task and the interrupt start with 0 in the variables they share. -/
def World.init (signal result : CInt) : World where
  vars
    | .x | .y | .z => 0
    | .signal => signal
    | .result => result
  log := []

def World.logged (w : World) (e : Logged) : World := { w with log := w.log ++ [e] }

def perform : (op : Op) → World → op.Res × World
  | .read v, w => (w.vars v, w)
  | .write v n, w => ((), { w with vars := Function.update w.vars v n })
  | .signed f a b, w => (f.eval a b, w.logged (.signed f a b))
  | .index i, w => (initVector.getD i.toNat 0, w.logged (.index i))

/-- The task, interrupted by `ISR2_minmax`. -/
def system : Interrupts.System Op Op.Res World where
  perform := perform
  task := task100msNexus
  interrupt w := (isr2Minmax.exec perform w).2

end TraceFS.Scenarios
