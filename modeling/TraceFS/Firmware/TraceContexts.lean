import Mathlib.Data.BitVec
import Mathlib.Data.Int.Order.Basic
import TraceFS.Lib.BubbleSort
import TraceFS.Firmware.Scenarios

/-!
`trace_contexts.c`, and the task of `scenarios_a3.c` that runs it.

What C leaves undefined, an access outside an array or an `int` that overflows, ends
the run with `none`.
-/
namespace TraceFS.TraceContexts
open Scenarios (CInt)

abbrev Short := BitVec 16

structure State where
  a : List Short
  b : List Short
  c : Short
  output : Short
  arr : List CInt
  bsMathIndex : BitVec 8

/-- The value of an expression of type `int`. -/
def int (n : Int) : Option Int := if -2147483648 ≤ n ∧ n ≤ 2147483647 then some n else none

/-- The conversion to `short`. -/
def short (n : Int) : Short := BitVec.ofInt 16 n

def vecMpy1Turn (x : List Short) (scaler : Short) (y : List Short) (i : Nat) :
    Option (List Short) := do
  let product ← int (scaler.toInt * (← x[i]?).toInt)
  let sum ← int ((← y[i]?).toInt + product.shiftRight 15)
  pure (y.set i (short sum))

def vecMpy1 (y x : List Short) (scaler : Short) : Option (List Short) :=
  (List.range 100).foldlM (vecMpy1Turn x scaler) y

def macTurn (a b : List Short) (r : Short × Short) (i : Nat) : Option (Short × Short) := do
  let dotp ← int (r.1.toInt + (← int ((← b[i]?).toInt * (← a[i]?).toInt)))
  let sqr ← int (r.2.toInt + (← int ((← b[i]?).toInt * (← b[i]?).toInt)))
  pure (short dotp, short sqr)

/-- The new value of `*sum` and the result. -/
def mac (a b : List Short) (sqr sum : Short) : Option (Short × Short) :=
  (List.range 100).foldlM (macTurn a b) (sum, sqr)

def math (s : State) : Option State := do
  let a ← vecMpy1 s.a s.b s.c
  let (output, c) ← mac a s.b s.c s.output
  pure { s with a := a, c := c, output := output }

/-- One turn of the inner loop of `bs`, with the branch it takes. -/
def compareExchange (r : List CInt × List Bool) (j : Nat) : Option (List CInt × List Bool) := do
  let x ← r.1[j]?
  let y ← r.1[j + 1]?
  if x.slt y then pure ((r.1.set j y).set (j + 1) x, r.2 ++ [true])
  else pure (r.1, r.2 ++ [false])

/-- The outer loop from `i` on, which ends at 1. -/
def bsFrom : Nat → List CInt × List Bool → Option (List CInt × List Bool)
  | i + 2, r => do bsFrom (i + 1) (← (List.range' 1 (i + 1)).foldlM compareExchange r)
  | _, r => some r

def nEl : Nat := 10

/-- `bs`: the array and the branches of the comparisons. -/
def bs (arr : List CInt) : Option (List CInt × List Bool) := bsFrom nEl (arr, [])

def task5msBsMath (signal : CInt) (s : State) : Option (State × List Bool) := do
  let s := { s with bsMathIndex := if signal ≠ 0 then 10 else 20 }
  let (s, branches) ← if s.bsMathIndex = 10#8 then do
      let (arr, branches) ← bs s.arr
      pure ({ s with arr := arr }, branches)
    else pure (s, [])
  let s ← if s.bsMathIndex = 20#8 then math s else pure s
  pure (s, branches)

/-- The task run once for each value it finds in `signal`. -/
def activations : List CInt → State → Option (State × List (List Bool))
  | [], s => some (s, [])
  | signal :: signals, s => do
      let (s, branches) ← task5msBsMath signal s
      let (s, rest) ← activations signals s
      pure (s, branches :: rest)

/-! `vec_mpy1` and `mac` -/

theorem short_toInt_add (x : Short) (n : Int) : short (x.toInt + n) = x + short n := by
  rw [short, BitVec.ofInt_add, BitVec.ofInt_toInt, short]

theorem short_mul (x y : Short) : short (x.toInt * y.toInt) = x * y := by
  rw [short, BitVec.ofInt_mul, BitVec.ofInt_toInt, BitVec.ofInt_toInt]

theorem short_bounds (x : Short) : -32768 ≤ x.toInt ∧ x.toInt ≤ 32767 := by
  have low := x.le_toInt
  have high := x.toInt_lt
  simp only [Nat.add_one_sub_one, Int.reducePow, Int.reduceNeg] at low high
  omega

theorem product_bounds (x y : Short) :
    -1073741824 ≤ x.toInt * y.toInt ∧ x.toInt * y.toInt ≤ 1073741824 := by
  have low := BitVec.le_toInt_mul_toInt (x := x) (y := y)
  have high := BitVec.toInt_mul_toInt_le (x := x) (y := y)
  simp only [Nat.reduceMul, Nat.reduceSub, Int.reducePow, Int.reduceNeg] at low high
  exact ⟨low, high⟩

theorem int_eq {n : Int} (low : -2147483648 ≤ n) (high : n ≤ 2147483647) : int n = some n :=
  if_pos ⟨low, high⟩

theorem int_product (x y : Short) : int (x.toInt * y.toInt) = some (x.toInt * y.toInt) := by
  obtain ⟨low, high⟩ := product_bounds x y
  exact int_eq (by omega) (by omega)

/-- What `vec_mpy1` adds for an element. -/
def weight (scaler x : Short) : Short := short ((scaler.toInt * x.toInt).shiftRight 15)

def scaled (y x : List Short) (scaler : Short) : List Short :=
  List.zipWith (fun y x => y + weight scaler x) y x

def dot (b a : List Short) : Short := (List.zipWith (· * ·) b a).sum

theorem vecMpy1Turn_eq {x y : List Short} {i : Nat} {xi yi : Short} (hx : x[i]? = some xi)
    (hy : y[i]? = some yi) (scaler : Short) :
    vecMpy1Turn x scaler y i = some (y.set i (yi + weight scaler xi)) := by
  obtain ⟨low, high⟩ := product_bounds scaler xi
  obtain ⟨ylow, yhigh⟩ := short_bounds yi
  have floor : (scaler.toInt * xi.toInt).shiftRight 15 = scaler.toInt * xi.toInt / 32768 :=
    Int.shiftRight_eq_div_pow _ 15
  have sum : int (yi.toInt + (scaler.toInt * xi.toInt).shiftRight 15) =
      some (yi.toInt + (scaler.toInt * xi.toInt).shiftRight 15) := by
    rw [floor]
    exact int_eq (by omega) (by omega)
  rw [vecMpy1Turn, hx, hy]
  simp only [Option.bind_eq_bind, Option.bind_some, int_product, sum, Option.pure_def,
    short_toInt_add, weight]

theorem vecMpy1_eq {y x : List Short} (hy : y.length = 100) (hx : x.length = 100)
    (scaler : Short) : vecMpy1 y x scaler = some (scaled y x scaler) := by
  have run (m : Nat) (hm : m ≤ 100) : ∃ r : List Short,
      (List.range m).foldlM (vecMpy1Turn x scaler) y = some r ∧ r.length = 100 ∧
      ∀ k, r[k]? = if k < m then (scaled y x scaler)[k]? else y[k]? := by
    induction m with
    | zero => exact ⟨y, rfl, hy, fun k => (if_neg (Nat.not_lt_zero k)).symm⟩
    | succ m ih =>
        obtain ⟨r, hrun, hlen, hr⟩ := ih (by omega)
        have hxm : x[m]? = some x[m] := List.getElem?_eq_getElem _
        have hym : y[m]? = some y[m] := List.getElem?_eq_getElem _
        have hrm : r[m]? = some y[m] := by rw [hr m, if_neg (Nat.lt_irrefl m), hym]
        refine ⟨r.set m (y[m] + weight scaler x[m]), ?_, ?_, ?_⟩
        · rw [List.range_succ, List.foldlM_append, hrun]
          exact (bind_pure _).trans (vecMpy1Turn_eq hxm hrm scaler)
        · rw [List.length_set, hlen]
        · intro k
          rw [List.getElem?_set, hr k, hlen]
          by_cases hk : m = k
          · rw [if_pos hk, if_pos (by omega), if_pos (by omega), ← hk, scaled,
              List.getElem?_zipWith, hxm, hym]
          · rw [if_neg hk]
            by_cases hlt : k < m
            · rw [if_pos hlt, if_pos (by omega)]
            · rw [if_neg hlt, if_neg (by omega)]
  obtain ⟨r, hrun, hlen, hr⟩ := run 100 (Nat.le_refl _)
  have whole : r = scaled y x scaler := by
    apply List.ext_getElem?
    intro k
    rw [hr k]
    by_cases hk : k < 100
    · rw [if_pos hk]
    · rw [if_neg hk, List.getElem?_eq_none (by omega), List.getElem?_eq_none]
      rw [scaled, List.length_zipWith]
      omega
  rw [vecMpy1, hrun, whole]

theorem macTurn_eq {a b : List Short} {i : Nat} {ai bi : Short} (ha : a[i]? = some ai)
    (hb : b[i]? = some bi) (r : Short × Short) :
    macTurn a b r i = some (r.1 + bi * ai, r.2 + bi * bi) := by
  have total (x y z : Short) :
      int (x.toInt + y.toInt * z.toInt) = some (x.toInt + y.toInt * z.toInt) := by
    obtain ⟨low, high⟩ := product_bounds y z
    obtain ⟨xlow, xhigh⟩ := short_bounds x
    exact int_eq (by omega) (by omega)
  rw [macTurn, ha, hb]
  simp only [Option.bind_eq_bind, Option.bind_some, int_product, total, Option.pure_def,
    short_toInt_add, short_mul]

theorem mac_eq {a b : List Short} (ha : a.length = 100) (hb : b.length = 100)
    (sqr sum : Short) : mac a b sqr sum = some (sum + dot b a, sqr + dot b b) := by
  have run (m : Nat) (hm : m ≤ 100) :
      (List.range m).foldlM (macTurn a b) (sum, sqr) =
        some (sum + dot (b.take m) (a.take m), sqr + dot (b.take m) (b.take m)) := by
    induction m with
    | zero => simp [dot]
    | succ m ih =>
        have ham : a[m]? = some a[m] := List.getElem?_eq_getElem _
        have hbm : b[m]? = some b[m] := List.getElem?_eq_getElem _
        have more (x : List Short) (hx : x.length = 100) :
            dot (b.take (m + 1)) (x.take (m + 1)) =
              dot (b.take m) (x.take m) + b[m] * x[m] := by
          have room : m < b.length ∧ m < x.length := by omega
          rw [dot, List.take_succ_eq_append_getElem room.1,
            List.take_succ_eq_append_getElem room.2,
            List.zipWith_append (by simp; omega), List.sum_append]
          simp [dot]
        rw [List.range_succ, List.foldlM_append, ih (by omega)]
        refine (bind_pure _).trans ((macTurn_eq ham hbm _).trans ?_)
        rw [more a ha, more b hb, BitVec.add_assoc, BitVec.add_assoc]
  have whole := run 100 (Nat.le_refl _)
  rw [← hb, List.take_length, hb, ← ha, List.take_length, ha] at whole
  exact whole

/-! `bs` -/

theorem compareExchange_eq {r : List CInt × List Bool} {j : Nat} (h : j + 1 < r.1.length) :
    compareExchange r j =
      some (BubbleSort.step BitVec.toInt r.1 j, r.2 ++ [BubbleSort.fires BitVec.toInt r.1 j]) := by
  have hx : r.1[j]? = some r.1[j] := List.getElem?_eq_getElem _
  have hy : r.1[j + 1]? = some r.1[j + 1] := List.getElem?_eq_getElem _
  rw [compareExchange, BubbleSort.step, BubbleSort.fires, hx, hy]
  simp only [Option.bind_eq_bind, Option.bind_some, BitVec.slt_iff_toInt_lt]
  split
  case isTrue hlt => rw [decide_eq_true hlt]; rfl
  case isFalse hge => rw [decide_eq_false hge]; rfl

theorem foldlM_compareExchange {js : List Nat} {r : List CInt × List Bool}
    (h : ∀ j ∈ js, j + 1 < r.1.length) :
    js.foldlM compareExchange r =
      some (BubbleSort.sortBy BitVec.toInt js r.1,
        r.2 ++ BubbleSort.history BitVec.toInt js r.1) := by
  induction js generalizing r with
  | nil => rw [BubbleSort.history, List.append_nil]; rfl
  | cons j js ih =>
      rw [List.foldlM_cons, compareExchange_eq (h j List.mem_cons_self)]
      refine (ih fun i hi => ?_).trans ?_
      · rw [BubbleSort.length_step]
        exact h i (List.mem_cons_of_mem _ hi)
      · rw [List.append_assoc]
        rfl

theorem bsFrom_eq {n : Nat} {r : List CInt × List Bool} (h : n + 1 < r.1.length) :
    bsFrom (n + 1) r =
      some (BubbleSort.sortBy BitVec.toInt (BubbleSort.schedule 1 n) r.1,
        r.2 ++ BubbleSort.history BitVec.toInt (BubbleSort.schedule 1 n) r.1) := by
  induction n generalizing r with
  | zero => rw [BubbleSort.schedule, BubbleSort.history, List.append_nil]; rfl
  | succ n ih =>
      have inside : ∀ j ∈ List.range' 1 (n + 1), j + 1 < r.1.length := by
        intro j hj
        rw [List.mem_range'_1] at hj
        omega
      have pass := foldlM_compareExchange inside
      rw [bsFrom, pass]
      refine (ih ?_).trans ?_
      · rw [BubbleSort.length_sortBy]
        omega
      · rw [BubbleSort.schedule, BubbleSort.sortBy_append, BubbleSort.history_append,
          List.append_assoc]

/-- The places that `bs` compares, in order. -/
def places : List Nat := BubbleSort.schedule 1 (nEl - 1)

def sorted (arr : List CInt) : List CInt := BubbleSort.sortBy BitVec.toInt places arr

def branchesOf (arr : List CInt) : List Bool := BubbleSort.history BitVec.toInt places arr

theorem bs_eq {arr : List CInt} (h : arr.length = nEl + 1) :
    bs arr = some (sorted arr, branchesOf arr) :=
  bsFrom_eq (n := nEl - 1) (r := (arr, [])) (by rw [h]; decide)

/-- `arr[0]` stays, the others are put in descending order with as many exchanges as
there are ascending pairs; then a second sort changes nothing. -/
theorem sorted_spec {arr : List CInt} (h : arr.length = nEl + 1) :
    (sorted arr).head? = arr.head? ∧ (sorted arr).tail.Perm arr.tail ∧
      (sorted arr).tail.Pairwise (fun x y => y.toInt ≤ x.toInt) ∧
      (branchesOf arr).count true = BubbleSort.inversions BitVec.toInt arr.tail ∧
      sorted (sorted arr) = sorted arr ∧
      branchesOf (sorted arr) = List.replicate places.length false := by
  cases arr with
  | nil => cases h
  | cons x l =>
      have hl : l.length - 1 = nEl - 1 := by
        rw [List.length_cons] at h
        omega
      obtain ⟨l', hsort, perm, pairwise, count⟩ := BubbleSort.sorts BitVec.toInt [x] l
      have behind : ∀ j ∈ places, [x].length ≤ j := fun j hj => (BubbleSort.mem_schedule hj).1
      obtain ⟨again, none⟩ := BubbleSort.history_sorted [x] pairwise behind
      rw [List.length_singleton, hl] at hsort count
      have whole : sorted (x :: l) = x :: l' := hsort
      rw [whole]
      exact ⟨rfl, perm, pairwise, count, again, none⟩

theorem length_sorted (arr : List CInt) : (sorted arr).length = arr.length :=
  BubbleSort.length_sortBy _ _ _

end TraceFS.TraceContexts
