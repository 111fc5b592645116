import Mathlib.Logic.Function.Iterate
import TraceFS.Firmware.TraceContexts

/-!
Runs of `task_5ms_bs_math`, one for each value the task finds in `signal`.

No run faults. Whatever the order of the values, `bs` sorts once and then leaves the
array as it is, and `math` accumulates.
-/
namespace TraceFS.TraceContexts
open Scenarios (CInt)

/-- The arrays have the sizes they are declared with. -/
structure Sized (s : State) : Prop where
  a : s.a.length = 100
  b : s.b.length = 100
  arr : s.arr.length = nEl + 1

def mathDone (s : State) : State :=
  { s with a := scaled s.a s.b s.c
           c := s.c + dot s.b s.b
           output := s.output + dot s.b (scaled s.a s.b s.c) }

theorem math_eq {s : State} (h : Sized s) : math s = some (mathDone s) := by
  have ha : (scaled s.a s.b s.c).length = 100 := by
    rw [scaled, List.length_zipWith, h.a, h.b]
    rfl
  rw [math, vecMpy1_eq h.a h.b]
  simp only [Option.bind_eq_bind, Option.bind_some, mac_eq ha h.b]
  rfl

/-- Either `math` or `bs` runs. -/
def taskDone (signal : CInt) (s : State) : State :=
  if signal = 0 then { mathDone s with bsMathIndex := 20 }
  else { s with arr := sorted s.arr, bsMathIndex := 10 }

def taskBranches (signal : CInt) (s : State) : List Bool :=
  if signal = 0 then [] else branchesOf s.arr

theorem task_eq {s : State} (h : Sized s) (signal : CInt) :
    task5msBsMath signal s = some (taskDone signal s, taskBranches signal s) := by
  unfold task5msBsMath taskDone taskBranches
  by_cases hs : signal = 0
  · have done : math { s with bsMathIndex := 20 } = some { mathDone s with bsMathIndex := 20 } :=
      math_eq ⟨h.a, h.b, h.arr⟩
    have notBs : ¬ (20 : BitVec 8) = 10#8 := by decide
    have isMath : (20 : BitVec 8) = 20#8 := rfl
    rw [if_pos hs, if_pos hs, if_neg (not_not.mpr hs)]
    simp only [if_neg notBs, if_pos isMath, Option.pure_def, Option.bind_eq_bind,
      Option.bind_some, done]
  · have isBs : (10 : BitVec 8) = 10#8 := rfl
    have notMath : ¬ (10 : BitVec 8) = 20#8 := by decide
    rw [if_neg hs, if_neg hs, if_pos hs]
    simp only [if_pos isBs, if_neg notMath, Option.pure_def, Option.bind_eq_bind,
      Option.bind_some, bs_eq h.arr]

theorem Sized.task {s : State} (h : Sized s) (signal : CInt) : Sized (taskDone signal s) := by
  unfold taskDone
  split
  · refine ⟨?_, h.b, h.arr⟩
    change (scaled s.a s.b s.c).length = 100
    rw [scaled, List.length_zipWith, h.a, h.b]
    rfl
  · refine ⟨h.a, h.b, ?_⟩
    dsimp only
    rw [length_sorted, h.arr]

theorem activations_cons {s : State} (h : Sized s) (signal : CInt) (signals : List CInt) :
    activations (signal :: signals) s =
      (activations signals (taskDone signal s)).map fun r =>
        (r.1, taskBranches signal s :: r.2) := by
  simp only [activations, task_eq h, Option.bind_eq_bind, Option.bind_some]
  cases activations signals (taskDone signal s) <;> rfl

/-! Runs of the task -/

/-- The branches of a run: `first` when `signal` is set for the first time, and no exchange
from then on. -/
def branchLayout (first : List Bool) : List CInt → List (List Bool)
  | [] => []
  | signal :: signals =>
      if signal = 0 then [] :: branchLayout first signals
      else first :: branchLayout (List.replicate places.length false) signals

/-- What `math` changes. -/
def State.sums (s : State) : List Short × Short × Short := (s.a, s.c, s.output)

def mathStep (b : List Short) (r : List Short × Short × Short) : List Short × Short × Short :=
  (scaled r.1 b r.2.1, r.2.1 + dot b b, r.2.2 + dot b (scaled r.1 b r.2.1))

theorem activations_run {s : State} (h : Sized s) (signals : List CInt) :
    ∃ s', activations signals s = some (s', branchLayout (branchesOf s.arr) signals) ∧
      s'.arr = (if signals.all (· == 0) then s.arr else sorted s.arr) ∧
      s'.b = s.b ∧ s'.sums = (mathStep s.b)^[signals.count 0] s.sums := by
  induction signals generalizing s with
  | nil => exact ⟨s, rfl, rfl, rfl, rfl⟩
  | cons signal signals ih =>
      obtain ⟨s', hrun, harr, hb, hsums⟩ := ih (h.task signal)
      rw [activations_cons h, hrun, Option.map_some]
      by_cases hs : signal = 0
      · have done : taskDone signal s = { mathDone s with bsMathIndex := 20 } := if_pos hs
        rw [done] at harr hb hsums ⊢
        refine ⟨s', ?_, ?_, hb, ?_⟩
        · rw [taskBranches, branchLayout, if_pos hs, if_pos hs]
          rfl
        · rw [harr, List.all_cons, hs, beq_self_eq_true, Bool.true_and]
          rfl
        · rw [hsums, hs, List.count_cons_self, Function.iterate_succ_apply]
          rfl
      · have done : taskDone signal s = { s with arr := sorted s.arr, bsMathIndex := 10 } :=
          if_neg hs
        obtain ⟨-, -, -, -, again, none⟩ := sorted_spec h.arr
        rw [done] at harr hb hsums ⊢
        refine ⟨s', ?_, ?_, hb, ?_⟩
        · rw [taskBranches, branchLayout, if_neg hs, if_neg hs]
          dsimp only
          rw [none]
        · dsimp only at harr
          rw [harr, again, ite_self, List.all_cons, beq_eq_false_iff_ne.mpr hs, Bool.false_and,
            if_neg Bool.false_ne_true]
        · dsimp only [State.sums] at hsums ⊢
          rw [hsums, List.count_cons_of_ne hs]

theorem length_places : places.length = 45 := by decide

/-- However often `bs` runs, the elements behind `arr[0]` are sorted by the first run, with
an exchange for each ascending pair among 45 comparisons; the later runs exchange nothing. -/
theorem sorts_once {s : State} (sized : Sized s) (signals : List CInt) :
    ∃ s' first, activations signals s = some (s', branchLayout first signals) ∧
      first.length = 45 ∧ first.count true = BubbleSort.inversions BitVec.toInt s.arr.tail ∧
      s'.arr.head? = s.arr.head? ∧ s'.arr.tail.Perm s.arr.tail ∧
      ((∃ signal ∈ signals, signal ≠ 0) →
        s'.arr.tail.Pairwise fun x y => y.toInt ≤ x.toInt) := by
  obtain ⟨s', hrun, harr, -, -⟩ := activations_run sized signals
  obtain ⟨head, perm, descending, count, -, -⟩ := sorted_spec sized.arr
  have comparisons : (branchesOf s.arr).length = 45 :=
    (BubbleSort.length_history _ _).trans length_places
  refine ⟨s', branchesOf s.arr, hrun, comparisons, count, ?_⟩
  rw [harr]
  by_cases quiet : signals.all (· == 0) = true
  · rw [if_pos quiet]
    refine ⟨rfl, List.Perm.refl _, ?_⟩
    rintro ⟨signal, hmem, hset⟩
    exact absurd (eq_of_beq (List.all_eq_true.mp quiet signal hmem)) hset
  · rw [if_neg quiet]
    exact ⟨head, perm, fun _ => descending⟩

/-- `a` after `m` runs of `math`. -/
def aAfter (s : State) (m : Nat) : List Short :=
  List.zipWith (fun y x =>
    y + ((List.range m).map fun k => weight (s.c + BitVec.ofNat 16 k * dot s.b s.b) x).sum) s.a s.b

theorem aAfter_zero {s : State} (h : Sized s) : aAfter s 0 = s.a := by
  have same : s.a.length = s.b.length := h.a.trans h.b.symm
  apply List.ext_getElem
  · rw [aAfter, List.length_zipWith, same, Nat.min_self]
  · intro i _ _
    simp only [aAfter, List.getElem_zipWith]
    exact BitVec.add_zero _

theorem aAfter_succ (s : State) (m : Nat) :
    scaled (aAfter s m) s.b (s.c + BitVec.ofNat 16 m * dot s.b s.b) = aAfter s (m + 1) := by
  apply List.ext_getElem?
  intro i
  simp only [scaled, aAfter, List.getElem?_zipWith]
  cases s.a[i]? with
  | none => rfl
  | some y =>
      cases s.b[i]? with
      | none => rfl
      | some x => simp [List.range_succ, BitVec.add_assoc]

theorem iterate_mathStep {s : State} (h : Sized s) (m : Nat) :
    (mathStep s.b)^[m] s.sums =
      (aAfter s m, s.c + BitVec.ofNat 16 m * dot s.b s.b,
        s.output + ((List.range m).map fun k => dot s.b (aAfter s (k + 1))).sum) := by
  induction m with
  | zero =>
      rw [aAfter_zero h]
      simp [State.sums]
  | succ m ih =>
      rw [Function.iterate_succ_apply', ih, mathStep, aAfter_succ]
      simp [List.range_succ, BitVec.ofNat_add, BitVec.add_mul, BitVec.add_assoc]

/-- The signals that are 0 make `math` accumulate: `c` grows by the same amount each time,
and `a` by its weights for the values of `c` so far. -/
theorem math_accumulates {s : State} (sized : Sized s) (signals : List CInt) :
    ∃ s' branches, activations signals s = some (s', branches) ∧ s'.b = s.b ∧
      s'.c = s.c + BitVec.ofNat 16 (signals.count 0) * dot s.b s.b ∧
      s'.a = aAfter s (signals.count 0) ∧
      s'.output = s.output +
        ((List.range (signals.count 0)).map fun k => dot s.b (aAfter s (k + 1))).sum := by
  obtain ⟨s', hrun, -, hb, hsums⟩ := activations_run sized signals
  rw [iterate_mathStep sized] at hsums
  obtain ⟨ha, hc, houtput⟩ : s'.a = _ ∧ s'.c = _ ∧ s'.output = _ := by
    simpa only [State.sums, Prod.mk.injEq] using hsums
  exact ⟨s', _, hrun, hb, hc, ha, houtput⟩

/-- The arrays as they are initialised; both tables of `short` repeat after eight entries. -/
def initial : State where
  a := (List.range 100).map fun i =>
    [0x0000, 0x07ff, 0x0c00, 0x0800, 0x0200, 0xf800, 0xf300, 0x0400].getD (i % 8) 0
  b := (List.range 100).map fun i =>
    [0x0c60, 0x0c40, 0x0c20, 0x0c00, 0xf600, 0xf400, 0xf200, 0xf000].getD (i % 8) 0
  c := 0x3
  output := 0
  arr := [0, 1, 2, 3, 4, 5, 6, 7, 8, 9, 10]
  bsMathIndex := 0

theorem initial_sized : Sized initial := ⟨rfl, rfl, rfl⟩

/-- The worst case that `arr` is initialised for is met once: all 45 comparisons exchange. -/
theorem sorts_once_initial :
    ∃ s' first, activations [0, 1, 0, 5] initial =
        some (s', [[], first, [], List.replicate 45 false]) ∧
      first = List.replicate 45 true ∧ s'.arr.head? = some 0 := by
  obtain ⟨s', first, hrun, hlen, hcount, hhead, -, -⟩ := sorts_once initial_sized [0, 1, 0, 5]
  have all : first.count true = first.length := by
    rw [hcount, hlen]
    decide
  have layout : branchLayout first [0, 1, 0, 5] = [[], first, [], List.replicate 45 false] := rfl
  refine ⟨s', first, layout ▸ hrun, ?_, hhead⟩
  rw [List.count_eq_length] at all
  exact List.eq_replicate_iff.mpr ⟨hlen, fun b hb => (all b hb).symm⟩

/-- After 32 runs of `math` the accumulator is back at its start. -/
theorem math_accumulates_initial :
    ∃ s' branches, activations (List.replicate 32 0) initial = some (s', branches) ∧
      s'.c = 0x3 := by
  obtain ⟨s', branches, hrun, -, hc, -, -⟩ := math_accumulates initial_sized (List.replicate 32 0)
  refine ⟨s', branches, hrun, ?_⟩
  rw [hc, List.count_replicate_self]
  decide +kernel

end TraceFS.TraceContexts
