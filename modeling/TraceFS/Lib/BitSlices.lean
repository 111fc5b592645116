import Mathlib.Data.BitVec

/-!
A word cut into slices and put together again, the highest slice first.
-/
namespace BitSlices

variable {n : Nat} (w : BitVec n) (k m : Nat)

/-- The bits from `k` on, in their places. -/
def above : BitVec n := w >>> k <<< k

/-- `m` bits from `k` on, in their places. -/
def placed : BitVec n := (w.extractLsb' k m).setWidth n <<< k

theorem getLsbD_above {i : Nat} (hi : i < n) :
    (above w k).getLsbD i = (decide (k ≤ i) && w.getLsbD i) := by
  by_cases hk : i < k
  · simp [above, hk, Nat.not_le_of_lt hk]
  · have hk := Nat.le_of_not_lt hk
    simp [above, hi, hk, Nat.add_sub_cancel' hk]

theorem getLsbD_placed {i : Nat} (hi : i < n) :
    (placed w k m).getLsbD i = (decide (k ≤ i ∧ i < k + m) && w.getLsbD i) := by
  by_cases hk : i < k
  · simp [placed, hk, Nat.not_le_of_lt hk]
  · have hk := Nat.le_of_not_lt hk
    have hm : i - k < m ↔ i < k + m := by omega
    simp [placed, hi, hk, hm, Nat.add_sub_cancel' hk]

/-- The highest slice. -/
theorem placed_eq_above (h : n ≤ k + m) : placed w k m = above w k := by
  apply BitVec.eq_of_getLsbD_eq
  intro i hi
  have hm : i < k + m := Nat.lt_of_lt_of_le hi h
  rw [getLsbD_placed w k m hi, getLsbD_above w k hi]
  simp [hm]

/-- One slice further down. -/
theorem above_or_placed : above w (k + m) ||| placed w k m = above w k := by
  apply BitVec.eq_of_getLsbD_eq
  intro i hi
  rw [BitVec.getLsbD_or, getLsbD_above w _ hi, getLsbD_placed w k m hi, getLsbD_above w k hi,
    ← Bool.and_or_distrib_right]
  congr 1
  rw [← Bool.decide_or, decide_eq_decide]
  omega

theorem above_zero : above w 0 = w := by simp [above]

end BitSlices
