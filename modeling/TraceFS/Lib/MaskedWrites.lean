import Mathlib.Logic.Function.Basic

/-!
Masked read-modify-writes of shared cells.

A write changes the bits of its mask in one cell. Between its read and its write
others may write: where their masks lie within its own or their cells differ, what
it writes back is the same as if it had read afterwards.
-/
namespace MaskedWrites

variable {ι : Type*} {w : Nat}

/-- The bits of `mask` from `value`, the others from `old`. -/
def blend (mask value old : BitVec w) : BitVec w := old &&& ~~~mask ||| value &&& mask

theorem getLsbD_blend (mask value old : BitVec w) (j : Nat) :
    (blend mask value old).getLsbD j =
      if mask.getLsbD j then value.getLsbD j else old.getLsbD j := by
  simp only [blend, BitVec.getLsbD_or, BitVec.getLsbD_and, BitVec.getLsbD_not]
  by_cases hj : j < w
  · cases mask.getLsbD j <;> simp [hj]
  · simp [hj, BitVec.getLsbD_of_ge _ j (Nat.le_of_not_lt hj)]

/-- Under a mask only its bits are compared. -/
theorem and_eq_and_iff {mask x y : BitVec w} :
    x &&& mask = y &&& mask ↔ ∀ j, mask.getLsbD j = true → x.getLsbD j = y.getLsbD j := by
  constructor
  · intro same j hj
    simpa [hj] using congrArg (BitVec.getLsbD · j) same
  · intro bits
    apply BitVec.eq_of_getLsbD_eq
    intro j _
    rw [BitVec.getLsbD_and, BitVec.getLsbD_and]
    cases hj : mask.getLsbD j with
    | false => simp
    | true => rw [bits j hj]

theorem blend_not_and (mask value old : BitVec w) :
    blend (~~~mask) value old &&& mask = old &&& mask := by
  refine and_eq_and_iff.mpr fun j hj => ?_
  rw [getLsbD_blend, BitVec.getLsbD_not, hj]
  simp

def Within (mask mask' : BitVec w) : Prop := ∀ j, mask.getLsbD j = true → mask'.getLsbD j = true

theorem within_of_and_eq {mask mask' : BitVec w} (h : mask &&& mask' = mask) : Within mask mask' := by
  intro j hj
  rw [← h, BitVec.getLsbD_and] at hj
  exact (Bool.and_eq_true_iff.mp hj).2

/-- A write within the mask is not seen behind a later one. -/
theorem blend_absorb {mask mask' : BitVec w} (h : Within mask' mask) (value value' old : BitVec w) :
    blend mask value (blend mask' value' old) = blend mask value old := by
  apply BitVec.eq_of_getLsbD_eq
  intro j _
  simp only [getLsbD_blend]
  cases hm : mask.getLsbD j with
  | true => rfl
  | false =>
      have hm' : mask'.getLsbD j = false := by
        cases hm' : mask'.getLsbD j with
        | false => rfl
        | true => exact Bool.noConfusion (hm.symm.trans (h j hm'))
      rw [hm']
      rfl

structure Write (ι : Type*) (w : Nat) where
  cell : ι
  mask : BitVec w
  value : BitVec w

namespace Write

def Addresses (x : Write ι w) (i : ι) (j : Nat) : Prop := x.cell = i ∧ x.mask.getLsbD j = true

variable [DecidableEq ι]

def apply (g : ι → BitVec w) (x : Write ι w) : ι → BitVec w :=
  Function.update g x.cell (blend x.mask x.value (g x.cell))

theorem getLsbD_apply_of_addresses {x : Write ι w} {i : ι} {j : Nat} (h : x.Addresses i j)
    (g : ι → BitVec w) : (x.apply g i).getLsbD j = x.value.getLsbD j := by
  have ⟨hcell, hmask⟩ := h
  rw [apply, ← hcell, Function.update_self, getLsbD_blend, if_pos hmask]

theorem getLsbD_apply_of_not_addresses {x : Write ι w} {i : ι} {j : Nat} (h : ¬x.Addresses i j)
    (g : ι → BitVec w) : (x.apply g i).getLsbD j = (g i).getLsbD j := by
  rw [apply]
  by_cases hcell : i = x.cell
  · have hmask : ¬x.mask.getLsbD j = true := fun hmask => h ⟨hcell.symm, hmask⟩
    rw [hcell, Function.update_self, getLsbD_blend, if_neg hmask]
  · rw [Function.update_of_ne hcell]

/-- `y` does not disturb `x` in the middle. -/
def Yields (y x : Write ι w) : Prop := y.cell = x.cell → Within y.mask x.mask

/-- What is about to be written back stays what it would be after reading again. -/
theorem Yields.blend {x y : Write ι w} (h : y.Yields x) (g : ι → BitVec w) :
    MaskedWrites.blend x.mask x.value (y.apply g x.cell) =
      MaskedWrites.blend x.mask x.value (g x.cell) := by
  rw [apply]
  by_cases hcell : x.cell = y.cell
  · rw [hcell, Function.update_self]
    exact blend_absorb (h hcell.symm) _ _ _
  · rw [Function.update_of_ne hcell]

end Write

section Sequences
variable [DecidableEq ι] {i : ι} {j : Nat}

theorem blend_foldl_of_yields {x : Write ι w} {ys : List (Write ι w)} (h : ∀ y ∈ ys, y.Yields x)
    (g : ι → BitVec w) :
    blend x.mask x.value (ys.foldl Write.apply g x.cell) = blend x.mask x.value (g x.cell) := by
  induction ys generalizing g with
  | nil => rfl
  | cons y ys ih =>
      rw [List.foldl_cons, ih fun z hz => h z (List.mem_cons_of_mem y hz)]
      exact (h y List.mem_cons_self).blend g

/-- Bits no write addresses stay. -/
theorem getLsbD_foldl_of_not_addressed {xs : List (Write ι w)} (h : ∀ x ∈ xs, ¬x.Addresses i j)
    (g : ι → BitVec w) : (xs.foldl Write.apply g i).getLsbD j = (g i).getLsbD j := by
  induction xs generalizing g with
  | nil => rfl
  | cons x xs ih =>
      rw [List.foldl_cons, ih fun y hy => h y (List.mem_cons_of_mem x hy)]
      exact Write.getLsbD_apply_of_not_addresses (h x List.mem_cons_self) g

/-- The last write that addresses a bit decides it. -/
theorem getLsbD_foldl_of_last {xs ys : List (Write ι w)} {x : Write ι w} (hx : x.Addresses i j)
    (hys : ∀ y ∈ ys, ¬y.Addresses i j) (g : ι → BitVec w) :
    ((xs ++ x :: ys).foldl Write.apply g i).getLsbD j = x.value.getLsbD j := by
  rw [List.foldl_append, List.foldl_cons, getLsbD_foldl_of_not_addressed hys]
  exact Write.getLsbD_apply_of_addresses hx _

end Sequences

end MaskedWrites
