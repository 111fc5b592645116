import Mathlib.Data.List.Basic

/-!
Memory filled in layers.

Each layer covers the front of the memory and leaves the rest as it was. What shows
at a place is the last layer that reached it, or what was there before the first.
-/
namespace Layers
variable {α : Type*}

def put (base layer : List α) : List α := layer ++ base.drop layer.length

theorem getElem?_put (base layer : List α) (k : Nat) :
    (put base layer)[k]? = if k < layer.length then layer[k]? else base[k]? := by
  by_cases h : k < layer.length
  · rw [put, if_pos h, List.getElem?_append_left h]
  · rw [put, if_neg h, List.getElem?_append_right (Nat.le_of_not_lt h), List.getElem?_drop,
      Nat.add_sub_cancel' (Nat.le_of_not_lt h)]

/-- The last layer that reaches place `k`. -/
def covering (layers : List (List α)) (k : Nat) : Option (List α) :=
  layers.reverse.find? fun layer => decide (k < layer.length)

theorem covering_cons (layer : List α) (layers : List (List α)) (k : Nat) :
    covering (layer :: layers) k =
      (covering layers k).or (if k < layer.length then some layer else none) := by
  rw [covering, covering, List.reverse_cons, List.find?_append, List.find?_singleton]
  simp only [decide_eq_true_eq]

theorem getElem?_foldl_put (layers : List (List α)) (base : List α) (k : Nat) :
    (layers.foldl put base)[k]? = ((covering layers k).getD base)[k]? := by
  induction layers generalizing base with
  | nil => rfl
  | cons layer layers ih =>
      rw [List.foldl_cons, ih, covering_cons]
      cases covering layers k with
      | some top => rfl
      | none =>
          rw [Option.getD_none, Option.none_or, getElem?_put]
          split <;> rfl

end Layers
