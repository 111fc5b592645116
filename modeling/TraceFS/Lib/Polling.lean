import Mathlib.Data.Fin.Basic
import Mathlib.Data.List.Count
import TraceFS.Lib.Run

/-!
A polling server: one cursor walks cyclically over `n` request flags, skips the
clear ones and serves the set ones. Requests arrive at any time.

This is the abstract meaning of a cyclic dispatcher. Two facts carry over to
whatever refines it: a request stays until it is served, and between a request
and its service every other client is served at most once.
-/
namespace Polling
open Transition

variable {n : Nat}

structure Server (n : Nat) where
  pending : Fin n → Bool
  cursor : Fin n

inductive Action (n : Nat) where
  | request (want : Fin n → Bool)
  | skip
  | serve

def advance (c : Fin n) : Fin n :=
  if h : c.val + 1 < n then ⟨c.val + 1, h⟩ else ⟨0, by have := c.isLt; omega⟩

/-- The emitted events are the clients served. -/
def step : Step (Server n) (Action n) (Fin n)
  | s, .request want => some ([], { s with pending := fun i => s.pending i || want i })
  | s, .skip =>
      if s.pending s.cursor then none else some ([], { s with cursor := advance s.cursor })
  | s, .serve =>
      if s.pending s.cursor then
        some ([s.cursor], { pending := fun i => s.pending i && decide (i ≠ s.cursor),
                            cursor := advance s.cursor })
      else none

def gap (c i : Fin n) : Nat := if c.val ≤ i.val then i.val - c.val else n + i.val - c.val

theorem gap_eq_zero {c i : Fin n} : gap c i = 0 ↔ c = i := by
  have hc := c.isLt
  rw [Fin.ext_iff, gap]
  split <;> omega

theorem gap_advance_of_ne {c i : Fin n} (h : c ≠ i) : gap (advance c) i + 1 = gap c i := by
  have hc := c.isLt
  have hi := i.isLt
  rw [Ne, Fin.ext_iff] at h
  simp only [gap, advance]
  split <;> split <;> split <;> simp_all <;> omega

theorem gap_advance_self (c : Fin n) : gap (advance c) c + 1 = n := by
  have hc := c.isLt
  simp only [gap, advance]
  split <;> split <;> simp_all <;> omega

theorem gap_lt (c i : Fin n) : gap c i < n := by
  have hc := c.isLt
  have hi := i.isLt
  rw [gap]
  split <;> omega

theorem pending_of_step {s t : Server n} {a : Action n} {evs : List (Fin n)} {i : Fin n}
    (h : step s a = some (evs, t)) (waiting : s.pending i = true) (unserved : i ∉ evs) :
    t.pending i = true := by
  cases a with
  | request want =>
      obtain ⟨rfl, rfl⟩ := Prod.mk.inj (Option.some.inj h)
      simp [waiting]
  | skip =>
      simp only [step, Option.ite_none_left_eq_some, Option.some.injEq, Prod.mk.injEq] at h
      obtain ⟨-, -, rfl⟩ := h
      exact waiting
  | serve =>
      simp only [step, Option.ite_none_right_eq_some, Option.some.injEq, Prod.mk.injEq] at h
      obtain ⟨-, rfl, rfl⟩ := h
      simpa [waiting] using unserved

theorem pending_until_served {s t : Server n} {acts : List (Action n)} {evs : List (Fin n)}
    {i : Fin n} (waiting : s.pending i = true) (h : run step s acts = some (evs, t))
    (unserved : i ∉ evs) : t.pending i = true := by
  refine run_invariant (fun past u => i ∉ past → u.pending i = true) (fun _ => waiting)
    ?_ h unserved
  intro past u a new v keep hs hn
  rw [List.mem_append, not_or] at hn
  exact pending_of_step hs (keep hn.1) hn.2

/-- Client `j` can still be served before client `i`: it lies between the
cursor and `i`. -/
def Before (s : Server n) (j i : Fin n) : Prop := gap s.cursor j < gap s.cursor i

instance (s : Server n) (j i : Fin n) : Decidable (Before s j i) :=
  inferInstanceAs (Decidable (_ < _))

/-- What one step can do to the order in which `j` and a waiting `i` are
reached: serving `j` uses up the only position before `i`. -/
theorem before_of_step {s t : Server n} {a : Action n} {evs : List (Fin n)} {i j : Fin n}
    (h : step s a = some (evs, t)) (waiting : s.pending i = true) (unserved : i ∉ evs)
    (hne : j ≠ i) :
    (evs.count j = 0 ∧ (Before t j i → Before s j i)) ∨
      (evs.count j = 1 ∧ Before s j i ∧ ¬ Before t j i) := by
  cases a with
  | request want =>
      obtain ⟨rfl, rfl⟩ := Prod.mk.inj (Option.some.inj h)
      exact .inl ⟨rfl, id⟩
  | skip =>
      simp only [step, Option.ite_none_left_eq_some, Option.some.injEq, Prod.mk.injEq] at h
      obtain ⟨idle, rfl, rfl⟩ := h
      have hci : s.cursor ≠ i := by rintro rfl; exact idle waiting
      have hi := gap_advance_of_ne hci
      refine .inl ⟨rfl, ?_⟩
      intro hb
      by_cases hcj : s.cursor = j
      · have := gap_advance_self s.cursor
        have := gap_lt s.cursor i
        simp only [Before, ← hcj] at hb ⊢
        omega
      · have := gap_advance_of_ne hcj
        simp only [Before] at hb ⊢
        omega
  | serve =>
      simp only [step, Option.ite_none_right_eq_some, Option.some.injEq, Prod.mk.injEq] at h
      obtain ⟨-, rfl, rfl⟩ := h
      have hci : s.cursor ≠ i := by simpa [eq_comm] using unserved
      have hi := gap_advance_of_ne hci
      have := gap_lt s.cursor i
      by_cases hcj : s.cursor = j
      · have hself := gap_advance_self s.cursor
        have hzero : gap s.cursor j = 0 := gap_eq_zero.mpr hcj
        rw [← hcj] at hzero
        refine .inr ⟨by simp [hcj], ?_, ?_⟩ <;> simp only [Before, ← hcj] <;> omega
      · have := gap_advance_of_ne hcj
        refine .inl ⟨by simp [hcj], ?_⟩
        simp only [Before]
        omega

/-- Bounded bypass: while a request waits, every other client is served at most
once. -/
theorem bypass_le_one {s t : Server n} {acts : List (Action n)} {evs : List (Fin n)}
    {i j : Fin n} (waiting : s.pending i = true) (h : run step s acts = some (evs, t))
    (unserved : i ∉ evs) (hne : j ≠ i) : evs.count j ≤ 1 := by
  suffices bound : t.pending i = true ∧ evs.count j + (if Before t j i then 1 else 0) ≤ 1 by
    omega
  refine run_invariant
    (fun past u => i ∉ past → u.pending i = true ∧ past.count j + (if Before u j i then 1 else 0) ≤ 1)
    (fun _ => ⟨waiting, ?_⟩) ?_ h unserved
  · split <;> simp
  · intro past u a new v keep hs hn
    rw [List.mem_append, not_or] at hn
    obtain ⟨wait, bound⟩ := keep hn.1
    refine ⟨pending_of_step hs wait hn.2, ?_⟩
    rw [List.count_append]
    rcases before_of_step hs wait hn.2 hne with ⟨h0, mono⟩ | ⟨h1, before, after⟩
    · rw [h0]
      by_cases hb : Before v j i
      · simp only [if_pos (mono hb)] at bound
        simpa only [if_pos hb] using bound
      · rw [if_neg hb]
        omega
    · rw [h1, if_neg after]
      rw [if_pos before] at bound
      omega

end Polling
