import Mathlib.Logic.Relation
import TraceFS.Lib.Access
import TraceFS.Lib.Run

/-!
A program preempted by activities that take steps of their own.

The program proceeds only in calm states, in which nothing that preempted it is
still under way. Between two of its accesses the others take any number of steps
that lead from a calm state to a calm one.
-/
namespace Preemption
open Access Relation

variable {Op : Type} {Res : Op → Type} {σ α β : Type}

structure System (Op : Type) (Res : Op → Type) (σ α : Type) where
  perform : (op : Op) → σ → Res op × σ
  other : σ → α → Option σ
  calm : σ → Bool

/-- The shared state and what is left of the program. -/
structure Machine (Op : Type) (Res : Op → Type) (σ β : Type) where
  state : σ
  rest : Prog Op Res β

inductive Act (α : Type)
  | main
  | other (a : α)
  deriving DecidableEq, Repr

variable (S : System Op Res σ α)

def System.step : Transition.Step (Machine Op Res σ β) (Act α) Unit
  | m, .main =>
      if S.calm m.state then
        match m.rest with
        | .ret _ => none
        | .access op k => some ([], ⟨(S.perform op m.state).2, k (S.perform op m.state).1⟩)
      else none
  | m, .other a => (S.other m.state a).map fun s => ([], { m with state := s })

/-- Any number of steps of the others. -/
def System.Moves : σ → σ → Prop := ReflTransGen fun s t => ∃ a, S.other s a = some t

/-- The program sees what the others do between two calm states. -/
def System.setting (P : σ → Prop) : Setting Op Res σ where
  perform := S.perform
  env s t := t = s ∨ S.Moves s t ∧ S.calm t = true
  atAccess := P
  refl _ := .inl rfl
  trans s t u hst htu := by
    rcases htu with rfl | ⟨moves, calm⟩
    · exact hst
    · rcases hst with rfl | ⟨before, _⟩
      · exact .inr ⟨moves, calm⟩
      · exact .inr ⟨before.trans moves, calm⟩

/-- An assertion about calm states is stable when it extends to one the others keep. -/
theorem stable_of_kept {P I J : σ → Prop} (extend : ∀ s, I s → J s)
    (kept : ∀ s a t, J s → S.other s a = some t → J t)
    (restrict : ∀ s, J s → S.calm s = true → I s) : Stable (S.setting P) I := by
  intro s t hs move
  rcases move with rfl | ⟨moves, calm⟩
  · exact hs
  · suffices hJ : J t from restrict t hJ calm
    clear calm
    induction moves with
    | refl => exact extend s hs
    | tail _ step ih =>
        obtain ⟨a, step⟩ := step
        exact kept _ a _ ih step

/-- Every state of a run is what the others made of a calm state the program left
behind, from which the rest of the program is safe. -/
theorem System.run_safe {P : σ → Prop} {Q : β → σ → Prop} {p : Prog Op Res β} {init : σ}
    (calmInit : S.calm init = true)
    (calmPerform : ∀ op s, S.calm s = true → S.calm (S.perform op s).2 = true)
    (safe : Safe (S.setting P) Q p init) {acts : List (Act α)} {evs : List Unit}
    {m : Machine Op Res σ β} (h : Transition.run S.step ⟨init, p⟩ acts = some (evs, m)) :
    ∃ s, S.calm s = true ∧ Safe (S.setting P) Q m.rest s ∧ S.Moves s m.state := by
  let Reached (_ : List Unit) (m : Machine Op Res σ β) :=
    ∃ s, S.calm s = true ∧ Safe (S.setting P) Q m.rest s ∧ S.Moves s m.state
  have start : Reached [] ⟨init, p⟩ := ⟨init, calmInit, safe, .refl⟩
  refine Transition.run_invariant Reached start ?_ h
  rintro past m a new u ⟨s, hcalm, hs, moves⟩ hstep
  cases a with
  | main =>
      simp only [System.step, Option.ite_none_right_eq_some] at hstep
      obtain ⟨calm, hstep⟩ := hstep
      cases hrest : m.rest with
      | ret b => simp [hrest] at hstep
      | access op k =>
          simp only [hrest, Option.some.injEq, Prod.mk.injEq] at hstep
          obtain ⟨-, rfl⟩ := hstep
          rw [hrest] at hs
          exact ⟨_, calmPerform op _ calm, (hs.env (.inr ⟨moves, calm⟩)).next, .refl⟩
  | other a =>
      obtain ⟨t, ht, heq⟩ := Option.map_eq_some_iff.mp hstep
      obtain ⟨-, rfl⟩ := Prod.mk.inj heq
      exact ⟨s, hcalm, hs, moves.tail ⟨a, ht⟩⟩

end Preemption
