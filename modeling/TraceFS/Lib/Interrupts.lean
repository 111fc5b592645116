import Mathlib.Logic.Relation
import TraceFS.Lib.Access
import TraceFS.Lib.Run

/-!
A task that is called again and again, under an interrupt handler.

The handler runs to completion between any two accesses of the task and between its
calls. An assertion about the number of calls is carried from one call to the next.
-/
namespace Interrupts
open Access

variable {Op : Type} {Res : Op → Type} {σ : Type}

/-- `interrupt` is what one run of the handler does. -/
structure System (Op : Type) (Res : Op → Type) (σ : Type) where
  perform : (op : Op) → σ → Res op × σ
  task : Prog Op Res Unit
  interrupt : σ → σ

/-- The shared state and what is left of the current call. -/
structure Machine (Op : Type) (Res : Op → Type) (σ : Type) where
  state : σ
  rest : Prog Op Res Unit

inductive Act
  | call | access | interrupt
  deriving DecidableEq, Repr

variable (S : System Op Res σ)

def System.step : Transition.Step (Machine Op Res σ) Act Unit
  | m, .call =>
      match m.rest with
      | .ret _ => some ([], { m with rest := S.task })
      | .access _ _ => none
  | m, .access =>
      match m.rest with
      | .ret _ => none
      | .access op k => some ([], ⟨(S.perform op m.state).2, k (S.perform op m.state).1⟩)
  | m, .interrupt => some ([], { m with state := S.interrupt m.state })

/-- The task sees any number of interrupts before each access. -/
def System.setting (P : σ → Prop) : Setting Op Res σ where
  perform := S.perform
  env := Relation.ReflTransGen fun s t => t = S.interrupt s
  atAccess := P
  refl _ := .refl
  trans _ _ _ := .trans

theorem stable_of_interrupt {P I : σ → Prop} (h : ∀ s, I s → I (S.interrupt s)) :
    Stable (S.setting P) I := by
  intro s t hs moves
  induction moves with
  | refl => exact hs
  | tail _ step ih =>
      rw [step]
      exact h _ ih

/-- What every call carries on by one holds after each run, as often as it is called. -/
theorem System.run_holds {P : σ → Prop} {I : Nat → σ → Prop} {limit : Nat}
    (holds : ∀ n ≤ limit, ∀ s, I n s → P s)
    (interrupt : ∀ n ≤ limit, ∀ s, I n s → I n (S.interrupt s))
    (task : ∀ n < limit, Triple (S.setting P) (I n) S.task fun _ => I (n + 1))
    {init : σ} (start : I 0 init) {acts : List Act} {evs : List Unit} {m : Machine Op Res σ}
    (hcalls : acts.count .call ≤ limit)
    (h : Transition.run S.step ⟨init, .ret ()⟩ acts = some (evs, m)) : P m.state := by
  suffices hsafe : Safe (S.setting P) (fun _ => I (acts.count .call)) m.rest m.state from
    hsafe.holds fun _ => holds _ hcalls
  induction acts using List.reverseRecOn generalizing evs m with
  | nil =>
      cases h
      exact fun t moves => stable_of_interrupt S (interrupt 0 hcalls) _ t start moves
  | append_singleton acts a ih =>
      have ⟨_, t, _, hpast, hlast, _⟩ := Transition.run_append_iff.mp h
      have hstep := Transition.run_single_iff.mp hlast
      rw [List.count_append] at hcalls ⊢
      have hsafe := ih (by omega) hpast
      have ⟨state, rest⟩ := t
      cases a with
      | call =>
          have hone : [Act.call].count .call = 1 := rfl
          rw [hone] at hcalls ⊢
          cases rest with
          | access op k => cases hstep
          | ret _ =>
              cases hstep
              exact task _ (by omega) state hsafe.result
      | access =>
          cases rest with
          | ret _ => cases hstep
          | access op k =>
              cases hstep
              exact hsafe.next
      | interrupt =>
          cases hstep
          exact hsafe.env (.single rfl)

end Interrupts
