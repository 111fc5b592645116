import TraceFS.Lib.Polling
import TraceFS.Firmware.Scheduler

/-!
`scheduler_run` refines a polling server.

A slot that waits for its dispatch is a pending request and the start of a
dispatch is the service. While a dispatch is in progress its own slot stands for
nothing: it is still set, but it is going to be cleared.
-/
namespace TraceFS.Scheduler
open Transition

/-- A dispatch through slot `i` is in progress: its entry was called and the slot
has not been cleared yet. -/
def Pc.dispatching : Pc → Slot → Bool
  | .body j _ _, i | .clear j, i => decide (j = i)
  | _, _ => false

/-- The slot `scheduler_run` works on is set from its test to its clearing. -/
def Pc.Current (queue : Slot → Option Slot) : Pc → Prop
  | .own i | .call i | .clear i => queue i = some i
  | .body i t _ => t = i ∧ queue i = some i
  | .fault => False
  | _ => True

/-- What every reachable state satisfies; a set slot points to its own task. -/
structure Consistent (s : State) : Prop where
  ownTask : ∀ i t, s.queue i = some t → t = i
  current : s.pc.Current s.queue

theorem consistent_init : Consistent schedulerInit where
  ownTask := by intro i t h; cases h
  current := True.intro

theorem Consistent.queue_of_dispatching {s : State} (hs : Consistent s) {i : Slot}
    (h : s.pc.dispatching i = true) : s.queue i = some i := by
  have current := hs.current
  cases hpc : s.pc <;> simp only [hpc, Pc.dispatching, Pc.Current, decide_eq_true_eq] at h current
  case body j t ws => exact h ▸ current.2
  case clear j => exact h ▸ current
  all_goals cases h

theorem consistent_schedulerNext {s : State} (hs : Consistent s) :
    Consistent (schedulerNext s) := by
  have keep (i : Slot) (h : s.queue i = some i) : (schedulerNext s).queue i = some i := by
    rw [schedulerNext_queue]
    split
    · rfl
    · exact h
  refine ⟨?_, ?_⟩
  · intro i t h
    rw [schedulerNext_queue] at h
    split at h
    · exact (Option.some.inj h).symm
    · exact hs.ownTask i t h
  · have current := hs.current
    rw [schedulerNext_pc]
    cases hpc : s.pc <;> simp only [hpc, Pc.Current] at current ⊢
    case own i | call i | clear i => exact keep i current
    case body i t ws => exact ⟨current.1, keep i current.2⟩

theorem consistent_of_rule {s t : State} {a : Act} {evs : List Event} (hs : Consistent s)
    (h : Rule s a evs t) : Consistent t := by
  have current := hs.current
  cases h with
  | tick => exact consistent_schedulerNext hs
  | enter hpc _ | leave hpc _ | empty i hpc _ | again i _ hpc | wrap i hpc _ =>
      exact ⟨hs.ownTask, True.intro⟩
  | found i t hpc hq | own i t hpc hq =>
      obtain rfl := hs.ownTask i t hq
      exact ⟨hs.ownTask, hq⟩
  | call i t hpc hq =>
      obtain rfl := hs.ownTask i t hq
      exact ⟨hs.ownTask, rfl, hq⟩
  | fault i hpc hq =>
      rcases hpc with hpc | hpc <;> simp [hpc, hq, Pc.Current] at current
  | write i t w ws hpc | emit e i t hpc _ =>
      rw [hpc] at current
      exact ⟨hs.ownTask, current⟩
  | disable i t hpc => exact ⟨hs.ownTask, current⟩
  | ret i t hpc =>
      rw [hpc] at current
      exact ⟨hs.ownTask, current.2⟩
  | clear i hpc =>
      refine ⟨?_, True.intro⟩
      intro j t h
      by_cases hj : j = i
      · simp [hj] at h
      · exact hs.ownTask j t (by simpa [hj] using h)

theorem consistent_of_run {s : State} {acts : List Act} {evs : List Event}
    (h : run step schedulerInit acts = some (evs, s)) : Consistent s :=
  run_invariant (fun _ => Consistent) consistent_init
    (fun _ _ _ _ _ hs ht => consistent_of_rule hs (step_rule ht)) h

/-- The slot the next test looks at, once the current dispatch is under way. -/
def cursor : Pc → Slot
  | .loop | .returned | .fault => 0
  | .test i | .own i | .call i => i
  | .body i _ _ | .clear i | .next i => Polling.advance i

/-- The polling server a scheduler state stands for. -/
def server (s : State) : Polling.Server numTasks :=
  { pending := fun i => (s.queue i).isSome && !s.pc.dispatching i, cursor := cursor s.pc }

def started? : Event → Option Slot
  | .started t => some t
  | _ => none

def starts (evs : List Event) : List Slot := evs.filterMap started?

@[simp] theorem starts_nil : starts [] = [] := rfl

@[simp] theorem starts_append (e₁ e₂ : List Event) :
    starts (e₁ ++ e₂) = starts e₁ ++ starts e₂ := List.filterMap_append

theorem starts_own (ws : List CTrace.Word) : starts (ws.map (.wrote · .scheduler)) = [] := by
  simp [starts, started?, List.filterMap_map]

/-- A step that changes neither the waiting slots nor the cursor. -/
theorem server_stutter {s t : State} (hq : t.queue = s.queue)
    (hd : ∀ i, t.pc.dispatching i = s.pc.dispatching i) (hc : cursor t.pc = cursor s.pc) :
    run Polling.step (server s) [] = some ([], server t) := by
  have : server t = server s := by simp only [server, hq, hd, hc]
  rw [this, run_nil]

/-- A tick requests the released tasks, except one whose own dispatch it falls in. -/
theorem server_tick (s : State) :
    run Polling.step (server s)
        [.request fun i => releases (s.ticks + 1) i && !s.pc.dispatching i] =
      some ([], server (schedulerNext s)) := by
  have hp : (server (schedulerNext s)).pending = fun i =>
      (server s).pending i || (releases (s.ticks + 1) i && !s.pc.dispatching i) := by
    funext i
    simp only [server, schedulerNext_queue, schedulerNext_pc]
    cases releases (s.ticks + 1) i <;> cases s.pc.dispatching i <;> simp
  rw [run_single_iff, Polling.step, ← hp]
  rfl

/-- The start of a dispatch takes its slot out of the waiting ones. -/
theorem server_call {s : State} {i : Slot} (hpc : s.pc = .call i) (hq : s.queue i = some i) :
    run Polling.step (server s) [.serve] =
      some ([i], server { s with pc := .body i i [] }) := by
  have hcur : (server s).cursor = i := by simp [server, cursor, hpc]
  have waiting : (server s).pending i = true := by simp [server, hq, hpc, Pc.dispatching]
  have hp : (fun j => (server s).pending j && decide (j ≠ i)) =
      (server { s with pc := .body i i [] }).pending := by
    funext j
    simp only [server, hpc, Pc.dispatching, Bool.not_false, Bool.and_true, ne_eq, decide_not,
      eq_comm]
  rw [run_single_iff, Polling.step, hcur, if_pos waiting, hp]
  rfl

theorem server_empty {s : State} {i : Slot} (hpc : s.pc = .test i) (hq : s.queue i = none) :
    run Polling.step (server s) [.skip] = some ([], server { s with pc := .next i }) := by
  have hcur : (server s).cursor = i := by simp [server, cursor, hpc]
  have idle : ¬ (server s).pending i = true := by simp [server, hq]
  have hp : (server s).pending = (server { s with pc := .next i }).pending := by
    funext j
    simp only [server, hpc, Pc.dispatching]
  rw [run_single_iff, Polling.step, hcur, if_neg idle, hp]
  rfl

/-- Clearing the slot of the finished dispatch is invisible: it stood for nothing. -/
theorem server_clear {s : State} {i : Slot} (hpc : s.pc = .clear i) :
    server { s with queue := Function.update s.queue i none, pc := .next i } = server s := by
  have hp : (server { s with queue := Function.update s.queue i none, pc := .next i }).pending =
      (server s).pending := by
    funext j
    by_cases hj : j = i
    · subst hj
      simp [server, hpc, Pc.dispatching]
    · simp [server, hpc, Pc.dispatching, hj, Ne.symm hj]
  have hc : (server { s with queue := Function.update s.queue i none, pc := .next i }).cursor =
      (server s).cursor := by simp only [server, hpc, cursor]
  rw [server, server, Polling.Server.mk.injEq]
  exact ⟨hp, hc⟩

/-- Every scheduler step is a run of the polling server that serves exactly the
tasks started. -/
theorem server_of_rule {s t : State} {a : Act} {evs : List Event} (hs : Consistent s)
    (h : Rule s a evs t) :
    ∃ bs, run Polling.step (server s) bs = some (starts evs, server t) := by
  have current := hs.current
  cases h with
  | tick => exact ⟨_, server_tick s⟩
  | enter hpc _ | leave hpc _ | found i t hpc _ =>
      exact ⟨[], server_stutter rfl (by simp [Pc.dispatching, hpc]) (by simp [cursor, hpc])⟩
  | empty i hpc hq => exact ⟨_, server_empty hpc hq⟩
  | own i t hpc _ =>
      rw [starts_own]
      exact ⟨[], server_stutter rfl (by simp [Pc.dispatching, hpc]) (by simp [cursor, hpc])⟩
  | call i t hpc hq =>
      obtain rfl := hs.ownTask i t hq
      exact ⟨_, server_call hpc hq⟩
  | fault i hpc hq =>
      rcases hpc with hpc | hpc <;> simp [hpc, hq, Pc.Current] at current
  | write i t w ws hpc | emit e i t hpc _ | disable i t hpc | ret i t hpc =>
      exact ⟨[], server_stutter rfl (by simp [Pc.dispatching, hpc]) (by simp [cursor, hpc])⟩
  | clear i hpc =>
      rw [server_clear hpc]
      exact ⟨[], rfl⟩
  | again i hlt hpc =>
      exact ⟨[], server_stutter rfl (by simp [Pc.dispatching, hpc])
        (by simp [cursor, hpc, Polling.advance, hlt])⟩
  | wrap i hpc hge =>
      exact ⟨[], server_stutter rfl (by simp [Pc.dispatching, hpc])
        (by simp [cursor, hpc, Polling.advance, hge])⟩

theorem server_simulation :
    Simulation step Polling.step started? fun s r => Consistent s ∧ r = server s := by
  rintro s r a evs t ⟨hs, rfl⟩ h
  have rule := step_rule h
  obtain ⟨bs, hbs⟩ := server_of_rule hs rule
  exact ⟨bs, server t, hbs, consistent_of_rule hs rule, rfl⟩

theorem server_of_run {s t : State} {acts : List Act} {evs : List Event} (hs : Consistent s)
    (h : run step s acts = some (evs, t)) :
    ∃ bs, run Polling.step (server s) bs = some (starts evs, server t) := by
  obtain ⟨bs, _, hbs, _, rfl⟩ := server_simulation.run ⟨hs, rfl⟩ h
  exact ⟨bs, hbs⟩

end TraceFS.Scheduler
