import TraceFS.Firmware.ApplicationFinish
import TraceFS.Firmware.StartupEntry

/-!
The firmware from the core's reset to the end of its trace.

`main` hands the scheduler's variables over to `scheduler_run` as some ticks have left
them. Those ticks could as well have come after the call, so that what holds of the
application from its start on holds behind every start-up. As there, the `i` of
`scheduler_run` survives the calls.
-/
namespace TraceFS.FromReset
open Transition CTrace Scheduler Application

/-- The application as `main` enters it; nothing initialises the static counter. -/
def handOver (w : Startup.World) (counter : BitVec 32) : Machine :=
  { sched := w.sched, counter := counter, todo := [] }

/-- Ticks that come before the application runs start no task and write no trace. -/
theorem run_ticks (p : Platform) (c : BitVec 32) {k : Nat} {evs : List Event} {s : State}
    (h : run Scheduler.step schedulerInit (List.replicate k .tick) = some (evs, s)) :
    run (step p) (start c) (List.replicate k .tick) =
        some (evs, { sched := s, counter := c, todo := [] }) ∧
      starts evs = [] ∧ written evs = [] := by
  induction k generalizing evs s with
  | zero =>
      obtain ⟨rfl, rfl⟩ := Prod.mk.inj (Option.some.inj h)
      exact ⟨rfl, rfl, rfl⟩
  | succ k ih =>
      rw [List.replicate_succ'] at h ⊢
      obtain ⟨past, t, new, hpast, hnew, rfl⟩ := run_append_iff.mp h
      obtain ⟨hrun, hstarts, hwritten⟩ := ih hpast
      obtain ⟨rfl, rfl⟩ := Prod.mk.inj (Option.some.inj (run_single_iff.mp hnew))
      refine ⟨run_append hrun rfl, ?_, ?_⟩
      · rw [starts_append, hstarts]
        rfl
      · rw [written_append, hwritten]
        rfl

theorem dispatched_silent {past later : List Event} (silent : starts past = []) (pc : Pc) :
    dispatched (past ++ later) pc = dispatched later pc := by
  cases pc <;> simp only [dispatched, starts_append, silent, List.nil_append]

/-- From reset on, whatever the start-up met: the trace is the messages of the dispatches
so far up to the words the current one still owes, the processor always has a next step
until the scheduler returns, and then the trace is complete and names `task_1000ms` once,
at its end. -/
theorem trace_from_reset (p : Platform) (c : BitVec 32) {w : Startup.World}
    {acts : List (Preemption.Act Handler.Act)} {evs : List Unit}
    {m : Preemption.Machine Startup.Op Startup.Op.Res Startup.World Unit}
    {ins : List Input} {later : List Event} {u : Machine} (reset : Startup.Reset w)
    (boot : run Startup.system.step ⟨w, Startup.main⟩ acts = some (evs, m))
    (entered : m.rest = .ret ())
    (h : run (step p) (handOver m.state c) ins = some (later, u)) :
    written later ++ outstanding p u =
        protocol.stream (expected p c.toNat (dispatched later u.sched.pc)) ∧
      (u.sched.pc ≠ .returned → (step p u .cpu).isSome = true) ∧
      (u.sched.pc = .returned → ∃ pre, starts later = pre ++ [lastSlot] ∧ lastSlot ∉ pre ∧
        protocol.decode (written later) = some (expected p c.toNat (pre ++ [lastSlot]))) := by
  obtain ⟨k, past, ticks⟩ := Startup.ticked_of_run reset boot entered
  obtain ⟨first, noStarts, noWords⟩ := run_ticks p c ticks
  obtain ⟨staged, traced⟩ := staged_of_run (run_append first h)
  have words := traced.words
  rw [written_append, noWords, List.nil_append, dispatched_silent noStarts] at words
  refine ⟨words, exists_cpu_step staged traced, ?_⟩
  intro returned
  obtain ⟨pre, hstarts, hpre, decoded⟩ := trace_of_returned staged traced returned
  rw [starts_append, noStarts, List.nil_append] at hstarts
  rw [written_append, noWords, List.nil_append] at decoded
  exact ⟨pre, hstarts, hpre, decoded⟩

/-- After one tick in `scheduler_init` 999 more, and then the processor alone. -/
def secondOfTicks : List Input := List.replicate 999 .tick ++ List.replicate 36 .cpu

def finishes (m : Machine) : Bool :=
  (run (step ⟨0, 0⟩) m secondOfTicks).any fun r => decide (r.2.sched.pc = .returned)

theorem trace_from_reset_stale :
    ∃ evs m later u,
      run Startup.system.step ⟨Startup.stale, Startup.main⟩ Startup.staleTick = some (evs, m) ∧
      run (step ⟨0, 0⟩) (handOver m.state 8) secondOfTicks = some (later, u) ∧
      ∃ pre, starts later = pre ++ [lastSlot] ∧ lastSlot ∉ pre ∧
        protocol.decode (written later) = some (expected ⟨0, 0⟩ 8 (pre ++ [lastSlot])) := by
  obtain ⟨evs, m, boot, checked⟩ := exists_run_of_check Startup.system.step
    ⟨Startup.stale, Startup.main⟩ Startup.staleTick
    (fun _ m => Startup.returned m.rest && finishes (handOver m.state 8)) (by decide +kernel)
  obtain ⟨entered, ran⟩ := Bool.and_eq_true_iff.mp checked
  obtain ⟨⟨later, u⟩, h, returned⟩ := (Option.any_eq_true _ _).mp ran
  have whole := trace_from_reset ⟨0, 0⟩ 8 ⟨rfl, rfl, rfl⟩ boot
    (Startup.rest_of_returned entered) h
  exact ⟨evs, m, later, u, boot, h, whole.2.2 (of_decide_eq_true returned)⟩

end TraceFS.FromReset
