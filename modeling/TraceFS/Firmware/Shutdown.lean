import TraceFS.Firmware.TimerStopped
import TraceFS.Firmware.SchedulerRefinement

/-!
`scheduler_run` interrupted by the trap handler.

The scheduler is the interrupted task of the handler's machine: it moves only while
no activation of `trap_entry` is under way, and the handler's call of
`scheduler_next` moves its queue. `task_1000ms` starts with `scheduler_disable`, of
which the store to `scheduler_enabled` and the accesses of `timer_disable_timer`
are steps of their own. No other task calls it.

The code is that of the C functions: the `i` of `scheduler_run` survives the calls, also
that of `asm_test_main`, which overwrites the callee-saved registers.
-/
namespace TraceFS.Shutdown
open Access Hal
open Scheduler (Event Slot Pc tasks starts)

/-- How far the running task is with its call of `scheduler_disable`. -/
inductive Disable
  | notCalled | called | returned
  deriving DecidableEq, Repr

structure Machine where
  hw : Handler.System
  sched : Scheduler.State
  disable : Disable

inductive Act
  | hardware (a : Handler.Act)
  | scheduler (a : Scheduler.Act)
  | toggle (led : Led) (status : Byte)
  | disableReturns

namespace Machine

/-- The task is not interrupted and not inside a call. -/
def taskFree (m : Machine) : Bool :=
  match m.hw.frames, m.hw.task with
  | [], .ret _ => true
  | _, _ => false

def inTask1000ms (m : Machine) : Bool :=
  match m.sched.pc with
  | .body _ t _ => (tasks t).entry = .task1000ms
  | _ => false

/-- The task code that follows `scheduler_disable` in `task_1000ms`, and any code of
the other tasks. -/
def mayProceed (m : Machine) : Bool := !m.inTask1000ms || m.disable = .returned

/-- Task bodies toggle LEDs, and so does `blinkenlights` after `scheduler_run`. -/
def mayToggle (m : Machine) : Bool :=
  match m.sched.pc with
  | .body _ _ [] => m.mayProceed
  | .returned => true
  | _ => false

end Machine

/-- The innermost activation calls `scheduler_next`. -/
def callsNext (s : Handler.System) : Handler.Act → Bool
  | .access =>
      match s.frames with
      | .body (.access (.call .schedulerNext) _) :: _ => true
      | _ => false
  | _ => false

def hardwareStep (m : Machine) (a : Handler.Act) : Option (List Event × Machine) :=
  match a with
  | .callDisable => none
  | a =>
      (Handler.step m.hw a).map fun r =>
        if callsNext m.hw a then
          ([.tick (m.sched.ticks + 1)],
            { m with hw := r.2, sched := Scheduler.schedulerNext m.sched })
        else ([], { m with hw := r.2 })

/-- A call of an entry is the start of a new body. -/
def afterCpu (m : Machine) : Disable :=
  match m.sched.pc with
  | .call _ => .notCalled
  | _ => m.disable

def schedulerStep (m : Machine) (a : Scheduler.Act) : Option (List Event × Machine) :=
  match a with
  | .tick => none
  | .cpu =>
      (Scheduler.step m.sched .cpu).map fun r => (r.1, { m with sched := r.2, disable := afterCpu m })
  | .disable =>
      if m.inTask1000ms && m.disable = .notCalled then
        (Scheduler.step m.sched .disable).map fun r =>
          (r.1, { m with
            sched := r.2
            disable := .called
            hw := { m.hw with task := timerDisableTimer .timer0 } })
      else none
  | a =>
      if m.mayProceed then
        (Scheduler.step m.sched a).map fun r => (r.1, { m with sched := r.2 })
      else none

def step : Transition.Step Machine Act Event
  | m, .hardware a => hardwareStep m a
  | m, .scheduler a => if m.taskFree then schedulerStep m a else none
  | m, .toggle led status =>
      if m.taskFree && m.mayToggle then
        some ([], { m with hw := { m.hw with task := ledToggle led status } })
      else none
  | m, .disableReturns =>
      if m.taskFree && m.disable = .called then some ([], { m with disable := .returned }) else none

/-- `scheduler_run` is about to start. The devices may be in any state, and ticks may
have come since `scheduler_init` enabled the timer. -/
structure Ready (m : Machine) : Prop where
  noTrap : m.hw.frames = []
  noCall : m.hw.task = .ret ()
  atLoop : m.sched.pc = .loop
  queue : ∀ i t, m.sched.queue i = some t → t = i
  notCalled : m.disable = .notCalled

/-- `scheduler_init` without an interruption. -/
def schedulerInit (d : Device) : Machine where
  hw :=
    { device := ((timerConfigurePeriodicTimer .timer0 25000).exec perform d).2
      frames := []
      task := .ret () }
  sched := Scheduler.schedulerInit
  disable := .notCalled

theorem ready_schedulerInit (d : Device) : Ready (schedulerInit d) :=
  ⟨rfl, rfl, rfl, fun _ _ h => (nomatch h), rfl⟩

/-! What a step does. -/

theorem taskFree_iff {m : Machine} : m.taskFree = true ↔ m.hw.frames = [] ∧ m.hw.task = .ret () := by
  unfold Machine.taskFree
  split
  case h_1 hframes htask => simp [hframes, htask]
  case h_2 hno =>
    refine ⟨fun h => Bool.noConfusion h, fun ⟨hframes, htask⟩ => ?_⟩
    exact absurd htask (hno () hframes)

inductive Rule (m : Machine) : Act → List Event → Machine → Prop where
  | hardware (a : Handler.Act) (hw : Handler.System) : callsNext m.hw a = false →
      Handler.Rule m.hw a hw → Rule m (.hardware a) [] { m with hw := hw }
  | next (a : Handler.Act) (hw : Handler.System) : callsNext m.hw a = true →
      Handler.Rule m.hw a hw →
      Rule m (.hardware a) [.tick (m.sched.ticks + 1)]
        { m with hw := hw, sched := Scheduler.schedulerNext m.sched }
  | access (op : Op) (k : op.Res → Code Unit) : m.hw.frames = [] → m.hw.task = .access op k →
      Rule m (.hardware .taskAccess) []
        { m with hw :=
          { device := (perform op m.hw.device).2
            frames := []
            task := k (perform op m.hw.device).1 } }
  | cpu (evs : List Event) (s : Scheduler.State) : m.taskFree = true →
      Scheduler.Rule m.sched .cpu evs s →
      Rule m (.scheduler .cpu) evs { m with sched := s, disable := afterCpu m }
  | disable (evs : List Event) (s : Scheduler.State) : m.taskFree = true →
      m.inTask1000ms = true → m.disable = .notCalled → Scheduler.Rule m.sched .disable evs s →
      Rule m (.scheduler .disable) evs
        { m with
          sched := s
          disable := .called
          hw := { m.hw with task := timerDisableTimer .timer0 } }
  | emit (e : CTrace.Emission) (evs : List Event) (s : Scheduler.State) : m.taskFree = true →
      m.mayProceed = true → Scheduler.Rule m.sched (.emit e) evs s →
      Rule m (.scheduler (.emit e)) evs { m with sched := s }
  | ret (evs : List Event) (s : Scheduler.State) : m.taskFree = true →
      m.mayProceed = true → Scheduler.Rule m.sched .ret evs s →
      Rule m (.scheduler .ret) evs { m with sched := s }
  | toggle (led : Led) (status : Byte) : m.taskFree = true → m.mayToggle = true →
      Rule m (.toggle led status) [] { m with hw := { m.hw with task := ledToggle led status } }
  | disableReturns : m.taskFree = true → m.disable = .called →
      Rule m .disableReturns [] { m with disable := .returned }

theorem taskAccess_eq_some {s t : Handler.System} {evs : List Unit}
    (h : Handler.step s .taskAccess = some (evs, t)) :
    ∃ (op : Op) (k : op.Res → Code Unit), s.frames = [] ∧ s.task = .access op k ∧
      t = { device := (perform op s.device).2, frames := [], task := k (perform op s.device).1 } := by
  have ⟨d, fs, task⟩ := s
  simp only [Handler.step] at h
  split at h
  · cases task with
    | ret _ => cases h
    | access op k =>
        cases h
        exact ⟨op, k, rfl, rfl, rfl⟩
  · cases h

theorem hardwareStep_rule {m n : Machine} {a : Handler.Act} {evs : List Event}
    (h : hardwareStep m a = some (evs, n)) : Rule m (.hardware a) evs n := by
  unfold hardwareStep at h
  split at h
  case h_1 => cases h
  case h_2 hno =>
    have ⟨r, hr, h⟩ := Option.map_eq_some_iff.mp h
    cases hbyTask : a.byTask with
    | true =>
        cases a with
        | taskAccess =>
            have ⟨op, k, hframes, htask, hw⟩ := taskAccess_eq_some hr
            have hcalls : callsNext m.hw .taskAccess = false := rfl
            rw [hcalls, if_neg Bool.false_ne_true, hw] at h
            cases h
            exact .access op k hframes htask
        | callDisable => exact absurd rfl hno
        | _ => cases hbyTask
    | false =>
        cases hcalls : callsNext m.hw a with
        | true =>
            rw [hcalls, if_pos rfl] at h
            cases h
            exact .next a r.2 hcalls (Handler.step_rule hbyTask hr)
        | false =>
            rw [hcalls, if_neg Bool.false_ne_true] at h
            cases h
            exact .hardware a r.2 hcalls (Handler.step_rule hbyTask hr)

theorem schedulerStep_rule {m n : Machine} {a : Scheduler.Act} {evs : List Event}
    (hfree : m.taskFree = true) (h : schedulerStep m a = some (evs, n)) :
    Rule m (.scheduler a) evs n := by
  cases a with
  | tick => cases h
  | cpu =>
      have ⟨r, hr, h⟩ := Option.map_eq_some_iff.mp h
      cases h
      exact .cpu r.1 r.2 hfree (Scheduler.step_rule hr)
  | disable =>
      have ⟨hcond, h⟩ := Option.ite_none_right_eq_some.mp h
      have ⟨r, hr, h⟩ := Option.map_eq_some_iff.mp h
      have ⟨hin, hnot⟩ := Bool.and_eq_true_iff.mp hcond
      cases h
      exact .disable r.1 r.2 hfree hin (of_decide_eq_true hnot) (Scheduler.step_rule hr)
  | emit e =>
      have ⟨hmay, h⟩ := Option.ite_none_right_eq_some.mp h
      have ⟨r, hr, h⟩ := Option.map_eq_some_iff.mp h
      cases h
      exact .emit e r.1 r.2 hfree hmay (Scheduler.step_rule hr)
  | ret =>
      have ⟨hmay, h⟩ := Option.ite_none_right_eq_some.mp h
      have ⟨r, hr, h⟩ := Option.map_eq_some_iff.mp h
      cases h
      exact .ret r.1 r.2 hfree hmay (Scheduler.step_rule hr)

theorem step_rule {m n : Machine} {a : Act} {evs : List Event} (h : step m a = some (evs, n)) :
    Rule m a evs n := by
  cases a with
  | hardware a => exact hardwareStep_rule h
  | scheduler a =>
      have ⟨hfree, h⟩ := Option.ite_none_right_eq_some.mp h
      exact schedulerStep_rule hfree h
  | toggle led status =>
      have ⟨hcond, h⟩ := Option.ite_none_right_eq_some.mp h
      have ⟨hfree, hmay⟩ := Bool.and_eq_true_iff.mp hcond
      cases h
      exact .toggle led status hfree hmay
  | disableReturns =>
      have ⟨hcond, h⟩ := Option.ite_none_right_eq_some.mp h
      have ⟨hfree, hcalled⟩ := Bool.and_eq_true_iff.mp hcond
      cases h
      exact .disableReturns hfree (of_decide_eq_true hcalled)

/-- Seen by itself the scheduler makes its own steps. -/
theorem Rule.scheduler {m n : Machine} {a : Act} {evs : List Event} (h : Rule m a evs n) :
    (n.sched = m.sched ∧ evs = []) ∨ ∃ b, Scheduler.Rule m.sched b evs n.sched := by
  cases h with
  | hardware | access | toggle | disableReturns => exact .inl ⟨rfl, rfl⟩
  | next => exact .inr ⟨_, .tick⟩
  | cpu _ _ _ h | disable _ _ _ _ _ h | emit _ _ _ _ _ h | ret _ _ _ _ h => exact .inr ⟨_, h⟩

theorem Rule.consistent {m n : Machine} {a : Act} {evs : List Event} (h : Rule m a evs n)
    (hm : Scheduler.Consistent m.sched) : Scheduler.Consistent n.sched := by
  cases h.scheduler with
  | inl hsame =>
      rw [hsame.1]
      exact hm
  | inr hstep =>
      have ⟨_, hstep⟩ := hstep
      exact Scheduler.consistent_of_rule hm hstep

end TraceFS.Shutdown
