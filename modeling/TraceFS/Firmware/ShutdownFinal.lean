import TraceFS.Firmware.Shutdown

/-!
`scheduler_disable` is final.

The last access of `timer_disable_timer` stops the timer whatever was read before,
because no activation of the handler is under way. From there on nothing sets ENT0
or ENIT0, no tick is latched, and `scheduler_run` finds `scheduler_enabled` clear as
soon as `task_1000ms`, the last of its loop, has returned.
-/
namespace TraceFS.Shutdown
open Access Hal
open Scheduler (Event Slot Pc tasks starts)
open Handler (Quiet Nested Silent Stopped)

def isTick : Event → Bool
  | .tick _ => true
  | _ => false

def Act.isCpu : Act → Bool
  | .scheduler .cpu => true
  | _ => false

/-- Steps of `scheduler_run` from the return of `task_1000ms` on. -/
def stepsToReturn : Pc → Option Nat
  | .clear 3 => some 3
  | .next 3 => some 2
  | .loop => some 1
  | .returned => some 0
  | _ => none

/-- `task_1000ms` is running, or `scheduler_run` is on its way out. -/
def Leaving (m : Machine) : Prop :=
  (∃ ws, m.sched.pc = .body 3 3 ws) ∨
    ∃ k, stepsToReturn m.sched.pc = some k ∧ (0 < k → m.hw.task = .ret ())

/-- After `scheduler_disable`, with `n` ticks at most. -/
structure Off (n : Nat) (m : Machine) : Prop where
  disabled : m.sched.enabled = false
  returned : m.disable = .returned
  quiet : m.hw.task.Uses Quiet
  devices : Nested (Silent n) (Stopped 0 n) m.hw.device m.hw.frames
  leaving : Leaving m

/-! Ticks. -/

theorem perform_ticks (op : Op) (d : Device) :
    (perform op d).2.ticks = if op = .call .schedulerNext then d.ticks + 1 else d.ticks := by
  cases op with
  | write r v => cases r <;> rfl
  | call f => cases f <;> rfl
  | csrClearBits csr mask | csrSetBits csr mask =>
      rw [if_neg (by simp)]
      simp only [perform]
      split <;> rfl
  | _ => rfl

theorem ticks_of_hardware {s t : Handler.System} {a : Handler.Act} (h : Handler.Rule s a t) :
    t.device.ticks = s.device.ticks + if callsNext s a then 1 else 0 := by
  cases h with
  | access op k fs hframes =>
      simp only [perform_ticks, callsNext, hframes]
      cases op with
      | call f => cases f <;> rfl
      | _ => rfl
  | _ => rfl

theorem countP_isTick_of_rule {s t : Scheduler.State} {a : Scheduler.Act} {evs : List Event}
    (ha : a ≠ .tick) (h : Scheduler.Rule s a evs t) : evs.countP isTick = 0 := by
  cases h with
  | tick => exact absurd rfl ha
  | own i t _ _ => simp [isTick, List.countP_map, Function.comp_def]
  | _ => rfl

/-! The devices after `scheduler_disable`. -/

theorem Off.devices_step {n : Nat} {m m' : Machine} {a : Act} {evs : List Event} (h : Off n m)
    (hrule : Rule m a evs m') :
    m'.hw.task.Uses Quiet ∧ Nested (Silent n) (Stopped 0 n) m'.hw.device m'.hw.frames ∧
      m'.hw.device.ticks = m.hw.device.ticks + evs.countP isTick := by
  cases hrule with
  | hardware a hw hcalls hstep | next a hw hcalls hstep =>
      have hticks := ticks_of_hardware hstep
      rw [hcalls] at hticks
      exact ⟨hstep.task ▸ h.quiet, h.devices.step (Handler.kept_stopped n) hstep, hticks⟩
  | access op k hframes htask =>
      have huses := h.quiet
      have hdevices := h.devices
      rw [htask] at huses
      rw [hframes] at hdevices
      have hstopped : Stopped 0 n m.hw.device := hdevices
      have same := huses.1.sameTimer fun hline => Bool.noConfusion (hstopped.line.symm.trans hline)
      exact ⟨huses.2 _, hstopped.congr same, same.ticks⟩
  | cpu evs s _ hrule =>
      have hnone := countP_isTick_of_rule (a := .cpu) nofun hrule
      exact ⟨h.quiet, h.devices, by rw [hnone, Nat.add_zero]⟩
  | emit e evs s _ _ hrule =>
      have hnone := countP_isTick_of_rule (a := .emit e) nofun hrule
      exact ⟨h.quiet, h.devices, by rw [hnone, Nat.add_zero]⟩
  | ret evs s _ _ hrule =>
      have hnone := countP_isTick_of_rule (a := .ret) nofun hrule
      exact ⟨h.quiet, h.devices, by rw [hnone, Nat.add_zero]⟩
  | disable _ _ _ _ hnot => cases h.returned.symm.trans hnot
  | toggle led status => exact ⟨Handler.ledToggle_quiet led status, h.devices, rfl⟩
  | disableReturns _ hcalled => cases h.returned.symm.trans hcalled

/-! The way out of `scheduler_run`. -/

theorem stepsToReturn_clear : ∀ i, stepsToReturn (.clear i) = if i = 3 then some 3 else none := by
  decide

theorem stepsToReturn_next : ∀ i, stepsToReturn (.next i) = if i = 3 then some 2 else none := by
  decide

theorem stepsToReturn_eq_some {pc : Pc} {k : Nat} (h : stepsToReturn pc = some k) :
    pc = .clear 3 ∧ k = 3 ∨ pc = .next 3 ∧ k = 2 ∨ pc = .loop ∧ k = 1 ∨ pc = .returned ∧ k = 0 := by
  cases pc with
  | clear i =>
      rw [stepsToReturn_clear, Option.ite_none_right_eq_some] at h
      exact .inl ⟨by rw [h.1], (Option.some.inj h.2).symm⟩
  | next i =>
      rw [stepsToReturn_next, Option.ite_none_right_eq_some] at h
      exact .inr (.inl ⟨by rw [h.1], (Option.some.inj h.2).symm⟩)
  | loop => exact .inr (.inr (.inl ⟨rfl, (Option.some.inj h).symm⟩))
  | returned => exact .inr (.inr (.inr ⟨rfl, (Option.some.inj h).symm⟩))
  | _ => cases h

/-- On its way out `scheduler_run` makes its last steps and no other. -/
theorem cpu_leaves {s t : Scheduler.State} {evs : List Event} {k : Nat} (hoff : s.enabled = false)
    (hk : stepsToReturn s.pc = some k) (h : Scheduler.Rule s .cpu evs t) :
    ∃ j, stepsToReturn t.pc = some j ∧ j + 1 = k ∧ t.enabled = false ∧ starts evs = [] := by
  cases h with
  | clear i hi =>
      rw [hi, stepsToReturn_clear, Option.ite_none_right_eq_some] at hk
      cases hk.1
      exact ⟨2, rfl, Option.some.inj hk.2, hoff, rfl⟩
  | wrap i hi _ =>
      rw [hi, stepsToReturn_next, Option.ite_none_right_eq_some] at hk
      exact ⟨1, rfl, Option.some.inj hk.2, hoff, rfl⟩
  | again i hlt hi =>
      rw [hi, stepsToReturn_next, Option.ite_none_right_eq_some] at hk
      cases hk.1
      exact absurd hlt (by decide)
  | leave hi _ =>
      rw [hi] at hk
      exact ⟨0, rfl, Option.some.inj hk, hoff, rfl⟩
  | enter _ hon => exact Bool.noConfusion (hoff.symm.trans hon)
  | fault i hi _ =>
      cases hi with
      | inl hi => rw [hi] at hk; cases hk
      | inr hi => rw [hi] at hk; cases hk
  | found i t hi _ | empty i hi _ | own i t hi _ | call i t hi _ | write i t w ws hi =>
      rw [hi] at hk
      cases hk

theorem Off.leaves {n k : Nat} {m m' : Machine} {a : Act} {evs : List Event} (h : Off n m)
    (hk : stepsToReturn m.sched.pc = some k) (hrule : Rule m a evs m') :
    ∃ j, stepsToReturn m'.sched.pc = some j ∧ (j + if a.isCpu then 1 else 0) = k := by
  cases hrule with
  | hardware | next | access | toggle | disableReturns => exact ⟨k, hk, rfl⟩
  | cpu evs s _ hrule =>
      have ⟨j, hj, hsum, _⟩ := cpu_leaves h.disabled hk hrule
      exact ⟨j, hj, hsum⟩
  | disable _ _ _ _ hnot => cases h.returned.symm.trans hnot
  | emit _ _ _ _ _ hrule =>
      cases hrule with
      | emit e i t hpc _ => rw [hpc] at hk; cases hk
  | ret _ _ _ _ hrule =>
      cases hrule with
      | ret i t hpc => rw [hpc] at hk; cases hk

theorem Off.cpu {n : Nat} {m : Machine} {evs : List Event} {s : Scheduler.State} (h : Off n m)
    (hfree : m.taskFree = true) (hrule : Scheduler.Rule m.sched .cpu evs s) :
    s.enabled = false ∧ afterCpu m = .returned ∧
      Leaving { m with sched := s, disable := afterCpu m } ∧ starts evs = [] := by
  have htask := (taskFree_iff.mp hfree).2
  cases h.leaving with
  | inl hbody =>
      have ⟨ws, hpc⟩ := hbody
      have hafter : afterCpu m = .returned := by rw [afterCpu, hpc]; exact h.returned
      cases hrule with
      | write i t w ws' hi =>
          cases hpc.symm.trans hi
          exact ⟨h.disabled, hafter, .inl ⟨ws', rfl⟩, rfl⟩
      | fault i hi _ =>
          cases hi with
          | inl hi => cases hpc.symm.trans hi
          | inr hi => cases hpc.symm.trans hi
      | enter hi _ | leave hi _ | found _ _ hi _ | empty _ hi _ | own _ _ hi _ | call _ _ hi _
      | clear _ hi | again _ _ hi | wrap _ hi _ => cases hpc.symm.trans hi
  | inr hleaving =>
      have ⟨k, hk, _⟩ := hleaving
      have ⟨j, hj, _, hoff, hnone⟩ := cpu_leaves h.disabled hk hrule
      have hafter : afterCpu m = .returned := by
        unfold afterCpu
        split
        · rename_i hpc
          rw [hpc] at hk
          cases hk
        · exact h.returned
      exact ⟨hoff, hafter, .inr ⟨j, hj, fun _ => htask⟩, hnone⟩

theorem Off.emit {n : Nat} {m : Machine} {e : CTrace.Emission} {evs : List Event}
    {s : Scheduler.State} (h : Off n m) (hrule : Scheduler.Rule m.sched (.emit e) evs s) :
    s.enabled = false ∧ Leaving { m with sched := s } ∧ starts evs = [] := by
  cases hrule with
  | emit _ i t hpc _ =>
      refine ⟨h.disabled, .inl ⟨e.words, ?_⟩, rfl⟩
      cases h.leaving with
      | inl hbody =>
          have ⟨ws, hbody⟩ := hbody
          cases hbody.symm.trans hpc
          rfl
      | inr hleaving =>
          have ⟨k, hk, _⟩ := hleaving
          rw [hpc] at hk
          cases hk

theorem Off.ret {n : Nat} {m : Machine} {evs : List Event} {s : Scheduler.State} (h : Off n m)
    (hfree : m.taskFree = true) (hrule : Scheduler.Rule m.sched .ret evs s) :
    s.enabled = false ∧ stepsToReturn s.pc = some 3 ∧ Leaving { m with sched := s } ∧
      starts evs = [] := by
  cases hrule with
  | ret i t hpc =>
      have hthree : stepsToReturn (.clear i) = some 3 := by
        cases h.leaving with
        | inl hbody =>
            have ⟨ws, hbody⟩ := hbody
            cases hbody.symm.trans hpc
            rfl
        | inr hleaving =>
            have ⟨k, hk, _⟩ := hleaving
            rw [hpc] at hk
            cases hk
      exact ⟨h.disabled, hthree, .inr ⟨3, hthree, fun _ => (taskFree_iff.mp hfree).2⟩, rfl⟩

theorem mayToggle_of_leaving {m : Machine} {k : Nat} (hk : stepsToReturn m.sched.pc = some (k + 1)) :
    m.mayToggle = false := by
  rcases stepsToReturn_eq_some hk with ⟨hpc, _⟩ | ⟨hpc, _⟩ | ⟨hpc, _⟩ | ⟨_, hval⟩
  · rw [Machine.mayToggle, hpc]
  · rw [Machine.mayToggle, hpc]
  · rw [Machine.mayToggle, hpc]
  · cases hval

theorem Off.step {n : Nat} {m m' : Machine} {a : Act} {evs : List Event} (h : Off n m)
    (hrule : Rule m a evs m') : Off n m' ∧ starts evs = [] := by
  have ⟨hquiet, hdevices, _⟩ := h.devices_step hrule
  -- outside its own steps the scheduler stands still, and no call can start on the way out
  have hstill (hpc : m'.sched.pc = m.sched.pc)
      (htask : ∀ k, stepsToReturn m.sched.pc = some (k + 1) → m.hw.task = .ret () →
        m'.hw.task = .ret ()) : Leaving m' := by
    cases h.leaving with
    | inl hbody => exact .inl (hpc ▸ hbody)
    | inr hleaving =>
        have ⟨k, hk, hret⟩ := hleaving
        refine .inr ⟨k, hpc ▸ hk, fun hpos => ?_⟩
        cases k with
        | zero => cases hpos
        | succ k => exact htask k hk (hret hpos)
  cases hrule with
  | hardware a hw _ hstep | next a hw _ hstep =>
      have hleaving := hstill rfl fun _ _ hret => hstep.task.trans hret
      exact ⟨⟨h.disabled, h.returned, hquiet, hdevices, hleaving⟩, rfl⟩
  | access op k hframes htask =>
      refine ⟨⟨h.disabled, h.returned, hquiet, hdevices, hstill rfl fun _ _ hret => ?_⟩, rfl⟩
      cases htask.symm.trans hret
  | toggle led status _ hmay =>
      refine ⟨⟨h.disabled, h.returned, hquiet, hdevices, hstill rfl fun k hk _ => ?_⟩, rfl⟩
      exact absurd hmay (Bool.eq_false_iff.mp (mayToggle_of_leaving hk))
  | cpu evs s hfree hrule =>
      have ⟨hoff, hafter, hleaving, hnone⟩ := h.cpu hfree hrule
      exact ⟨⟨hoff, hafter, hquiet, hdevices, hleaving⟩, hnone⟩
  | emit e evs s hfree hmay hrule =>
      have ⟨hoff, hleaving, hnone⟩ := h.emit hrule
      exact ⟨⟨hoff, h.returned, hquiet, hdevices, hleaving⟩, hnone⟩
  | ret evs s hfree hmay hrule =>
      have ⟨hoff, _, hleaving, hnone⟩ := h.ret hfree hrule
      exact ⟨⟨hoff, h.returned, hquiet, hdevices, hleaving⟩, hnone⟩
  | disable _ _ _ _ hnot => cases h.returned.symm.trans hnot
  | disableReturns _ hcalled => cases h.returned.symm.trans hcalled

/-! Up to the return of `scheduler_disable`. -/

/-- `task_1000ms` has not called `scheduler_disable`, and has started at most once. -/
structure Before (past : List Event) (m : Machine) : Prop where
  notCalled : m.disable = .notCalled
  quiet : m.hw.task.Uses Quiet
  once : (starts past).count 3 = if m.inTask1000ms then 1 else 0

/-- What is left of `timer_disable_timer`. -/
inductive Disabling (hw : Handler.System) : Prop
  | read (h : hw.task = timerDisableTimer .timer0)
  | write (w : Word) (hent0 : w.getLsbD ent0 = false) (henit0 : w.getLsbD enit0 = false)
      (h : hw.task = Hal.write .tcsr0 w)
  | done (n : Nat) (h : hw.task = .ret ())
      (devices : Nested (Silent n) (Stopped 0 n) hw.device hw.frames)

structure During (past : List Event) (m : Machine) : Prop where
  called : m.disable = .called
  disabled : m.sched.enabled = false
  inBody : m.sched.pc = .body 3 3 []
  disabling : Disabling m.hw
  once : (starts past).count 3 = 1

def After (past : List Event) (m : Machine) : Prop :=
  (starts past).count 3 = 1 ∧ ∃ n, Off n m

def Inv (past : List Event) (m : Machine) : Prop :=
  Scheduler.Consistent m.sched ∧ (Before past m ∨ During past m ∨ After past m)

theorem inTask1000ms_of_body {m : Machine} {i t : Slot} {ws : List CTrace.Word}
    (hpc : m.sched.pc = .body i t ws) : m.inTask1000ms = decide (t = 3) := by
  have hentry : ∀ t : Slot, decide ((tasks t).entry = .task1000ms) = decide (t = 3) := by decide
  rw [Machine.inTask1000ms, hpc]
  exact hentry t

theorem Disabling.hardware {hw hw' : Handler.System} {a : Handler.Act} (h : Disabling hw)
    (hrule : Handler.Rule hw a hw') : Disabling hw' := by
  cases h with
  | read h => exact .read (hrule.task.trans h)
  | write w hent0 henit0 h => exact .write w hent0 henit0 (hrule.task.trans h)
  | done n h devices =>
      exact .done n (hrule.task.trans h) (devices.step (Handler.kept_stopped n) hrule)

/-- Whatever TCSR0 held when it was read, the write stops the timer. -/
theorem Disabling.access {hw : Handler.System} {op : Op} {k : op.Res → Code Unit}
    (h : Disabling hw) (htask : hw.task = .access op k) :
    Disabling
      { device := (perform op hw.device).2, frames := [], task := k (perform op hw.device).1 } := by
  cases h with
  | read h =>
      cases htask.symm.trans h
      refine .write (setField (setField hw.device.tcsr0 ent0 false) enit0 false) ?_ ?_ rfl
      · rw [Handler.getLsbD_setField_of_ne (by decide)]
        exact Handler.getLsbD_setField_self (by decide)
      · exact Handler.getLsbD_setField_self (by decide)
  | write w hent0 henit0 h =>
      cases htask.symm.trans h
      have ⟨hent0, henit0, hlatched, hticks⟩ :=
        Handler.writeReg_tcsr0_stops (d := hw.device) hent0 henit0
      have hcount : (writeReg hw.device w .tcsr0).ticks + 0 +
          (writeReg hw.device w .tcsr0).latched.toNat ≤
          hw.device.ticks + hw.device.latched.toNat := by
        rw [hlatched, hticks]
        exact Nat.le_refl _
      exact .done _ rfl ⟨hent0, henit0, hcount⟩
  | done n h _ => cases htask.symm.trans h

theorem starts_tick (past : List Event) (now : BitVec 32) :
    starts (past ++ [.tick now]) = starts past := by
  rw [Scheduler.starts_append]
  exact List.append_nil _

/-- The started bodies of `task_1000ms`: one more where `scheduler_run` enters it. -/
theorem cpu_count {m : Machine} {evs : List Event} {s : Scheduler.State} {disable : Disable}
    (h : Scheduler.Rule m.sched .cpu evs s) :
    (if m.inTask1000ms then 1 else 0) + (starts evs).count 3 =
      if { m with sched := s, disable := disable }.inTask1000ms then 1 else 0 := by
  cases h with
  | call i t hpc _ =>
      have hbefore : m.inTask1000ms = false := by rw [Machine.inTask1000ms, hpc]
      rw [hbefore, inTask1000ms_of_body rfl]
      by_cases ht : t = 3 <;> simp [starts, Scheduler.started?, ht]
  | write i t w ws hpc =>
      rw [inTask1000ms_of_body hpc, inTask1000ms_of_body rfl]
      rfl
  | own i t hpc _ =>
      have hbefore : m.inTask1000ms = false := by rw [Machine.inTask1000ms, hpc]
      rw [Scheduler.starts_own, hbefore]
      rfl
  | fault i hpc _ =>
      have hbefore : m.inTask1000ms = false := by
        cases hpc with
        | inl hpc => rw [Machine.inTask1000ms, hpc]
        | inr hpc => rw [Machine.inTask1000ms, hpc]
      rw [hbefore]
      rfl
  | enter hpc _ | leave hpc _ | found _ _ hpc _ | empty _ hpc _ | clear _ hpc | again _ _ hpc
  | wrap _ hpc _ =>
      have hbefore : m.inTask1000ms = false := by rw [Machine.inTask1000ms, hpc]
      rw [hbefore]
      rfl

/-- Before the call, `task_1000ms` can start, and it can do no more than call. -/
theorem Before.step {past : List Event} {m m' : Machine} {a : Act} {evs : List Event}
    (h : Before past m) (hm : Scheduler.Consistent m.sched) (hrule : Rule m a evs m') :
    Before (past ++ evs) m' ∨ During (past ++ evs) m' := by
  have hproceed : m.mayProceed = true → m.inTask1000ms = false := by
    intro hmay
    simpa [Machine.mayProceed, h.notCalled] using hmay
  cases hrule with
  | hardware a hw _ hstep =>
      rw [List.append_nil]
      exact .inl ⟨h.notCalled, hstep.task ▸ h.quiet, h.once⟩
  | next a hw _ hstep =>
      refine .inl ⟨h.notCalled, hstep.task ▸ h.quiet, ?_⟩
      rw [starts_tick]
      exact h.once
  | access op k _ htask =>
      have huses := h.quiet
      rw [htask] at huses
      rw [List.append_nil]
      exact .inl ⟨h.notCalled, huses.2 _, h.once⟩
  | toggle led status _ _ =>
      rw [List.append_nil]
      exact .inl ⟨h.notCalled, Handler.ledToggle_quiet led status, h.once⟩
  | disableReturns _ hcalled => cases h.notCalled.symm.trans hcalled
  | disable evs s hfree hin _ hrule =>
      cases hrule with
      | disable i t hpc =>
          rw [inTask1000ms_of_body hpc, decide_eq_true_eq] at hin
          have hcurrent := hm.current
          rw [hpc] at hcurrent
          have honce := h.once
          rw [inTask1000ms_of_body hpc, if_pos (decide_eq_true hin)] at honce
          refine .inr ⟨rfl, rfl, ?_, .read rfl, ?_⟩
          · rw [← hcurrent.1, hin] at hpc
            exact hpc
          · rw [Scheduler.starts_append, List.count_append, honce]
            rfl
  | cpu evs s _ hrule =>
      have hafter : afterCpu m = .notCalled := by
        unfold afterCpu
        split
        · rfl
        · exact h.notCalled
      refine .inl ⟨hafter, h.quiet, ?_⟩
      rw [Scheduler.starts_append, List.count_append, h.once]
      exact cpu_count hrule
  | emit e evs s _ hmay hrule =>
      cases hrule with
      | emit _ i t hpc _ =>
          have honce := h.once
          rw [List.append_nil]
          refine .inl ⟨h.notCalled, h.quiet, ?_⟩
          rw [inTask1000ms_of_body hpc] at honce
          rw [inTask1000ms_of_body (m := { m with sched := { m.sched with pc := .body i t e.words } }) rfl]
          exact honce
  | ret evs s _ hmay hrule =>
      cases hrule with
      | ret i t hpc =>
          refine .inl ⟨h.notCalled, h.quiet, ?_⟩
          rw [Scheduler.starts_append, List.count_append, h.once, hproceed hmay]
          rfl

theorem During.step {past : List Event} {m m' : Machine} {a : Act} {evs : List Event}
    (h : During past m) (hrule : Rule m a evs m') : During (past ++ evs) m' ∨ After (past ++ evs) m' := by
  have hin : m.inTask1000ms = true := inTask1000ms_of_body h.inBody
  have hstays : m.mayProceed = false := by
    rw [Machine.mayProceed, hin, h.called]
    rfl
  cases hrule with
  | hardware a hw _ hstep =>
      rw [List.append_nil]
      exact .inl ⟨h.called, h.disabled, h.inBody, h.disabling.hardware hstep, h.once⟩
  | next a hw _ hstep =>
      refine .inl ⟨h.called, h.disabled, h.inBody, h.disabling.hardware hstep, ?_⟩
      rw [starts_tick]
      exact h.once
  | access op k _ htask =>
      rw [List.append_nil]
      exact .inl ⟨h.called, h.disabled, h.inBody, h.disabling.access htask, h.once⟩
  | cpu evs s _ hrule =>
      cases hrule with
      | fault i hpc _ =>
          cases hpc with
          | inl hpc => cases h.inBody.symm.trans hpc
          | inr hpc => cases h.inBody.symm.trans hpc
      | enter hpc _ | leave hpc _ | found _ _ hpc _ | empty _ hpc _ | own _ _ hpc _ | call _ _ hpc _
      | write _ _ _ _ hpc | clear _ hpc | again _ _ hpc | wrap _ hpc _ => cases h.inBody.symm.trans hpc
  | disable _ _ _ _ hnot => cases h.called.symm.trans hnot
  | emit _ _ _ _ hmay | ret _ _ _ hmay => cases hstays.symm.trans hmay
  | toggle led status _ hmay =>
      rw [Machine.mayToggle, h.inBody] at hmay
      cases hstays.symm.trans hmay
  | disableReturns hfree _ =>
      rw [List.append_nil]
      cases h.disabling with
      | read htask => cases (taskFree_iff.mp hfree).2.symm.trans htask
      | write w _ _ htask => cases (taskFree_iff.mp hfree).2.symm.trans htask
      | done n htask devices =>
          refine .inr ⟨h.once, n, h.disabled, rfl, ?_, devices, .inl ⟨[], h.inBody⟩⟩
          change m.hw.task.Uses Quiet
          rw [htask]
          exact trivial

theorem Inv.step {past : List Event} {m m' : Machine} {a : Act} {evs : List Event} (h : Inv past m)
    (hrule : Rule m a evs m') : Inv (past ++ evs) m' := by
  have ⟨hm, hphase⟩ := h
  refine ⟨hrule.consistent hm, ?_⟩
  rcases hphase with hbefore | hduring | ⟨honce, n, hoff⟩
  · cases hbefore.step hm hrule with
    | inl hbefore => exact .inl hbefore
    | inr hduring => exact .inr (.inl hduring)
  · exact .inr (hduring.step hrule)
  · have ⟨hoff, hnone⟩ := hoff.step hrule
    refine .inr (.inr ⟨?_, n, hoff⟩)
    rw [Scheduler.starts_append, hnone, List.append_nil]
    exact honce

theorem Ready.inv {m : Machine} (h : Ready m) : Inv [] m := by
  have hconsistent : Scheduler.Consistent m.sched := by
    refine ⟨h.queue, ?_⟩
    rw [h.atLoop]
    exact trivial
  have hout : m.inTask1000ms = false := by rw [Machine.inTask1000ms, h.atLoop]
  refine ⟨hconsistent, .inl ⟨h.notCalled, ?_, ?_⟩⟩
  · rw [h.noCall]
    exact trivial
  · rw [hout]
    rfl

theorem Ready.run {s t : Machine} {acts : List Act} {evs : List Event} (start : Ready s)
    (h : Transition.run step s acts = some (evs, t)) : Inv evs t :=
  Transition.run_invariant Inv start.inv (fun _ _ _ _ _ hs hstep => hs.step (step_rule hstep)) h

theorem Inv.once {past : List Event} {m : Machine} (h : Inv past m) : (starts past).count 3 ≤ 1 := by
  rcases h.2 with hbefore | hduring | hafter
  · rw [hbefore.once]
    split <;> decide
  · rw [hduring.once]
  · rw [hafter.1]

/-! After the return of `scheduler_disable`. -/

theorem Off.sharp {n : Nat} {m : Machine} (h : Off n m) (hframes : m.hw.frames = []) :
    Off (m.hw.device.ticks + m.hw.device.latched.toNat) m := by
  have hdevices := h.devices
  rw [hframes] at hdevices
  have hstopped : Stopped 0 n m.hw.device := hdevices
  refine ⟨h.disabled, h.returned, h.quiet, ?_, h.leaving⟩
  rw [hframes]
  exact ⟨hstopped.ent0, hstopped.enit0, Nat.le_refl _⟩

theorem Off.run {n : Nat} {r u : Machine} {acts : List Act} {evs : List Event} (h : Off n r)
    (hrun : Transition.run Shutdown.step r acts = some (evs, u)) :
    Off n u ∧ starts evs = [] ∧ u.hw.device.ticks = r.hw.device.ticks + evs.countP isTick := by
  refine Transition.run_invariant
    (fun past m => Off n m ∧ starts past = [] ∧
      m.hw.device.ticks = r.hw.device.ticks + past.countP isTick)
    ⟨h, rfl, rfl⟩ ?_ hrun
  intro past m a new m' ⟨hoff, hnone, hticks⟩ hstep
  have hrule := step_rule hstep
  have ⟨hoff', hnew⟩ := hoff.step hrule
  have hticks' := (hoff.devices_step hrule).2.2
  refine ⟨hoff', ?_, ?_⟩
  · rw [Scheduler.starts_append, hnone, hnew]
    rfl
  · rw [hticks', hticks, List.countP_append, Nat.add_assoc]

theorem Off.leaves_run {n k : Nat} {v u : Machine} {acts : List Act} {evs : List Event} (h : Off n v)
    (hk : stepsToReturn v.sched.pc = some k) (hrun : Transition.run Shutdown.step v acts = some (evs, u)) :
    ∃ j, stepsToReturn u.sched.pc = some j ∧ j + acts.countP Act.isCpu = k := by
  induction acts generalizing v k evs with
  | nil =>
      cases hrun
      exact ⟨k, hk, rfl⟩
  | cons a acts ih =>
      have ⟨_, w, _, hstep, hrest, _⟩ := Transition.run_cons_iff.mp hrun
      have hrule := step_rule hstep
      have ⟨i, hi, hsum⟩ := h.leaves hk hrule
      have ⟨j, hj, hcount⟩ := ih (h.step hrule).1 hi hrest
      refine ⟨j, hj, ?_⟩
      rw [List.countP_cons, ← Nat.add_assoc, hcount]
      exact hsum

theorem Off.proceeds {n k : Nat} {u : Machine} (h : Off n u)
    (hk : stepsToReturn u.sched.pc = some (k + 1)) (hframes : u.hw.frames = []) :
    ∃ evs v, Shutdown.step u (.scheduler .cpu) = some (evs, v) ∧ stepsToReturn v.sched.pc = some k := by
  have htask : u.hw.task = .ret () := by
    cases h.leaving with
    | inl hbody =>
        have ⟨ws, hpc⟩ := hbody
        rw [hpc] at hk
        cases hk
    | inr hleaving =>
        have ⟨j, hj, hret⟩ := hleaving
        cases hk.symm.trans hj
        exact hret (Nat.succ_pos k)
  have hfree := taskFree_iff.mpr ⟨hframes, htask⟩
  have hstep : Shutdown.step u (.scheduler .cpu) = (Scheduler.cpu u.sched).map fun r =>
      (r.1, { u with sched := r.2, disable := afterCpu u }) := if_pos hfree
  rw [hstep]
  rcases stepsToReturn_eq_some hk with ⟨hpc, hval⟩ | ⟨hpc, hval⟩ | ⟨hpc, hval⟩ | ⟨_, hval⟩
  · cases hval
    simp only [Scheduler.cpu, hpc, Option.map_some]
    exact ⟨_, _, rfl, rfl⟩
  · cases hval
    simp only [Scheduler.cpu, hpc, Option.map_some]
    exact ⟨_, _, rfl, rfl⟩
  · cases hval
    simp only [Scheduler.cpu, hpc, h.disabled, Option.map_some]
    exact ⟨_, _, rfl, rfl⟩
  · cases hval

/-- What holds of every state `u` that is reached from the return `r` of
`scheduler_disable` by `acts`. -/
structure Final (r : Machine) (acts : List Act) (evs : List Event) (u : Machine) : Prop where
  ent0 : u.hw.device.ent0 = false
  enit0 : u.hw.device.enit0 = false
  disabled : u.sched.enabled = false
  lastTick : evs.countP isTick ≤ if r.hw.device.latched then 1 else 0
  noStart : starts evs = []
  returns : ∀ before after, acts = before ++ .scheduler .ret :: after →
    ∃ k, stepsToReturn u.sched.pc = some k ∧ k + after.countP Act.isCpu = 3
  proceeds : ∀ k, stepsToReturn u.sched.pc = some (k + 1) → u.hw.frames = [] →
    ∃ evs' v, step u (.scheduler .cpu) = some (evs', v) ∧ stepsToReturn v.sched.pc = some k

theorem Off.final {r u : Machine} {acts : List Act} {evs : List Event}
    (h : Off (r.hw.device.ticks + r.hw.device.latched.toNat) r)
    (hrun : Transition.run Shutdown.step r acts = some (evs, u)) : Final r acts evs u := by
  have ⟨hoff, hnone, hticks⟩ := h.run hrun
  have hsilent := Handler.Nested.silent hoff.devices
  refine ⟨hsilent.ent0, hsilent.enit0, hoff.disabled, ?_, hnone, ?_, fun k => hoff.proceeds⟩
  · have hcount := hsilent.count
    cases hl : r.hw.device.latched with
    | false =>
        rw [hl, Bool.toNat_false] at hcount
        rw [if_neg Bool.false_ne_true]
        omega
    | true =>
        rw [hl, Bool.toNat_true] at hcount
        rw [if_pos rfl]
        omega
  · intro before after hacts
    rw [hacts] at hrun
    have ⟨_, v, _, hv, hrest, _⟩ := Transition.run_append_iff.mp hrun
    have ⟨_, w, _, hw, hu, _⟩ := Transition.run_cons_iff.mp hrest
    have hoffv := (h.run hv).1
    have hrule := step_rule hw
    have hthree : stepsToReturn w.sched.pc = some 3 := by
      cases hrule with
      | ret _ s hfree _ hrule => exact (hoffv.ret hfree hrule).2.1
    exact (hoffv.step hrule).1.leaves_run hthree hu

/-- `task_1000ms` starts at most once; once its `scheduler_disable` has returned, the
timer stays off, at most the latched tick is handled, and `scheduler_run` starts no
task any more and returns three steps after `task_1000ms`. -/
theorem scheduler_disable_is_final {s : Machine} (start : Ready s) :
    (∀ acts evs t, Transition.run step s acts = some (evs, t) → (starts evs).count 3 ≤ 1) ∧
    ∀ before evs r after evs' u,
      Transition.run step s (before ++ [.disableReturns]) = some (evs, r) →
      Transition.run step r after = some (evs', u) →
      Final r after evs' u ∧ (starts (evs ++ evs')).count 3 = 1 := by
  refine ⟨fun _ _ _ hrun => (start.run hrun).once, ?_⟩
  intro before evs r after evs' u hrun hafter
  have ⟨past, t, new, ht, hr, hevs⟩ := Transition.run_append_iff.mp hrun
  have hrule := step_rule (Transition.run_single_iff.mp hr)
  have hinv := (start.run ht).step hrule
  cases hrule with
  | disableReturns hfree hcalled =>
      rcases hinv.2 with hbefore | hduring | ⟨honce, n, hoff⟩
      · cases hbefore.notCalled
      · cases hduring.called
      · have hframes := (taskFree_iff.mp hfree).1
        have hoff := hoff.sharp hframes
        refine ⟨hoff.final hafter, ?_⟩
        rw [hevs, Scheduler.starts_append, (hoff.run hafter).2.1, List.append_nil]
        exact honce

/-- `scheduler_init` has run, and `task_1000ms` is released. -/
def released : Machine :=
  { schedulerInit
      { tcsr0 := 0, tlr0 := 0, tcsr1 := 0, isr := 0, ier := 0xf, ipisr := 0
        gpioData := fun _ => 0, heartbeatCounter := 0, mie := true, mpie := true
        edges := 0, ticks := 0 } with
    sched := { Scheduler.schedulerInit with queue := fun i => if i = 3 then some 3 else none } }

/-- The timer expires between the read and the write of `timer_disable_timer`. -/
def expiryInDisable : List Act :=
  List.replicate 10 (.scheduler .cpu) ++ [.scheduler .disable, .hardware .taskAccess,
    .hardware .expire, .hardware .taskAccess]

/-- The latched tick is handled while `task_1000ms` goes on. -/
def lastTickHandled : List Act :=
  [.hardware (.trap 0x8000000b 0x100), .hardware .callHandler] ++
    List.replicate 22 (.hardware .access) ++ [.hardware .returnHandler, .hardware .mret,
      .scheduler .ret, .scheduler .cpu, .scheduler .cpu, .scheduler .cpu]

theorem ready_released : Ready released := by
  refine ⟨rfl, rfl, rfl, ?_, rfl⟩
  intro i t h
  have hslot := Option.ite_none_right_eq_some.mp h
  rw [hslot.1]
  exact (Option.some.inj hslot.2).symm

theorem scheduler_disable_is_final_with_tick :
    ∃ evs r evs' u, Transition.run step released (expiryInDisable ++ [.disableReturns]) = some (evs, r) ∧
      Transition.run step r lastTickHandled = some (evs', u) ∧
      (evs ++ evs').countP isTick = 1 ∧ u.sched.pc = .returned ∧
      Final r lastTickHandled evs' u ∧ (starts (evs ++ evs')).count 3 = 1 := by
  have ⟨past, u, hrun, hcheck⟩ := Transition.exists_run_of_check step released
    ((expiryInDisable ++ [.disableReturns]) ++ lastTickHandled)
    (fun evs t => evs.countP isTick == 1 && t.sched.pc == .returned) (by decide +kernel)
  have ⟨evs, r, evs', hr, hu, hpast⟩ := Transition.run_append_iff.mp hrun
  have ⟨hticks, hpc⟩ := Bool.and_eq_true_iff.mp hcheck
  exact ⟨evs, r, evs', u, hr, hu, hpast ▸ eq_of_beq hticks, eq_of_beq hpc,
    (scheduler_disable_is_final ready_released).2 _ _ _ _ _ _ hr hu⟩

end TraceFS.Shutdown
