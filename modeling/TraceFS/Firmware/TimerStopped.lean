import TraceFS.Firmware.HandlerNesting

/-!
The trap handler while the timer is stopped.

Nothing raises the timer line any more, so that `scheduler_next` can only be called
for a tick the controller has latched before. The handler reads TCSR0 and writes it
back with the timer still stopped.
-/
namespace TraceFS.Handler
open Access Hal

/-- The timer is stopped, and `n` bounds the calls of `scheduler_next` with the
`owed` ones of the current activation and the latched one. -/
structure Stopped (owed n : Nat) (d : Device) : Prop where
  ent0 : d.ent0 = false
  enit0 : d.enit0 = false
  count : d.ticks + owed + d.latched.toNat ≤ n

/-- What is known at every access. -/
structure Silent (n : Nat) (d : Device) : Prop where
  ent0 : d.ent0 = false
  enit0 : d.enit0 = false
  count : d.ticks ≤ n

theorem Stopped.silent {owed n : Nat} {d : Device} (h : Stopped owed n d) : Silent n d := by
  have hcount := h.count
  exact ⟨h.ent0, h.enit0, by omega⟩

theorem Stopped.line {owed n : Nat} {d : Device} (h : Stopped owed n d) : d.line = false := by
  rw [Device.line, h.enit0, Bool.and_false]

theorem Stopped.congr {owed n : Nat} {d e : Device} (h : Stopped owed n d) (same : SameTimer d e) :
    Stopped owed n e where
  ent0 := same.ent0.trans h.ent0
  enit0 := same.enit0.trans h.enit0
  count := by rw [same.ticks, same.latched]; exact h.count

theorem Stopped.quiet {owed n : Nat} {op : Op} {d : Device} (h : Stopped owed n d) (quiet : Quiet op) :
    Stopped owed n (perform op d).2 :=
  h.congr (quiet.sameTimer fun hline => Bool.noConfusion (h.line.symm.trans hline))

section Stable
variable (owed n : Nat)

theorem stable_stopped : Stable (maskedBy (Silent n)) (Stopped owed n) :=
  stable_of (fun _ h running => Bool.noConfusion (h.ent0.symm.trans running))
    (fun _ _ h same => h.congr same)

theorem stable_latched : Stable (maskedBy (Silent n)) fun d => d.latched = true :=
  stable_of (fun d h _ => by simp [h]) (fun _ _ h same => same.latched.trans h)

theorem quiet_stopped {α : Type} {p : Code α} (h : p.Uses Quiet) :
    Triple (maskedBy (Silent n)) (Masked (Stopped owed n)) p fun _ => Masked (Stopped owed n) :=
  quiet_triple (stable_stopped owed n) (fun _ h => h.silent) (fun _ _ quiet h => h.quiet quiet) h

end Stable

theorem Stopped.write {owed n : Nat} {d : Device} {w : Word} (h : Stopped owed n d)
    (hent0 : w.getLsbD Hal.ent0 = false) (henit0 : w.getLsbD Hal.enit0 = false) :
    Stopped owed n (writeReg d w .tcsr0) := by
  have ⟨hent0, henit0, hlatched, hticks⟩ := writeReg_tcsr0_stops (d := d) hent0 henit0
  exact ⟨hent0, henit0, by rw [hticks, hlatched]; exact h.count⟩

/-- A pending tick, before the controller is acknowledged. -/
def Due (n : Nat) (d : Device) : Prop := Stopped 0 n d ∧ d.latched = true

section Triples
variable (n : Nat)

theorem stable_due : Stable (maskedBy (Silent n)) (Due n) :=
  (stable_stopped 0 n).and (stable_latched n)

theorem due_quiet {α : Type} {p : Code α} (h : p.Uses Quiet) :
    Triple (maskedBy (Silent n)) (Masked (Due n)) p fun _ => Masked (Due n) := by
  apply quiet_triple (stable_due n) (fun _ hd => hd.1.silent) _ h
  intro op d quiet hd
  have same := quiet.sameTimer fun _ => hd.2
  exact ⟨hd.1.congr same, same.latched.trans hd.2⟩

theorem due_acknowledgeTimer0 :
    Triple (maskedBy (Silent n)) (Masked (Due n)) (timerAcknowledgeTimer .timer0) fun _ =>
      Masked (Due n) := by
  have hdue := Masked.stableBy (stable_due n)
  apply Triple.bind (R := fun (tcsr0 : Word) d => Masked (Due n) d ∧
    (tcsr0.getLsbD ent0 = false ∧ tcsr0.getLsbD enit0 = false))
  · exact Triple.perform hdue (fun _ hd => ⟨hd.1, hd.2.1.silent⟩)
      (fun w => hdue.and fun _ _ h _ => h) fun d hd => ⟨hd, hd.2.1.ent0, hd.2.1.enit0⟩
  · intro tcsr0
    apply Triple.perform (hdue.and fun _ _ h _ => h) (fun _ hd => ⟨hd.1.1, hd.1.2.1.silent⟩)
      (fun _ => hdue)
    intro d ⟨⟨hmie, hstopped, hlatched⟩, hent0, henit0⟩
    have hent0' : (setField tcsr0 t0int true).getLsbD ent0 = false :=
      (getLsbD_setField_of_ne (by decide)).trans hent0
    have henit0' : (setField tcsr0 t0int true).getLsbD enit0 = false :=
      (getLsbD_setField_of_ne (by decide)).trans henit0
    exact ⟨hmie, hstopped.write hent0' henit0',
      (writeReg_tcsr0_stops hent0' henit0').2.2.1.trans hlatched⟩

/-- The latch is released for good, the tick is now owed. -/
theorem Due.release {n : Nat} {d : Device} (h : Due n d) :
    Stopped 1 n (writeReg d (Irq.mask .irq0) .iar) := by
  have ⟨hstopped, hlatched⟩ := h
  have hcleared : (writeReg d (Irq.mask .irq0) .iar).latched = false :=
    (writeReg_iar_latched d).trans hstopped.line
  refine ⟨hstopped.ent0, hstopped.enit0, ?_⟩
  have hcount := hstopped.count
  rw [hlatched] at hcount
  rw [hcleared]
  exact hcount

theorem due_acknowledgeInterrupt :
    Triple (maskedBy (Silent n)) (Masked (Due n)) (irqAcknowledgeInterrupt .irq0) fun _ =>
      Masked (Stopped 1 n) :=
  Triple.perform (Masked.stableBy (stable_due n)) (fun _ hd => ⟨hd.1, hd.2.1.silent⟩)
    (fun _ => Masked.stableBy (stable_stopped 1 n)) fun _ hd => ⟨hd.1, hd.2.release⟩

theorem stopped_schedulerNext :
    Triple (maskedBy (Silent n)) (Masked (Stopped 1 n)) (.perform (Op.call .schedulerNext)) fun _ =>
      Masked (Stopped 0 n) :=
  Triple.perform (Masked.stableBy (stable_stopped 1 n)) (fun _ hd => ⟨hd.1, hd.2.silent⟩)
    (fun _ => Masked.stableBy (stable_stopped 0 n))
    fun _ hd => ⟨hd.1, hd.2.ent0, hd.2.enit0, hd.2.count⟩

theorem stopped_pollTimer :
    Triple (maskedBy (Silent n)) (Masked (Stopped 0 n))
      (pollInterrupt .irq0 .led0 acknowledgeTimers handleTimerInterrupt) fun _ =>
      Masked (Stopped 0 n) := by
  apply Triple.bind (pending_triple (stable_stopped 0 n) fun _ h => h.silent)
  intro pending
  cases pending with
  | false => exact quiet_stopped 0 n (ledToggle_quiet .led0 ledOff)
  | true =>
      have acknowledge : Triple (maskedBy (Silent n)) (Masked (Due n)) acknowledgeTimers fun _ =>
          Masked (Due n) :=
        (due_acknowledgeTimer0 n).bind fun _ => due_quiet n timerAcknowledgeTimer1_quiet
      have handle : Triple (maskedBy (Silent n)) (Masked (Stopped 1 n)) handleTimerInterrupt fun _ =>
          Masked (Stopped 0 n) :=
        (quiet_stopped 1 n heartbeatBeat_quiet).bind fun _ => stopped_schedulerNext n
      exact acknowledge.bind fun _ => (due_acknowledgeInterrupt n).bind fun _ =>
        (quiet_stopped 1 n (ledToggle_quiet .led0 ledOn)).bind fun _ => handle

theorem kept_stopped : Kept (Silent n) (Stopped 0 n) :=
  Kept.of_timer (stable_stopped 0 n) (fun _ h => h.silent) (fun _ _ quiet h => h.quiet quiet)
    (fun _ _ _ h => h.congr ⟨rfl, rfl, rfl, rfl, rfl, rfl⟩) (stopped_pollTimer n)

end Triples

theorem Nested.silent {n : Nat} {d : Device} {fs : List Frame}
    (h : Nested (Silent n) (Stopped 0 n) d fs) : Silent n d := by
  cases fs with
  | nil => exact Stopped.silent h
  | cons f fs =>
      cases f with
      | prologue mcause mepc => exact Stopped.silent h.1.2
      | epilogue mepc => exact Stopped.silent h.1
      | body p =>
          have hp : Safe (maskedBy (Silent n)) (fun _ => Stopped 0 n) p d := h.1
          cases p with
          | ret mepc => exact Stopped.silent hp.result
          | access op k => exact hp.atAccess.2

end TraceFS.Handler
