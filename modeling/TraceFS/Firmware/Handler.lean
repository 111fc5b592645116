import TraceFS.Firmware.Hal
import TraceFS.Lib.Run

/-!
`handler.c` and the machine it runs on.

The timer and the other devices move between any two register accesses. A trap
may be taken while MIE is set and an enabled bit is latched, also inside a
`handle_trap` that has passed `core_enable_interrupts()`; the interrupted task
may call `timer_disable_timer(TIMER_0)`.
-/
namespace TraceFS.Handler

open Access Hal

def handleTimerInterrupt : Code Unit := do
  heartbeatBeat
  .perform (Op.call .schedulerNext)

def handleGpioInterrupt : Code Unit := .perform (Op.call .isr2Minmax)

/-- The block of `handle_trap` for one interrupt: `acknowledge` the device, then
the controller, show it on the LED and `handle` it. -/
def pollInterrupt (irq : Irq) (led : Led) (acknowledge handle : Code Unit) : Code Unit := do
  let pending ← irqIsPendingInterrupt irq
  if pending then do
    acknowledge
    irqAcknowledgeInterrupt irq
    ledToggle led ledOn
    handle
  else ledToggle led ledOff

def acknowledgeTimers : Code Unit := do
  timerAcknowledgeTimer .timer0
  timerAcknowledgeTimer .timer1

/-- The part of `handle_trap` under `mcause & 0x80000000`. -/
def pollInterrupts (mcause : Word) : Code Unit :=
  if mcause &&& 0x80000000 = 0 then pure ()
  else do
    pollInterrupt .irq0 .led0 acknowledgeTimers handleTimerInterrupt
    pollInterrupt .irq1 .led1 (pure ()) (pure ())
    pollInterrupt .irq2 .led2 gpioAcknowledgeInterrupt handleGpioInterrupt
    pollInterrupt .irq3 .led3 (pure ()) (pure ())

def handleTrap (mcause mepc : Word) : Code Word := do
  coreDisableInterrupts
  pollInterrupts mcause
  coreEnableInterrupts
  pure mepc

theorem handleTrap_returns (mcause mepc : Word) :
    (handleTrap mcause mepc).Returns (· = mepc) :=
  Prog.returns_bind fun _ => Prog.returns_bind fun _ => Prog.returns_bind fun _ => rfl

/-- An activation of `trap_entry`: before, inside and after its `handle_trap`. -/
inductive Frame
  | prologue (mcause mepc : Word)
  | body (rest : Code Word)
  | epilogue (mepc : Word)

/-- The devices, the activations (innermost first) and what is left of the
interrupted task's call. -/
structure System where
  device : Device
  frames : List Frame
  task : Code Unit

inductive Act
  | expire
  | otherDevices (isr ier ipisr : Word)
  | trap (mcause mepc : Word)
  | callHandler
  | access
  | returnHandler
  | mret
  | callDisable
  | taskAccess

def advance {α : Type} (p : Code α) (d : Device) : Option (Code α × Device) :=
  match p with
  | .ret _ => none
  | .access op k => some (k (perform op d).1, (perform op d).2)

def step : Transition.Step System Act Unit := fun s a =>
  match a with
  | .expire => if s.device.ent0 then some ([], { s with device := expire s.device }) else none
  | .otherDevices isr ier ipisr =>
      some ([], { s with device := otherDevices s.device isr ier ipisr })
  | .trap mcause mepc =>
      if s.device.mie ∧ s.device.isr &&& s.device.ier ≠ 0 then
        some ([], { s with
          device := { s.device with mpie := s.device.mie, mie := false }
          frames := .prologue mcause mepc :: s.frames })
      else none
  | .callHandler =>
      match s.frames with
      | .prologue mcause mepc :: frames =>
          some ([], { s with frames := .body (handleTrap mcause mepc) :: frames })
      | _ => none
  | .access =>
      match s.frames with
      | .body p :: frames =>
          (advance p s.device).map fun r => ([], { s with device := r.2, frames := .body r.1 :: frames })
      | _ => none
  | .returnHandler =>
      match s.frames with
      | .body (.ret mepc) :: frames => some ([], { s with frames := .epilogue mepc :: frames })
      | _ => none
  | .mret =>
      match s.frames with
      | .epilogue _ :: frames =>
          some ([], { s with
            device := { s.device with mie := s.device.mpie, mpie := true }
            frames := frames })
      | _ => none
  | .callDisable =>
      match s.frames, s.task with
      | [], .ret _ => some ([], { s with task := timerDisableTimer .timer0 })
      | _, _ => none
  | .taskAccess =>
      match s.frames with
      | [] => (advance s.task s.device).map fun r => ([], { s with device := r.2, task := r.1 })
      | _ => none

/-- The timer runs with its interrupt enabled and has not expired yet; nothing
else is fixed. -/
structure Started (s : System) : Prop where
  running : s.device.ent0 = true
  enabled : s.device.enit0 = true
  notExpired : s.device.t0int = false
  notLatched : s.device.latched = false
  noEdge : s.device.edges = 0
  noTick : s.device.ticks = 0
  noTrap : s.frames = []
  noCall : s.task = .ret ()

end TraceFS.Handler
