import TraceFS.Lib.Preemption
import TraceFS.Firmware.ShutdownFinal

/-!
`main` of `fw.c` from the core's reset to the call of `scheduler_run`.

Nothing but the interrupt enable bits is reset with the core: the timer of an earlier
run may still be going, its last tick may be latched, and the scheduler's variables
hold anything. The trap handler preempts `main` as soon as that enables interrupts.
-/
namespace TraceFS.Startup
open Access Hal
open Scheduler (Slot)

/-- The registers that only the initialisation writes, and the CSR `mie`. -/
structure Board where
  mer : Word
  gier : Word
  ipier : Word
  gpioTri : Word
  mieCsr : Word
  deriving DecidableEq, Repr

structure World where
  device : Device
  frames : List Handler.Frame
  board : Board
  sched : Scheduler.State

inductive Op
  | hal (op : Hal.Op)
  | gpioData (v : Word)
  | mer (v : Word)
  | gier (v : Word)
  | ipier (v : Word)
  | gpioTri (v : Word)
  | setMieBits (mask : Word)
  | schedulerTicks (v : Word)
  | clearSlot (i : Slot)
  | schedulerEnabled (b : Bool)
  deriving DecidableEq, Repr

abbrev Op.Res : Op → Type
  | .hal op => op.Res
  | _ => Unit

abbrev Code := Prog Op Op.Res

/-- The four bytes of `gpio_data`, lowest first. -/
def bytes (v : Word) (i : Fin 4) : Byte := v.extractLsb' (8 * i.val) 8

def perform : (op : Op) → World → op.Res × World
  | .hal op, w => ((Hal.perform op w.device).1, { w with device := (Hal.perform op w.device).2 })
  | .gpioData v, w => ((), { w with device := { w.device with gpioData := bytes v } })
  | .mer v, w => ((), { w with board := { w.board with mer := v } })
  | .gier v, w => ((), { w with board := { w.board with gier := v } })
  | .ipier v, w => ((), { w with board := { w.board with ipier := v } })
  | .gpioTri v, w => ((), { w with board := { w.board with gpioTri := v } })
  | .setMieBits mask, w => ((), { w with board := { w.board with mieCsr := w.board.mieCsr ||| mask } })
  | .schedulerTicks v, w => ((), { w with sched := { w.sched with ticks := v } })
  | .clearSlot i, w =>
      ((), { w with sched := { w.sched with queue := Function.update w.sched.queue i none } })
  | .schedulerEnabled b, w => ((), { w with sched := { w.sched with enabled := b } })

/-- A function of the hardware layer called from here. -/
def hal {α : Type} : Hal.Code α → Code α
  | .ret a => .ret a
  | .access op k => .access (.hal op) fun r => hal (k r)

def store (op : Op) : Code op.Res := .perform op

/-! `heartbeat.c`, `core.c`, `irq.c`, `gpio.c`, `led.c`, `timer.c` -/

def heartbeatInit : Code Unit := hal (write .heartbeatCounter 0)

def coreEnableExternalInterrupt : Code Unit := store (.setMieBits 0x800)

def irqEnableAllInterrupts : Code Unit := hal (write .ier 0x0000000f)

def irqInit : Code Unit := do
  store (.mer 0x00000001)
  store (.mer 0x00000003)
  irqEnableAllInterrupts
  coreEnableExternalInterrupt

def gpioEnableInterrupt : Code Unit := do
  store (.gier 0x80000000)
  store (.ipier 0x00000001)

def gpioInit : Code Unit := do
  store (.gpioData 0x00000000)
  store (.gier 0x00000000)
  store (.ipier 0x00000000)
  hal gpioAcknowledgeInterrupt
  store (.gpioTri 0x0000f000)
  gpioEnableInterrupt

def ledInit : Code Unit := do
  hal (ledToggle .ledBlock0 ledOff)
  hal (ledToggle .ledBlock1 ledOff)

def timerInit : Code Unit := do
  hal (write .tcsr0 0x00000100)
  hal (write .tcsr1 0x00000100)

/-! `scheduler.c` and `fw.c` -/

def slowdown : Word := 25
def oneMillisecond : Word := 1000

def schedulerEnable : Code Unit := store (.schedulerEnabled true)

def schedulerInit : Code Unit := do
  store (.schedulerTicks 0)
  store (.clearSlot 0)
  store (.clearSlot 1)
  store (.clearSlot 2)
  store (.clearSlot 3)
  hal (timerConfigurePeriodicTimer .timer0 (slowdown * oneMillisecond))
  schedulerEnable

def hwInit : Code Unit := do
  irqInit
  gpioInit
  ledInit
  timerInit

/-- `main` up to `scheduler_run`. -/
def main : Code Unit := do
  heartbeatInit
  hal heartbeatBeat
  hwInit
  hal heartbeatBeat
  hal coreEnableInterrupts
  hal heartbeatBeat
  schedulerInit

/-! What preempts `main`. -/

/-- An external interrupt reaches the core through MER and `mie.MEIE`. -/
def meieBit : Nat := 11

def Board.delivers (b : Board) : Bool := b.mer == 3 && b.mieCsr.getLsbD meieBit

def World.system (w : World) : Handler.System :=
  { device := w.device, frames := w.frames, task := .ret () }

/-- The devices and the trap handler; its call of `scheduler_next` moves the queue. -/
def interfere (w : World) (a : Handler.Act) : Option World :=
  let proceed := (Handler.step w.system a).map fun r =>
    { w with
      device := r.2.device
      frames := r.2.frames
      sched := if Shutdown.callsNext w.system a then Scheduler.schedulerNext w.sched else w.sched }
  match a with
  | .callDisable | .taskAccess => none
  | .trap _ _ => if w.board.delivers then proceed else none
  | _ => proceed

def system : Preemption.System Op Op.Res World Handler.Act where
  perform := perform
  other := interfere
  calm w := w.frames.isEmpty

end TraceFS.Startup
