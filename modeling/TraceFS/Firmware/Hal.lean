import Mathlib.Algebra.GroupWithZero.Nat
import Mathlib.Logic.Function.Basic
import TraceFS.Lib.Access

/-!
The hardware abstraction layer as programs over register accesses.

The interrupt controller and the timer are modelled with what the firmware relies
on: TCSR0.T0INT is cleared by writing 1 to it, the controller latches bit 0 while
the timer line is high, and writing IAR releases a latched bit.
-/
namespace TraceFS.Hal

open Access

abbrev Word := BitVec 32
abbrev Byte := BitVec 8

/-- The data registers of the GPIO module are addressed byte by byte. -/
instance neZero_gpioBytes : NeZero 4 := ⟨by decide⟩

/-- The memory-mapped registers and volatile words accessed as whole words. -/
inductive Reg
  | tcsr0 | tlr0 | tcsr1
  | ipr | ier | iar
  | ipisr
  | heartbeatCounter
  deriving DecidableEq, Repr

/-- The functions outside the hardware layer that the trap handler calls. -/
inductive Callee
  | schedulerNext
  | isr2Minmax
  deriving DecidableEq, Repr

inductive Op
  | read (r : Reg)
  | write (r : Reg) (v : Word)
  | readGpioByte (i : Fin 4)
  | writeGpioByte (i : Fin 4) (v : Byte)
  | csrClearBits (csr : BitVec 12) (mask : Word)
  | csrSetBits (csr : BitVec 12) (mask : Word)
  | call (f : Callee)
  deriving DecidableEq, Repr

abbrev Op.Res : Op → Type
  | .read _ => Word
  | .readGpioByte _ => Byte
  | _ => Unit

abbrev Code := Prog Op Op.Res

def read (r : Reg) : Code Word := .perform (Op.read r)
def write (r : Reg) (v : Word) : Code Unit := .perform (Op.write r v)
def readGpioByte (i : Fin 4) : Code Byte := .perform (Op.readGpioByte i)
def writeGpioByte (i : Fin 4) (v : Byte) : Code Unit := .perform (Op.writeGpioByte i v)

/-! `core.c` -/

def csrMstatus : BitVec 12 := 0x300

def coreDisableInterrupts : Code Unit := .perform (Op.csrClearBits csrMstatus 0x8)
def coreEnableInterrupts : Code Unit := .perform (Op.csrSetBits csrMstatus 0x8)

/-! `timer.c`. The fields of `axi_timer_tcsr0_t` are bit positions. -/

inductive Timer
  | timer0 | timer1
  deriving DecidableEq, Repr

def mdt0 : Nat := 0
def udt0 : Nat := 1
def gent0 : Nat := 2
def capt0 : Nat := 3
def arht0 : Nat := 4
def load0 : Nat := 5
def enit0 : Nat := 6
def ent0 : Nat := 7
def t0int : Nat := 8

def setField (w : Word) (i : Nat) (b : Bool) : Word :=
  if b then w ||| BitVec.twoPow 32 i else w &&& ~~~BitVec.twoPow 32 i

def timerAcknowledgeTimer : Timer → Code Unit
  | .timer0 => do
      let tcsr0 ← read .tcsr0
      write .tcsr0 (setField tcsr0 t0int true)
  | .timer1 => do
      let tcsr1 ← read .tcsr1
      write .tcsr1 (tcsr1 ||| 0x100)

def axiTimerClock : Word := 100000000

def periodicFields (tcsr0 : Word) : Word :=
  let tcsr0 := setField tcsr0 ent0 true
  let tcsr0 := setField tcsr0 enit0 true
  let tcsr0 := setField tcsr0 load0 false
  let tcsr0 := setField tcsr0 arht0 true
  let tcsr0 := setField tcsr0 capt0 false
  let tcsr0 := setField tcsr0 gent0 false
  let tcsr0 := setField tcsr0 udt0 false
  setField tcsr0 mdt0 false

def timerConfigurePeriodicTimer (timer : Timer) (periodInUs : Word) : Code Unit :=
  match timer with
  | .timer0 => do
      write .tcsr0 0x100
      write .tlr0 (0xffffffff - periodInUs * (axiTimerClock / 1000000))
      write .tcsr0 0x20
      let tcsr0 ← read .tcsr0
      write .tcsr0 (periodicFields tcsr0)
  | .timer1 => pure ()

def timerDisableTimer : Timer → Code Unit
  | .timer0 => do
      let tcsr0 ← read .tcsr0
      let tcsr0 := setField tcsr0 ent0 false
      write .tcsr0 (setField tcsr0 enit0 false)
  | .timer1 => pure ()

/-! `irq.c` -/

inductive Irq
  | irq0 | irq1 | irq2 | irq3
  deriving DecidableEq, Repr

def Irq.toNat : Irq → Nat
  | .irq0 => 0
  | .irq1 => 1
  | .irq2 => 2
  | .irq3 => 3

def Irq.mask (irq : Irq) : Word := 1 <<< irq.toNat

def irqAcknowledgeInterrupt (irq : Irq) : Code Unit := write .iar irq.mask

def irqIsPendingInterrupt (irq : Irq) : Code Bool := do
  let ipr ← read .ipr
  pure (ipr &&& irq.mask != 0)

/-! `gpio.c` and `led.c` -/

def gpioAcknowledgeInterrupt : Code Unit := do
  let ipisr ← read .ipisr
  if ipisr != 0 then write .ipisr 1

inductive Led
  | led0 | led1 | led2 | led3 | ledBlock0 | ledBlock1 | ledUf1 | ledUf2
  deriving DecidableEq, Repr

def ledOn : Byte := 0xff
def ledOff : Byte := 0x00

def Led.mask0 : Led → Byte
  | .ledBlock0 => 0xc0
  | .ledUf1 => 1 <<< 6
  | .ledUf2 => 1 <<< 7
  | _ => 0

def Led.mask1 : Led → Byte
  | .led0 => 1 <<< 0
  | .led1 => 1 <<< 1
  | .led2 => 1 <<< 2
  | .led3 => 1 <<< 3
  | .ledBlock1 => 0x0f
  | _ => 0

/-- `if (mask) *gpio_ptr = (*gpio_ptr & ~mask) | (status & mask)` -/
def updateGpioByte (i : Fin 4) (mask status : Byte) : Code Unit :=
  if mask = 0 then pure ()
  else do
    let old ← readGpioByte i
    writeGpioByte i (old &&& ~~~mask ||| status &&& mask)

def ledToggle (led : Led) (status : Byte) : Code Unit := do
  updateGpioByte 3 led.mask0 status
  updateGpioByte 0 led.mask1 status

/-! `heartbeat.c` -/

def heartbeatBeat : Code Unit := do
  let counter ← read .heartbeatCounter
  write .heartbeatCounter (counter + 1)

/-! The devices behind the registers. -/

/-- Register contents, the interrupt enable bits of `mstatus`, and two counts: the
rising edges of T0INT and the calls of `scheduler_next`. -/
structure Device where
  tcsr0 : Word
  tlr0 : Word
  tcsr1 : Word
  isr : Word
  ier : Word
  ipisr : Word
  gpioData : Fin 4 → Byte
  heartbeatCounter : Word
  mie : Bool
  mpie : Bool
  edges : Nat
  ticks : Nat

namespace Device

def t0int (d : Device) : Bool := d.tcsr0.getLsbD Hal.t0int
def enit0 (d : Device) : Bool := d.tcsr0.getLsbD Hal.enit0
def ent0 (d : Device) : Bool := d.tcsr0.getLsbD Hal.ent0

def latched (d : Device) : Bool := d.isr.getLsbD 0

def line (d : Device) : Bool := d.t0int && d.enit0

/-- The controller latches the line while it is high. -/
def latch (d : Device) : Device := { d with isr := if d.line then setField d.isr 0 true else d.isr }

end Device

/-- A control register whose interrupt bit is cleared by writing 1 to it; nothing
written sets it. -/
def writeTcsr (old v : Word) : Word := setField v t0int (old.getLsbD t0int && !v.getLsbD t0int)

def readReg (d : Device) : Reg → Word
  | .tcsr0 => d.tcsr0
  | .tlr0 => d.tlr0
  | .tcsr1 => d.tcsr1
  | .ipr => d.isr &&& d.ier
  | .ier => d.ier
  | .iar => 0
  | .ipisr => d.ipisr
  | .heartbeatCounter => d.heartbeatCounter

def writeReg (d : Device) (v : Word) : Reg → Device
  | .tcsr0 => { d with tcsr0 := writeTcsr d.tcsr0 v }.latch
  | .tlr0 => { d with tlr0 := v }
  | .tcsr1 => { d with tcsr1 := writeTcsr d.tcsr1 v }
  | .ipr => d
  | .ier => { d with ier := v }
  | .iar => { d with isr := d.isr &&& ~~~v }.latch
  | .ipisr => { d with ipisr := d.ipisr ^^^ v }
  | .heartbeatCounter => { d with heartbeatCounter := v }

def mieBit : Nat := 3
def mpieBit : Nat := 7

def perform : (op : Op) → Device → op.Res × Device
  | .read r, d => (readReg d r, d)
  | .write r v, d => ((), writeReg d v r)
  | .readGpioByte i, d => (d.gpioData i, d)
  | .writeGpioByte i v, d => ((), { d with gpioData := Function.update d.gpioData i v })
  | .csrClearBits csr mask, d =>
      ((), if csr = csrMstatus then
        { d with
          mie := d.mie && !mask.getLsbD mieBit
          mpie := d.mpie && !mask.getLsbD mpieBit }
      else d)
  | .csrSetBits csr mask, d =>
      ((), if csr = csrMstatus then
        { d with
          mie := d.mie || mask.getLsbD mieBit
          mpie := d.mpie || mask.getLsbD mpieBit }
      else d)
  | .call .schedulerNext, d => ((), { d with ticks := d.ticks + 1 })
  | .call .isr2Minmax, d => ((), d)

/-- The timer expires: T0INT rises unless it is still set. -/
def expire (d : Device) : Device :=
  { d with
    tcsr0 := setField d.tcsr0 t0int true
    edges := if d.t0int then d.edges else d.edges + 1 }.latch

/-- The other interrupt sources, the enable register and the GPIO change freely. -/
def otherDevices (d : Device) (isr ier ipisr : Word) : Device :=
  { d with isr := setField isr 0 d.latched, ier := ier, ipisr := ipisr }

end TraceFS.Hal
