import TraceFS.Firmware.Handler
import TraceFS.Firmware.TrapEntry

/-!
Traps taken inside traps.

Control runs through the interrupted program, the instructions of `trap_entry`
and the accesses of `handle_trap`; a trap may be taken before any of them while
MIE is set. Each activation owns the frame it has allocated. The registers and
the place of the compiled code are free wherever C code runs.
-/
namespace TraceFS.TrapNesting

open Access TrapEntry
open Hal hiding Reg

/-- Where an activation is: before instruction `index` of `trap_entry`, or at some
address in the code of `handle_trap`. -/
inductive Stage
  | entry (index : Nat)
  | body (rest : Code Word) (pc : Word)

/-- `taken` and `savedA0` record the program counter and `a0` at the trap. The frame is
private: that nothing else reaches it is assumed, and the value of `sp` is never used, so
that what the saves do to the memory around `sp` is not part of this machine. -/
structure Activation where
  taken : Word
  savedA0 : Word
  frame : Nat → Word
  stage : Stage

/-- `taskPc` is the place the interrupted program has reached. -/
structure Machine where
  pc : Word
  regs : Reg → Word
  mcause : Word
  mepc : Word
  excReason : Nat → Word
  device : Device
  taskPc : Word
  activations : List Activation

inductive Act
  | expire
  | otherDevices (isr ier ipisr : Word)
  | trap (mcause : Word)
  | compute (pc : Word) (regs : Reg → Word)
  | instr
  | access
  | returnHandler (regs : Reg → Word)

inductive Event
  | resumed (taken pc : Word)
  deriving DecidableEq, Repr

/-- An instruction other than `call` and `mret`. Words addressed through `sp` lie in
the frame, the others in `__exc_reason`. -/
def execInstr (m : Machine) (frame : Nat → Word) : Instr → Machine × (Nat → Word)
  | .addi rd rs imm => ({ m with regs := setReg m.regs rd (m.regs rs + BitVec.ofInt 32 imm) }, frame)
  | .sw rs2 offset base =>
      if base = sp then (m, Function.update frame offset (m.regs rs2))
      else ({ m with excReason := Function.update m.excReason offset (m.regs rs2) }, frame)
  | .lw rd offset base =>
      ({ m with
        regs := setReg m.regs rd (if base = sp then frame offset else m.excReason offset) }, frame)
  | .csrr rd .mcause => ({ m with regs := setReg m.regs rd m.mcause }, frame)
  | .csrr rd .mepc => ({ m with regs := setReg m.regs rd m.mepc }, frame)
  | .csrw .mcause rs => ({ m with mcause := m.regs rs }, frame)
  | .csrw .mepc rs => ({ m with mepc := m.regs rs }, frame)
  | .laExcReason rd => ({ m with regs := setReg m.regs rd TrapEntry.excReason }, frame)
  | .callHandleTrap => (m, frame)
  | .mret => (m, frame)

section Step
variable (addr : Nat → Word)

/-- The place an activation has reached; `addr` locates `trap_entry`. -/
def Activation.location (a : Activation) : Word :=
  match a.stage with
  | .entry index => addr index
  | .body _ pc => pc

def Machine.location (m : Machine) : Word :=
  match m.activations with
  | [] => m.taskPc
  | a :: _ => a.location addr

def stepInstr (m : Machine) (a : Activation) (rest : List Activation) (index : Nat) :
    Option (List Event × Machine) :=
  match trapEntry[index]? with
  | none => none
  | some .callHandleTrap =>
      some ([], { m with
        activations := { a with
          stage := .body (Handler.handleTrap (m.regs a0) (m.regs a1)) m.pc } :: rest })
  | some .mret =>
      some ([.resumed a.taken m.mepc], { m with
        pc := m.mepc
        device := { m.device with mie := m.device.mpie, mpie := true }
        activations := rest })
  | some i =>
      let (m', frame) := execInstr m a.frame i
      some ([], { m' with
        pc := addr (index + 1)
        activations := { a with frame := frame, stage := .entry (index + 1) } :: rest })

def callIndex : Nat := 22

/-- The steps taken by the processor, control being where the stage says. -/
def stepHere (m : Machine) : Act → Option (List Event × Machine)
  | .trap mcause =>
      if m.device.mie ∧ m.device.isr &&& m.device.ier ≠ 0 then
        some ([], { m with
          pc := addr 0
          mcause := mcause
          mepc := m.pc
          device := { m.device with mpie := m.device.mie, mie := false }
          activations :=
            { taken := m.pc, savedA0 := m.regs a0, frame := fun _ => 0, stage := .entry 0 } ::
              m.activations })
      else none
  | .compute pc regs =>
      match m.activations with
      | [] => some ([], { m with pc := pc, regs := regs, taskPc := pc })
      | a :: rest =>
          match a.stage with
          | .entry _ => none
          | .body p _ =>
              some ([], { m with
                pc := pc, regs := regs, activations := { a with stage := .body p pc } :: rest })
  | .instr =>
      match m.activations with
      | [] => none
      | a :: rest =>
          match a.stage with
          | .entry index => stepInstr addr m a rest index
          | .body _ _ => none
  | .access =>
      match m.activations with
      | [] => none
      | a :: rest =>
          match a.stage with
          | .entry _ => none
          | .body p pc =>
              (Handler.advance p m.device).map fun r =>
                ([], { m with
                  device := r.2, activations := { a with stage := .body r.1 pc } :: rest })
  | .returnHandler regs =>
      match m.activations with
      | [] => none
      | a :: rest =>
          match a.stage with
          | .body (.ret v) _ =>
              some ([], { m with
                pc := addr (callIndex + 1)
                regs := setReg regs a0 v
                activations := { a with stage := .entry (callIndex + 1) } :: rest })
          | _ => none
  | _ => none

/-- The devices move at any time; the machine stops after a wrong `mret`. -/
def step : Transition.Step Machine Act Event := fun m act =>
  match act with
  | .expire => if m.device.ent0 then some ([], { m with device := expire m.device }) else none
  | .otherDevices isr ier ipisr =>
      some ([], { m with device := otherDevices m.device isr ier ipisr })
  | act => if m.pc = m.location addr then stepHere addr m act else none

/-- The innermost activation is after its `csrw` to `mepc` and before its `mret`. -/
def Machine.inWindow (m : Machine) : Bool :=
  match m.activations with
  | [] => false
  | a :: _ =>
      match a.stage with
      | .entry index => callIndex + 1 < index
      | .body _ _ => false

def OutsideWindow (m : Machine) : Act → Prop
  | .trap _ => m.inWindow = false
  | _ => True

instance (m : Machine) (act : Act) : Decidable (OutsideWindow m act) := by
  cases act <;> unfold OutsideWindow <;> infer_instance

/-- No trap is in progress; everything else is arbitrary. -/
structure Idle (m : Machine) : Prop where
  noTrap : m.activations = []
  here : m.pc = m.taskPc

end Step

end TraceFS.TrapNesting
