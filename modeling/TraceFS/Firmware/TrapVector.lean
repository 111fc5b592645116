import TraceFS.Firmware.Start
import TraceFS.Lib.Rv32imSymbolic

/-!
From a trap to `trap_entry`: the vector table of `trap.s` and the address that `_start`
leaves in `mtvec`.

The linker aligns the table to 128 bytes. `trap_entry`, aligned to 128 bytes too, starts
with its own code; the gap in front of it is filled with `nop`.
-/
namespace TraceFS.TrapVector
open ByteMemory Rv32im

/-- `mtvec`: in vectored mode every interrupt has an entry of its own, exceptions have
the first. -/
def trapTarget (mtvec mcause : Word) : Addr :=
  let base := mtvec.extractLsb' 2 30 ++ 0#2
  if mtvec.extractLsb' 0 2 = 1 ∧ mcause.msb = true then addrOf base (mcause.extractLsb' 0 31).toNat
  else base

inductive Label
  | trapVectorTable | unhandledTrap
  | synchronousException | synchronousExceptionLoop
  | softwareInterrupt | softwareInterruptLoop
  | machineTimerInterrupt | machineTimerInterruptLoop
  | externalInterrupt | externalInterruptLoop
  | nonMaskableInterrupt | trapEntry
  deriving DecidableEq, Repr

def trapSection : List (Block Label) :=
  [ ⟨.trapVectorTable, [
      .j .synchronousException, .j .unhandledTrap, .j .unhandledTrap, .j .softwareInterrupt,
      .j .unhandledTrap, .j .unhandledTrap, .j .unhandledTrap, .j .machineTimerInterrupt,
      .j .unhandledTrap, .j .unhandledTrap, .j .unhandledTrap, .j .externalInterrupt,
      .j .unhandledTrap, .j .unhandledTrap, .j .unhandledTrap, .j .unhandledTrap,
      .j .unhandledTrap, .j .unhandledTrap, .j .unhandledTrap, .j .unhandledTrap,
      .j .unhandledTrap, .j .unhandledTrap, .j .unhandledTrap, .j .unhandledTrap,
      .j .unhandledTrap, .j .unhandledTrap, .j .unhandledTrap, .j .unhandledTrap,
      .j .unhandledTrap, .j .unhandledTrap, .j .unhandledTrap, .j .nonMaskableInterrupt]⟩,
    ⟨.unhandledTrap, [.j .unhandledTrap]⟩,
    ⟨.synchronousException, [.j .trapEntry]⟩,
    ⟨.synchronousExceptionLoop, [.j .synchronousExceptionLoop]⟩,
    ⟨.softwareInterrupt, [.j .trapEntry]⟩,
    ⟨.softwareInterruptLoop, [.j .softwareInterruptLoop]⟩,
    ⟨.machineTimerInterrupt, [.j .trapEntry]⟩,
    ⟨.machineTimerInterruptLoop, [.j .machineTimerInterruptLoop]⟩,
    ⟨.externalInterrupt, [.j .trapEntry]⟩,
    ⟨.externalInterruptLoop, [.j .externalInterruptLoop]⟩,
    ⟨.nonMaskableInterrupt, .j .nonMaskableInterrupt :: List.replicate 22 (.addi 0 0 0)⟩,
    ⟨.trapEntry, [.addi 2 2 (-16 * 4)]⟩ ]

/-- The entries of the table that lead to `trap_entry`. -/
def handledEntries : List Nat := [0, 3, 7, 11]

/-- The entry for a cause: exceptions share the first. -/
def entryOf (mcause : Word) : Nat := if mcause.msb then (mcause.extractLsb' 0 31).toNat else 0

theorem length_trapSection : (assemble trapSection).length = 65 := by decide

theorem trapEntry_index : labelIndex trapSection .trapEntry = 64 := by decide

theorem handled_run : ∀ k ∈ handledEntries,
    Symbolic.run (assemble trapSection) 2 (.entry k) = some (.entry 64) := by
  decide

theorem unhandled_step : ∀ k < 32, k ∉ handledEntries → ∃ loop < 64,
    Symbolic.run (assemble trapSection) 1 (.entry k) = some (.entry loop) ∧
      Symbolic.run (assemble trapSection) 1 (.entry loop) = some (.entry loop) := by
  decide +kernel

theorem mtvec_atMain (stackTop table : Addr) (c : Start.Cpu) (map : MemLoader.Window) :
    (Start.atMain stackTop table c map).mtvec = table + 1 := rfl

theorem toNat_align (w : Word) : (w.extractLsb' 2 30 ++ 0#2).toNat = w.toNat / 4 * 4 := by
  have := w.isLt
  rw [BitVec.toNat_append, BitVec.extractLsb'_toNat, Nat.shiftRight_eq_div_pow]
  simp only [BitVec.toNat_ofNat, Nat.zero_mod, Nat.or_zero, Nat.shiftLeft_eq]
  omega

theorem trapTarget_start {table : Addr} (aligned : table.toNat % 128 = 0) (mcause : Word) :
    trapTarget (table + 1) mcause = addrOf table (entryOf mcause) := by
  have hlt := table.isLt
  have hone : (table + 1).toNat = table.toNat + 1 := by
    rw [BitVec.toNat_add]
    exact Nat.mod_eq_of_lt (show table.toNat + 1 < 4294967296 by omega)
  have hbase : (table + 1).extractLsb' 2 30 ++ 0#2 = table := by
    apply BitVec.eq_of_toNat_eq
    rw [toNat_align, hone]
    omega
  have hmode : (table + 1).extractLsb' 0 2 = 1 := by
    apply BitVec.eq_of_toNat_eq
    rw [BitVec.extractLsb'_toNat, hone, Nat.shiftRight_zero]
    change (table.toNat + 1) % 4 = 1
    omega
  have hfirst : addrOf table 0 = table := BitVec.add_zero table
  simp only [trapTarget, hbase, hmode, true_and, entryOf]
  split
  · rfl
  · exact hfirst.symm

/-- The four handled causes reach `trap_entry` with registers and memory untouched, every
other cause ends in a loop that leaves them alone. -/
theorem traps_dispatched (stackTop : Addr) {table : Addr} (aligned : table.toNat % 128 = 0)
    (c : Start.Cpu) (map : MemLoader.Window) (m : Machine) {mcause : Word}
    (known : entryOf mcause < 32) :
    let taken := { m with pc := trapTarget (Start.atMain stackTop table c map).mtvec mcause }
    (entryOf mcause ∈ handledEntries →
      run (assemble trapSection) table 2 taken =
        some { m with pc := addrOf table (labelIndex trapSection .trapEntry) }) ∧
    (entryOf mcause ∉ handledEntries → ∃ loop < labelIndex trapSection .trapEntry, ∀ n,
      run (assemble trapSection) table (n + 1) taken = some { m with pc := addrOf table loop }) := by
  have even : table.toNat % 2 = 0 := by omega
  have fit : 4 * (assemble trapSection).length ≤ 4294967296 := by
    rw [length_trapSection]
    decide
  rw [mtvec_atMain, trapTarget_start aligned, trapEntry_index]
  refine ⟨fun h => Symbolic.run_sound (m := m) fit even (handled_run _ h), ?_⟩
  intro h
  obtain ⟨loop, hloop, enter, stay⟩ := unhandled_step _ known h
  exact ⟨loop, hloop, Symbolic.run_loop fit even enter stay⟩

theorem timer_trap_dispatched :
    run (assemble trapSection) 0xa1040080 2
        { regs := fun _ => 0, mem := fun _ => 0
          pc := trapTarget (Start.atMain 0x4ff0 0xa1040080 Start.resetCpu
            (Start.filled 0)).mtvec 0x80000007 } =
      some { regs := fun _ => 0, mem := fun _ => 0
             pc := addrOf 0xa1040080 (labelIndex trapSection .trapEntry) } :=
  (traps_dispatched 0x4ff0 (by decide) Start.resetCpu (Start.filled 0)
    { regs := fun _ => 0, mem := fun _ => 0, pc := 0 } (by decide)).1 (by decide)

/-! `boot.s`, linked at the start of the ITCM: no entry of its table leads anywhere, and
`_boot` hands over to the firmware. -/

inductive BootLabel
  | trapVectorTable | boot | unhandledTrap | synchronousException | softwareInterrupt
  | machineTimerInterrupt | externalInterrupt | nonMaskableInterrupt
  deriving DecidableEq, Repr

/-- `la t1, __code_start` takes the distance to the code, which is linked at `Start.bram`. -/
def bootSection : List (Block BootLabel) :=
  [ ⟨.trapVectorTable, [
      .j .synchronousException, .j .unhandledTrap, .j .unhandledTrap, .j .softwareInterrupt,
      .j .unhandledTrap, .j .unhandledTrap, .j .unhandledTrap, .j .machineTimerInterrupt,
      .j .unhandledTrap, .j .unhandledTrap, .j .unhandledTrap, .j .externalInterrupt,
      .j .unhandledTrap, .j .unhandledTrap, .j .unhandledTrap, .j .unhandledTrap,
      .j .unhandledTrap, .j .unhandledTrap, .j .unhandledTrap, .j .unhandledTrap,
      .j .unhandledTrap, .j .unhandledTrap, .j .unhandledTrap, .j .unhandledTrap,
      .j .unhandledTrap, .j .unhandledTrap, .j .unhandledTrap, .j .unhandledTrap,
      .j .unhandledTrap, .j .unhandledTrap, .j .unhandledTrap, .j .nonMaskableInterrupt]⟩,
    ⟨.boot, [.auipc 6 0xa1040, .addi 6 6 (-128), .jr 6]⟩,
    ⟨.unhandledTrap, [.j .unhandledTrap]⟩,
    ⟨.synchronousException, [.j .synchronousException]⟩,
    ⟨.softwareInterrupt, [.j .softwareInterrupt]⟩,
    ⟨.machineTimerInterrupt, [.j .machineTimerInterrupt]⟩,
    ⟨.externalInterrupt, [.j .externalInterrupt]⟩,
    ⟨.nonMaskableInterrupt, [.j .nonMaskableInterrupt]⟩ ]

theorem boot_run :
    Symbolic.run (assemble bootSection) 3 (.entry (labelIndex bootSection .boot)) =
      some (((Symbolic.entry 0x28410000).setReg 6 (.code 0xa1040080)).setReg 6
        (.code 0xa1040000)) := by
  decide

theorem boot_trap_step : ∀ k < 32, ∃ loop < 41,
    Symbolic.run (assemble bootSection) 1 (.entry k) = some (.entry loop) ∧
      Symbolic.run (assemble bootSection) 1 (.entry loop) = some (.entry loop) := by
  decide +kernel

/-- `_boot` reaches the firmware and spoils nothing but `t1`; the other entries of the boot
code are loops that spoil nothing. -/
theorem boot_enters_firmware (m : Machine) :
    run (assemble bootSection) 0 3 { m with pc := addrOf 0 (labelIndex bootSection .boot) } =
        some { m.setReg 6 Start.bram with pc := Start.bram } ∧
      ∀ k < 32, ∃ loop, ∀ n,
        run (assemble bootSection) 0 (n + 1) { m with pc := addrOf 0 k } =
          some { m with pc := addrOf 0 loop } := by
  have fit : 4 * (assemble bootSection).length ≤ 4294967296 := by decide
  have even : (0 : BitVec 32).toNat % 2 = 0 := rfl
  refine ⟨?_, ?_⟩
  · have hrun := Symbolic.run_sound (m := m) fit even boot_run
    rw [Symbolic.machine_setReg, Symbolic.machine_setReg, Machine.setReg_setReg] at hrun
    exact hrun
  · intro k hk
    obtain ⟨loop, _, enter, stay⟩ := boot_trap_step k hk
    exact ⟨loop, Symbolic.run_loop fit rfl enter stay⟩

end TraceFS.TrapVector
