import Mathlib.Algebra.GroupWithZero.Nat
import Mathlib.Logic.Function.Basic
import Mathlib.Data.Fin.Basic
import TraceFS.Lib.ByteMemory

/-!
`trap_entry` of `trap.s` and what it does to registers and memory.

The instructions run one after the other on a byte-addressed memory; `handle_trap`
is any function on the processor state. What `call` puts into `ra` belongs to it.
-/
namespace TraceFS.TrapEntry

open ByteMemory

abbrev Reg := Fin 32

instance neZero_regs : NeZero 32 := ⟨by decide⟩

def sp : Reg := 2
def a0 : Reg := 10
def a1 : Reg := 11
def a4 : Reg := 14

inductive Csr
  | mcause | mepc
  deriving DecidableEq, Repr

inductive Instr
  | addi (rd rs : Reg) (imm : Int)
  | sw (rs2 : Reg) (offset : Nat) (base : Reg)
  | lw (rd : Reg) (offset : Nat) (base : Reg)
  | csrr (rd : Reg) (csr : Csr)
  | csrw (csr : Csr) (rs : Reg)
  | laExcReason (rd : Reg)
  | callHandleTrap
  | mret
  deriving DecidableEq, Repr

/-- `__exc_reason`, the start of the data section. -/
def excReason : Addr := 0xa1044000

def trapEntry : List Instr :=
  [ .addi sp sp (-16 * 4)
  , .sw 1 (1 * 4) sp
  , .sw 5 (2 * 4) sp
  , .sw 6 (3 * 4) sp
  , .sw 7 (4 * 4) sp
  , .sw 10 (5 * 4) sp
  , .sw 11 (6 * 4) sp
  , .sw 12 (7 * 4) sp
  , .sw 13 (8 * 4) sp
  , .sw 14 (9 * 4) sp
  , .sw 15 (10 * 4) sp
  , .sw 16 (11 * 4) sp
  , .sw 17 (12 * 4) sp
  , .sw 28 (13 * 4) sp
  , .sw 29 (14 * 4) sp
  , .sw 30 (15 * 4) sp
  , .sw 31 (16 * 4) sp
  , .csrr a0 .mcause
  , .csrr a1 .mepc
  , .laExcReason a4
  , .sw a0 0 a4
  , .sw a1 4 a4
  , .callHandleTrap
  , .csrw .mepc a0
  , .lw 1 (1 * 4) sp
  , .lw 5 (2 * 4) sp
  , .lw 6 (3 * 4) sp
  , .lw 7 (4 * 4) sp
  , .lw 10 (5 * 4) sp
  , .lw 11 (6 * 4) sp
  , .lw 12 (7 * 4) sp
  , .lw 13 (8 * 4) sp
  , .lw 14 (9 * 4) sp
  , .lw 15 (10 * 4) sp
  , .lw 16 (11 * 4) sp
  , .lw 17 (12 * 4) sp
  , .lw 28 (13 * 4) sp
  , .lw 29 (14 * 4) sp
  , .lw 30 (15 * 4) sp
  , .lw 31 (16 * 4) sp
  , .addi sp sp (16 * 4)
  , .mret ]

structure Cpu where
  regs : Reg → Word
  mem : Memory
  mcause : Word
  mepc : Word
  pc : Word

def setReg (regs : Reg → Word) (rd : Reg) (v : Word) : Reg → Word :=
  if rd = 0 then regs else Function.update regs rd v

def execInstr (handleTrap : Cpu → Cpu) (c : Cpu) : Instr → Cpu
  | .addi rd rs imm => { c with regs := setReg c.regs rd (c.regs rs + BitVec.ofInt 32 imm) }
  | .sw rs2 offset base =>
      { c with mem := storeWord c.mem (c.regs base + BitVec.ofNat 32 offset) (c.regs rs2) }
  | .lw rd offset base =>
      { c with
        regs := setReg c.regs rd (loadWord c.mem (c.regs base + BitVec.ofNat 32 offset)) }
  | .csrr rd .mcause => { c with regs := setReg c.regs rd c.mcause }
  | .csrr rd .mepc => { c with regs := setReg c.regs rd c.mepc }
  | .csrw .mcause rs => { c with mcause := c.regs rs }
  | .csrw .mepc rs => { c with mepc := c.regs rs }
  | .laExcReason rd => { c with regs := setReg c.regs rd excReason }
  | .callHandleTrap => handleTrap c
  | .mret => { c with pc := c.mepc }

def exec (handleTrap : Cpu → Cpu) (c : Cpu) (code : List Instr) : Cpu :=
  code.foldl (execInstr handleTrap) c

def runTrapEntry (handleTrap : Cpu → Cpu) (c : Cpu) : Cpu := exec handleTrap c trapEntry

/-- Registers a callee restores: `sp`, `gp`, `tp` and `s0` to `s11`. -/
def CalleeSaved (r : Reg) : Prop :=
  r = 2 ∨ r = 3 ∨ r = 4 ∨ r = 8 ∨ r = 9 ∨ (18 ≤ r ∧ r ≤ 27)

instance (r : Reg) : Decidable (CalleeSaved r) := inferInstanceAs (Decidable (_ ∨ _))

/-- The addresses `handle_trap` may write to when entered with `entrySp`: below
the stack pointer, and its own globals and the device registers. -/
def Writable (own : Addr → Prop) (entrySp b : Addr) : Prop := own b ∨ b < entrySp

/-- A `handle_trap` that returns its second argument and obeys the calling
convention. -/
structure Conforms (own : Addr → Prop) (handleTrap : Cpu → Cpu) : Prop where
  returns : ∀ c, (handleTrap c).regs a0 = c.regs a1
  calleeSaved : ∀ c r, CalleeSaved r → (handleTrap c).regs r = c.regs r
  writes : ∀ c b, ¬ Writable own (c.regs sp) b → (handleTrap c).mem b = c.mem b

/-! The save and the restore sequence are one table. -/

def trapFrame : List (Reg × Nat) :=
  [ (1, 1), (5, 2), (6, 3), (7, 4), (10, 5), (11, 6), (12, 7), (13, 8), (14, 9), (15, 10),
    (16, 11), (17, 12), (28, 13), (29, 14), (30, 15), (31, 16) ]

def save (p : Reg × Nat) : Instr := .sw p.1 (p.2 * 4) sp
def restore (p : Reg × Nat) : Instr := .lw p.1 (p.2 * 4) sp

def passReason : List Instr :=
  [.csrr a0 .mcause, .csrr a1 .mepc, .laExcReason a4, .sw a0 0 a4, .sw a1 4 a4]

theorem trapEntry_eq :
    trapEntry = .addi sp sp (-16 * 4) :: (trapFrame.map save ++ (passReason ++
      .callHandleTrap :: .csrw .mepc a0 :: (trapFrame.map restore ++
        [.addi sp sp (16 * 4), .mret]))) :=
  rfl

section Exec
variable (handleTrap : Cpu → Cpu)

theorem exec_cons (c : Cpu) (i : Instr) (code : List Instr) :
    exec handleTrap c (i :: code) = exec handleTrap (execInstr handleTrap c i) code := rfl

theorem exec_append (c : Cpu) (code code' : List Instr) :
    exec handleTrap c (code ++ code') = exec handleTrap (exec handleTrap c code) code' :=
  List.foldl_append

theorem exec_saves (c : Cpu) (frame : List (Reg × Nat)) :
    exec handleTrap c (frame.map save) =
      { c with mem := storeSlots c.mem (c.regs sp) (frame.map fun p => (p.2, c.regs p.1)) } := by
  induction frame generalizing c with
  | nil => rfl
  | cons p frame ih =>
      change exec handleTrap (execInstr handleTrap c (save p)) (frame.map save) = _
      rw [ih]
      rfl

theorem setReg_self {regs : Reg → Word} {rd : Reg} {v : Word} (h : rd ≠ 0) :
    setReg regs rd v rd = v := by
  simp [setReg, h]

theorem setReg_of_ne {regs : Reg → Word} {rd r : Reg} {v : Word} (h : r ≠ rd) :
    setReg regs rd v r = regs r := by
  rw [setReg]
  split
  · rfl
  · exact Function.update_of_ne h v regs

theorem exec_restores_of_not_mem {c : Cpu} {frame : List (Reg × Nat)} {r : Reg}
    (h : r ∉ frame.map Prod.fst) :
    (exec handleTrap c (frame.map restore)).regs r = c.regs r := by
  induction frame generalizing c with
  | nil => rfl
  | cons p frame ih =>
      have hp : r ≠ p.1 := fun hp => h (hp ▸ List.mem_cons_self)
      have hframe : r ∉ frame.map Prod.fst := fun hmem => h (List.mem_cons_of_mem _ hmem)
      change (exec handleTrap (execInstr handleTrap c (restore p)) (frame.map restore)).regs r = _
      rw [ih hframe]
      exact setReg_of_ne hp

theorem exec_restores {c : Cpu} {frame : List (Reg × Nat)} (hsp : sp ∉ frame.map Prod.fst)
    (hzero : 0 ∉ frame.map Prod.fst) (nodup : (frame.map Prod.fst).Nodup) {r : Reg} {k : Nat}
    (h : (r, k) ∈ frame) :
    (exec handleTrap c (frame.map restore)).regs r =
      loadWord c.mem (slotAddr (c.regs sp) k) := by
  induction frame generalizing c with
  | nil => cases h
  | cons p frame ih =>
      obtain ⟨hp, nodup⟩ := List.nodup_cons.mp nodup
      change (exec handleTrap (execInstr handleTrap c (restore p)) (frame.map restore)).regs r = _
      cases h with
      | head =>
          rw [exec_restores_of_not_mem handleTrap hp]
          exact setReg_self fun h0 => hzero (h0 ▸ List.mem_cons_self)
      | tail _ h =>
          rw [ih (fun hmem => hsp (List.mem_cons_of_mem _ hmem))
            (fun hmem => hzero (List.mem_cons_of_mem _ hmem)) nodup h]
          have hkept : (execInstr handleTrap c (restore p)).regs sp = c.regs sp :=
            setReg_of_ne fun h2 => hsp (h2 ▸ List.mem_cons_self)
          rw [hkept]
          rfl

theorem exec_restores_mem (c : Cpu) (frame : List (Reg × Nat)) :
    (exec handleTrap c (frame.map restore)).mem = c.mem := by
  induction frame generalizing c with
  | nil => rfl
  | cons p frame ih => exact ih (execInstr handleTrap c (restore p))

end Exec

end TraceFS.TrapEntry
