import TraceFS.Lib.ByteMemory

/-!
The RV32IM instructions, on a byte-addressed memory.

A program is a list of labelled blocks. Assembled and placed at an address, it takes
one instruction after the other from where the program counter points. Register `x0`
reads as zero. Outside the code, and between its words, there is no step.
-/
namespace Rv32im
open ByteMemory

abbrev Reg := BitVec 5

/-- The operations on two registers; those with an immediate are the same. -/
inductive AluOp
  | add | sub | sll | slt | sltu | xor | srl | sra | or | and
  | mul | mulh | mulhsu | mulhu | div | divu | rem | remu
  deriving DecidableEq, Repr

inductive Cond
  | eq | ne | lt | ge | ltu | geu
  deriving DecidableEq, Repr

inductive Width
  | byte | half | word
  deriving DecidableEq, Repr

def Width.bytes : Width → Nat
  | .byte => 1
  | .half => 2
  | .word => 4

/-- An instruction whose jump targets are labels. -/
inductive Instr (L : Type)
  | op (alu : AluOp) (rd rs1 rs2 : Reg)
  | opImm (alu : AluOp) (rd rs1 : Reg) (imm : Int)
  | lui (rd : Reg) (imm : BitVec 20)
  | auipc (rd : Reg) (imm : BitVec 20)
  | load (width : Width) (signed : Bool) (rd : Reg) (offset : Int) (rs1 : Reg)
  | store (width : Width) (rs2 : Reg) (offset : Int) (rs1 : Reg)
  | branch (cond : Cond) (rs1 rs2 : Reg) (target : L)
  | jal (rd : Reg) (target : L)
  | jalr (rd rs1 : Reg) (offset : Int)
  deriving DecidableEq, Repr

namespace Instr
variable {L L' : Type}

def map (f : L → L') : Instr L → Instr L'
  | .op alu rd rs1 rs2 => .op alu rd rs1 rs2
  | .opImm alu rd rs1 imm => .opImm alu rd rs1 imm
  | .lui rd imm => .lui rd imm
  | .auipc rd imm => .auipc rd imm
  | .load width signed rd offset rs1 => .load width signed rd offset rs1
  | .store width rs2 offset rs1 => .store width rs2 offset rs1
  | .branch cond rs1 rs2 target => .branch cond rs1 rs2 (f target)
  | .jal rd target => .jal rd (f target)
  | .jalr rd rs1 offset => .jalr rd rs1 offset

/-! The mnemonics, with the operands as an assembler takes them. -/

def add (rd rs1 rs2 : Reg) : Instr L := .op .add rd rs1 rs2
def sub (rd rs1 rs2 : Reg) : Instr L := .op .sub rd rs1 rs2
def sll (rd rs1 rs2 : Reg) : Instr L := .op .sll rd rs1 rs2
def slt (rd rs1 rs2 : Reg) : Instr L := .op .slt rd rs1 rs2
def sltu (rd rs1 rs2 : Reg) : Instr L := .op .sltu rd rs1 rs2
def xor (rd rs1 rs2 : Reg) : Instr L := .op .xor rd rs1 rs2
def srl (rd rs1 rs2 : Reg) : Instr L := .op .srl rd rs1 rs2
def sra (rd rs1 rs2 : Reg) : Instr L := .op .sra rd rs1 rs2
def or (rd rs1 rs2 : Reg) : Instr L := .op .or rd rs1 rs2
def and (rd rs1 rs2 : Reg) : Instr L := .op .and rd rs1 rs2
def mul (rd rs1 rs2 : Reg) : Instr L := .op .mul rd rs1 rs2
def mulh (rd rs1 rs2 : Reg) : Instr L := .op .mulh rd rs1 rs2
def mulhsu (rd rs1 rs2 : Reg) : Instr L := .op .mulhsu rd rs1 rs2
def mulhu (rd rs1 rs2 : Reg) : Instr L := .op .mulhu rd rs1 rs2
def div (rd rs1 rs2 : Reg) : Instr L := .op .div rd rs1 rs2
def divu (rd rs1 rs2 : Reg) : Instr L := .op .divu rd rs1 rs2
def rem (rd rs1 rs2 : Reg) : Instr L := .op .rem rd rs1 rs2
def remu (rd rs1 rs2 : Reg) : Instr L := .op .remu rd rs1 rs2

def addi (rd rs1 : Reg) (imm : Int) : Instr L := .opImm .add rd rs1 imm
def slti (rd rs1 : Reg) (imm : Int) : Instr L := .opImm .slt rd rs1 imm
def sltiu (rd rs1 : Reg) (imm : Int) : Instr L := .opImm .sltu rd rs1 imm
def xori (rd rs1 : Reg) (imm : Int) : Instr L := .opImm .xor rd rs1 imm
def ori (rd rs1 : Reg) (imm : Int) : Instr L := .opImm .or rd rs1 imm
def andi (rd rs1 : Reg) (imm : Int) : Instr L := .opImm .and rd rs1 imm
def slli (rd rs1 : Reg) (imm : Int) : Instr L := .opImm .sll rd rs1 imm
def srli (rd rs1 : Reg) (imm : Int) : Instr L := .opImm .srl rd rs1 imm
def srai (rd rs1 : Reg) (imm : Int) : Instr L := .opImm .sra rd rs1 imm

def lb (rd : Reg) (offset : Int) (rs1 : Reg) : Instr L := .load .byte true rd offset rs1
def lh (rd : Reg) (offset : Int) (rs1 : Reg) : Instr L := .load .half true rd offset rs1
def lw (rd : Reg) (offset : Int) (rs1 : Reg) : Instr L := .load .word true rd offset rs1
def lbu (rd : Reg) (offset : Int) (rs1 : Reg) : Instr L := .load .byte false rd offset rs1
def lhu (rd : Reg) (offset : Int) (rs1 : Reg) : Instr L := .load .half false rd offset rs1
def sb (rs2 : Reg) (offset : Int) (rs1 : Reg) : Instr L := .store .byte rs2 offset rs1
def sh (rs2 : Reg) (offset : Int) (rs1 : Reg) : Instr L := .store .half rs2 offset rs1
def sw (rs2 : Reg) (offset : Int) (rs1 : Reg) : Instr L := .store .word rs2 offset rs1

def beq (rs1 rs2 : Reg) (target : L) : Instr L := .branch .eq rs1 rs2 target
def bne (rs1 rs2 : Reg) (target : L) : Instr L := .branch .ne rs1 rs2 target
def blt (rs1 rs2 : Reg) (target : L) : Instr L := .branch .lt rs1 rs2 target
def bge (rs1 rs2 : Reg) (target : L) : Instr L := .branch .ge rs1 rs2 target
def bltu (rs1 rs2 : Reg) (target : L) : Instr L := .branch .ltu rs1 rs2 target
def bgeu (rs1 rs2 : Reg) (target : L) : Instr L := .branch .geu rs1 rs2 target

def mv (rd rs1 : Reg) : Instr L := addi rd rs1 0
def j (target : L) : Instr L := .jal 0 target
def jr (rs1 : Reg) : Instr L := .jalr 0 rs1 0
def ret : Instr L := .jalr 0 1 0

end Instr

/-- Instructions behind a label. -/
structure Block (L : Type) where
  label : L
  code : List (Instr L)

section Assemble
variable {L : Type} [DecidableEq L]

/-- The number of instructions in front of a label. -/
def labelIndex : List (Block L) → L → Nat
  | [], _ => 0
  | b :: bs, l => if b.label = l then 0 else b.code.length + labelIndex bs l

/-- The instructions in order, with the jump targets as their indices. -/
def assemble (program : List (Block L)) : List (Instr Nat) :=
  program.flatMap fun b => b.code.map (Instr.map (labelIndex program))

end Assemble

def ofBool (b : Bool) : Word := if b then 1 else 0

/-- The upper word of a product. -/
def high (p : Int) : Word := BitVec.ofInt 32 (p / 4294967296)

/-- Shifts look at the lower five bits of the amount. Division by zero and the
overflow of the signed division have results. -/
def AluOp.eval : AluOp → Word → Word → Word
  | .add, a, b => a + b
  | .sub, a, b => a - b
  | .sll, a, b => a <<< (b.toNat % 32)
  | .slt, a, b => ofBool (a.slt b)
  | .sltu, a, b => ofBool (a.ult b)
  | .xor, a, b => a ^^^ b
  | .srl, a, b => a >>> (b.toNat % 32)
  | .sra, a, b => a.sshiftRight (b.toNat % 32)
  | .or, a, b => a ||| b
  | .and, a, b => a &&& b
  | .mul, a, b => a * b
  | .mulh, a, b => high (a.toInt * b.toInt)
  | .mulhsu, a, b => high (a.toInt * b.toNat)
  | .mulhu, a, b => high (a.toNat * b.toNat)
  | .div, a, b => if b = 0 then -1 else a.sdiv b
  | .divu, a, b => if b = 0 then -1 else a / b
  | .rem, a, b => if b = 0 then a else a.srem b
  | .remu, a, b => if b = 0 then a else a % b

def Cond.holds : Cond → Word → Word → Bool
  | .eq, a, b => a == b
  | .ne, a, b => a != b
  | .lt, a, b => a.slt b
  | .ge, a, b => !a.slt b
  | .ltu, a, b => a.ult b
  | .geu, a, b => !a.ult b

/-- The word that a load puts into its register for the bytes read as a number. -/
def extend (width : Width) (signed : Bool) (n : Nat) : Word :=
  if signed then (BitVec.ofNat (8 * width.bytes) n).signExtend 32 else BitVec.ofNat 32 n

/-- The bytes that a store changes. -/
def cells (a : Addr) (v : Word) (n : Nat) : List (Addr × Byte) :=
  (List.range n).map fun i => (a + BitVec.ofNat 32 i, byteOf v i)

/-- The first of the changes at an address. -/
def lookup : List (Addr × Byte) → Addr → Option Byte
  | [], _ => none
  | (b, v) :: changes, a => bif b.toNat.beq a.toNat then some v else lookup changes a

/-- A memory after a list of changes. -/
def overlay (changes : List (Addr × Byte)) (mem : Memory) : Memory :=
  fun a => (lookup changes a).getD (mem a)

theorem lookup_append (new old : List (Addr × Byte)) (a : Addr) :
    lookup (new ++ old) a = (lookup new a).or (lookup old a) := by
  induction new with
  | nil => rfl
  | cons c new ih =>
      obtain ⟨b, v⟩ := c
      rw [List.cons_append, lookup, lookup, ih]
      cases b.toNat.beq a.toNat with
      | false => rfl
      | true => rfl

theorem lookup_eq_none {changes : List (Addr × Byte)} {a : Addr} (h : ∀ c ∈ changes, c.1 ≠ a) :
    lookup changes a = none := by
  induction changes with
  | nil => rfl
  | cons c changes ih =>
      obtain ⟨b, v⟩ := c
      have hb : b.toNat.beq a.toNat = false := by
        rw [Bool.eq_false_iff]
        intro hbeq
        exact h _ List.mem_cons_self (BitVec.eq_of_toNat_eq (Nat.eq_of_beq_eq_true hbeq))
      rw [lookup, hb, cond_false]
      exact ih fun c hc => h c (List.mem_cons_of_mem _ hc)

theorem overlay_append (new old : List (Addr × Byte)) (mem : Memory) :
    overlay (new ++ old) mem = overlay new (overlay old mem) := by
  funext a
  rw [overlay, lookup_append]
  cases h : lookup new a with
  | none => simp [overlay, h]
  | some b => simp [overlay, h]

/-- The little-endian number in the bytes from `a`. -/
def loadNat (mem : Memory) (a : Addr) : Nat → Nat
  | 0 => 0
  | n + 1 => (mem a).toNat + 256 * loadNat mem (a + 1) n

structure Machine where
  regs : Reg → Word
  mem : Memory
  pc : Addr

namespace Machine

def reg (m : Machine) (r : Reg) : Word := if r = 0 then 0 else m.regs r

def setReg (m : Machine) (rd : Reg) (v : Word) : Machine :=
  if rd = 0 then m else { m with regs := fun r => if r = rd then v else m.regs r }

theorem setReg_setReg (m : Machine) (rd : Reg) (v w : Word) :
    (m.setReg rd v).setReg rd w = m.setReg rd w := by
  by_cases hrd : rd = 0
  · simp [setReg, hrd]
  · simp only [setReg, if_neg hrd]
    congr 1
    funext r
    by_cases hr : r = rd <;> simp [hr]

end Machine

section Step
variable (code : List (Instr Nat)) (base : Addr)

def fetch (pc : Addr) : Option (Instr Nat) :=
  if (pc - base).toNat % 4 = 0 then code[(pc - base).toNat / 4]? else none

def addrOf (index : Nat) : Addr := base + BitVec.ofNat 32 (4 * index)

def exec (m : Machine) : Instr Nat → Machine
  | .op alu rd rs1 rs2 =>
      { m with pc := m.pc + 4 }.setReg rd (alu.eval (m.reg rs1) (m.reg rs2))
  | .opImm alu rd rs1 imm =>
      { m with pc := m.pc + 4 }.setReg rd (alu.eval (m.reg rs1) (BitVec.ofInt 32 imm))
  | .lui rd imm => { m with pc := m.pc + 4 }.setReg rd (imm.setWidth 32 <<< 12)
  | .auipc rd imm => { m with pc := m.pc + 4 }.setReg rd (m.pc + imm.setWidth 32 <<< 12)
  | .load width signed rd offset rs1 =>
      { m with pc := m.pc + 4 }.setReg rd
        (extend width signed (loadNat m.mem (m.reg rs1 + BitVec.ofInt 32 offset) width.bytes))
  | .store width rs2 offset rs1 =>
      { m with
        pc := m.pc + 4
        mem := overlay (cells (m.reg rs1 + BitVec.ofInt 32 offset) (m.reg rs2) width.bytes) m.mem }
  | .branch cond rs1 rs2 target =>
      { m with pc := if cond.holds (m.reg rs1) (m.reg rs2) then addrOf base target else m.pc + 4 }
  | .jal rd target => { m with pc := addrOf base target }.setReg rd (m.pc + 4)
  | .jalr rd rs1 offset =>
      { m with pc := (m.reg rs1 + BitVec.ofInt 32 offset) &&& ~~~1 }.setReg rd (m.pc + 4)

def step (m : Machine) : Option Machine := (fetch code base m.pc).map (exec base m)

/-- `n` steps. -/
def run : Nat → Machine → Option Machine
  | 0, m => some m
  | n + 1, m => (step code base m).bind (run n)

theorem run_add {k n : Nat} {m m' : Machine} (h : run code base k m = some m') :
    run code base (k + n) m = run code base n m' := by
  induction k generalizing m with
  | zero =>
      rw [Nat.zero_add, Option.some.inj h]
  | succ k ih =>
      obtain ⟨m₁, hstep, hrun⟩ := Option.bind_eq_some_iff.mp h
      rw [Nat.add_right_comm, run, hstep]
      exact ih hrun

theorem run_one (m : Machine) : run code base 1 m = step code base m := by
  rw [run]
  cases step code base m with
  | none => rfl
  | some m' => rfl

theorem run_of_loop {m : Machine} (h : step code base m = some m) (n : Nat) :
    run code base n m = some m := by
  induction n with
  | zero => rfl
  | succ n ih => rw [run, h, Option.bind_some, ih]

end Step

end Rv32im
