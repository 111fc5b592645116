import TraceFS.Lib.Rv32im

/-!
Symbolic runs of RV32IM code, placed anywhere and entered with any registers and
memory.

A register holds a constant, an address in the code or what it held on entry; of the
memory, the bytes stored so far are known. A symbolic step is refused where the value
of an operand would matter and is not known. What a symbolic run ends with is what
every run from a machine of its kind ends with.
-/
namespace Rv32im
open ByteMemory

inductive Value
  | word (w : Word)
  | code (offset : Word)
  | entry (r : Reg)
  deriving DecidableEq, Repr

/-- A value in a run from `m` of the code at `base`. -/
def Value.eval (base : Addr) (m : Machine) : Value → Word
  | .word w => w
  | .code offset => base + offset
  | .entry r => m.regs r

/-- The registers written and the bytes stored, latest first, and the next instruction. -/
structure Symbolic where
  regs : List (Reg × Value)
  mem : List (Addr × Byte)
  index : Nat
  deriving DecidableEq, Repr

namespace Symbolic

/-- Everything is as it was on entry. -/
def entry (index : Nat) : Symbolic := { regs := [], mem := [], index := index }

def reg (s : Symbolic) (r : Reg) : Value :=
  if r = 0 then .word 0 else (s.regs.lookup r).getD (.entry r)

def setReg (s : Symbolic) (rd : Reg) (v : Value) : Symbolic :=
  if rd = 0 then s else { s with regs := (rd, v) :: s.regs }

def goto (s : Symbolic) (index : Nat) : Symbolic := { s with index := index }

/-- Code addresses can be compared and moved by constants; a move keeps any value. -/
def alu : AluOp → Value → Value → Option Value
  | op, .word a, .word b => some (.word (op.eval a b))
  | .sub, .code a, .code b => some (.word (a - b))
  | .add, .code a, .word b => some (.code (a + b))
  | .add, v, .word b => if b = 0 then some v else none
  | _, _, _ => none

def loadNat (mem : List (Addr × Byte)) (a : Addr) : Nat → Option Nat
  | 0 => some 0
  | n + 1 => do
      let b ← lookup mem a
      let rest ← loadNat mem (a + 1) n
      some (b.toNat + 256 * rest)

/-- Code addresses are multiples of four from the base. -/
def jumpIndex (offset : Word) : Option Nat :=
  if offset.toNat % 4 = 0 then some (offset.toNat / 4) else none

def exec (s : Symbolic) : Instr Nat → Option Symbolic
  | .op op rd rs1 rs2 =>
      (alu op (s.reg rs1) (s.reg rs2)).map ((s.goto (s.index + 1)).setReg rd)
  | .opImm op rd rs1 imm =>
      (alu op (s.reg rs1) (.word (BitVec.ofInt 32 imm))).map ((s.goto (s.index + 1)).setReg rd)
  | .lui rd imm => some ((s.goto (s.index + 1)).setReg rd (.word (imm.setWidth 32 <<< 12)))
  | .auipc rd imm =>
      some ((s.goto (s.index + 1)).setReg rd
        (.code (BitVec.ofNat 32 (4 * s.index) + imm.setWidth 32 <<< 12)))
  | .load width signed rd offset rs1 =>
      match s.reg rs1 with
      | .word a =>
          (loadNat s.mem (a + BitVec.ofInt 32 offset) width.bytes).map fun n =>
            (s.goto (s.index + 1)).setReg rd (.word (extend width signed n))
      | _ => none
  | .store width rs2 offset rs1 =>
      match s.reg rs1, s.reg rs2 with
      | .word a, .word v =>
          some { s.goto (s.index + 1) with
            mem := cells (a + BitVec.ofInt 32 offset) v width.bytes ++ s.mem }
      | _, _ => none
  | .branch cond rs1 rs2 target =>
      match s.reg rs1, s.reg rs2 with
      | .word a, .word b => some (s.goto (if cond.holds a b then target else s.index + 1))
      | _, _ => none
  | .jal rd target =>
      some ((s.goto target).setReg rd (.code (BitVec.ofNat 32 (4 * (s.index + 1)))))
  | .jalr rd rs1 offset =>
      match s.reg rs1 with
      | .code a =>
          (jumpIndex (a + BitVec.ofInt 32 offset)).map fun target =>
            (s.goto target).setReg rd (.code (BitVec.ofNat 32 (4 * (s.index + 1))))
      | _ => none

def step (code : List (Instr Nat)) (s : Symbolic) : Option Symbolic := code[s.index]?.bind s.exec

def run (code : List (Instr Nat)) : Nat → Symbolic → Option Symbolic
  | 0, s => some s
  | n + 1, s => (step code s).bind (run code n)

/-- The machine a symbolic state stands for. -/
def machine (base : Addr) (m : Machine) (s : Symbolic) : Machine where
  regs r := ((s.regs.lookup r).getD (.entry r)).eval base m
  mem := overlay s.mem m.mem
  pc := addrOf base s.index

/-! A symbolic step is a step of every machine it stands for. -/

section Sound
variable {base : Addr} {m : Machine} {s t : Symbolic}

theorem machine_entry (index : Nat) :
    (entry index).machine base m = { m with pc := addrOf base index } := rfl

theorem machine_reg (r : Reg) : (s.machine base m).reg r = (s.reg r).eval base m := by
  by_cases hr : r = 0
  · simp [Machine.reg, reg, hr, Value.eval]
  · simp only [Machine.reg, reg, if_neg hr, machine]

theorem machine_setReg (rd : Reg) (v : Value) :
    (s.setReg rd v).machine base m = (s.machine base m).setReg rd (v.eval base m) := by
  by_cases hrd : rd = 0
  · simp [setReg, Machine.setReg, hrd]
  · simp only [setReg, Machine.setReg, if_neg hrd, machine, List.lookup_cons]
    congr 1
    funext r
    by_cases hr : r = rd
    · simp [hr]
    · simp [hr, beq_false_of_ne hr]

theorem machine_goto (index : Nat) :
    (s.goto index).machine base m = { s.machine base m with pc := addrOf base index } := rfl

theorem addrOf_succ (index : Nat) : addrOf base index + 4 = addrOf base (index + 1) := by
  rw [addrOf, addrOf, BitVec.add_assoc, Nat.mul_add, BitVec.ofNat_add]
  rfl

theorem machine_next :
    (s.goto (s.index + 1)).machine base m =
      { s.machine base m with pc := (s.machine base m).pc + 4 } := by
  rw [machine_goto, ← addrOf_succ]
  rfl

theorem alu_sound {op : AluOp} {a b v : Value} (h : alu op a b = some v) :
    op.eval (a.eval base m) (b.eval base m) = v.eval base m := by
  unfold alu at h
  split at h
  case h_1 x y =>
    cases h
    rfl
  case h_2 x y =>
    cases h
    simp only [AluOp.eval, Value.eval]
    bv_omega
  case h_3 x y =>
    cases h
    exact BitVec.add_assoc base x y
  case h_4 v y _ _ =>
    obtain ⟨hy, hv⟩ := Option.ite_none_right_eq_some.mp h
    simp [AluOp.eval, Value.eval, hy, Option.some.inj hv]
  case h_5 => cases h

theorem loadNat_sound {changes : List (Addr × Byte)} {mem : Memory} {a : Addr} {n v : Nat}
    (h : loadNat changes a n = some v) : Rv32im.loadNat (overlay changes mem) a n = v := by
  induction n generalizing a v with
  | zero => exact Option.some.inj h
  | succ n ih =>
      simp only [loadNat, Option.bind_eq_bind, Option.bind_eq_some_iff] at h
      obtain ⟨b, hb, rest, hrest, hv⟩ := h
      rw [Rv32im.loadNat, ih hrest, overlay, hb]
      exact Option.some.inj hv

theorem and_not_one_of_even {a : Addr} (h : a.toNat % 2 = 0) : a &&& ~~~1 = a := by
  apply BitVec.eq_of_getLsbD_eq
  intro i hi
  have hone : (1 : Addr).getLsbD i = decide (i = 0) := by simp [BitVec.getLsbD_one]
  rw [BitVec.getLsbD_and, BitVec.getLsbD_not, hone]
  by_cases hi0 : i = 0
  · have hlow : a.getLsbD 0 = false := by
      rw [BitVec.getLsbD, Nat.testBit_zero, h]
      rfl
    rw [hi0, hlow, Bool.false_and]
  · simp [hi0, hi]

theorem jumpIndex_sound {offset : Word} {index : Nat} (even : base.toNat % 2 = 0)
    (h : jumpIndex offset = some index) :
    (base + offset) &&& ~~~1 = addrOf base index := by
  obtain ⟨haligned, hindex⟩ := Option.ite_none_right_eq_some.mp h
  have hoffset : BitVec.ofNat 32 (4 * index) = offset := by
    rw [← Option.some.inj hindex, Nat.mul_div_cancel' (Nat.dvd_of_mod_eq_zero haligned),
      BitVec.ofNat_toNat, BitVec.setWidth_eq]
  rw [addrOf, hoffset]
  apply and_not_one_of_even
  rw [BitVec.toNat_add]
  omega

theorem link (index : Nat) :
    (Value.code (BitVec.ofNat 32 (4 * (index + 1)))).eval base m = addrOf base index + 4 := by
  rw [addrOf_succ]
  rfl

theorem exec_sound {i : Instr Nat} (even : base.toNat % 2 = 0) (h : s.exec i = some t) :
    Rv32im.exec base (s.machine base m) i = t.machine base m := by
  have hpc : (s.machine base m).pc = addrOf base s.index := rfl
  cases i with
  | op op rd rs1 rs2 =>
      obtain ⟨v, hv, rfl⟩ := Option.map_eq_some_iff.mp h
      rw [machine_setReg, machine_next, ← alu_sound hv, ← machine_reg, ← machine_reg]
      rfl
  | opImm op rd rs1 imm =>
      obtain ⟨v, hv, rfl⟩ := Option.map_eq_some_iff.mp h
      rw [machine_setReg, machine_next, ← alu_sound hv, ← machine_reg]
      rfl
  | lui rd imm =>
      obtain rfl := Option.some.inj h
      rw [machine_setReg, machine_next]
      rfl
  | auipc rd imm =>
      obtain rfl := Option.some.inj h
      rw [machine_setReg, machine_next, Value.eval, ← BitVec.add_assoc]
      rfl
  | load width signed rd offset rs1 =>
      simp only [exec] at h
      split at h
      case h_1 a ha =>
        obtain ⟨n, hn, rfl⟩ := Option.map_eq_some_iff.mp h
        rw [machine_setReg, machine_next, Rv32im.exec, machine_reg, ha, Value.eval, Value.eval,
          ← loadNat_sound hn]
        rfl
      case h_2 => cases h
  | store width rs2 offset rs1 =>
      simp only [exec] at h
      split at h
      case h_1 a v ha hv =>
        obtain rfl := Option.some.inj h
        rw [Rv32im.exec, machine_reg, machine_reg, ha, hv, hpc, addrOf_succ]
        simp only [machine, goto, overlay_append, Value.eval]
      case h_2 => cases h
  | branch cond rs1 rs2 target =>
      simp only [exec] at h
      split at h
      case h_1 a b ha hb =>
        obtain rfl := Option.some.inj h
        rw [machine_goto, Rv32im.exec, machine_reg, machine_reg, ha, hb, Value.eval, Value.eval,
          hpc, addrOf_succ]
        split
        · rfl
        · rfl
      case h_2 => cases h
  | jal rd target =>
      obtain rfl := Option.some.inj h
      rw [machine_setReg, machine_goto, link]
      rfl
  | jalr rd rs1 offset =>
      simp only [exec] at h
      split at h
      case h_1 a ha =>
        obtain ⟨target, htarget, rfl⟩ := Option.map_eq_some_iff.mp h
        rw [machine_setReg, machine_goto, link, Rv32im.exec, machine_reg, ha, Value.eval,
          BitVec.add_assoc, jumpIndex_sound even htarget]
        rfl
      case h_2 => cases h

theorem fetch_addrOf {code : List (Instr Nat)} (fit : 4 * code.length ≤ 4294967296) {index : Nat}
    {i : Instr Nat} (h : code[index]? = some i) : fetch code base (addrOf base index) = some i := by
  obtain ⟨hlt, _⟩ := List.getElem?_eq_some_iff.mp h
  have hoffset : (addrOf base index - base).toNat = 4 * index := by
    rw [addrOf, BitVec.add_comm, BitVec.add_sub_cancel, BitVec.toNat_ofNat]
    omega
  rw [fetch, hoffset, if_pos (Nat.mul_mod_right 4 index), Nat.mul_div_cancel_left index (by omega)]
  exact h

theorem step_sound {code : List (Instr Nat)} (fit : 4 * code.length ≤ 4294967296)
    (even : base.toNat % 2 = 0) (h : step code s = some t) :
    Rv32im.step code base (s.machine base m) = some (t.machine base m) := by
  obtain ⟨i, hi, hexec⟩ := Option.bind_eq_some_iff.mp h
  have hfetch : fetch code base (s.machine base m).pc = some i := fetch_addrOf fit hi
  rw [Rv32im.step, hfetch, Option.map_some, exec_sound even hexec]

theorem run_sound {code : List (Instr Nat)} (fit : 4 * code.length ≤ 4294967296)
    (even : base.toNat % 2 = 0) {n : Nat} (h : run code n s = some t) :
    Rv32im.run code base n (s.machine base m) = some (t.machine base m) := by
  induction n generalizing s with
  | zero => rw [Rv32im.run, Option.some.inj h]
  | succ n ih =>
      obtain ⟨u, hstep, hrun⟩ := Option.bind_eq_some_iff.mp h
      rw [Rv32im.run, step_sound fit even hstep]
      exact ih hrun

/-- Code that leads into an endless loop and changes nothing on the way. -/
theorem run_loop {code : List (Instr Nat)} (fit : 4 * code.length ≤ 4294967296)
    (even : base.toNat % 2 = 0) {index loop : Nat}
    (enter : run code 1 (entry index) = some (entry loop))
    (stay : run code 1 (entry loop) = some (entry loop)) (n : Nat) :
    Rv32im.run code base (n + 1) { m with pc := addrOf base index } =
      some { m with pc := addrOf base loop } := by
  have henter := run_sound (m := m) fit even enter
  have hstay := run_sound (m := m) fit even stay
  rw [machine_entry, machine_entry] at henter
  rw [machine_entry, run_one] at hstay
  rw [Nat.add_comm n 1, run_add _ _ henter, run_of_loop _ _ hstay]

end Sound
end Symbolic
end Rv32im
