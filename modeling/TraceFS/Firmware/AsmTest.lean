import TraceFS.Lib.Rv32imSymbolic

/-!
`asm_test_main` of `full.S`, the test that `task_1000ms` calls, and the bytes that
`full.json` expects of it.

The keys of `full.json` count from the start of the results. The code is run as the
list in `full.S`, placed at any address; it lies outside the memory it writes to.
-/
namespace TraceFS.AsmTest
open ByteMemory Rv32im

def resultsBase : Int := 0x00000100
def testDataBase : Int := 0x00000300
def tempSlotBase : Int := 0x00000400

inductive Label
  | asmTestMain | auipcTest1 | auipcTest2 | beqTaken | beqDone | bneTaken | bneDone
  | bltTaken | bltDone | bgeTaken | bgeDone | bltuTaken | bltuDone | bgeuTaken | bgeuDone
  | afterJal | jalHelper | jalDone | afterJalForJalr | jalrHelperEntry | jalrDone | endLoop
  deriving DecidableEq, Repr

def asmTest : List (Block Label) :=
  [ ⟨.asmTestMain, [
      .mv 6 1,
      .addi 5 0 resultsBase,
      .addi 8 0 testDataBase, .addi 9 0 tempSlotBase,
      .addi 10 0 0x11, .sb 10 0 8,
      .addi 10 0 0x22, .sb 10 1 8,
      .addi 10 0 (-1), .sb 10 2 8,
      .addi 10 0 (-128), .sb 10 3 8,
      .addi 10 0 0x12, .slli 10 10 8, .ori 10 10 0x34, .sh 10 4 8,
      .lui 10 0x12345, .addi 10 10 0x678, .sw 10 8 8,
      -- 1. ADD, ADDI, SUB
      .addi 11 0 5, .addi 12 0 7,
      .add 13 11 12, .sw 13 0 5, .addi 5 5 4,
      .sub 14 12 11, .sw 14 0 5, .addi 5 5 4,
      .addi 15 0 (-1), .sw 15 0 5, .addi 5 5 4,
      -- 2. LUI, AUIPC
      .lui 16 0x12345, .sw 16 0 5, .addi 5 5 4]⟩,
    ⟨.auipcTest1, [.auipc 17 0x1]⟩,
    ⟨.auipcTest2, [
      .auipc 18 0x1, .sub 19 18 17, .sw 19 0 5, .addi 5 5 4,
      -- 3. XOR, OR, AND and their immediates
      .addi 20 0 0x0F0, .ori 20 20 0x00F,
      .addi 21 0 0x0F0,
      .xor 22 20 21, .sw 22 0 5, .addi 5 5 4,
      .or 23 20 21, .sw 23 0 5, .addi 5 5 4,
      .and 24 20 21, .sw 24 0 5, .addi 5 5 4,
      .xori 25 20 0x00F, .sw 25 0 5, .addi 5 5 4,
      .ori 26 20 0x00F, .sw 26 0 5, .addi 5 5 4,
      .andi 27 20 0x00F, .sw 27 0 5, .addi 5 5 4,
      -- 4. SLT, SLTU, SLTI, SLTIU
      .addi 28 0 (-5), .addi 29 0 3,
      .slt 30 28 29, .sw 30 0 5, .addi 5 5 4,
      .sltu 31 28 29, .sw 31 0 5, .addi 5 5 4,
      .addi 10 0 3, .slti 10 10 10, .sw 10 0 5, .addi 5 5 4,
      .addi 11 0 3, .sltiu 11 11 1, .sw 11 0 5, .addi 5 5 4,
      -- 5. SLL, SRL, SRA, SLLI, SRLI, SRAI
      .addi 12 0 1, .addi 13 0 4, .sll 14 12 13, .sw 14 0 5, .addi 5 5 4,
      .addi 15 0 16, .addi 16 0 2, .srl 17 15 16, .sw 17 0 5, .addi 5 5 4,
      .addi 18 0 (-16), .addi 19 0 2, .sra 20 18 19, .sw 20 0 5, .addi 5 5 4,
      .addi 21 0 1, .slli 22 21 3, .sw 22 0 5, .addi 5 5 4,
      .addi 23 0 32, .srli 24 23 3, .sw 24 0 5, .addi 5 5 4,
      .addi 25 0 (-32), .srai 26 25 3, .sw 26 0 5, .addi 5 5 4,
      -- 6. loads and stores
      .lw 10 8 8, .sw 10 0 5, .addi 5 5 4,
      .lh 11 4 8, .sw 11 0 5, .addi 5 5 4,
      .lhu 12 4 8, .sw 12 0 5, .addi 5 5 4,
      .lb 13 2 8, .sw 13 0 5, .addi 5 5 4,
      .lbu 14 2 8, .sw 14 0 5, .addi 5 5 4,
      .addi 15 0 0x55, .sb 15 0 9, .lb 16 0 9, .sw 16 0 5, .addi 5 5 4,
      .addi 17 0 0x7F, .slli 17 17 1, .sh 17 2 9, .lh 18 2 9, .sw 18 0 5, .addi 5 5 4,
      .lui 19 0x7F000, .sw 19 4 9, .lw 20 4 9, .sw 20 0 5, .addi 5 5 4,
      -- 7. branches
      .addi 10 0 5, .addi 11 0 5, .beq 10 11 .beqTaken, .addi 12 0 0, .sw 12 0 5, .addi 5 5 4,
      .jal 0 .beqDone]⟩,
    ⟨.beqTaken, [.addi 12 0 1, .sw 12 0 5, .addi 5 5 4]⟩,
    ⟨.beqDone, [
      .addi 10 0 5, .addi 11 0 6, .bne 10 11 .bneTaken, .addi 12 0 0, .sw 12 0 5, .addi 5 5 4,
      .jal 0 .bneDone]⟩,
    ⟨.bneTaken, [.addi 12 0 1, .sw 12 0 5, .addi 5 5 4]⟩,
    ⟨.bneDone, [
      .addi 10 0 (-1), .addi 11 0 1, .blt 10 11 .bltTaken, .addi 12 0 0, .sw 12 0 5,
      .addi 5 5 4, .jal 0 .bltDone]⟩,
    ⟨.bltTaken, [.addi 12 0 1, .sw 12 0 5, .addi 5 5 4]⟩,
    ⟨.bltDone, [
      .addi 10 0 3, .addi 11 0 (-2), .bge 10 11 .bgeTaken, .addi 12 0 0, .sw 12 0 5,
      .addi 5 5 4, .jal 0 .bgeDone]⟩,
    ⟨.bgeTaken, [.addi 12 0 1, .sw 12 0 5, .addi 5 5 4]⟩,
    ⟨.bgeDone, [
      .addi 10 0 1, .addi 11 0 (-1), .bltu 10 11 .bltuTaken, .addi 12 0 0, .sw 12 0 5,
      .addi 5 5 4, .jal 0 .bltuDone]⟩,
    ⟨.bltuTaken, [.addi 12 0 1, .sw 12 0 5, .addi 5 5 4]⟩,
    ⟨.bltuDone, [
      .addi 10 0 (-1), .addi 11 0 1, .bgeu 10 11 .bgeuTaken, .addi 12 0 0, .sw 12 0 5,
      .addi 5 5 4, .jal 0 .bgeuDone]⟩,
    ⟨.bgeuTaken, [.addi 12 0 1, .sw 12 0 5, .addi 5 5 4]⟩,
    ⟨.bgeuDone, [
      -- 8. JAL, JALR
      .addi 13 0 0,
      .jal 1 .jalHelper]⟩,
    ⟨.afterJal, [
      .addi 13 13 1, .sw 13 0 5, .addi 5 5 4,
      .jal 0 .jalDone]⟩,
    ⟨.jalHelper, [.addi 13 13 2, .jal 0 .afterJal]⟩,
    ⟨.jalDone, [
      .addi 14 0 0,
      .jal 1 .jalrHelperEntry]⟩,
    ⟨.afterJalForJalr, [
      .addi 14 14 2, .sw 14 0 5, .addi 5 5 4,
      .jal 0 .jalrDone]⟩,
    ⟨.jalrHelperEntry, [.addi 14 14 1, .jalr 0 1 0]⟩,
    ⟨.jalrDone, [
      -- 9. x0
      .addi 0 0 5, .sw 0 0 5, .addi 5 5 4,
      -- 10.1 MUL
      .addi 10 0 6, .addi 11 0 7, .mul 12 10 11, .sw 12 0 5, .addi 5 5 4,
      .addi 10 0 (-3), .addi 11 0 5, .mul 12 10 11, .sw 12 0 5, .addi 5 5 4,
      .addi 10 0 (-6), .addi 11 0 (-7), .mul 12 10 11, .sw 12 0 5, .addi 5 5 4,
      .addi 10 0 0, .lui 11 0x03, .addi 11 0 123, .mul 12 10 11, .sw 12 0 5, .addi 5 5 4,
      .addi 10 0 1, .addi 11 0 (-1), .mul 12 10 11, .sw 12 0 5, .addi 5 5 4,
      .lui 10 0x10, .lui 11 0x10, .mul 12 10 11, .sw 12 0 5, .addi 5 5 4,
      -- 10.2 MULH
      .addi 10 0 6, .addi 11 0 7, .mulh 12 10 11, .sw 12 0 5, .addi 5 5 4,
      .addi 10 0 (-1), .addi 11 0 (-1), .mulh 12 10 11, .sw 12 0 5, .addi 5 5 4,
      .lui 10 0x80000, .addi 10 10 (-1), .addi 11 0 2, .mulh 12 10 11, .sw 12 0 5,
      .addi 5 5 4,
      .addi 10 0 (-1), .addi 11 0 1, .mulh 12 10 11, .sw 12 0 5, .addi 5 5 4,
      .lui 10 0x40000, .addi 11 0 4, .mulh 12 10 11, .sw 12 0 5, .addi 5 5 4,
      .lui 10 0x80000, .lui 11 0x80000, .mulh 12 10 11, .sw 12 0 5, .addi 5 5 4,
      -- 10.3 MULHU
      .addi 10 0 6, .addi 11 0 7, .mulhu 12 10 11, .sw 12 0 5, .addi 5 5 4,
      .addi 10 0 (-1), .addi 11 0 (-1), .mulhu 12 10 11, .sw 12 0 5, .addi 5 5 4,
      .lui 10 0x80000, .addi 11 0 2, .mulhu 12 10 11, .sw 12 0 5, .addi 5 5 4,
      .lui 10 0x10, .lui 11 0x10, .mulhu 12 10 11, .sw 12 0 5, .addi 5 5 4,
      -- 10.4 MULHSU
      .addi 10 0 6, .addi 11 0 7, .mulhsu 12 10 11, .sw 12 0 5, .addi 5 5 4,
      .addi 10 0 (-1), .addi 11 0 1, .mulhsu 12 10 11, .sw 12 0 5, .addi 5 5 4,
      .addi 10 0 (-1), .addi 11 0 (-1), .mulhsu 12 10 11, .sw 12 0 5, .addi 5 5 4,
      .addi 10 0 1, .addi 11 0 (-1), .mulhsu 12 10 11, .sw 12 0 5, .addi 5 5 4,
      -- 10.5 DIV
      .addi 10 0 20, .addi 11 0 4, .div 12 10 11, .sw 12 0 5, .addi 5 5 4,
      .addi 10 0 (-21), .addi 11 0 3, .div 12 10 11, .sw 12 0 5, .addi 5 5 4,
      .addi 10 0 7, .addi 11 0 2, .div 12 10 11, .sw 12 0 5, .addi 5 5 4,
      .addi 10 0 (-7), .addi 11 0 2, .div 12 10 11, .sw 12 0 5, .addi 5 5 4,
      .addi 10 0 3, .addi 11 0 5, .div 12 10 11, .sw 12 0 5, .addi 5 5 4,
      .addi 10 0 10, .addi 11 0 0, .div 12 10 11, .sw 12 0 5, .addi 5 5 4,
      .lui 10 0x80000, .addi 11 0 (-1), .div 12 10 11, .sw 12 0 5, .addi 5 5 4,
      -- 10.6 DIVU
      .addi 10 0 20, .addi 11 0 4, .divu 12 10 11, .sw 12 0 5, .addi 5 5 4,
      .addi 10 0 (-1), .addi 11 0 2, .divu 12 10 11, .sw 12 0 5, .addi 5 5 4,
      .addi 10 0 7, .addi 11 0 2, .divu 12 10 11, .sw 12 0 5, .addi 5 5 4,
      .addi 10 0 10, .addi 11 0 0, .divu 12 10 11, .sw 12 0 5, .addi 5 5 4,
      -- 10.7 REM
      .addi 10 0 20, .addi 11 0 4, .rem 12 10 11, .sw 12 0 5, .addi 5 5 4,
      .addi 10 0 7, .addi 11 0 2, .rem 12 10 11, .sw 12 0 5, .addi 5 5 4,
      .addi 10 0 (-7), .addi 11 0 2, .rem 12 10 11, .sw 12 0 5, .addi 5 5 4,
      .addi 10 0 7, .addi 11 0 (-2), .rem 12 10 11, .sw 12 0 5, .addi 5 5 4,
      .addi 10 0 10, .addi 11 0 0, .rem 12 10 11, .sw 12 0 5, .addi 5 5 4,
      .lui 10 0x80000, .addi 11 0 (-1), .rem 12 10 11, .sw 12 0 5, .addi 5 5 4,
      -- 10.8 REMU
      .addi 10 0 20, .addi 11 0 4, .remu 12 10 11, .sw 12 0 5, .addi 5 5 4,
      .addi 10 0 7, .addi 11 0 2, .remu 12 10 11, .sw 12 0 5, .addi 5 5 4,
      .addi 10 0 (-1), .addi 11 0 2, .remu 12 10 11, .sw 12 0 5, .addi 5 5 4,
      .addi 10 0 10, .addi 11 0 0, .remu 12 10 11, .sw 12 0 5, .addi 5 5 4,
      .mv 1 6, .ret]⟩,
    ⟨.endLoop, [.jal 0 .endLoop]⟩ ]

/-- `full.json`: runs of expected bytes behind the key of the first. -/
def fullJson : List (Nat × List Nat) :=
  [ (0x000, [12, 0, 0, 0, 2, 0, 0, 0, 255, 255, 255, 255, 0, 80, 52, 18, 4, 0, 0, 0, 15, 0, 0, 0,
      255, 0, 0, 0, 240, 0, 0, 0, 240, 0, 0, 0, 255, 0, 0, 0, 15, 0, 0, 0, 1, 0, 0, 0, 0, 0, 0,
      0, 1, 0, 0, 0, 0, 0, 0, 0, 16, 0, 0, 0, 4, 0, 0, 0, 252, 255, 255, 255, 8, 0, 0, 0, 4, 0,
      0, 0, 252, 255, 255, 255, 120, 86, 52, 18, 52, 18, 0, 0, 52, 18, 0, 0, 255, 255, 255, 255,
      255, 0, 0, 0, 85, 0, 0, 0, 254, 0, 0, 0, 0, 0, 0, 127, 1, 0, 0, 0, 1, 0, 0, 0, 1, 0, 0, 0,
      1, 0, 0, 0, 1, 0, 0, 0, 1, 0, 0, 0, 3, 0, 0, 0, 3, 0, 0, 0, 0, 0, 0, 0, 42, 0, 0, 0, 241,
      255, 255, 255, 42, 0, 0, 0, 0, 0, 0, 0, 255, 255, 255, 255, 0, 0, 0, 0, 0, 0, 0, 0, 0, 0,
      0, 0, 0, 0, 0, 0, 255, 255, 255, 255, 1, 0, 0, 0, 0, 0, 0, 64, 0, 0, 0, 0, 254, 255, 255,
      255, 1, 0, 0, 0, 1, 0, 0, 0, 0, 0, 0, 0, 255, 255, 255, 255, 255, 255, 255, 255, 0, 0, 0,
      0, 5, 0, 0, 0, 249, 255, 255, 255, 3, 0, 0, 0, 253, 255, 255, 255, 0, 0, 0, 0, 255, 255,
      255, 255, 0, 0, 0, 128, 5, 0, 0, 0, 255, 255, 255, 127, 3, 0, 0, 0, 255, 255, 255, 255, 0,
      0, 0, 0, 1, 0, 0, 0, 255, 255, 255, 255, 1, 0, 0, 0, 10, 0, 0, 0, 0, 0, 0, 0, 0, 0, 0, 0,
      1, 0, 0, 0, 1, 0, 0, 0, 10, 0, 0, 0]),
    (0x200, [17, 34, 255, 128, 52, 18]),
    (0x208, [120, 86, 52, 18]),
    (0x300, [85]),
    (0x302, [254, 0, 0, 0, 0, 127]) ]

/-- The expected bytes with their addresses. -/
def expected : List (Addr × Byte) :=
  fullJson.flatMap fun (first, bytes) =>
    bytes.zipIdx.map fun (b, i) =>
      (BitVec.ofInt 32 resultsBase + BitVec.ofNat 32 (first + i), BitVec.ofNat 8 b)

/-- What the test leaves in the registers it does not keep. -/
def leftover : List (Reg × Word) :=
  [ (5, 0x23c), (8, 0x300), (9, 0x400), (10, 10), (11, 0), (12, 10), (13, 3), (14, 3)
  , (15, 0x55), (16, 0x55), (17, 0xfe), (18, 0xfe), (19, 0x7f000000), (20, 0x7f000000)
  , (21, 1), (22, 8), (23, 32), (24, 4), (25, -32), (26, -4), (27, 15), (28, -5), (29, 3)
  , (30, 1), (31, 0) ]

def kept : List Reg := [1, 2, 3, 4, 7]

/-- Some key of `full.json` stands for the address. -/
def isExpected (a : Addr) : Bool :=
  fullJson.any fun (first, bytes) =>
    first.ble (a - BitVec.ofInt 32 resultsBase).toNat &&
      (a - BitVec.ofInt 32 resultsBase).toNat.blt (first + bytes.length)

/-- A symbolic state in front of `ret`, with the expected bytes in memory and no others. -/
def atReturn (s : Symbolic) : Bool :=
  s.index == 420 &&
  expected.all (fun p => lookup s.mem p.1 == some p.2) &&
  s.mem.all (fun c => isExpected c.1) &&
  leftover.all (fun p => s.reg p.1 == .word p.2) &&
  kept.all (fun r => s.reg r == .entry r) &&
  s.reg 6 == .entry 1

theorem atReturn_run :
    (Symbolic.run (assemble asmTest) 396 (.entry 0)).any atReturn = true := by
  decide +kernel

theorem length_asmTest : (assemble asmTest).length = 422 := by decide +kernel

theorem ret_asmTest : (assemble asmTest)[420]? = some .ret := by decide +kernel

/-- What a call has done when it has returned: the expected bytes are written and no others,
and the registers of `kept` hold what they held. The callee-saved `s0` to `s11` are not
among these. -/
structure Done (m m' : Machine) : Prop where
  returned : m'.pc = m.regs 1
  results : ∀ p ∈ expected, m'.mem p.1 = p.2
  frame : ∀ a, isExpected a = false → m'.mem a = m.mem a
  kept : ∀ r ∈ kept, m'.regs r = m.regs r
  savedRa : m'.regs 6 = m.regs 1
  leftover : ∀ p ∈ leftover, m'.regs p.1 = p.2

/-- From any registers and memory, and wherever it is placed, the test returns with the
bytes that are expected of it. -/
theorem asm_test_passes {base : Addr} {m : Machine} (entry : m.pc = base)
    (aligned : base.toNat % 2 = 0) (ra : (m.regs 1).toNat % 2 = 0) :
    ∃ m', run (assemble asmTest) base 397 m = some m' ∧ Done m m' := by
  obtain ⟨s, hrun, hs⟩ := (Option.any_eq_true _ _).mp atReturn_run
  simp only [atReturn, Bool.and_eq_true, beq_iff_eq, List.all_eq_true] at hs
  obtain ⟨⟨⟨⟨⟨hindex, hresults⟩, hframe⟩, hleftover⟩, hkept⟩, hra⟩ := hs
  have fit : 4 * (assemble asmTest).length ≤ 4294967296 := by
    rw [length_asmTest]
    decide
  have hentry : { m with pc := addrOf base 0 } = m := by
    rw [addrOf, Nat.mul_zero, BitVec.add_zero, ← entry]
  have hmain := Symbolic.run_sound (m := m) fit aligned hrun
  rw [Symbolic.machine_entry, hentry] at hmain
  have hregs {r : Reg} (hr : r ≠ 0) :
      (s.machine base m).regs r = (s.reg r).eval base m := by
    rw [← Symbolic.machine_reg, Machine.reg, if_neg hr]
  have hkept {r : Reg} (hr : r ∈ kept) : (s.machine base m).regs r = m.regs r := by
    rw [hregs ((by decide : ∀ r ∈ kept, r ≠ 0) r hr), hkept r hr]
    rfl
  have hreturn : step (assemble asmTest) base (s.machine base m) =
      some { s.machine base m with pc := m.regs 1 } := by
    have hfetch : fetch (assemble asmTest) base (s.machine base m).pc = some .ret := by
      change fetch (assemble asmTest) base (addrOf base s.index) = some .ret
      rw [hindex]
      exact Symbolic.fetch_addrOf fit ret_asmTest
    have hx1 : (s.machine base m).reg 1 = m.regs 1 := hkept (by decide)
    have hpc : (m.regs 1 + BitVec.ofInt 32 0) &&& ~~~1 = m.regs 1 := by
      rw [show BitVec.ofInt 32 0 = 0#32 from rfl, BitVec.add_zero]
      exact Symbolic.and_not_one_of_even ra
    rw [step, hfetch, Option.map_some, Instr.ret, exec, hx1, hpc]
    rfl
  refine ⟨{ s.machine base m with pc := m.regs 1 }, ?_, ?_⟩
  · rw [show 397 = 396 + 1 from rfl, run_add _ _ hmain, run, hreturn]
    rfl
  · refine { returned := rfl, results := ?_, frame := ?_, kept := ?_, savedRa := ?_, leftover := ?_ }
    · intro p hp
      change overlay s.mem m.mem p.1 = p.2
      rw [overlay, hresults p hp]
      rfl
    · intro a ha
      change overlay s.mem m.mem a = m.mem a
      rw [overlay, lookup_eq_none]
      · rfl
      · intro c hc hca
        have := hframe c hc
        rw [hca, ha] at this
        cases this
    · intro r hr
      exact hkept hr
    · exact (hregs (by decide)).trans (congrArg (Value.eval base m) hra)
    · intro p hp
      have nonzero : (leftover.all fun p => p.1 != 0) = true := rfl
      have hne : p.1 ≠ 0 := bne_iff_ne.mp (List.all_eq_true.mp nonzero p hp)
      exact (hregs hne).trans (congrArg (Value.eval base m) (hleftover p hp))

/-- Called from `task_1000ms`, somewhere in the BRAM. -/
theorem asm_test_passes_in_bram :
    ∃ m', run (assemble asmTest) 0xa1042000 397
        { regs := fun _ => 0xa1041000, mem := fun _ => 0, pc := 0xa1042000 } = some m' ∧
      Done { regs := fun _ => 0xa1041000, mem := fun _ => 0, pc := 0xa1042000 } m' :=
  asm_test_passes rfl (by decide) (by decide)

end TraceFS.AsmTest
