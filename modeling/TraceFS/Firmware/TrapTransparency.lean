import TraceFS.Firmware.TrapEntry

/-!
When a trap is transparent to the interrupted program.

The frame has 16 words but its slots are numbered 1 to 16, so the last save goes
to the word at the interrupted `sp`. Everything else depends on whether the save
area is out of reach of `handle_trap` and of `__exc_reason`.
-/
namespace TraceFS.TrapEntry

open ByteMemory

/-! The state at the call of `handle_trap` and the state at `mret`. -/

def frameBase (c : Cpu) : Addr := c.regs sp + BitVec.ofInt 32 (-16 * 4)

def savedMem (c : Cpu) : Memory :=
  storeSlots c.mem (frameBase c) (trapFrame.map fun p => (p.2, c.regs p.1))

def atCall (c : Cpu) : Cpu :=
  exec id (exec id (execInstr id c (.addi sp sp (-16 * 4))) (trapFrame.map save)) passReason

def excByte (c : Cpu) (i : Nat) : Byte :=
  if i < 4 then byteOf c.mcause i else byteOf c.mepc (i - 4)

def InExcReason (b : Addr) : Prop := (b - excReason).toNat < 8

theorem trapFrame_slot_lt {p : Reg × Nat} (h : p ∈ trapFrame) : 1 ≤ p.2 ∧ p.2 ≤ 16 := by
  revert p
  decide

theorem trapFrame_ne_sp {p : Reg × Nat} (h : p ∈ trapFrame) : p.1 ≠ sp := by
  revert p
  decide

theorem atCall_eq (c : Cpu) :
    atCall c =
      { c with
        regs := setReg (setReg (setReg (setReg c.regs sp (frameBase c)) a0 c.mcause) a1 c.mepc) a4
          excReason
        mem := storeWord (storeWord (savedMem c) excReason c.mcause) (excReason + 4) c.mepc } := by
  have hframe : (trapFrame.map fun p => (p.2, setReg c.regs sp (frameBase c) p.1)) =
      trapFrame.map fun p => (p.2, c.regs p.1) :=
    List.map_congr_left fun p hp => by rw [setReg_of_ne (trapFrame_ne_sp hp)]
  have hsp : setReg c.regs sp (frameBase c) sp = frameBase c := setReg_self (by decide)
  rw [atCall, exec_saves]
  simp only [passReason, exec, List.foldl_cons, List.foldl_nil, execInstr]
  simp (disch := decide) only [setReg_self, setReg_of_ne]
  rw [← frameBase, hframe, savedMem]
  rfl

theorem atCall_regs_sp (c : Cpu) : (atCall c).regs sp = frameBase c := by
  rw [atCall_eq]
  simp (disch := decide) only [setReg_self, setReg_of_ne]

theorem atCall_regs {c : Cpu} {r : Reg} (hsp : r ≠ sp) (ha0 : r ≠ a0) (ha1 : r ≠ a1)
    (ha4 : r ≠ a4) : (atCall c).regs r = c.regs r := by
  rw [atCall_eq]
  simp only [setReg_of_ne hsp, setReg_of_ne ha0, setReg_of_ne ha1, setReg_of_ne ha4]

theorem toNat_sub_excReason_add (b : Addr) :
    (b - (excReason + 4)).toNat = ((b - excReason).toNat + 2 ^ 32 - 4) % 2 ^ 32 := by
  rw [← BitVec.sub_sub, BitVec.toNat_sub]
  simp
  omega

theorem atCall_mem_excReason {c : Cpu} {b : Addr} (h : InExcReason b) :
    (atCall c).mem b = excByte c (b - excReason).toNat := by
  rw [atCall_eq]
  simp only [storeWord, toNat_sub_excReason_add, excByte]
  rw [InExcReason] at h
  by_cases hfirst : (b - excReason).toNat < 4
  · rw [if_neg (by omega), if_pos hfirst, if_pos hfirst]
  · have hindex : ((b - excReason).toNat + 2 ^ 32 - 4) % 2 ^ 32 = (b - excReason).toNat - 4 := by
      omega
    rw [hindex, if_pos (by omega), if_neg hfirst]

theorem atCall_mem_of_not {c : Cpu} {b : Addr} (h : ¬ InExcReason b) :
    (atCall c).mem b = savedMem c b := by
  rw [atCall_eq]
  simp only [storeWord, toNat_sub_excReason_add]
  rw [InExcReason] at h
  have hlt := (b - excReason).isLt
  rw [if_neg (by omega), if_neg (by omega)]

section Run
variable (handleTrap : Cpu → Cpu) (c : Cpu)

theorem runTrapEntry_eq :
    runTrapEntry handleTrap c =
      exec handleTrap
        (exec handleTrap
          (execInstr handleTrap (handleTrap (atCall c)) (.csrw .mepc a0)) (trapFrame.map restore))
        [.addi sp sp (16 * 4), .mret] := by
  have hsaves (d : Cpu) : exec handleTrap d (trapFrame.map save) =
      exec id d (trapFrame.map save) := by
    rw [exec_saves, exec_saves]
  have hreason (d : Cpu) : exec handleTrap d passReason = exec id d passReason := rfl
  rw [runTrapEntry, trapEntry_eq, atCall, ← hsaves, ← hreason]
  rw [exec_cons, exec_append, exec_append, exec_cons, exec_cons, exec_append]
  rfl

theorem exec_leave_regs (d : Cpu) : (exec handleTrap d [.addi sp sp (16 * 4), .mret]).regs =
    setReg d.regs sp (d.regs sp + BitVec.ofInt 32 (16 * 4)) := by
  simp only [exec, List.foldl_cons, List.foldl_nil, execInstr]

theorem exec_leave_mem (d : Cpu) :
    (exec handleTrap d [.addi sp sp (16 * 4), .mret]).mem = d.mem := by
  simp only [exec, List.foldl_cons, List.foldl_nil, execInstr]

theorem runTrapEntry_mem : (runTrapEntry handleTrap c).mem = (handleTrap (atCall c)).mem := by
  rw [runTrapEntry_eq, exec_leave_mem, exec_restores_mem]
  rfl

theorem runTrapEntry_saved {r : Reg} {k : Nat} (h : (r, k) ∈ trapFrame) :
    (runTrapEntry handleTrap c).regs r =
      loadWord (handleTrap (atCall c)).mem (slotAddr ((handleTrap (atCall c)).regs sp) k) := by
  rw [runTrapEntry_eq, exec_leave_regs, setReg_of_ne (trapFrame_ne_sp h),
    exec_restores handleTrap (by decide) (by decide) (by decide) h]
  rfl

theorem runTrapEntry_sp :
    (runTrapEntry handleTrap c).regs sp =
      (handleTrap (atCall c)).regs sp + BitVec.ofInt 32 (16 * 4) := by
  have hne : sp ≠ 0 := by decide
  rw [runTrapEntry_eq, exec_leave_regs, setReg_self hne,
    exec_restores_of_not_mem handleTrap (by decide)]
  rfl

theorem runTrapEntry_other {r : Reg} (hframe : r ∉ trapFrame.map Prod.fst) (hsp : r ≠ sp) :
    (runTrapEntry handleTrap c).regs r = (handleTrap (atCall c)).regs r := by
  rw [runTrapEntry_eq, exec_leave_regs, setReg_of_ne hsp,
    exec_restores_of_not_mem handleTrap hframe]
  rfl

end Run

/-! The save area. -/

theorem savedMem_slot {c : Cpu} {r : Reg} {k i : Nat} (h : (r, k) ∈ trapFrame) (hi : i < 4) :
    savedMem c (slotByte (frameBase c) k i) = byteOf (c.regs r) i := by
  have hslots : (trapFrame.map fun p => (p.2, c.regs p.1)).map Prod.fst = trapFrame.map Prod.snd := by
    rw [List.map_map]
    rfl
  apply storeSlots_slotByte _ (by rw [hslots]; decide) hi
    (List.mem_map.mpr ⟨(r, k), h, rfl⟩)
  intro q hq
  obtain ⟨p, hp, rfl⟩ := List.mem_map.mp hq
  have := (trapFrame_slot_lt hp).2
  omega

theorem savedMem_outside {c : Cpu} {b : Addr}
    (h : ∀ k i, 1 ≤ k → k ≤ 16 → i < 4 → b ≠ slotByte (frameBase c) k i) :
    savedMem c b = c.mem b := by
  apply storeSlots_of_forall_ne
  intro q hq i hi
  obtain ⟨p, hp, rfl⟩ := List.mem_map.mp hq
  exact h p.2 i (trapFrame_slot_lt hp).1 (trapFrame_slot_lt hp).2 hi

theorem frameBase_add (c : Cpu) : frameBase c + BitVec.ofInt 32 (16 * 4) = c.regs sp := by
  have hcancel : BitVec.ofInt 32 (-16 * 4) + BitVec.ofInt 32 (16 * 4) = 0 := by simp
  rw [frameBase, BitVec.add_assoc, hcancel]
  exact BitVec.add_zero _

theorem slotByte_last (c : Cpu) (i : Nat) :
    slotByte (frameBase c) 16 i = c.regs sp + BitVec.ofNat 32 i := by
  have hframe : BitVec.ofInt 32 (16 * 4) = BitVec.ofNat 32 (16 * 4) := by simp
  rw [← frameBase_add, hframe, slotByte, slotAddr]

/-- Nothing in the save area can be written by `handle_trap`. -/
def Unreachable (own : Addr → Prop) (c : Cpu) : Prop :=
  ∀ k i, 1 ≤ k → k ≤ 16 → i < 4 → ¬ Writable own (frameBase c) (slotByte (frameBase c) k i)

theorem Unreachable.no_wrap {own : Addr → Prop} {c : Cpu} (h : Unreachable own c) :
    (frameBase c).toNat + 67 < 2 ^ 32 :=
  lt_of_not_slotByte_lt (k := 16) (i := 3) (by omega) fun hlt =>
    h 16 3 (by omega) (by omega) (by omega) (.inr hlt)

section NoWrap
variable {c : Cpu} (h : (frameBase c).toNat + 67 < 2 ^ 32)
include h

theorem toNat_frameByte {k i : Nat} (hk : k ≤ 16) (hi : i < 4) :
    (slotByte (frameBase c) k i).toNat = (frameBase c).toNat + (4 * k + i) :=
  toNat_slotByte (by omega)

theorem toNat_sp : (c.regs sp).toNat = (frameBase c).toNat + 64 := by
  have := toNat_frameByte h (k := 16) (i := 0) (by omega) (by omega)
  rw [slotByte_last, BitVec.add_zero] at this
  exact this

end NoWrap

/-! Transparency. -/

/-- The registers are as interrupted, and so is every byte from the interrupted
`sp` on that belongs neither to `__exc_reason` nor to `handle_trap`. -/
def Transparent (own : Addr → Prop) (handleTrap : Cpu → Cpu) (c : Cpu) : Prop :=
  (∀ r, r ≠ 0 → (runTrapEntry handleTrap c).regs r = c.regs r) ∧
    ∀ b, c.regs sp ≤ b → ¬ InExcReason b → ¬ own b →
      (runTrapEntry handleTrap c).mem b = c.mem b

/-- The save area is out of reach of `handle_trap`, what `__exc_reason` overwrites
of it agrees with the saved registers, and the word at the interrupted `sp`
holds `x31` already. -/
structure FrameSafe (own : Addr → Prop) (c : Cpu) : Prop where
  unreachable : Unreachable own c
  reasonAgrees : ∀ r k i, (r, k) ∈ trapFrame → i < 4 → InExcReason (slotByte (frameBase c) k i) →
    excByte c (slotByte (frameBase c) k i - excReason).toNat = byteOf (c.regs r) i
  lastSlot : ∀ i, i < 4 → ¬ InExcReason (c.regs sp + BitVec.ofNat 32 i) →
    c.mem (c.regs sp + BitVec.ofNat 32 i) = byteOf (c.regs 31) i

theorem calleeSaved_of_not_mem {r : Reg} (hframe : r ∉ trapFrame.map Prod.fst) (hzero : r ≠ 0) :
    CalleeSaved r ∧ r ≠ a0 ∧ r ≠ a1 ∧ r ≠ a4 := by
  revert r
  decide

theorem FrameSafe.atCall_slot {own : Addr → Prop} {c : Cpu} (safe : FrameSafe own c) {r : Reg}
    {k i : Nat} (h : (r, k) ∈ trapFrame) (hi : i < 4) :
    (atCall c).mem (slotByte (frameBase c) k i) = byteOf (c.regs r) i := by
  by_cases hexc : InExcReason (slotByte (frameBase c) k i)
  · rw [atCall_mem_excReason hexc, safe.reasonAgrees r k i h hi hexc]
  · rw [atCall_mem_of_not hexc, savedMem_slot h hi]

theorem FrameSafe.transparent {own : Addr → Prop} {handleTrap : Cpu → Cpu} {c : Cpu}
    (safe : FrameSafe own c) (conforms : Conforms own handleTrap) :
    Transparent own handleTrap c := by
  have hsp : (handleTrap (atCall c)).regs sp = frameBase c :=
    (conforms.calleeSaved (atCall c) sp (by decide)).trans (atCall_regs_sp c)
  have hmem {b : Addr} (hb : ¬ Writable own (frameBase c) b) :
      (handleTrap (atCall c)).mem b = (atCall c).mem b :=
    conforms.writes (atCall c) b (by rw [atCall_regs_sp]; exact hb)
  have nowrap := safe.unreachable.no_wrap
  constructor
  · intro r hr
    by_cases hframe : r ∈ trapFrame.map Prod.fst
    · obtain ⟨⟨r, k⟩, hk, rfl⟩ := List.mem_map.mp hframe
      rw [runTrapEntry_saved handleTrap c hk, hsp, loadWord_eq_iff]
      intro i hi
      have hslot := trapFrame_slot_lt hk
      exact (hmem (safe.unreachable k i hslot.1 hslot.2 hi)).trans (safe.atCall_slot hk hi)
    · by_cases hrsp : r = sp
      · rw [hrsp, runTrapEntry_sp, hsp, frameBase_add]
      · obtain ⟨hsaved, ha0, ha1, ha4⟩ := calleeSaved_of_not_mem hframe hr
        rw [runTrapEntry_other handleTrap c hframe hrsp, conforms.calleeSaved _ r hsaved,
          atCall_regs hrsp ha0 ha1 ha4]
  · intro b hb hexc hown
    have hb := BitVec.le_def.mp hb
    rw [toNat_sp nowrap] at hb
    have hreach : ¬ Writable own (frameBase c) b := by
      intro hw
      cases hw with
      | inl hw => exact hown hw
      | inr hw =>
          have := BitVec.lt_def.mp hw
          omega
    rw [runTrapEntry_mem, hmem hreach, atCall_mem_of_not hexc]
    by_cases hlast : ∃ i, i < 4 ∧ b = c.regs sp + BitVec.ofNat 32 i
    · obtain ⟨i, hi, rfl⟩ := hlast
      rw [safe.lastSlot i hi hexc, ← slotByte_last]
      exact savedMem_slot (by decide) hi
    · -- at or above `sp` only the last slot is part of the save area
      apply savedMem_outside
      intro k i hk hk' hi hslot
      have := toNat_frameByte nowrap hk' hi
      rw [← hslot] at this
      have hk16 : k = 16 := by omega
      exact hlast ⟨i, hi, by rw [hslot, hk16, slotByte_last]⟩

/-- The conforming `handle_trap` that only returns its argument. -/
def returnMepc (c : Cpu) : Cpu := { c with regs := setReg c.regs a0 (c.regs a1) }

theorem returnMepc_conforms (own : Addr → Prop) : Conforms own returnMepc where
  returns c := by
    have hne : a0 ≠ 0 := by decide
    change setReg c.regs a0 (c.regs a1) a0 = c.regs a1
    exact setReg_self hne
  calleeSaved c r h := by
    have hne : r ≠ a0 := by
      intro hr
      rw [hr] at h
      revert h
      decide
    change setReg c.regs a0 (c.regs a1) r = c.regs r
    exact setReg_of_ne hne
  writes _ _ _ := rfl

open Classical in
/-- A conforming `handle_trap` that changes one byte if it may. -/
noncomputable def bumpByte (own : Addr → Prop) (b : Addr) (c : Cpu) : Cpu :=
  { returnMepc c with
    mem := if Writable own (c.regs sp) b then Function.update c.mem b (c.mem b + 1) else c.mem }

theorem bumpByte_conforms (own : Addr → Prop) (b : Addr) : Conforms own (bumpByte own b) where
  returns := (returnMepc_conforms own).returns
  calleeSaved := (returnMepc_conforms own).calleeSaved
  writes c b' h := by
    rw [bumpByte]
    split
    case isTrue hb => exact Function.update_of_ne (by rintro rfl; exact h hb) _ _
    case isFalse => rfl

theorem exists_saved {k : Nat} (hk : 1 ≤ k) (hk' : k ≤ 16) : ∃ r, (r, k) ∈ trapFrame := by
  have hall : ∀ j : Fin 17, 1 ≤ j.val → ∃ r, (r, j.val) ∈ trapFrame := by decide
  exact hall ⟨k, by omega⟩ hk

section Necessary
variable {own : Addr → Prop} {c : Cpu}
  (h : ∀ handleTrap, Conforms own handleTrap → Transparent own handleTrap c)
include h

theorem saved_of_transparent {handleTrap : Cpu → Cpu} (conforms : Conforms own handleTrap)
    {r : Reg} {k i : Nat} (hk : (r, k) ∈ trapFrame) (hi : i < 4) :
    (handleTrap (atCall c)).mem (slotByte (frameBase c) k i) = byteOf (c.regs r) i := by
  have hsp : (handleTrap (atCall c)).regs sp = frameBase c :=
    (conforms.calleeSaved (atCall c) sp (by decide)).trans (atCall_regs_sp c)
  have hr : r ≠ 0 := by
    have hall : ∀ p ∈ trapFrame, p.1 ≠ 0 := by decide
    exact hall (r, k) hk
  have hload := (h handleTrap conforms).1 r hr
  rw [runTrapEntry_saved handleTrap c hk, hsp, loadWord_eq_iff] at hload
  exact hload i hi

theorem unreachable_of_transparent : Unreachable own c := by
  intro k i hk hk' hi hw
  obtain ⟨r, hr⟩ := exists_saved hk hk'
  have hreturn : (atCall c).mem (slotByte (frameBase c) k i) = byteOf (c.regs r) i :=
    saved_of_transparent h (returnMepc_conforms own) hr hi
  have hbump : (atCall c).mem (slotByte (frameBase c) k i) + 1 = byteOf (c.regs r) i := by
    have hbump := saved_of_transparent h
      (bumpByte_conforms own (slotByte (frameBase c) k i)) hr hi
    rw [bumpByte, atCall_regs_sp] at hbump
    simpa only [if_pos hw, Function.update_self] using hbump
  have hone : (atCall c).mem (slotByte (frameBase c) k i) + 1 ≠
      (atCall c).mem (slotByte (frameBase c) k i) := by
    intro heq
    have := congrArg BitVec.toNat heq
    rw [BitVec.toNat_add] at this
    simp at this
    omega
  exact hone (hbump.trans hreturn.symm)

/-- Transparency for every conforming `handle_trap` needs the frame to be safe. -/
theorem frameSafe_of_transparent : FrameSafe own c := by
  have unreachable := unreachable_of_transparent h
  have nowrap := unreachable.no_wrap
  refine ⟨unreachable, ?_, ?_⟩
  · intro r k i hk hi hexc
    have hreturn : (atCall c).mem (slotByte (frameBase c) k i) = byteOf (c.regs r) i :=
      saved_of_transparent h (returnMepc_conforms own) hk hi
    rw [atCall_mem_excReason hexc] at hreturn
    exact hreturn
  · intro i hi hexc
    have hge : c.regs sp ≤ c.regs sp + BitVec.ofNat 32 i := by
      have := toNat_frameByte nowrap (k := 16) (i := i) (by omega) hi
      rw [slotByte_last] at this
      rw [BitVec.le_def, this, toNat_sp nowrap]
      omega
    have hown : ¬ own (c.regs sp + BitVec.ofNat 32 i) := by
      intro hown
      rw [← slotByte_last] at hown
      exact unreachable 16 i (by omega) (by omega) hi (.inl hown)
    have hkept := (h returnMepc (returnMepc_conforms own)).2 _ hge hexc hown
    rw [runTrapEntry_mem] at hkept
    have hsaved : (atCall c).mem (c.regs sp + BitVec.ofNat 32 i) = byteOf (c.regs 31) i := by
      rw [atCall_mem_of_not hexc, ← slotByte_last]
      exact savedMem_slot (by decide) hi
    exact hkept.symm.trans hsaved

end Necessary

/-- A trap is transparent under every conforming `handle_trap` exactly when its
frame is safe; in particular the word at the interrupted `sp` must hold `x31`. -/
theorem transparent_iff_frameSafe (own : Addr → Prop) (c : Cpu) :
    (∀ handleTrap, Conforms own handleTrap → Transparent own handleTrap c) ↔ FrameSafe own c :=
  ⟨frameSafe_of_transparent, fun safe _ conforms => safe.transparent conforms⟩

/-- Everything the firmware owns outside its stack: devices and data. -/
def firmwareData (b : Addr) : Prop := 0xa1000000 ≤ b

/-- A function interrupted while the word at its `sp` is 0 and `x31` is 1. -/
def liveWordCpu : Cpu where
  regs r := if r = sp then 0x4f00 else if r = 31 then 1 else 0
  mem _ := 0
  mcause := 0x8000000b
  mepc := 0xa1040200
  pc := 0xa1040080

theorem word_at_sp_overwritten :
    Conforms firmwareData returnMepc ∧ ¬ Transparent firmwareData returnMepc liveWordCpu := by
  refine ⟨returnMepc_conforms _, fun h => ?_⟩
  have hkept := h.2 0x4f00 (by decide) (by rw [InExcReason]; decide)
    (by rw [firmwareData]; decide)
  have hwritten : (runTrapEntry returnMepc liveWordCpu).mem 0x4f00 = 1 := by decide +kernel
  rw [hwritten] at hkept
  revert hkept
  decide

/-! The stack of the linker script: 4096 bytes from 0x4000, `_sp` 16 below its end. -/

theorem not_inExcReason_of_lt {b : Addr} (h : b.toNat < 0xa1044000) : ¬ InExcReason b := by
  have hexc : excReason.toNat = 0xa1044000 := by decide
  rw [InExcReason, BitVec.toNat_sub, hexc]
  omega

theorem toNat_of_add_frame {base top : Addr} (h : base + 64 = top) (htop : 64 ≤ top.toNat) :
    base.toNat = top.toNat - 64 := by
  have hbase := base.isLt
  have hsum : (base.toNat + 64) % 2 ^ 32 = top.toNat := by
    rw [← h, BitVec.toNat_add]
    rfl
  omega

/-- On the stack only the last slot matters. -/
theorem frameSafe_iff_of_stack {own : Addr → Prop} {c : Cpu} (hlow : 0x4040 ≤ (c.regs sp).toNat)
    (hhigh : (c.regs sp).toNat ≤ 0x4ff0)
    (hown : ∀ b, own b → b.toNat < 0x4000 ∨ 0x5000 ≤ b.toNat) :
    FrameSafe own c ↔ loadWord c.mem (c.regs sp) = c.regs 31 := by
  have hbase : (frameBase c).toNat = (c.regs sp).toNat - 64 := by
    have hframe : BitVec.ofInt 32 (16 * 4) = 64 := by simp
    exact toNat_of_add_frame (hframe ▸ frameBase_add c) (by omega)
  have nowrap : (frameBase c).toNat + 67 < 2 ^ 32 := by omega
  have hexc {k i : Nat} (hk : k ≤ 16) (hi : i < 4) :
      ¬ InExcReason (slotByte (frameBase c) k i) := by
    have := toNat_frameByte nowrap hk hi
    exact not_inExcReason_of_lt (by omega)
  rw [loadWord_eq_iff]
  constructor
  · intro safe i hi
    apply safe.lastSlot i hi
    rw [← slotByte_last]
    exact hexc (by omega) hi
  · intro hword
    refine ⟨?_, ?_, fun i hi _ => hword i hi⟩
    · intro k i hk hk' hi hw
      have hbyte := toNat_frameByte nowrap hk' hi
      cases hw with
      | inl hw =>
          have := hown _ hw
          omega
      | inr hw =>
          have := BitVec.lt_def.mp hw
          omega
    · intro r k i hk hi hreason
      exact absurd hreason (hexc (trapFrame_slot_lt hk).2 hi)

end TraceFS.TrapEntry
