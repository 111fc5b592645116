import TraceFS.Firmware.TrapEntry
import TraceFS.Tools.MemLoader

/-!
`_start` of `start.s` on a freshly loaded image, up to the call of `main`.

The image reaches from the code to the end of the `.data` section. What the linker
script places behind it is not part of the file: the loader leaves it alone, and
`_start` stores nothing but the reason of the last exception.
-/
namespace TraceFS.Start
open ByteMemory
open TrapEntry (Reg sp a0 a1 a4 setReg excReason)
open MemLoader (Window windowSize paddedSize)

def a5 : Reg := 15

inductive Instr
  | la (rd : Reg) (symbol : Addr)
  | addi (rd rs : Reg) (imm : Int)
  | li (rd : Reg) (imm : Int)
  | csrwMtvec (rs : Reg)
  | sw (rs2 : Reg) (offset : Nat) (base : Reg)
  deriving DecidableEq, Repr

/-- The code of `_start` before `call main`, with the addresses of `_sp` and
`_trap_vector_table`. -/
def start (stackTop trapVectorTable : Addr) : List Instr :=
  [ .la sp stackTop
  , .la a4 trapVectorTable
  , .addi a4 a4 1
  , .csrwMtvec a4
  , .la a4 excReason
  , .li a5 0
  , .sw a5 0 a4
  , .sw a5 4 a4
  , .li a0 0
  , .li a1 0 ]

structure Cpu where
  regs : Reg → Word
  mem : Memory
  mtvec : Word

def execInstr (c : Cpu) : Instr → Cpu
  | .la rd symbol => { c with regs := setReg c.regs rd symbol }
  | .addi rd rs imm => { c with regs := setReg c.regs rd (c.regs rs + BitVec.ofInt 32 imm) }
  | .li rd imm => { c with regs := setReg c.regs rd (BitVec.ofInt 32 imm) }
  | .csrwMtvec rs => { c with mtvec := c.regs rs }
  | .sw rs2 offset base =>
      { c with mem := storeWord c.mem (c.regs base + BitVec.ofNat 32 offset) (c.regs rs2) }

/-- `ORIGIN(AXI_BRAM_CODE)`, where the loader's window lies in the core's memory. -/
def bram : Addr := 0xa1040000

def withBram (m : Memory) (map : Window) : Memory := fun a =>
  if (a - bram).toNat < windowSize then map.bytes.getD (a - bram).toNat 0 else m a

/-- The processor when `main` is called, having started with `map` in the window. -/
def atMain (stackTop trapVectorTable : Addr) (c : Cpu) (map : Window) : Cpu :=
  (start stackTop trapVectorTable).foldl execInstr { c with mem := withBram c.mem map }

/-- Where the linker script ends `.data` and places `.bss`, as offsets into the window.
`.data` starts with the two words of `__exc_reason`. -/
structure Layout where
  dataEnd : Nat
  bssStart : Nat
  bssEnd : Nat
  excReason_le : 0x4008 ≤ dataEnd
  dataEnd_le : dataEnd ≤ bssStart
  bssStart_le : bssStart ≤ bssEnd
  bssEnd_le : bssEnd ≤ windowSize
  dataEnd_aligned : 4 ∣ dataEnd
  bssStart_aligned : 4 ∣ bssStart
  bssEnd_aligned : 4 ∣ bssEnd

/-- Word `i` of the window. -/
def bramWord (m : Memory) (i : Nat) : Word := loadWord m (bram + BitVec.ofNat 32 (4 * i))

/-- The words between `__bss_start` and `__bss_end`. -/
def Layout.InBss (l : Layout) (i : Nat) : Prop := l.bssStart ≤ 4 * i ∧ 4 * i < l.bssEnd

def Layout.BssZero (l : Layout) (m : Memory) : Prop := ∀ i, l.InBss i → bramWord m i = 0

/-! What `main` finds: the window as the loader has left it. -/

theorem atMain_mem (stackTop trapVectorTable : Addr) (c : Cpu) (map : Window) :
    (atMain stackTop trapVectorTable c map).mem =
      storeWord (storeWord (withBram c.mem map) excReason 0) (excReason + 4) 0 := rfl

theorem toNat_bram {k : Nat} (h : k < windowSize) :
    (bram + BitVec.ofNat 32 k).toNat = 0xa1040000 + k := by
  have hbram : bram.toNat = 0xa1040000 := rfl
  simp only [windowSize] at h
  rw [BitVec.toNat_add, BitVec.toNat_ofNat, hbram]
  omega

theorem withBram_apply (m : Memory) (map : Window) {k : Nat} (h : k < windowSize) :
    withBram m map (bram + BitVec.ofNat 32 k) = map.bytes.getD k 0 := by
  have hk : k < 2 ^ 32 := Nat.lt_trans h (by decide)
  have hoffset : (bram + BitVec.ofNat 32 k - bram).toNat = k := by
    rw [BitVec.add_comm, BitVec.add_sub_cancel, BitVec.toNat_ofNat, Nat.mod_eq_of_lt hk]
  rw [withBram, hoffset, if_pos h]

/-- Behind `__exc_reason` nothing of the window has changed. -/
theorem atMain_apply (stackTop trapVectorTable : Addr) (c : Cpu) (map : Window) {k : Nat}
    (hexc : 0x4008 ≤ k) (h : k < windowSize) :
    (atMain stackTop trapVectorTable c map).mem (bram + BitVec.ofNat 32 k) =
      map.bytes.getD k 0 := by
  have hmcause : excReason.toNat = 0xa1044000 := rfl
  have hmepc : (excReason + 4).toNat = 0xa1044004 := rfl
  rw [atMain_mem, storeWord_above (by rw [hmepc, toNat_bram h]; omega),
    storeWord_above (by rw [hmcause, toNat_bram h]; omega), withBram_apply c.mem map h]

theorem bramWord_atMain (stackTop trapVectorTable : Addr) (c : Cpu) (map : Window) {i : Nat}
    (hexc : 0x4008 ≤ 4 * i) (h : 4 * i < windowSize) :
    bramWord (atMain stackTop trapVectorTable c map).mem i = WordCopy.wordAt map.bytes i := by
  rw [bramWord, loadWord_eq_iff]
  intro j hj
  have haligned : 4 * i + j < windowSize := by
    simp only [windowSize] at h ⊢
    omega
  rw [BitVec.add_assoc, ← BitVec.ofNat_add, atMain_apply stackTop trapVectorTable c map (by omega)
    haligned, WordCopy.byteOf_wordAt map.bytes i hj]

section Load
variable (l : Layout) (stackTop trapVectorTable : Addr) (c : Cpu) {env : MemLoader.Env}
  {file : List Byte} {map : Window} (hfile : file.length = l.dataEnd)
  (hload : (MemLoader.loadFileToWindow env file map).status = 0)
include hfile hload

/-- A word of `.bss` at the call of `main`. -/
theorem bss_atMain {i : Nat} (hi : l.InBss i) :
    bramWord (atMain stackTop trapVectorTable c
        (MemLoader.loadFileToWindow env file map).window).mem i =
      if 4 * i < paddedSize file.length then 0 else WordCopy.wordAt map.bytes i := by
  have ⟨hstart, hend⟩ := hi
  have hexc := l.excReason_le
  have hdata := l.dataEnd_le
  have hbss := l.bssEnd_le
  rw [bramWord_atMain stackTop trapVectorTable c _ (by omega) (by omega),
    (MemLoader.image_of_load hload).2.2]
  split
  case isTrue h => exact MemLoader.wordAt_image_padding map (by omega) h
  case isFalse h => exact MemLoader.wordAt_image_rest map (Nat.le_of_not_lt h)

/-- `.bss` is zero at the call of `main` exactly when it was before the load, from the
first word on that no store of the loader reaches. -/
theorem bss_zero_iff :
    l.BssZero (atMain stackTop trapVectorTable c
        (MemLoader.loadFileToWindow env file map).window).mem ↔
      ∀ i, l.InBss i → paddedSize file.length ≤ 4 * i → WordCopy.wordAt map.bytes i = 0 := by
  constructor
  · intro h i hi hrest
    have hword := h i hi
    rwa [bss_atMain l stackTop trapVectorTable c hfile hload hi,
      if_neg (Nat.not_lt.mpr hrest)] at hword
  · intro h i hi
    rw [bss_atMain l stackTop trapVectorTable c hfile hload hi]
    split
    case isTrue => rfl
    case isFalse hrest => exact h i hi (Nat.le_of_not_lt hrest)

end Load

/-- Four words of `.bss` right behind the heartbeat counter and its padding. -/
def smallLayout : Layout where
  dataEnd := 0x4010
  bssStart := 0x4010
  bssEnd := 0x4020
  excReason_le := by decide
  dataEnd_le := by decide
  bssStart_le := by decide
  bssEnd_le := by decide
  dataEnd_aligned := by decide
  bssStart_aligned := by decide
  bssEnd_aligned := by decide

def blankImage : List Byte := List.replicate 0x4010 0

def filled (b : Byte) : Window := ⟨List.replicate windowSize b, List.length_replicate⟩

def resetCpu : Cpu := { regs := fun _ => 0, mem := fun _ => 0, mtvec := 0 }

theorem blankImage_loadable : MemLoader.Loadable blankImage := by
  have hlen : blankImage.length = 0x4010 := List.length_replicate
  refine ⟨?_, ?_, ?_⟩
  · intro ⟨rest, hmagic⟩
    have hhead := congrArg (fun bs => bs.getD 0 0) hmagic
    rw [blankImage, List.getD_replicate 0 (by decide)] at hhead
    have helf : (0x7f : Byte) = 0 := hhead
    exact absurd helf (by decide)
  · rw [hlen]
    decide
  · rw [hlen]
    decide

theorem wordAt_filled (b : Byte) {i : Nat} (h : 4 * i < windowSize) :
    WordCopy.wordAt (filled b).bytes i = b ++ b ++ b ++ b := by
  have hall : 4 * i + 3 < windowSize := by
    simp only [windowSize] at h ⊢
    omega
  have hbyte {k : Nat} (hk : k ≤ 4 * i + 3) : (filled b).bytes.getD k 0 = b :=
    List.getD_replicate b (Nat.lt_of_le_of_lt hk hall)
  have hword : WordCopy.wordAt (filled b).bytes i =
      (filled b).bytes.getD (4 * i + 3) 0 ++ (filled b).bytes.getD (4 * i + 2) 0 ++
        (filled b).bytes.getD (4 * i + 1) 0 ++ (filled b).bytes.getD (4 * i + 0) 0 := rfl
  rw [hword, hbyte (by omega), hbyte (by omega), hbyte (by omega), hbyte (by omega)]

/-- Three words of `.bss`, the first of them under the loader's padding. -/
def paddedLayout : Layout where
  dataEnd := 0x4014
  bssStart := 0x4014
  bssEnd := 0x4020
  excReason_le := by decide
  dataEnd_le := by decide
  bssStart_le := by decide
  bssEnd_le := by decide
  dataEnd_aligned := by decide
  bssStart_aligned := by decide
  bssEnd_aligned := by decide

def countingImage : List Byte := (List.range 0x4014).map (BitVec.ofNat 8)

theorem length_countingImage : countingImage.length = 0x4014 := by
  rw [countingImage, List.length_map, List.length_range]

theorem countingImage_loadable : MemLoader.Loadable countingImage := by
  refine ⟨?_, ?_, ?_⟩
  · intro ⟨rest, hmagic⟩
    have hhead := congrArg (fun bs => bs[0]?) hmagic
    rw [countingImage, List.getElem?_map, List.getElem?_range (by decide)] at hhead
    have helf : (0x7f : Byte) = 0 := Option.some.inj hhead
    exact absurd helf (by decide)
  · rw [length_countingImage]
    decide
  · rw [length_countingImage]
    decide

/-- Zero from the end of the padding to that of `.bss`, nowhere else. -/
def cleared : Window :=
  ⟨(List.range windowSize).map fun k => if 0x4018 ≤ k ∧ k < 0x4020 then 0 else 0xff,
    by rw [List.length_map, List.length_range]⟩

theorem bss_zero_cleared :
    paddedLayout.BssZero (atMain 0x4ff0 0xa1040080 resetCpu
      (MemLoader.loadFileToWindow .ok countingImage cleared).window).mem := by
  refine (bss_zero_iff paddedLayout 0x4ff0 0xa1040080 resetCpu length_countingImage
    (MemLoader.load_of_loadable countingImage_loadable cleared).1).mpr fun i hi hrest => ?_
  have hpadded : paddedSize countingImage.length = 0x4018 := by
    rw [length_countingImage]
    rfl
  have hend : 4 * i < 0x4020 := hi.2
  have hbyte {k : Nat} (hk : k < 4) : cleared.bytes.getD (4 * i + k) 0 = 0 := by
    rw [cleared, List.getD_eq_getElem?_getD, List.getElem?_map, List.getElem?_range (by
      unfold windowSize
      omega), Option.map_some, if_pos (by omega), Option.getD_some]
  have hword : WordCopy.wordAt cleared.bytes i =
      cleared.bytes.getD (4 * i + 3) 0 ++ cleared.bytes.getD (4 * i + 2) 0 ++
        cleared.bytes.getD (4 * i + 1) 0 ++ cleared.bytes.getD (4 * i + 0) 0 := rfl
  rw [hword, hbyte (by decide), hbyte (by decide), hbyte (by decide), hbyte (by decide)]
  rfl

/-- Memory left over from an earlier run shows in `.bss`. -/
theorem bss_keeps_previous :
    (MemLoader.loadFileToWindow .ok blankImage (filled 0xff)).status = 0 ∧
      bramWord (atMain 0x4ff0 0xa1040080 resetCpu
        (MemLoader.loadFileToWindow .ok blankImage (filled 0xff)).window).mem 0x1004 =
          0xffffffff ∧
      ¬ smallLayout.BssZero (atMain 0x4ff0 0xa1040080 resetCpu
        (MemLoader.loadFileToWindow .ok blankImage (filled 0xff)).window).mem := by
  have hload := (MemLoader.load_of_loadable blankImage_loadable (filled 0xff)).1
  have hin : smallLayout.InBss 0x1004 := by
    constructor
    · decide
    · decide
  have hlen : blankImage.length = smallLayout.dataEnd := List.length_replicate
  have hword := bss_atMain smallLayout 0x4ff0 0xa1040080 resetCpu hlen hload hin
  rw [hlen, if_neg (by decide), wordAt_filled 0xff (by decide)] at hword
  refine ⟨hload, hword, fun hzero => ?_⟩
  rw [hzero 0x1004 hin] at hword
  exact absurd hword (by decide)

end TraceFS.Start
