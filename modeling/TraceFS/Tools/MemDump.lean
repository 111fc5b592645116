import TraceFS.Tools.MemLoader

/-!
`mem_dump`, which writes the core's memory to a file, and what it finds there
after `mem_loader`.
-/
namespace TraceFS.MemDump
open ByteMemory (Byte)
open MemLoader (Window windowSize)

def bufferSize : Nat := 0x8000

/-- Which calls succeed; `fwrite` writes all it is given. -/
structure Env where
  openMem : Bool
  mmap : Bool
  fopen : Bool
  deriving DecidableEq, Repr

def Env.ok : Env := { openMem := true, mmap := true, fopen := true }

/-- `read_dev_mem`: its result and what the file holds, if it was opened; `none`
when the assertion on `size` fails. -/
def readDevMem (env : Env) (map : Window) (size : BitVec 32) (byteCopy : Bool) :
    Option (Bool × Option (List Byte)) :=
  if !env.openMem then some (false, none)
  else if !env.mmap then some (false, none)
  else if !env.fopen then some (false, none)
  else if bufferSize < size.toNat then none
  else
    let buffer := List.replicate bufferSize 0
    let binFile :=
      if byteCopy then (WordCopy.copyBytes map.bytes size.toNat buffer).take size.toNat
      else (WordCopy.copyWords map.bytes (bufferSize / 4) buffer).take (4 * (size.toNat / 4))
    some (true, some binFile)

/-- Word by word the whole words below `size` reach the file. -/
theorem readDevMem_words (map : Window) {size : BitVec 32} (h : size.toNat ≤ bufferSize) :
    readDevMem .ok map size false = some (true, some (map.bytes.take (4 * (size.toNat / 4)))) := by
  have hmap : 4 * (bufferSize / 4) = map.bytes.length := map.size.symm
  have hbuffer : 4 * (bufferSize / 4) = (List.replicate bufferSize (0 : Byte)).length :=
    List.length_replicate.symm
  have hcopy := WordCopy.copyWords_eq (Nat.le_of_eq hmap) (Nat.le_of_eq hbuffer)
  rw [hbuffer, List.drop_length, List.append_nil, ← hbuffer, hmap, List.take_length] at hcopy
  rw [readDevMem, if_neg (by decide), if_neg (by decide), if_neg (by decide),
    if_neg (Nat.not_lt.mpr h)]
  dsimp only
  rw [if_neg Bool.false_ne_true, hcopy]

/-- Byte by byte the first `size` bytes of the window reach the file. -/
theorem readDevMem_bytes (map : Window) {size : BitVec 32} (h : size.toNat ≤ bufferSize) :
    readDevMem .ok map size true = some (true, some (map.bytes.take size.toNat)) := by
  have hmap : size.toNat ≤ map.bytes.length := Nat.le_trans h (Nat.le_of_eq map.size.symm)
  have hbuffer : size.toNat ≤ (List.replicate bufferSize (0 : Byte)).length :=
    Nat.le_trans h (Nat.le_of_eq List.length_replicate.symm)
  have hlen : (map.bytes.take size.toNat).length = size.toNat := by
    rw [List.length_take]
    omega
  rw [readDevMem, if_neg (by decide), if_neg (by decide), if_neg (by decide),
    if_neg (Nat.not_lt.mpr h)]
  dsimp only
  rw [if_pos rfl, WordCopy.copyBytes_eq hmap hbuffer, List.take_left' hlen]

/-- Both modes write the first `size` bytes of the window. -/
def CopyModesAgree (map : Window) (size : BitVec 32) : Prop :=
  readDevMem .ok map size true = some (true, some (map.bytes.take size.toNat)) ∧
    readDevMem .ok map size false = readDevMem .ok map size true

theorem dvd_of_copyModesAgree {map : Window} {size : BitVec 32} (h : size.toNat ≤ bufferSize)
    (agree : CopyModesAgree map size) : 4 ∣ size.toNat := by
  have hroom : size.toNat ≤ map.bytes.length := Nat.le_trans h (Nat.le_of_eq map.size.symm)
  have hfiles := agree.2
  rw [readDevMem_words map h, readDevMem_bytes map h] at hfiles
  have hbytes := Option.some.inj (Prod.mk.inj (Option.some.inj hfiles)).2
  have hlen := congrArg List.length hbytes
  rw [List.length_take, List.length_take] at hlen
  omega

/-- The words leave out what `size` has beyond a multiple of four. -/
theorem copyModesAgree_iff (map : Window) {size : BitVec 32} (h : size.toNat ≤ bufferSize) :
    CopyModesAgree map size ↔ 4 ∣ size.toNat := by
  constructor
  · exact dvd_of_copyModesAgree h
  · intro hdvd
    refine ⟨readDevMem_bytes map h, ?_⟩
    rw [readDevMem_words map h, readDevMem_bytes map h, Nat.mul_div_cancel' hdvd]

def blank : Window := ⟨List.replicate windowSize 0, List.length_replicate⟩

/-- Any 256 bytes in a row are different. -/
def counting : Window :=
  ⟨(List.range windowSize).map (BitVec.ofNat 8), by rw [List.length_map, List.length_range]⟩

theorem copyModesAgree_counting :
    CopyModesAgree counting 0x7004 ∧ ¬ CopyModesAgree counting 0x7003 := by
  constructor
  · exact (copyModesAgree_iff counting (by decide)).mpr (by decide)
  · intro agree
    exact absurd ((copyModesAgree_iff counting (by decide)).mp agree) (by decide)

/-- Of six bytes the word copy writes four. -/
theorem words_drop_two_of_six :
    (6 : BitVec 32).toNat ≤ bufferSize ∧ ¬ CopyModesAgree blank 6 :=
  ⟨by decide, fun agree =>
    absurd (dvd_of_copyModesAgree (by decide : (6 : BitVec 32).toNat ≤ bufferSize) agree) (by decide)⟩

/-- A load is all or nothing and can be read back: it succeeds exactly on the files
that fit, then the window holds the padded file in front of its old bytes, and the
dump of the window shows just that. -/
theorem load_and_dump (file : List Byte) (map : Window) :
    let out := MemLoader.loadFileToWindow .ok file map
    (out.status = 0 ↔ ¬ [0x7f, 0x45, 0x4c, 0x46] <+: file ∧ 4 ∣ file.length ∧
      file.length ≤ 0x8000) ∧
    (out.status = 0 ∨ out.status = 1) ∧
    (out.status = 0 → ∃ zeros : Nat, zeros < 8 ∧ 8 ∣ file.length + zeros ∧
      out.window.bytes =
        file ++ List.replicate zeros 0 ++ map.bytes.drop (file.length + zeros) ∧
      readDevMem .ok out.window 0x8000 false = some (true, some
        (file ++ List.replicate zeros 0 ++ map.bytes.drop (file.length + zeros)))) ∧
    (out.status = 1 → out.window = map) := by
  intro out
  have hiff : out.status = 0 ↔ MemLoader.Loadable file :=
    ⟨MemLoader.loadable_of_load, fun h => (MemLoader.load_of_loadable h map).1⟩
  have hcases := MemLoader.load_cases .ok file map
  refine ⟨hiff, ?_, ?_, ?_⟩
  · cases hcases with
    | inl hdone => exact .inl hdone
    | inr hfailed => exact .inr hfailed.1
  · intro hdone
    have ⟨_, hbytes⟩ := MemLoader.load_of_loadable (hiff.mp hdone) map
    have himage : out.window.bytes = file ++ List.replicate ((8 - file.length % 8) % 8) 0 ++
        map.bytes.drop (file.length + (8 - file.length % 8) % 8) := by
      rw [hbytes, MemLoader.image, MemLoader.padding, List.length_append, List.length_replicate]
    refine ⟨(8 - file.length % 8) % 8, Nat.mod_lt _ (by omega), by omega, himage, ?_⟩
    have hall : 4 * ((0x8000 : BitVec 32).toNat / 4) = out.window.bytes.length :=
      out.window.size.symm
    rw [readDevMem_words out.window (by decide), hall, List.take_length, himage]
  · intro hone
    cases hcases with
    | inl hdone => rw [hdone] at hone; cases hone
    | inr hfailed => exact hfailed.2

end TraceFS.MemDump
