import TraceFS.Lib.WordCopy

/-!
`mem_loader`, which loads a binary image into a 32 KiB window of the core's
memory.

The file is its list of bytes. What the C library and the operating system answer
is an `Env`; the window keeps its bytes when it is unmapped.
-/
namespace TraceFS.MemLoader
open ByteMemory (Byte)

def windowSize : Nat := 0x8000
def fileAlignmentMin : Nat := 4
def fileAlignmentPreferred : Nat := 8

/-- The memory behind a mapping. -/
structure Window where
  bytes : List Byte
  size : bytes.length = windowSize

/-- Which calls succeed; `freadStops` is where a read error ends `fread`. -/
structure Env where
  fopenMagic : Bool
  mmap : Bool
  fopen : Bool
  fseekEnd : Bool
  ftell : Bool
  calloc : Bool
  fseekSet : Bool
  freadStops : Option Nat
  deriving DecidableEq, Repr

/-- Every call succeeds. -/
def Env.ok : Env :=
  { fopenMagic := true, mmap := true, fopen := true, fseekEnd := true, ftell := true
    calloc := true, fseekSet := true, freadStops := none }

/-- What is printed, with the numbers in it. -/
inductive Message where
  | elfFile
  | mappingFailed
  | openFailed
  | seekEndFailed
  | sizeFailed
  | notMultiple (fileSize : Nat)
  | exceedsWindow (fileSize paddedSize : Nat)
  | allocFailed
  | seekStartFailed
  | shortRead (expected got : Nat)
  | padded (bytes : Nat)
  | loaded (fileSize : Nat)
  deriving DecidableEq, Repr

structure Outcome where
  status : Int
  window : Window
  messages : List Message

/-- `fread(ptr, 1, n, f)`: the bytes read and the buffer after it. -/
def fread (env : Env) (file : List Byte) (n : Nat) (buffer : List Byte) : Nat × List Byte :=
  let got := match env.freadStops with
    | none => file.take n
    | some limit => (file.take n).take limit
  (got.length, got ++ buffer.drop got.length)

def checkElfMagic (env : Env) (file : List Byte) : Bool :=
  if env.fopenMagic then
    let (cnt, magic) := fread env file 4 [0, 0, 0, 0]
    cnt == 4 && magic.getD 0 0 == 0x7f && magic.getD 1 0 == 0x45 && magic.getD 2 0 == 0x4c &&
      magic.getD 3 0 == 0x46
  else false

def paddedSize (fileSize : Nat) : Nat :=
  if fileSize % fileAlignmentPreferred ≠ 0 then
    fileSize + (fileAlignmentPreferred - fileSize % fileAlignmentPreferred)
  else fileSize

/-- The word loop over the staging buffer. -/
def storeWords (fileBuffer : List Byte) (wordCount : Nat) (map : Window) : Window where
  bytes := WordCopy.copyWords fileBuffer wordCount map.bytes
  size := by rw [WordCopy.length_copyWords, map.size]

/-- From the size check on. -/
def loadSized (env : Env) (file : List Byte) (fileSize : Nat) (map : Window) : Outcome :=
  if fileSize % fileAlignmentMin ≠ 0 then ⟨1, map, [.notMultiple fileSize]⟩
  else if windowSize < paddedSize fileSize then
    ⟨1, map, [.exceedsWindow fileSize (paddedSize fileSize)]⟩
  else if !env.calloc then ⟨1, map, [.allocFailed]⟩
  else if !env.fseekSet then ⟨1, map, [.seekStartFailed]⟩
  else
    let fileBuffer := List.replicate (paddedSize fileSize) 0
    let (bytesRead, fileBuffer) := fread env file fileSize fileBuffer
    if bytesRead ≠ fileSize then ⟨1, map, [.shortRead fileSize bytesRead]⟩
    else
      let wordCount := paddedSize fileSize / 4
      let map := storeWords fileBuffer wordCount map
      let info := if fileSize % fileAlignmentPreferred ≠ 0 then
          [.padded (paddedSize fileSize - fileSize)]
        else []
      ⟨0, map, info ++ [.loaded fileSize]⟩

def loadFileToWindow (env : Env) (file : List Byte) (map : Window) : Outcome :=
  if checkElfMagic env file then ⟨1, map, [.elfFile]⟩
  else if !env.mmap then ⟨1, map, [.mappingFailed]⟩
  else if !env.fopen then ⟨1, map, [.openFailed]⟩
  else if !env.fseekEnd then ⟨1, map, [.seekEndFailed]⟩
  else
    let fileSizeLong : Int := if env.ftell then file.length else -1
    if fileSizeLong < 0 then ⟨1, map, [.sizeFailed]⟩
    else loadSized env file fileSizeLong.toNat map

/-! What a load does: nothing, or the whole image. -/

def elfMagic : List Byte := [0x7f, 0x45, 0x4c, 0x46]

/-- The zero bytes behind the file, up to the next multiple of 8. -/
def padding (file : List Byte) : List Byte := List.replicate ((8 - file.length % 8) % 8) 0

def image (file : List Byte) (map : Window) : List Byte :=
  file ++ padding file ++ map.bytes.drop (file ++ padding file).length

def Loadable (file : List Byte) : Prop :=
  ¬ elfMagic <+: file ∧ 4 ∣ file.length ∧ file.length ≤ windowSize

theorem paddedSize_eq (fileSize : Nat) :
    paddedSize fileSize = fileSize + (8 - fileSize % 8) % 8 := by
  by_cases h : fileSize % fileAlignmentPreferred ≠ 0
  · rw [paddedSize, if_pos h]
    simp only [fileAlignmentPreferred] at h ⊢
    omega
  · rw [paddedSize, if_neg h]
    simp only [fileAlignmentPreferred] at h
    omega

theorem length_padded (file : List Byte) :
    (file ++ padding file).length = paddedSize file.length := by
  rw [List.length_append, padding, List.length_replicate, paddedSize_eq]

theorem checkElfMagic_ok (file : List Byte) :
    checkElfMagic .ok file = true ↔ elfMagic <+: file := by
  match file with
  | [] | [_] | [_, _] | [_, _, _] => simp [checkElfMagic, Env.ok, fread, elfMagic]
  | b0 :: b1 :: b2 :: b3 :: rest =>
      simp only [checkElfMagic, Env.ok, fread, elfMagic]
      simp
      constructor
      · intro ⟨⟨⟨h0, h1⟩, h2⟩, h3⟩
        exact ⟨h0.symm, h1.symm, h2.symm, h3.symm⟩
      · intro ⟨h0, h1, h2, h3⟩
        exact ⟨⟨⟨h0.symm, h1.symm⟩, h2.symm⟩, h3.symm⟩

/-- The staging buffer holds the padded file. -/
theorem staged (file : List Byte) :
    fread .ok file file.length (List.replicate (paddedSize file.length) 0) =
      (file.length, file ++ padding file) := by
  have hrest : paddedSize file.length - file.length = (8 - file.length % 8) % 8 := by
    rw [paddedSize_eq]
    omega
  simp [fread, Env.ok, hrest, padding]

theorem paddedSize_le_iff {n : Nat} (h : 4 ∣ n) : paddedSize n ≤ windowSize ↔ n ≤ windowSize := by
  rw [paddedSize_eq, windowSize]
  omega

theorem storeWords_bytes (file : List Byte) (map : Window)
    (h : paddedSize file.length ≤ windowSize) :
    (storeWords (file ++ padding file) (paddedSize file.length / 4) map).bytes =
      image file map := by
  have hwords : 4 * (paddedSize file.length / 4) = (file ++ padding file).length := by
    rw [length_padded, paddedSize_eq]
    omega
  have hroom : 4 * (paddedSize file.length / 4) ≤ map.bytes.length := by
    rw [hwords, length_padded, map.size]
    exact h
  have hcopy := WordCopy.copyWords_eq (Nat.le_of_eq hwords) hroom
  rw [hwords, List.take_length] at hcopy
  exact hcopy

theorem load_eq_loadSized {file : List Byte} (hmagic : ¬ elfMagic <+: file) (map : Window) :
    loadFileToWindow .ok file map = loadSized .ok file file.length map := by
  have hlen : ¬ (file.length : Int) < 0 := by omega
  rw [loadFileToWindow, if_neg (mt (checkElfMagic_ok file).mp hmagic)]
  simp only [Env.ok, Bool.not_true, Bool.false_eq_true, if_false, if_true, if_neg hlen,
    Int.toNat_natCast]

theorem loadSized_ok {file : List Byte} (halign : 4 ∣ file.length)
    (hfits : file.length ≤ windowSize) (map : Window) :
    (loadSized .ok file file.length map).status = 0 ∧
      (loadSized .ok file file.length map).window =
        storeWords (file ++ padding file) (paddedSize file.length / 4) map := by
  have halign : ¬ file.length % fileAlignmentMin ≠ 0 := not_not.mpr (Nat.mod_eq_zero_of_dvd halign)
  have hpadded : ¬ windowSize < paddedSize file.length :=
    Nat.not_lt.mpr ((paddedSize_le_iff (Nat.dvd_of_mod_eq_zero (not_not.mp halign))).mpr hfits)
  have hcalloc : ¬ (!Env.ok.calloc) = true := by decide
  have hseek : ¬ (!Env.ok.fseekSet) = true := by decide
  simp only [loadSized, if_neg halign, if_neg hpadded, if_neg hcalloc, if_neg hseek, staged]
  simp

/-- A file that can be loaded is. -/
theorem load_of_loadable {file : List Byte} (h : Loadable file) (map : Window) :
    (loadFileToWindow .ok file map).status = 0 ∧
      (loadFileToWindow .ok file map).window.bytes = image file map := by
  have ⟨hmagic, halign, hfits⟩ := h
  have ⟨hstatus, hwindow⟩ := loadSized_ok halign hfits map
  rw [load_eq_loadSized hmagic map]
  refine ⟨hstatus, ?_⟩
  rw [hwindow]
  exact storeWords_bytes file map ((paddedSize_le_iff halign).mpr hfits)

/-- A failed load leaves the window alone. -/
def Outcome.Failed (out : Outcome) (map : Window) : Prop := out.status = 1 ∧ out.window = map

/-- From the size check on, a load fails or stores what it has staged. -/
theorem loadSized_spec (env : Env) (file : List Byte) (fileSize : Nat) (map : Window) :
    let staging := fread env file fileSize (List.replicate (paddedSize fileSize) 0)
    (loadSized env file fileSize map).Failed map ∨
      (fileSize % fileAlignmentMin = 0 ∧ paddedSize fileSize ≤ windowSize ∧
        staging.1 = fileSize) ∧
      (loadSized env file fileSize map).status = 0 ∧
      (loadSized env file fileSize map).window =
        storeWords staging.2 (paddedSize fileSize / 4) map := by
  intro staging
  unfold loadSized
  split
  case isTrue => exact .inl ⟨rfl, rfl⟩
  case isFalse halign =>
    split
    case isTrue => exact .inl ⟨rfl, rfl⟩
    case isFalse hpadded =>
      split
      case isTrue => exact .inl ⟨rfl, rfl⟩
      case isFalse =>
        split
        case isTrue => exact .inl ⟨rfl, rfl⟩
        case isFalse =>
          dsimp only
          split
          case isTrue => exact .inl ⟨rfl, rfl⟩
          case isFalse hread =>
            exact .inr ⟨⟨not_not.mp halign, Nat.le_of_not_lt hpadded, not_not.mp hread⟩, rfl, rfl⟩

/-- Before that it fails or gets there with the size of the file. -/
theorem load_spec (env : Env) (file : List Byte) (map : Window) :
    (loadFileToWindow env file map).Failed map ∨
      loadFileToWindow env file map = loadSized env file file.length map := by
  unfold loadFileToWindow
  split
  case isTrue => exact .inl ⟨rfl, rfl⟩
  case isFalse =>
    split
    case isTrue => exact .inl ⟨rfl, rfl⟩
    case isFalse =>
      split
      case isTrue => exact .inl ⟨rfl, rfl⟩
      case isFalse =>
        split
        case isTrue => exact .inl ⟨rfl, rfl⟩
        case isFalse =>
          cases env.ftell with
          | false => exact .inl ⟨rfl, rfl⟩
          | true =>
              have hlen : ¬ (file.length : Int) < 0 := by omega
              dsimp only
              rw [if_pos rfl, if_neg hlen, Int.toNat_natCast]
              exact .inr rfl

/-- Whatever call fails, the load is complete or has not touched the window. -/
theorem load_cases (env : Env) (file : List Byte) (map : Window) :
    (loadFileToWindow env file map).status = 0 ∨
      (loadFileToWindow env file map).Failed map := by
  cases load_spec env file map with
  | inl hfailed => exact .inr hfailed
  | inr hsized =>
      rw [hsized]
      cases loadSized_spec env file file.length map with
      | inl hfailed => exact .inr hfailed
      | inr hstored => exact .inl hstored.2.1

/-- A read that is not cut short is the one no error stops. -/
theorem fread_eq_ok {env : Env} {file buffer : List Byte} {n : Nat} (hn : n ≤ file.length)
    (h : (fread env file n buffer).1 = n) : fread env file n buffer = fread .ok file n buffer := by
  cases hstops : env.freadStops with
  | none => simp only [fread, hstops, Env.ok]
  | some limit =>
      simp only [fread, hstops, List.length_take] at h
      have hall : (file.take n).take limit = file.take n :=
        List.take_of_length_le (by rw [List.length_take]; omega)
      simp only [fread, hstops, Env.ok, hall]

/-- A load that reports success has put the whole image into the window. -/
theorem image_of_load {env : Env} {file : List Byte} {map : Window}
    (h : (loadFileToWindow env file map).status = 0) :
    4 ∣ file.length ∧ file.length ≤ windowSize ∧
      (loadFileToWindow env file map).window.bytes = image file map := by
  cases load_spec env file map with
  | inl hfailed =>
      rw [hfailed.1] at h
      cases h
  | inr hsized =>
      rw [hsized] at h ⊢
      cases loadSized_spec env file file.length map with
      | inl hfailed =>
          rw [hfailed.1] at h
          cases h
      | inr hstored =>
          have ⟨⟨halign, hpadded, hread⟩, _, hwindow⟩ := hstored
          have halign : 4 ∣ file.length := Nat.dvd_of_mod_eq_zero halign
          rw [hwindow, fread_eq_ok (Nat.le_refl _) hread, staged]
          exact ⟨halign, (paddedSize_le_iff halign).mp hpadded, storeWords_bytes file map hpadded⟩

/-- A load that succeeds had a file that can be loaded. -/
theorem loadable_of_load {file : List Byte} {map : Window}
    (h : (loadFileToWindow .ok file map).status = 0) : Loadable file := by
  have ⟨halign, hfits, _⟩ := image_of_load h
  refine ⟨?_, halign, hfits⟩
  intro helf
  rw [loadFileToWindow, if_pos ((checkElfMagic_ok file).mpr helf)] at h
  cases h

/-! What the image puts behind the file: zeros up to the padded size, then what the
window held before. -/

theorem getD_image_padding {file : List Byte} (map : Window) {k : Nat} (hk : file.length ≤ k)
    (h : k < paddedSize file.length) : (image file map).getD k 0 = 0 := by
  have hpadded : k < (file ++ padding file).length := by
    rw [length_padded]
    exact h
  have hzeros : k - file.length < (8 - file.length % 8) % 8 := by
    rw [paddedSize_eq] at h
    omega
  rw [image, List.getD_append _ _ _ _ hpadded, List.getD_append_right _ _ _ _ hk,
    padding, List.getD_replicate 0 hzeros]

theorem getD_image_rest {file : List Byte} (map : Window) {k : Nat}
    (h : paddedSize file.length ≤ k) :
    (image file map).getD k 0 = map.bytes.getD k 0 := by
  have hpadded := length_padded file
  rw [image, List.getD_append_right _ _ _ _ (by omega), List.getD_eq_getElem?_getD,
    List.getElem?_drop, List.getD_eq_getElem?_getD, Nat.add_sub_cancel' (by omega)]

theorem wordAt_image_padding {file : List Byte} (map : Window) {i : Nat}
    (hi : file.length ≤ 4 * i) (h : 4 * i < paddedSize file.length) :
    WordCopy.wordAt (image file map) i = 0 := by
  apply ByteMemory.eq_of_byteOf
  intro j hj
  have hin : 4 * i + j < paddedSize file.length := by
    rw [paddedSize_eq] at h ⊢
    omega
  rw [WordCopy.byteOf_wordAt _ i hj, getD_image_padding map (by omega) hin]
  exact (BitVec.extractLsb'_zero).symm

theorem wordAt_image_rest {file : List Byte} (map : Window) {i : Nat}
    (h : paddedSize file.length ≤ 4 * i) :
    WordCopy.wordAt (image file map) i = WordCopy.wordAt map.bytes i :=
  WordCopy.wordAt_congr fun j _ => getD_image_rest map (by omega)

end TraceFS.MemLoader
