import TraceFS.Lib.BitSlices
import TraceFS.Lib.Framing
import TraceFS.Firmware.CTrace

/-!
The C-Trace data protocol read back from the command words.

Bit 22 of the direct data is the continue flag of a code whose codewords are the
word lists of the single emissions, so the library of framed codes gives unique
decoding and resynchronisation once every codeword is framed and decodable.
-/
namespace TraceFS.CTrace
open Framing BitSlices

/-- One call of an emitter; `__builtin_ctrace_emit_pc` is `marker 0`. -/
inductive Emission where
  | u8 (data : BitVec 8) | u16 (data : BitVec 16) | u32 (data : BitVec 32) | u64 (data : BitVec 64)
  | s8 (data : BitVec 8) | s16 (data : BitVec 16) | s32 (data : BitVec 32) | s64 (data : BitVec 64)
  | f32 (data : BitVec 32) | f64 (data : BitVec 64) | p32 (data : BitVec 32)
  | ownership (id : BitVec 16) | marker (tag : BitVec 8) | nop | sync
  deriving DecidableEq, Repr

def Emission.words : Emission → List Word
  | .u8 d => emitDataU8 d | .u16 d => emitDataU16 d
  | .u32 d => emitDataU32 d | .u64 d => emitDataU64 d
  | .s8 d => emitDataS8 d | .s16 d => emitDataS16 d
  | .s32 d => emitDataS32 d | .s64 d => emitDataS64 d
  | .f32 d => emitDataF32 d | .f64 d => emitDataF64 d | .p32 d => emitDataP32 d
  | .ownership id => ownershipTrace id | .marker tag => emitMarker tag
  | .nop => emitNop | .sync => emitSync

/-- Bit 22 of the direct data: more words of this emission follow. -/
def continues (w : Word) : Bool := (directDataField w).getLsbD 22

def indicator (w : Word) : BitVec 8 := (directDataField w).extractLsb' 16 8

def payload (w : Word) : BitVec 16 := (directDataField w).extractLsb' 0 16

def join32 (word0 word1 : BitVec 16) : BitVec 32 :=
  word1.setWidth 32 <<< 16 ||| word0.setWidth 32

def join64 (word0 word1 word2 word3 : BitVec 16) : BitVec 64 :=
  word3.setWidth 64 <<< 48 ||| word2.setWidth 64 <<< 32 ||| word1.setWidth 64 <<< 16 |||
    word0.setWidth 64

/-- Read the words of one emission: a single word by its command, a longer frame
by the type indicator of its last word. -/
def decodeFrame : List Word → Option Emission
  | [w] =>
      if cmdField w = 0#6 then some .nop
      else if cmdField w = 12#6 then some .sync
      else if cmdField w = 1#6 then some (.marker ((payload w).setWidth 8))
      else if indicator w = 0x21#8 then some (.u8 ((payload w).setWidth 8))
      else if indicator w = 0x22#8 then some (.u16 (payload w))
      else if indicator w = 0x11#8 then some (.s8 ((payload w).setWidth 8))
      else if indicator w = 0x12#8 then some (.s16 (payload w))
      else if indicator w = 0x80#8 then some (.ownership (payload w))
      else none
  | [w0, w1] =>
      let data := join32 (payload w0) (payload w1)
      if indicator w1 = 0x24#8 then some (.u32 data)
      else if indicator w1 = 0x14#8 then some (.s32 data)
      else if indicator w1 = 0x34#8 then some (.f32 data)
      else if indicator w1 = 0x04#8 then some (.p32 data)
      else none
  | [w0, w1, w2, w3] =>
      let data := join64 (payload w0) (payload w1) (payload w2) (payload w3)
      if indicator w3 = 0x28#8 then some (.u64 data)
      else if indicator w3 = 0x18#8 then some (.s64 data)
      else if indicator w3 = 0x38#8 then some (.f64 data)
      else none
  | _ => none

/-! The words of the data protocol in terms of indicator and payload. -/

def dataWord (ind : BitVec 8) (data : BitVec 16) : Word :=
  buildCommandWord Cmd.daqDirectData.val Sink.nexus.val
    (ind.setWidth 32 <<< 16 ||| data.setWidth 32)

@[simp] theorem cmdField_dataWord (ind : BitVec 8) (data : BitVec 16) :
    cmdField (dataWord ind data) = 3#6 := by
  rw [dataWord, cmdField_build]
  rfl

theorem getLsbD_directData (ind : BitVec 8) (data : BitVec 16) (i : Nat) (hi : i < 24) :
    (directDataField (dataWord ind data)).getLsbD i =
      if i < 16 then data.getLsbD i else ind.getLsbD (i - 16) := by
  rw [dataWord, directDataField_build]
  simp only [BitVec.getLsbD_setWidth, BitVec.getLsbD_or, BitVec.getLsbD_shiftLeft, hi,
    show i < 32 by omega, show i - 16 < 32 by omega, decide_true, Bool.true_and]
  by_cases h : i < 16
  · simp only [h, decide_true, Bool.not_true, Bool.false_and, Bool.false_or, if_true]
  · simp only [h, decide_false, Bool.not_false, Bool.true_and, if_false,
      BitVec.getLsbD_of_ge data i (Nat.not_lt.mp h), Bool.or_false]

@[simp] theorem indicator_dataWord (ind : BitVec 8) (data : BitVec 16) :
    indicator (dataWord ind data) = ind := by
  apply BitVec.eq_of_getLsbD_eq
  intro i hi
  simp [indicator, getLsbD_directData _ _ (16 + i) (by omega), hi]

@[simp] theorem payload_dataWord (ind : BitVec 8) (data : BitVec 16) :
    payload (dataWord ind data) = data := by
  apply BitVec.eq_of_getLsbD_eq
  intro i hi
  simp [payload, getLsbD_directData _ _ i (by omega), hi]

@[simp] theorem continues_dataWord (ind : BitVec 8) (data : BitVec 16) :
    continues (dataWord ind data) = ind.getLsbD 6 := by
  rw [continues, getLsbD_directData _ _ 22 (by omega)]
  rfl

theorem emitOne_eq {type width : Word} {ind : BitVec 8} (data : BitVec 16)
    (h : dataSeqEndMarker ||| type ||| width = ind.setWidth 32 <<< 16) :
    emitOne type width data = [dataWord ind data] := by
  rw [emitOne, emitDataRaw, h, dataWord]

theorem emitTwo_eq {type : Word} {more ind : BitVec 8} (word0 word1 : BitVec 16)
    (hmore : dataSeqContinueMarker ||| type ||| data32bitMarker = more.setWidth 32 <<< 16)
    (hend : dataSeqEndMarker ||| type ||| data32bitMarker = ind.setWidth 32 <<< 16) :
    emitTwo type word0 word1 = [dataWord more word0, dataWord ind word1] := by
  rw [emitTwo, emitDataRaw, emitDataRaw, hmore, hend]
  rfl

theorem emitFour_eq {type : Word} {more ind : BitVec 8} (word0 word1 word2 word3 : BitVec 16)
    (hmore : dataSeqContinueMarker ||| type ||| data64bitMarker = more.setWidth 32 <<< 16)
    (hend : dataSeqEndMarker ||| type ||| data64bitMarker = ind.setWidth 32 <<< 16) :
    emitFour type word0 word1 word2 word3 =
      [dataWord more word0, dataWord more word1, dataWord more word2, dataWord ind word3] := by
  simp only [emitFour, emitDataRaw, hmore, hend]
  rfl

theorem words_eq (e : Emission) :
    e.words = match e with
      | .u8 d => [dataWord 0x21 (d.setWidth 16)]
      | .u16 d => [dataWord 0x22 d]
      | .u32 d => [dataWord 0x64 (half d 0), dataWord 0x24 (half d 16)]
      | .u64 d => [dataWord 0x68 (half d 0), dataWord 0x68 (half d 16), dataWord 0x68 (half d 32),
          dataWord 0x28 (half d 48)]
      | .s8 d => [dataWord 0x11 (d.setWidth 16)]
      | .s16 d => [dataWord 0x12 d]
      | .s32 d => [dataWord 0x54 (shalf d 0), dataWord 0x14 (shalf d 16)]
      | .s64 d => [dataWord 0x58 (shalf d 0), dataWord 0x58 (shalf d 16),
          dataWord 0x58 (shalf d 32), dataWord 0x18 (shalf d 48)]
      | .f32 d => [dataWord 0x74 (half d 0), dataWord 0x34 (half d 16)]
      | .f64 d => [dataWord 0x78 (half d 0), dataWord 0x78 (half d 16), dataWord 0x78 (half d 32),
          dataWord 0x38 (half d 48)]
      | .p32 d => [dataWord 0x44 (half d 0), dataWord 0x04 (half d 16)]
      | .ownership id => [dataWord 0x80 id]
      | .marker tag => emitMarker tag
      | .nop => emitNop
      | .sync => emitSync := by
  cases e with
  | u8 d | u16 d | s8 d | s16 d => exact emitOne_eq _ rfl
  | u32 d | s32 d | f32 d | p32 d => exact emitTwo_eq _ _ rfl rfl
  | u64 d | s64 d | f64 d => exact emitFour_eq _ _ _ _ rfl rfl
  | ownership id => rfl
  | marker tag | nop | sync => rfl

/-! Values survive the split into 16-bit words. -/

theorem getLsbD_mask16 {w i : Nat} (hw : 16 ≤ w) (hi : i < 16) :
    (0xffff#w).getLsbD i = true := by
  rw [BitVec.getLsbD_ofNat, show 0xffff = 2 ^ 16 - 1 by rfl, Nat.testBit_two_pow_sub_one]
  simp [hi, show i < w by omega]

theorem getLsbD_half {w : Nat} (data : BitVec w) (k i : Nat) (hw : 16 ≤ w) (hi : i < 16) :
    (half data k).getLsbD i = data.getLsbD (k + i) := by
  simp only [half, BitVec.getLsbD_setWidth, BitVec.getLsbD_and, BitVec.getLsbD_ushiftRight,
    getLsbD_mask16 hw hi, hi, decide_true, Bool.true_and, Bool.and_true]

/-- Nothing of the copied sign bit is left in a 16-bit slice. -/
theorem shalf_eq_half {w : Nat} (data : BitVec w) (k : Nat) (hk : k + 16 ≤ w) :
    shalf data k = half data k := by
  apply BitVec.eq_of_getLsbD_eq
  intro i hi
  rw [getLsbD_half data k i (by omega) hi]
  simp only [shalf, BitVec.getLsbD_setWidth, BitVec.getLsbD_and, BitVec.getLsbD_sshiftRight,
    getLsbD_mask16 (by omega : 16 ≤ w) hi, hi, show ¬ w ≤ i by omega, show k + i < w by omega,
    decide_true, decide_false, Bool.not_false, Bool.true_and, Bool.and_true, if_true]

theorem half_eq_extractLsb' {w : Nat} (data : BitVec w) (k : Nat) (hw : 16 ≤ w) :
    half data k = data.extractLsb' k 16 := by
  apply BitVec.eq_of_getLsbD_eq
  intro i hi
  rw [getLsbD_half data k i hw hi, BitVec.getLsbD_extractLsb', decide_eq_true hi, Bool.true_and]

theorem setWidth_half {w : Nat} (data : BitVec w) (hw : 16 ≤ w) :
    (half data 0).setWidth w = placed data 0 16 := by
  rw [half_eq_extractLsb' data 0 hw, placed, BitVec.shiftLeft_zero]

theorem setWidth_half_shift {w : Nat} (data : BitVec w) (k : Nat) (hw : 16 ≤ w) :
    (half data k).setWidth w <<< k = placed data k 16 := by
  rw [half_eq_extractLsb' data k hw, placed]

theorem join32_half (data : BitVec 32) : join32 (half data 0) (half data 16) = data := by
  rw [join32, setWidth_half_shift data 16 (by decide), setWidth_half data (by decide),
    placed_eq_above data 16 16 (by decide), above_or_placed data 0 16, above_zero]

theorem join64_half (data : BitVec 64) :
    join64 (half data 0) (half data 16) (half data 32) (half data 48) = data := by
  rw [join64, setWidth_half_shift data 48 (by decide), setWidth_half_shift data 32 (by decide),
    setWidth_half_shift data 16 (by decide), setWidth_half data (by decide),
    placed_eq_above data 48 16 (by decide), above_or_placed data 32 16,
    above_or_placed data 16 16, above_or_placed data 0 16, above_zero]

theorem directData_marker (tag : BitVec 8) :
    directDataField (buildCommandWord Cmd.daqPcCurr.val Sink.nexus.val (tag.setWidth 32)) =
      tag.setWidth 24 := by
  rw [directDataField_build, BitVec.setWidth_setWidth_of_le tag (by omega)]

theorem payload_marker (tag : BitVec 8) :
    (payload (buildCommandWord Cmd.daqPcCurr.val Sink.nexus.val (tag.setWidth 32))).setWidth 8 =
      tag := by
  rw [payload, directData_marker]
  apply BitVec.eq_of_getLsbD_eq
  intro i hi
  simp only [BitVec.getLsbD_setWidth, BitVec.getLsbD_extractLsb', hi, show i < 16 by omega,
    Nat.zero_add, decide_true, Bool.true_and]
  simp [show i < 24 by omega]

theorem continues_marker (tag : BitVec 8) :
    continues (buildCommandWord Cmd.daqPcCurr.val Sink.nexus.val (tag.setWidth 32)) = false := by
  rw [continues, directData_marker, BitVec.getLsbD_setWidth, BitVec.getLsbD_of_ge tag 22 (by omega),
    Bool.and_false]

/-! The protocol as a framed code. -/

theorem words_framed (e : Emission) : Framed continues e.words := by
  rw [words_eq]
  cases e with
  | u8 d | u16 d | s8 d | s16 d | ownership d => exact ⟨[], _, rfl, by simp, by simp⟩
  | u32 d | s32 d | f32 d | p32 d => exact ⟨[_], _, rfl, by simp, by simp⟩
  | u64 d | s64 d | f64 d => exact ⟨[_, _, _], _, rfl, by simp, by simp⟩
  | marker tag => exact ⟨[], _, rfl, by simp, continues_marker tag⟩
  | nop => exact ⟨[], _, rfl, by simp, by decide⟩
  | sync => exact ⟨[], _, rfl, by simp, by decide⟩

theorem decodeFrame_words (e : Emission) : decodeFrame e.words = some e := by
  rw [words_eq]
  cases e with
  | u8 d | u16 d | s8 d | s16 d | ownership d => simp [decodeFrame]
  | u32 d | f32 d | p32 d => simp [decodeFrame, join32_half]
  | s32 d => simp [decodeFrame, shalf_eq_half, join32_half]
  | u64 d | f64 d => simp [decodeFrame, join64_half]
  | s64 d => simp [decodeFrame, shalf_eq_half, join64_half]
  | marker tag =>
      have hcmd : cmdField (buildCommandWord Cmd.daqPcCurr.val Sink.nexus.val (tag.setWidth 32)) =
          1#6 := by
        rw [cmdField_build]
        rfl
      simp [emitMarker, decodeFrame, hcmd, payload_marker]
  | nop => rfl
  | sync => rfl

def protocol : Code Word Emission where
  cont := continues
  encode := Emission.words
  decodeFrame := decodeFrame
  framed := words_framed
  decode_encode := decodeFrame_words

/-- The written words determine the list of emissions, and a reader that starts
at any word and discards through the first one whose direct-data bit 22 is clear
decodes exactly the emissions that start behind that word. -/
theorem emissions_decodable_from_any_word :
    (∀ es : List Emission, protocol.decode (es.flatMap Emission.words) = some es) ∧
    (∀ (es : List Emission) (k : Nat), ∃ m,
      protocol.decode (resync continues ((es.flatMap Emission.words).drop k)) =
        some (es.drop m) ∧
      ∀ i, i < es.length → (m ≤ i ↔
        protocol.syncPoint k (es.flatMap Emission.words) ≤
          ((es.take i).flatMap Emission.words).length)) ∧
    emitPc = (Emission.marker 0).words := by
  refine ⟨protocol.decode_stream, ?_, emitPc_eq_emitMarker⟩
  intro es k
  obtain ⟨m, aligned, starts⟩ := protocol.resync_drop es k
  refine ⟨m, ?_, starts⟩
  change protocol.decode (resync protocol.cont ((protocol.stream es).drop k)) = _
  rw [aligned, protocol.decode_stream]

end TraceFS.CTrace
