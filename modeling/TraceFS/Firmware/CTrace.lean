import Mathlib.Data.BitVec
import Mathlib.Tactic.IntervalCases

/-!
The C-Trace command register and the emitters of `hal/ctrace.h`.

An emitter is modelled by the list of 32-bit words it writes to the command
register at CSR 0xb10, in order. Integer arguments are their bit patterns, so a
signed argument is the two's complement pattern the C type holds. The functions are
named without `__builtin_ctrace_`, the enumerators of `ct_csr.h` without
`ct_csr_trActCapStCmd_`.
-/
namespace TraceFS.CTrace

abbrev Word := BitVec 32

inductive Cmd where
  | none | daqPcCurr | daqPcCurrLast | daqDirectData | daqData | daqDaddr | daqDataDaddr
  | daqIfetchTh | daqDataRdTh | daqDataWr | daqDataRd | cfSync | te
  deriving DecidableEq, Repr

def Cmd.val : Cmd → Word
  | .none => 0 | .daqPcCurr => 1 | .daqPcCurrLast => 2 | .daqDirectData => 3 | .daqData => 4
  | .daqDaddr => 5 | .daqDataDaddr => 6 | .daqIfetchTh => 8 | .daqDataRdTh => 9
  | .daqDataWr => 10 | .daqDataRd => 11 | .cfSync => 12 | .te => 13

inductive Sink where
  | nexus | axis | axisNexus | te
  deriving DecidableEq, Repr

def Sink.val : Sink → Word
  | .nexus => 0 | .axis => 1 | .axisNexus => 2 | .te => 3

def cmdPos : Nat := 0
def cmdMsk : Word := 0x3F#32 <<< cmdPos
def sinkPos : Nat := 6
def sinkMsk : Word := 0x3#32 <<< sinkPos
def directDataPos : Nat := 8
def directDataMsk : Word := 0xFFFFFF#32 <<< directDataPos

def buildCommandWord (command sink data : Word) : Word :=
  let command' := (command <<< cmdPos) &&& cmdMsk
  let sink' := (sink <<< sinkPos) &&& sinkMsk
  let data' := (data <<< directDataPos) &&& directDataMsk
  data' ||| sink' ||| command'

/-- The fields of the register, lowest bits first. -/
def cmdField (w : Word) : BitVec 6 := w.extractLsb' 0 6
def sinkField (w : Word) : BitVec 2 := w.extractLsb' 6 2
def directDataField (w : Word) : BitVec 24 := w.extractLsb' 8 24

/-- The three fields sit side by side: no argument reaches a neighbouring one. -/
theorem getLsbD_build (command sink data : Word) (i : Nat) (hi : i < 32) :
    (buildCommandWord command sink data).getLsbD i =
      if i < 6 then command.getLsbD i
      else if i < 8 then sink.getLsbD (i - 6)
      else data.getLsbD (i - 8) := by
  simp only [buildCommandWord, cmdMsk, sinkMsk, directDataMsk, cmdPos, sinkPos, directDataPos,
    BitVec.getLsbD_or, BitVec.getLsbD_and, BitVec.getLsbD_shiftLeft]
  interval_cases i <;> simp

theorem cmdField_build (command sink data : Word) :
    cmdField (buildCommandWord command sink data) = command.setWidth 6 := by
  apply BitVec.eq_of_getLsbD_eq
  intro i hi
  simp [cmdField, getLsbD_build _ _ _ i (by omega), hi]

theorem sinkField_build (command sink data : Word) :
    sinkField (buildCommandWord command sink data) = sink.setWidth 2 := by
  apply BitVec.eq_of_getLsbD_eq
  intro i hi
  simp [sinkField, getLsbD_build _ _ _ (6 + i) (by omega), hi, show 6 + i < 8 by omega]

theorem directDataField_build (command sink data : Word) :
    directDataField (buildCommandWord command sink data) = data.setWidth 24 := by
  apply BitVec.eq_of_getLsbD_eq
  intro i hi
  simp [directDataField, getLsbD_build _ _ _ (8 + i) (by omega), hi,
    show ¬ 8 + i < 6 by omega]

/-- `CT_CSR_trActCapStCmd_Type`, its bit-fields allocated from the lowest bit on. -/
structure TrActCapStCmd where
  cmd : BitVec 6
  sink : BitVec 2
  directData : BitVec 24
  deriving DecidableEq, Repr

/-- A value stored into a bit-field loses what the field has no room for. -/
def TrActCapStCmd.store (command sink data : Word) : TrActCapStCmd :=
  { cmd := command.setWidth 6, sink := sink.setWidth 2, directData := data.setWidth 24 }

/-- The member `w` of the union. -/
def TrActCapStCmd.w (r : TrActCapStCmd) : Word := r.directData ++ r.sink ++ r.cmd

def TrActCapStCmd.ofWord (w : Word) : TrActCapStCmd :=
  { cmd := cmdField w, sink := sinkField w, directData := directDataField w }

theorem ofWord_build (command sink data : Word) :
    TrActCapStCmd.ofWord (buildCommandWord command sink data) =
      TrActCapStCmd.store command sink data := by
  rw [TrActCapStCmd.ofWord, cmdField_build, sinkField_build, directDataField_build,
    TrActCapStCmd.store]

/-- Masks and shifts lay the word out as the bit-fields do. -/
theorem w_store (command sink data : Word) :
    (TrActCapStCmd.store command sink data).w = buildCommandWord command sink data := by
  apply BitVec.eq_of_getLsbD_eq
  intro i hi
  rw [getLsbD_build command sink data i hi]
  simp only [TrActCapStCmd.w, TrActCapStCmd.store, BitVec.getLsbD_append, BitVec.getLsbD_setWidth]
  by_cases hcmd : i < 6
  · simp [hcmd]
  · by_cases hsink : i < 8
    · have hplace : i - 6 < 2 := by omega
      simp [hcmd, hsink, hplace]
    · have hplace : ¬ i - 6 < 2 := by omega
      have hdata : i - 6 - 2 = i - 8 := by omega
      have hroom : i - 8 < 24 := by omega
      simp [hcmd, hsink, hplace, hdata, hroom]

/-! Emitters that carry no typed data. -/

def emitMarker (tag : BitVec 8) : List Word :=
  [buildCommandWord Cmd.daqPcCurr.val Sink.nexus.val (tag.setWidth 32)]

def emitPc : List Word := [Cmd.daqPcCurr.val <<< cmdPos ||| Sink.nexus.val <<< sinkPos]

def emitNop : List Word := [Cmd.none.val <<< cmdPos ||| Sink.nexus.val <<< sinkPos]

def emitSync : List Word := [Cmd.cfSync.val <<< cmdPos ||| Sink.nexus.val <<< sinkPos]

def emitDataRaw (data : Word) : List Word :=
  [buildCommandWord Cmd.daqDirectData.val Sink.nexus.val data]

theorem emitPc_eq_emitMarker : emitPc = emitMarker 0 := rfl

/-! The data-transfer protocol: bits 16 to 23 of the direct data tell the type. -/

def dataWidthMask : Word := 0x0f0000
def dataTypeMask : Word := 0x300000
def dataSequenceMask : Word := 0x400000
def dataOwnershipMask : Word := 0x800000
def data8bitMarker : Word := (0x01#32 <<< 16) &&& dataWidthMask
def data16bitMarker : Word := (0x02#32 <<< 16) &&& dataWidthMask
def data32bitMarker : Word := (0x04#32 <<< 16) &&& dataWidthMask
def data64bitMarker : Word := (0x08#32 <<< 16) &&& dataWidthMask
def dataPtrMarker : Word := (0x00#32 <<< 16) &&& dataTypeMask
def dataIntMarker : Word := (0x10#32 <<< 16) &&& dataTypeMask
def dataUintMarker : Word := (0x20#32 <<< 16) &&& dataTypeMask
def dataFloatMarker : Word := (0x30#32 <<< 16) &&& dataTypeMask
def dataSeqEndMarker : Word := (0x00#32 <<< 16) &&& dataSequenceMask
def dataSeqContinueMarker : Word := (0x40#32 <<< 16) &&& dataSequenceMask
def dataOwnershipMarker : Word := (0x80#32 <<< 16) &&& dataOwnershipMask

/-- The one-word emitters: `SEQ_END | type | width | data`. -/
def emitOne (type width : Word) (data : BitVec 16) : List Word :=
  emitDataRaw (dataSeqEndMarker ||| type ||| width ||| data.setWidth 32)

/-- The two-word emitters, low half first. -/
def emitTwo (type : Word) (word0 word1 : BitVec 16) : List Word :=
  emitDataRaw (dataSeqContinueMarker ||| type ||| data32bitMarker ||| word0.setWidth 32) ++
  emitDataRaw (dataSeqEndMarker ||| type ||| data32bitMarker ||| word1.setWidth 32)

/-- The four-word emitters, lowest quarter first. -/
def emitFour (type : Word) (word0 word1 word2 word3 : BitVec 16) : List Word :=
  emitDataRaw (dataSeqContinueMarker ||| type ||| data64bitMarker ||| word0.setWidth 32) ++
  emitDataRaw (dataSeqContinueMarker ||| type ||| data64bitMarker ||| word1.setWidth 32) ++
  emitDataRaw (dataSeqContinueMarker ||| type ||| data64bitMarker ||| word2.setWidth 32) ++
  emitDataRaw (dataSeqEndMarker ||| type ||| data64bitMarker ||| word3.setWidth 32)

/-- `(uint16_t)((data >> k) & 0xffff)` on an unsigned value. -/
def half {w : Nat} (data : BitVec w) (k : Nat) : BitVec 16 :=
  ((data >>> k) &&& 0xffff#w).setWidth 16

/-- The same expression on a signed value, where `>>` copies the sign bit. -/
def shalf {w : Nat} (data : BitVec w) (k : Nat) : BitVec 16 :=
  (data.sshiftRight k &&& 0xffff#w).setWidth 16

def emitDataU8 (data : BitVec 8) : List Word :=
  emitOne dataUintMarker data8bitMarker (data.setWidth 16)

def emitDataU16 (data : BitVec 16) : List Word := emitOne dataUintMarker data16bitMarker data

def emitDataU32 (data : BitVec 32) : List Word :=
  emitTwo dataUintMarker (half data 0) (half data 16)

def emitDataU64 (data : BitVec 64) : List Word :=
  emitFour dataUintMarker (half data 0) (half data 16) (half data 32) (half data 48)

/-- The argument is cast to `uint8_t`, so the sign never leaves the low byte. -/
def emitDataS8 (data : BitVec 8) : List Word :=
  emitOne dataIntMarker data8bitMarker (data.setWidth 16)

def emitDataS16 (data : BitVec 16) : List Word := emitOne dataIntMarker data16bitMarker data

def emitDataS32 (data : BitVec 32) : List Word :=
  emitTwo dataIntMarker (shalf data 0) (shalf data 16)

def emitDataS64 (data : BitVec 64) : List Word :=
  emitFour dataIntMarker (shalf data 0) (shalf data 16) (shalf data 32) (shalf data 48)

def emitDataF32 (data : BitVec 32) : List Word :=
  emitTwo dataFloatMarker (half data 0) (half data 16)

def emitDataF64 (data : BitVec 64) : List Word :=
  emitFour dataFloatMarker (half data 0) (half data 16) (half data 32) (half data 48)

def emitDataP32 (data : BitVec 32) : List Word :=
  emitTwo dataPtrMarker (half data 0) (half data 16)

def ownershipTrace (id : BitVec 16) : List Word :=
  emitDataRaw (dataOwnershipMarker ||| id.setWidth 32)

end TraceFS.CTrace
