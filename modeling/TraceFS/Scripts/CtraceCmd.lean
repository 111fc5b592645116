import TraceFS.Firmware.CTrace
import TraceFS.Scripts.CfgTrace

/-!
`ctrace_cmd` of `trc_fs_cfg_trace.sh`, which encodes a command word from the names or
the numbers of its fields.

The shell's arithmetic is a parameter of the model, as is what an indirect expansion
does with a text that makes no variable name. Of the variables whose names start with
`__CTRACE_` only those of the script are set.
-/
namespace TraceFS.CfgTrace
open Numerals ShellText

/-- The variables that `ctrace_cmd` has set when it evaluates DIRECTDATA. -/
structure Vars where
  cmd : BitVec 64
  sink : BitVec 64
  deriving DecidableEq, Repr

inductive Prefix
  | cmd | sink
  deriving DecidableEq, Repr

/-- The ACT-CAP enumerators, `__CTRACE_CMD_*` and `__CTRACE_SINK_*`. -/
def enumerators : Prefix → List (Text × Nat)
  | .cmd =>
      [ ("NONE".toList, 0), ("DAQ_PC_CURR".toList, 1), ("DAQ_PC_CURR_LAST".toList, 2)
      , ("DAQ_DIRECT_DATA".toList, 3), ("DAQ_DATA".toList, 4), ("DAQ_DADDR".toList, 5)
      , ("DAQ_DATA_DADDR".toList, 6), ("DAQ_IFETCH_TH".toList, 8)
      , ("DAQ_DATA_RD_TH".toList, 9), ("DAQ_DATA_WR".toList, 10), ("DAQ_DATA_RD".toList, 11)
      , ("CF_SYNC".toList, 12), ("TE".toList, 13) ]
  | .sink =>
      [ ("NEXUS".toList, 0), ("AXIS".toList, 1), ("AXIS_NEXUS".toList, 2), ("TE".toList, 3) ]

/-- A shell. `indirect` is the number `__ctrace_resolve` prints for a text that is no
part of a variable name, if it prints one; `arithmetic` is `$(( ))`, none at an error. -/
structure Shell where
  indirect : Prefix → Text → Option Nat
  arithmetic : Vars → Text → Option (BitVec 64 × Vars)
  arithmetic_constant : ∀ vars {t v}, constant t = some v → v < 2 ^ 63 →
    arithmetic vars t = some (BitVec.ofNat 64 v, vars)

def isNameChar (c : Char) : Bool := c.isAlphanum || c = '_'

/-- `__ctrace_resolve`: the number printed. What `printf` makes of a text that is no
number starts with its digits; the status it returns is not looked at. -/
def ctraceResolve (sh : Shell) (p : Prefix) (arg : Text) : Option Nat :=
  if arg.all isNameChar then
    match (enumerators p).lookup arg with
    | some v => some v
    | none => some (strtoumax arg)
  else sh.indirect p arg

/-- `${x:-default}` -/
def orDefault (x default : Text) : Text := if x = [] then default else x

/-- The value of a variable that holds the number printed, or nothing. -/
def varOf (printed : Option Nat) : BitVec 64 := BitVec.ofNat 64 (printed.getD 0)

def resolvedVars (sh : Shell) (cmd sink : Text) : Vars :=
  { cmd := varOf (ctraceResolve sh .cmd (orDefault cmd "NONE".toList))
    sink := varOf (ctraceResolve sh .sink (orDefault sink "NEXUS".toList)) }

/-- `$(( ((direct & 0xffffff) << 8) | ((sink & 3) << 6) | (cmd & 63) ))` -/
def commandWord (vars : Vars) (direct : BitVec 64) : BitVec 64 :=
  ((direct &&& 0xffffff) <<< 8) ||| ((vars.sink &&& 3) <<< 6) ||| (vars.cmd &&& 63)

/-- `ctrace_cmd`: what it prints and its status. -/
def ctraceCmd (sh : Shell) (cmd sink direct : Text) : Text × Status :=
  match sh.arithmetic (resolvedVars sh cmd sink) (orDefault direct ['0']) with
  | none => ([], none)
  | some (direct, vars) => (hexWord (commandWord vars direct).toNat ++ ['\n'], some 0)

/-! What the fields of the word are: those of the C function on the same numbers. -/

theorem getLsbD_and_mask (x : BitVec 64) (k i : Nat) (hi : i < 64) :
    (x &&& BitVec.ofNat 64 (2 ^ k - 1)).getLsbD i = (decide (i < k) && x.getLsbD i) := by
  rw [BitVec.getLsbD_and, BitVec.getLsbD_ofNat, Nat.testBit_two_pow_sub_one, Bool.and_comm]
  simp [hi]

/-- The shell masks before it shifts and has 64 bits, which makes no difference. -/
theorem commandWord_eq (vars : Vars) (direct : BitVec 64) :
    commandWord vars direct =
      (CTrace.buildCommandWord (vars.cmd.setWidth 32) (vars.sink.setWidth 32)
        (direct.setWidth 32)).setWidth 64 := by
  apply BitVec.eq_of_getLsbD_eq
  intro i hi
  have hdirect : (direct &&& 0xffffff).getLsbD (i - 8) =
      (decide (i - 8 < 24) && direct.getLsbD (i - 8)) :=
    getLsbD_and_mask direct 24 (i - 8) (by omega)
  have hsink : (vars.sink &&& 3).getLsbD (i - 6) =
      (decide (i - 6 < 2) && vars.sink.getLsbD (i - 6)) :=
    getLsbD_and_mask vars.sink 2 (i - 6) (by omega)
  have hcmd : (vars.cmd &&& 63).getLsbD i = (decide (i < 6) && vars.cmd.getLsbD i) :=
    getLsbD_and_mask vars.cmd 6 i hi
  rw [commandWord, BitVec.getLsbD_or, BitVec.getLsbD_or, BitVec.getLsbD_shiftLeft,
    BitVec.getLsbD_shiftLeft, hdirect, hsink, hcmd, BitVec.getLsbD_setWidth]
  by_cases hword : i < 32
  · rw [CTrace.getLsbD_build _ _ _ i hword]
    by_cases hlow : i < 6
    · have hmid : i < 8 := by omega
      simp [hi, hword, hlow, hmid]
    · by_cases hmid : i < 8
      · have hplace : i - 6 < 2 := by omega
        have hin : i - 6 < 32 := by omega
        simp [hi, hlow, hmid, hplace, hin]
      · have hplace : ¬ i - 6 < 2 := by omega
        have hroom : i - 8 < 24 := by omega
        have hin : i - 8 < 32 := by omega
        simp [hi, hlow, hmid, hplace, hroom, hin]
  · have hlow : ¬ i < 6 := by omega
    have hplace : ¬ i - 6 < 2 := by omega
    have hroom : ¬ i - 8 < 24 := by omega
    rw [BitVec.getLsbD_of_ge _ i (Nat.le_of_not_lt hword)]
    simp [hlow, hplace, hroom]

theorem toNat_commandWord (vars : Vars) (direct : BitVec 64) :
    (commandWord vars direct).toNat =
      (CTrace.buildCommandWord (vars.cmd.setWidth 32) (vars.sink.setWidth 32)
        (direct.setWidth 32)).toNat := by
  rw [commandWord_eq, BitVec.toNat_setWidth_of_le (by decide)]

/-! Names and numbers. -/

theorem isNameChar_of_digitVal {c : Char} (h : (digitVal c).isSome = true) :
    isNameChar c = true := by
  unfold digitVal at h
  have hname : c.isAlphanum = true := by
    split at h
    case isTrue hdigit =>
      have hin : c.isDigit = true :=
        Bool.and_eq_true_iff.mpr ⟨decide_eq_true hdigit.1, decide_eq_true hdigit.2⟩
      exact Bool.or_eq_true_iff.mpr (.inr hin)
    case isFalse =>
      split at h
      case isTrue hlower =>
        have hz : 'f' ≤ 'z' := by decide
        have hin : c.isLower = true := Bool.and_eq_true_iff.mpr
          ⟨decide_eq_true hlower.1, decide_eq_true (Char.le_trans hlower.2 hz)⟩
        exact Bool.or_eq_true_iff.mpr (.inl (Bool.or_eq_true_iff.mpr (.inr hin)))
      case isFalse =>
        split at h
        case isTrue hupper =>
          have hZ : 'F' ≤ 'Z' := by decide
          have hin : c.isUpper = true :=
            decide_eq_true ⟨hupper.1, Char.le_trans hupper.2 hZ⟩
          exact Bool.or_eq_true_iff.mpr (.inl (Bool.or_eq_true_iff.mpr (.inl hin)))
        case isFalse => cases h
  rw [isNameChar, hname, Bool.true_or]

theorem isNameChar_of_constant {cs : Text} {v : Nat} (h : constant cs = some v) :
    cs.all isNameChar = true := by
  rw [List.all_eq_true]
  intro c hc
  rcases digitVal_of_constant h hc with hdigit | rfl | rfl
  · exact isNameChar_of_digitVal hdigit
  · decide
  · decide

theorem of_lookup {p : Prefix} {t : Text} {v : Nat} (h : (enumerators p).lookup t = some v) :
    t.all isNameChar = true ∧ constant t = none ∧ v < 2 ^ 64 := by
  have htable : ∀ e ∈ enumerators p, e.1.all isNameChar = true ∧ constant e.1 = none ∧
      e.2 < 2 ^ 64 := by
    cases p with
    | cmd => decide
    | sink => decide
  have ⟨before, rest, hsplit, _⟩ := List.lookup_eq_some_iff.mp h
  exact htable (t, v) (hsplit ▸ List.mem_append_right before List.mem_cons_self)

/-- A text asks for a value: as an enumerator's name or as a number. -/
def Denotes (p : Prefix) (arg : Text) (v : Nat) : Prop :=
  (enumerators p).lookup arg = some v ∨ constant arg = some v

theorem ctraceResolve_of_denotes (sh : Shell) {p : Prefix} {arg : Text} {v : Nat}
    (h : Denotes p arg v) (hv : v < 2 ^ 64) : ctraceResolve sh p arg = some v := by
  cases h with
  | inl hname => rw [ctraceResolve, if_pos (of_lookup hname).1, hname]
  | inr hnumber =>
      have hlookup : (enumerators p).lookup arg = none := by
        cases hname : (enumerators p).lookup arg with
        | none => rfl
        | some w =>
            have hconst := (of_lookup hname).2.1
            rw [hnumber] at hconst
            cases hconst
      rw [ctraceResolve, if_pos (isNameChar_of_constant hnumber), hlookup,
        strtoumax_of_constant hnumber hv]

theorem orDefault_of_constant {x : Text} {v : Nat} (h : constant x = some v) (d : Text) :
    orDefault x d = x := by
  rw [orDefault, if_neg]
  intro hnil
  rw [hnil] at h
  cases h

/-- What is printed where every text asks for a value that the shell can hold. -/
theorem ctraceCmd_of_denotes (sh : Shell) {cmd sink direct : Text} {c s d : Nat}
    (hc : Denotes .cmd (orDefault cmd "NONE".toList) c) (hc64 : c < 2 ^ 64)
    (hs : Denotes .sink (orDefault sink "NEXUS".toList) s) (hs64 : s < 2 ^ 64)
    (hd : constant (orDefault direct ['0']) = some d) (hd63 : d < 2 ^ 63) :
    ctraceCmd sh cmd sink direct =
      (hexWord (CTrace.buildCommandWord (BitVec.ofNat 32 c) (BitVec.ofNat 32 s)
        (BitVec.ofNat 32 d)).toNat ++ ['\n'], some 0) := by
  have hvars : resolvedVars sh cmd sink =
      { cmd := BitVec.ofNat 64 c, sink := BitVec.ofNat 64 s } := by
    rw [resolvedVars, ctraceResolve_of_denotes sh hc hc64, ctraceResolve_of_denotes sh hs hs64]
    rfl
  have hword := toNat_commandWord
    { cmd := BitVec.ofNat 64 c, sink := BitVec.ofNat 64 s } (BitVec.ofNat 64 d)
  simp only [BitVec.setWidth_ofNat_of_le (show 32 ≤ 64 by decide)] at hword
  rw [ctraceCmd, hvars, sh.arithmetic_constant _ hd hd63]
  simp only [hword]

/-- The script, the C function and the bit-fields make one word of three numbers, and
each field of it holds its number as far as it has room. -/
theorem encodings_agree (sh : Shell) (command sink data : Word) {cmdText sinkText dataText : Text}
    (hcmd : constant cmdText = some command.toNat) (hsink : constant sinkText = some sink.toNat)
    (hdata : constant dataText = some data.toNat) :
    ctraceCmd sh cmdText sinkText dataText =
        (hexWord (CTrace.buildCommandWord command sink data).toNat ++ ['\n'], some 0) ∧
      (CTrace.TrActCapStCmd.store command sink data).w =
        CTrace.buildCommandWord command sink data ∧
      let fields := CTrace.TrActCapStCmd.ofWord (CTrace.buildCommandWord command sink data)
      fields.cmd.toNat = command.toNat % 2 ^ 6 ∧ fields.sink.toNat = sink.toNat % 2 ^ 2 ∧
        fields.directData.toNat = data.toNat % 2 ^ 24 := by
  have hcommand64 := Nat.lt_trans command.isLt (show 2 ^ 32 < 2 ^ 64 by decide)
  have hsink64 := Nat.lt_trans sink.isLt (show 2 ^ 32 < 2 ^ 64 by decide)
  have hdata63 := Nat.lt_trans data.isLt (show 2 ^ 32 < 2 ^ 63 by decide)
  refine ⟨?_, CTrace.w_store command sink data, ?_⟩
  · rw [← orDefault_of_constant hcmd "NONE".toList] at hcmd
    rw [← orDefault_of_constant hsink "NEXUS".toList] at hsink
    rw [← orDefault_of_constant hdata ['0']] at hdata
    have hprint := ctraceCmd_of_denotes sh (.inr hcmd) hcommand64 (.inr hsink) hsink64 hdata hdata63
    simp only [BitVec.ofNat_toNat, BitVec.setWidth_eq] at hprint
    exact hprint
  · rw [CTrace.ofWord_build]
    exact ⟨BitVec.toNat_setWidth 6 command, BitVec.toNat_setWidth 2 sink,
      BitVec.toNat_setWidth 24 data⟩

/-- A shell whose arithmetic knows numbers only. -/
def plainShell : Shell where
  indirect _ _ := none
  arithmetic vars t := (constant t).map fun v => (BitVec.ofNat 64 v, vars)
  arithmetic_constant vars t v h _ := by rw [h, Option.map_some]

theorem encodings_agree_overflow :
    ctraceCmd plainShell "0xffffffff".toList "7".toList "0x1000042".toList =
        ("0x000042ff\n".toList, some 0) ∧
      (CTrace.TrActCapStCmd.store 0xffffffff 7 0x1000042).w = 0x42ff := by
  have hcmd : constant "0xffffffff".toList = some (0xffffffff : Word).toNat := by decide
  have hsink : constant "7".toList = some (7 : Word).toNat := by decide
  have hdata : constant "0x1000042".toList = some (0x1000042 : Word).toNat := by decide
  have ⟨hprint, hstore, _⟩ := encodings_agree plainShell 0xffffffff 7 0x1000042 hcmd hsink hdata
  exact ⟨hprint.trans (by decide), hstore.trans (by decide)⟩

/-! Where the command word is the one that was asked for. -/

/-- The three texts ask for values that the fields have room for. -/
def Asked (cmd sink direct : Text) (c s d : Nat) : Prop :=
  (Denotes .cmd (orDefault cmd "NONE".toList) c ∧ c < 2 ^ 6) ∧
    (Denotes .sink (orDefault sink "NEXUS".toList) s ∧ s < 2 ^ 2) ∧
    constant (orDefault direct ['0']) = some d ∧ d < 2 ^ 24

/-- Either the word printed has the fields asked for, or there is no word and the
status says so. -/
def Faithful (cmd sink direct : Text) (out : Text × Status) : Prop :=
  (∃ c s d w, Asked cmd sink direct c s d ∧ out = (hexWord (BitVec.toNat w) ++ ['\n'], some 0) ∧
    (CTrace.cmdField w).toNat = c ∧ (CTrace.sinkField w).toNat = s ∧
    (CTrace.directDataField w).toNat = d) ∨
  out.1 = [] ∧ out.2 ≠ some 0

theorem faithful_of_asked (sh : Shell) {cmd sink direct : Text} {c s d : Nat}
    (h : Asked cmd sink direct c s d) :
    Faithful cmd sink direct (ctraceCmd sh cmd sink direct) := by
  have ⟨⟨hc, hc6⟩, ⟨hs, hs2⟩, hd, hd24⟩ := h
  refine .inl ⟨c, s, d, _, h,
    ctraceCmd_of_denotes sh hc (by omega) hs (by omega) hd (by omega), ?_, ?_, ?_⟩
  · rw [CTrace.cmdField_build, BitVec.toNat_setWidth, BitVec.toNat_ofNat]
    omega
  · rw [CTrace.sinkField_build, BitVec.toNat_setWidth, BitVec.toNat_ofNat]
    omega
  · rw [CTrace.directDataField_build, BitVec.toNat_setWidth, BitVec.toNat_ofNat]
    omega

/-- Nothing but an arithmetic error in DIRECTDATA keeps the script from printing a
word, whatever the texts ask for. -/
theorem faithful_iff (sh : Shell) (cmd sink direct : Text) :
    Faithful cmd sink direct (ctraceCmd sh cmd sink direct) ↔
      (∃ c s d, Asked cmd sink direct c s d) ∨
        sh.arithmetic (resolvedVars sh cmd sink) (orDefault direct ['0']) = none := by
  constructor
  · intro h
    cases h with
    | inl hword =>
        have ⟨c, s, d, _, hasked, _⟩ := hword
        exact .inl ⟨c, s, d, hasked⟩
    | inr hnone =>
        cases harith : sh.arithmetic (resolvedVars sh cmd sink) (orDefault direct ['0']) with
        | none => exact .inr rfl
        | some r =>
            rw [ctraceCmd, harith] at hnone
            exact absurd rfl hnone.2
  · intro h
    cases h with
    | inl hasked =>
        have ⟨_, _, _, hasked⟩ := hasked
        exact faithful_of_asked sh hasked
    | inr herror =>
        rw [ctraceCmd, herror]
        exact .inr ⟨rfl, nofun⟩

/-- The misspelt name of a command becomes the word of NONE. -/
theorem misspelt_command_encoded :
    ctraceCmd plainShell "DAQ_PC_CUR".toList "NEXUS".toList "0x42".toList =
        ("0x00004200\n".toList, some 0) ∧
      ¬ Faithful "DAQ_PC_CUR".toList "NEXUS".toList "0x42".toList
        (ctraceCmd plainShell "DAQ_PC_CUR".toList "NEXUS".toList "0x42".toList) := by
  have hprint : ctraceCmd plainShell "DAQ_PC_CUR".toList "NEXUS".toList "0x42".toList =
      ("0x00004200\n".toList, some 0) := by decide
  have hname : (enumerators .cmd).lookup (orDefault "DAQ_PC_CUR".toList "NONE".toList) = none := by
    decide
  have hnumber : constant (orDefault "DAQ_PC_CUR".toList "NONE".toList) = none := by decide
  refine ⟨hprint, ?_⟩
  intro h
  cases h with
  | inl hword =>
      have ⟨_, _, _, _, hasked, _⟩ := hword
      have hdenotes := hasked.1.1
      rw [Denotes, hname, hnumber] at hdenotes
      cases hdenotes with
      | inl hsome => cases hsome
      | inr hsome => cases hsome
  | inr hnone =>
      rw [hprint] at hnone
      exact absurd rfl hnone.2

end TraceFS.CfgTrace
