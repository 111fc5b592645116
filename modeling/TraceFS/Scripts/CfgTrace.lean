import TraceFS.Lib.Access
import TraceFS.Lib.Numerals
import TraceFS.Lib.ShellText

/-!
`trc_fs_cfg_trace.sh`: verified register writes and the watchpoint table.

The device is reached through `busybox devmem` only. A numeral is evaluated by the
shell and by `devmem` alike; for texts that are no numerals the functions have no
status here. The lines printed for the user are left out.
-/
namespace TraceFS.CfgTrace
open Access Numerals ShellText

abbrev Word := BitVec 32

/-- `busybox devmem ADDR` and `busybox devmem ADDR 32 VALUE`. -/
inductive Op
  | read (addr : Word)
  | write (addr val : Word)
  deriving DecidableEq, Repr

abbrev Op.Res : Op → Type
  | .read _ => Word
  | .write _ _ => Unit

abbrev Code := Prog Op Op.Res

def devmemRead (addr : Word) : Code Word := .perform (Op.read addr)
def devmemWrite (addr val : Word) : Code Unit := .perform (Op.write addr val)

/-- The status of a command, or none where a text is no numeral. -/
abbrev Status := Option Nat

/-- `p; q` -/
def andThen (p q : Code Status) : Code Status := do
  match ← p with
  | none => pure none
  | some _ => q

/-- `$(( x ))` for a numeral, of which the low 32 bits are used. -/
def arith (x : Text) : Option Word := (constant x).map (BitVec.ofNat 32)

/-- The loop of `verified_write` with the attempts that remain. -/
def verifyAttempts (addr val mask : Word) : Nat → Code Status
  | 0 => pure (some 1)
  | attempts + 1 => do
      devmemWrite addr val
      let readback ← devmemRead addr
      if readback &&& mask = val &&& mask then pure (some 0)
      else verifyAttempts addr val mask attempts

def verifiedWrite (addr : Word) (val : Text) (mask : Word) (maxRetries : Nat) : Code Status :=
  match arith val with
  | none => pure none
  | some val => verifyAttempts addr val mask maxRetries

def defaultMask : Word := 0xffffffff
def defaultRetries : Nat := 8

def ctWpBase : Nat := 0xa0904100
def ctWpNum : Nat := 15

inductive Column
  | addr | cmd
  deriving DecidableEq, Repr

def wpReg (slot : Nat) : Column → Word
  | .addr => BitVec.ofNat 32 (ctWpBase + slot * 8)
  | .cmd => BitVec.ofNat 32 (ctWpBase + slot * 8 + 4)

/-- The two commands both filling loops have in common. -/
def writeSlot (slot : Nat) (pc cmd : Text) : Code Status :=
  andThen (verifiedWrite (wpReg slot .addr) pc defaultMask defaultRetries)
    (verifiedWrite (wpReg slot .cmd) cmd defaultMask defaultRetries)

def noneCmd : Text := ['0', 'x', '0', '0', '0', '0', '0', '0', '0', '0']

/-- The `while` loop, by the number of sentinels that remain. -/
def writeSentinels : Nat → Nat → Nat → Code Status
  | 0, _, _ => pure (some 0)
  | n + 1, slot, v => andThen (writeSlot slot (hexWord v) noneCmd) (writeSentinels n (slot + 1) (v + 2))

def writeRows : Nat → List Text → Code Status
  | _, [] => pure (some 0)
  | slot, row :: rows =>
      let rest := afterFirst ' ' row
      andThen (writeSlot slot (beforeFirst ' ' rest) (afterFirst ' ' rest)) (writeRows (slot + 1) rows)

/-- `printf '%010u %s %s' $(( pc )) "$pc" "$cmd"` -/
def rowOf (arg : Text) : Option Text :=
  let pc := beforeFirst ':' arg
  let cmd := afterFirst ':' arg
  (constant pc).map fun v => padded 10 10 v ++ ' ' :: (pc ++ ' ' :: cmd)

/-- The test for a PC among the sentinels. In `(( ))` the first field of the first row
is a numeral of its own; an error makes the command false. -/
def tooLow : List Text → Bool
  | [] => false
  | row :: rows =>
      let nsent := ctWpNum - (row :: rows).length
      match constant (beforeFirst ' ' row) with
      | none => false
      | some smallest => decide (0 < nsent) && decide (nsent * 2 - 1 ≥ smallest)

def programRows (rows : List Text) : Code Status :=
  if countDistinct ((printLines rows).map firstField) ≠ rows.length then pure (some 1)
  else if tooLow rows then pure (some 1)
  else
    let nsent := ctWpNum - rows.length
    andThen (writeSentinels nsent 0 1) (writeRows nsent rows)

/-- Only PCs that are numerals are followed. Others end the function here, where the shell
goes on: an error, as for `08`, leaves the row out, and names and expressions are evaluated. -/
def ctraceSetWatchpoints (args : List Text) : Code Status :=
  if ctWpNum < args.length then pure (some 1)
  else
    match args.mapM rowOf with
    | none => pure none
    | some rows => programRows (splitLines (sortLines (printLines rows)))

end TraceFS.CfgTrace
