import TraceFS.Scripts.CfgTraceChecks
import TraceFS.Scripts.CfgTraceVerified

/-!
`main` of `trc_fs_cfg_trace.sh`, and which failed writes are reported.

`verified_write` tells whether its write was verified, but neither
`ctrace_set_watchpoints` nor `main` looks at that. Both go on in the same way
whatever the device answers.
-/
namespace TraceFS.CfgTrace
open Access Access.Prog Numerals ShellText

def trTeControl : Word := 0xa0900000
def trTeDataControl : Word := 0xa0900010
def trTsControl : Word := 0xa0900040

/-- All bits but `trTeControl.Empty`. -/
def controlMask : Word := 0xfffffff7

/-- The loop of `ctrace_dump_watchpoints` from slot `i` on. -/
def dumpSlots : Nat → Nat → Code Status
  | 0, _ => pure (some 0)
  | n + 1, i => do
      let _ ← devmemRead (wpReg i .addr)
      let _ ← devmemRead (wpReg i .cmd)
      dumpSlots n (i + 1)

def ctraceDumpWatchpoints : Code Status := dumpSlots ctWpNum 0

/-- `0xa1040000:$daq`, where `daq` is printed by `ctrace_cmd` with `0x%08x`. -/
def watchpointArg (daq : Word) : Text :=
  ['0', 'x', 'a', '1', '0', '4', '0', '0', '0', '0'] ++ ':' :: hexWord daq.toNat

def main (daq : Word) : Code Status := do
  devmemWrite trTeControl 0x01008069
  andThen (verifiedWrite trTeControl (hexWord 0x01008069) controlMask defaultRetries) <|
    andThen (verifiedWrite trTeControl (hexWord 0x0180806d) controlMask defaultRetries) <|
    andThen (verifiedWrite trTeDataControl (hexWord 0x00000001) defaultMask defaultRetries) <|
    andThen (verifiedWrite trTsControl (hexWord 0x3f008023) defaultMask defaultRetries) <|
    andThen (ctraceSetWatchpoints [watchpointArg daq]) <|
    andThen ctraceDumpWatchpoints <|
    andThen (verifiedWrite trTeControl (hexWord 0x0180806f) controlMask defaultRetries)
      (pure (some 0))

/-! The calls of `main` in their order. -/

/-- The only entry of the table. -/
def daqEntry (daq : Word) : Entry where
  pcText := ['0', 'x', 'a', '1', '0', '4', '0', '0', '0', '0']
  cmdText := hexWord daq.toNat
  pc := 0xa1040000
  cmd := daq
  constant_pcText := constant_ramStart
  constant_cmdText := constant_hexWord daq.isLt

def primeWrite : Op := .write trTeControl 0x01008069

def activateCall : Call := ⟨trTeControl, 0x01008069, controlMask⟩

def setupCalls (daq : Word) : List Call :=
  ⟨trTeControl, 0x0180806d, controlMask⟩ :: ⟨trTeDataControl, 0x00000001, defaultMask⟩ ::
    ⟨trTsControl, 0x3f008023, defaultMask⟩ :: tableCalls [daqEntry daq]

/-- The calls before the one that sets Enable. -/
def configCalls (daq : Word) : List Call := activateCall :: setupCalls daq

def enableCall : Call := ⟨trTeControl, 0x0180806f, controlMask⟩

def dumpReads : Nat → Nat → List Op
  | 0, _ => []
  | n + 1, i => .read (wpReg i .addr) :: .read (wpReg i .cmd) :: dumpReads n (i + 1)

theorem admitted_daqEntry (daq : Word) : Admitted [daqEntry daq] := by
  have hnum : ctWpNum = 15 := rfl
  have hlen : [daqEntry daq].length = 1 := rfl
  have hpc : (daqEntry daq).pc.toNat = 0xa1040000 := rfl
  have hlow : tooLow ([daqEntry daq].map Entry.row) = false := by
    rw [← Bool.not_eq_true, tooLow_iff (by omega), lastSentinel, hpc]
    omega
  exact ⟨List.cons_ne_nil _ _, by omega, List.nodup_singleton _, hlow⟩

section Device
variable (answer : List Op → (op : Op) → op.Res)

theorem exec_dumpSlots (n i : Nat) (h : List Op) :
    (dumpSlots n i).exec (oracle answer) h = (some 0, h ++ dumpReads n i) := by
  induction n generalizing i h with
  | zero => simp [dumpSlots, dumpReads]
  | succ n ih =>
      change (dumpSlots n (i + 1)).exec (oracle answer)
        (h ++ [.read (wpReg i .addr)] ++ [.read (wpReg i .cmd)]) = _
      rw [ih, dumpReads]
      simp

/-- The operations of `main` before the attempts to set Enable. -/
def beforeEnable (daq : Word) : List Op :=
  after answer (configCalls daq) [primeWrite] ++ dumpReads ctWpNum 0

/-- A call in a sequence is followed by the rest, whatever it reports. -/
theorem exec_call_andThen (addr mask : Word) {v : Nat} (hv : v < 16 ^ 8) (q : Code Status)
    (h : List Op) :
    (andThen (verifiedWrite addr (hexWord v) mask defaultRetries) q).exec (oracle answer) h =
      q.exec (oracle answer) (Call.done answer ⟨addr, BitVec.ofNat 32 v, mask⟩ h) := by
  have ⟨_, hexec⟩ := exec_verifiedWrite answer addr mask (arith_hexWord hv) h
  exact exec_andThen hexec

theorem exec_table (daq : Word) (h : List Op) :
    (ctraceSetWatchpoints [watchpointArg daq]).exec (oracle answer) h =
      (some 0, after answer (tableCalls [daqEntry daq]) h) :=
  exec_of_admitted answer (admitted_daqEntry daq) h

theorem exec_main (daq : Word) :
    (main daq).exec (oracle answer) [] =
      (some 0, enableCall.done answer (beforeEnable answer daq)) := by
  have hprime : (oracle answer (.write trTeControl 0x01008069) []).2 = [primeWrite] := rfl
  rw [main, exec_bind, devmemWrite, exec_perform]
  rw [exec_call_andThen answer _ _ (by decide), exec_call_andThen answer _ _ (by decide),
    exec_call_andThen answer _ _ (by decide), exec_call_andThen answer _ _ (by decide),
    exec_andThen (exec_table answer daq _), ctraceDumpWatchpoints,
    exec_andThen (exec_dumpSlots answer ctWpNum 0 _), exec_call_andThen answer _ _ (by decide),
    exec_pure, beforeEnable, configCalls, setupCalls]
  simp only [after_cons, hprime]
  rfl

/-- The mask with which the writes of a register are compared. -/
def maskOf (addr : Word) : Word := if addr = trTeControl then controlMask else defaultMask

/-- What `verified_write` is for: identical attempts up to the first match, and a
status that tells whether there was one. -/
structure AttemptsReported (c : Call) (maxRetries : Nat) (h : List Op)
    (run : Status × List Op) : Prop where
  attempts : ∃ k, k ≤ maxRetries ∧ run.2 = h ++ c.attempts k ∧
    (∀ i, i + 1 < k → ¬ c.Matches answer (h ++ c.attempts i)) ∧
    (run.1 = some 0 → ∃ i, k = i + 1 ∧ c.Matches answer (h ++ c.attempts i))
  status : run.1 = some 0 ↔ ∃ i, i < maxRetries ∧ c.Matches answer (h ++ c.attempts i)

/-- No failed write is passed over: neither in the status of the table nor when
tracing is enabled. -/
structure FailuresReported (es : List Entry) (daq : Word) : Prop where
  verifiedWrite : ∀ (addr : Word) (text : Text) (val mask : Word) (maxRetries : Nat) (h : List Op),
    arith text = some val → AttemptsReported answer ⟨addr, val, mask⟩ maxRetries h
      ((verifiedWrite addr text mask maxRetries).exec (oracle answer) h)
  watchpoints :
    let run := (ctraceSetWatchpoints (es.map Entry.arg)).exec (oracle answer) []
    run.1 = some 0 → ∀ a v, .write a v ∈ run.2 → Verified answer run.2 ⟨a, v, maskOf a⟩
  enable : ∀ pre v post,
    ((main daq).exec (oracle answer) []).2 = pre ++ .write trTeControl v :: post →
    v.getLsbD 1 = true → (∀ w, .write trTeControl w ∈ pre → w.getLsbD 1 = false) →
    ∀ a u, .write a u ∈ pre → Verified answer pre ⟨a, u, maskOf a⟩

theorem attemptsReported (addr : Word) {text : Text} {val : Word} (mask : Word)
    (maxRetries : Nat) (h : List Op) (hval : arith text = some val) :
    AttemptsReported answer ⟨addr, val, mask⟩ maxRetries h
      ((verifiedWrite addr text mask maxRetries).exec (oracle answer) h) := by
  have ⟨status, hexec, hstatus⟩ :=
    exec_verifyAttempts_oracle answer ⟨addr, val, mask⟩ maxRetries h
  have hrun : (verifiedWrite addr text mask maxRetries).exec (oracle answer) h =
      (some status, h ++ Call.attempts ⟨addr, val, mask⟩
        (Call.tries answer ⟨addr, val, mask⟩ maxRetries h)) := by
    rw [verifiedWrite, hval]
    exact hexec
  have hzero : some status = some 0 ↔ Call.Accepted answer ⟨addr, val, mask⟩ maxRetries h := by
    rw [Option.some.injEq, hstatus]
  rw [hrun]
  refine ⟨⟨_, tries_le answer _ maxRetries h, rfl, ?_, ?_⟩, hzero⟩
  · intro i hi
    exact not_matches_of_lt_tries answer hi
  · intro hok
    exact matches_of_accepted answer (hzero.mp hok)

/-- The writes among the operations of a sequence of calls are those of the calls. -/
theorem call_of_write_mem {cs : List Call} {h tail : List Op} {a v : Word}
    (hbefore : .write a v ∈ h → ∃ c ∈ cs, c.write = .write a v) (htail : Op.write a v ∉ tail)
    (hin : .write a v ∈ after answer cs h ++ tail) : ∃ c ∈ cs, c.write = .write a v := by
  have ⟨ops, hops, hmem⟩ := after_eq_append answer cs h
  rw [hops] at hin
  cases List.mem_append.mp hin with
  | inr hlate => exact absurd hlate htail
  | inl hin =>
      cases List.mem_append.mp hin with
      | inl hold => exact hbefore hold
      | inr hnew =>
          have ⟨c, hc, hop⟩ := hmem _ hnew
          exact ⟨c, hc, by simpa [Call.attempt, Call.write, eq_comm] using hop⟩

theorem writes_verified_iff (cs : List Call) (h tail : List Op)
    (hmask : ∀ c ∈ cs, c.mask = maskOf c.addr)
    (hbefore : ∀ a v, .write a v ∈ h → ∃ c ∈ cs, c.write = .write a v)
    (htail : ∀ a v, Op.write a v ∉ tail) :
    (∀ a v, .write a v ∈ after answer cs h ++ tail →
        Verified answer (after answer cs h ++ tail) ⟨a, v, maskOf a⟩) ↔
      ∀ c ∈ cs, Verified answer (after answer cs h ++ tail) c := by
  constructor
  · intro hall c hc
    have hverified := hall c.addr c.val (List.mem_append_left tail (write_mem_after answer hc h))
    rw [← hmask c hc] at hverified
    exact hverified
  · intro hall a v hin
    have ⟨c, hc, hwrite⟩ := call_of_write_mem answer (hbefore a v) (htail a v) hin
    have ⟨haddr, hval⟩ := Op.write.inj hwrite
    have hsame : c = ⟨a, v, maskOf a⟩ := by
      rw [← haddr, ← hval, ← hmask c hc]
    have hverified := hall c hc
    rwa [hsame] at hverified

theorem base_le_wpReg {j : Nat} (col : Column) (hj : j < ctWpNum) :
    ctWpBase ≤ (wpReg j col).toNat := by
  rw [toNat_wpReg ⟨j, hj⟩ col]
  omega

theorem mask_tableCalls {ss : List Entry} (hlen : ss.length ≤ ctWpNum) {c : Call}
    (hc : c ∈ tableCalls ss) : c.mask = maskOf c.addr := by
  have ⟨j, col, hj, haddr, hmask⟩ := mem_tableCalls hlen hc
  have hbase := base_le_wpReg col hj
  have hne : c.addr ≠ trTeControl := by
    intro heq
    rw [haddr] at heq
    rw [heq] at hbase
    revert hbase
    decide
  rw [hmask, maskOf, if_neg hne]

theorem watchpoints_iff {es : List Entry} (hadm : Admitted es) :
    (∀ a v, .write a v ∈ after answer (tableCalls (sortEntries es)) [] →
        Verified answer (after answer (tableCalls (sortEntries es)) []) ⟨a, v, maskOf a⟩) ↔
      AllAccepted answer (tableCalls (sortEntries es)) [] := by
  have hlen : (sortEntries es).length ≤ ctWpNum := by
    rw [(sortEntries_perm es).length_eq]
    exact hadm.2.1
  have hwrites := writes_verified_iff answer (tableCalls (sortEntries es)) [] []
    (fun c hc => mask_tableCalls hlen hc) (fun a v hin => absurd hin List.not_mem_nil)
    (fun a v => List.not_mem_nil)
  have hdistinct := (tableCalls_distinct hlen).imp write_ne_of_addr_ne
  have hverified := verified_iff_allAccepted answer hdistinct
    (fun c _ => (List.not_mem_nil : c.write ∉ []))
    (fun c _ => (List.not_mem_nil : c.write ∉ []))
  rw [List.append_nil] at hwrites hverified
  rw [hwrites, hverified]

theorem write_notMem_dumpReads (a v : Word) (n i : Nat) : Op.write a v ∉ dumpReads n i := by
  induction n generalizing i with
  | zero => exact List.not_mem_nil
  | succ n ih => simp [dumpReads, ih]

theorem length_daqEntry_le (daq : Word) : [daqEntry daq].length ≤ ctWpNum := Nat.le_add_left 1 14

theorem mask_configCalls (daq : Word) {c : Call} (hc : c ∈ configCalls daq) :
    c.mask = maskOf c.addr := by
  simp only [configCalls, setupCalls, List.mem_cons] at hc
  rcases hc with rfl | rfl | rfl | rfl | hc
  · rfl
  · rfl
  · rfl
  · rfl
  · exact mask_tableCalls (length_daqEntry_le daq) hc

theorem write_ne_tableCall {c c' : Call} {ss : List Entry} (hlen : ss.length ≤ ctWpNum)
    (hlow : c.addr.toNat < ctWpBase) (hc' : c' ∈ tableCalls ss) : c.write ≠ c'.write := by
  have ⟨j, col, hj, haddr, _⟩ := mem_tableCalls hlen hc'
  have hbase := base_le_wpReg col hj
  apply write_ne_of_addr_ne
  intro heq
  rw [heq, haddr] at hlow
  omega

theorem configCalls_distinct (daq : Word) :
    (configCalls daq).Pairwise fun c c' => c.write ≠ c'.write := by
  have hlen := length_daqEntry_le daq
  have table {c c' : Call} (hlow : c.addr.toNat < ctWpBase)
      (hc' : c' ∈ tableCalls [daqEntry daq]) : c.write ≠ c'.write :=
    write_ne_tableCall hlen hlow hc'
  have hdistinct := (tableCalls_distinct hlen).imp write_ne_of_addr_ne
  refine .cons ?_ (.cons ?_ (.cons ?_ (.cons ?_ hdistinct)))
  · simp only [List.forall_mem_cons, setupCalls]
    exact ⟨by decide, by decide, by decide, fun c' hc' => table (by decide) hc'⟩
  · simp only [List.forall_mem_cons]
    exact ⟨by decide, by decide, fun c' hc' => table (by decide) hc'⟩
  · simp only [List.forall_mem_cons]
    exact ⟨by decide, fun c' hc' => table (by decide) hc'⟩
  · exact fun c' hc' => table (by decide) hc'

theorem call_of_write_primed (daq : Word) {a v : Word} (hin : .write a v ∈ [primeWrite]) :
    ∃ c ∈ configCalls daq, c.write = .write a v :=
  ⟨activateCall, List.mem_cons_self, (List.mem_singleton.mp hin).symm⟩

/-- No operation before the last call sets Enable. -/
theorem enable_clear_beforeEnable {daq v : Word}
    (hin : .write trTeControl v ∈ beforeEnable answer daq) : v.getLsbD 1 = false := by
  have ⟨c, hc, hwrite⟩ := call_of_write_mem answer (call_of_write_primed daq)
    (write_notMem_dumpReads _ _ _ _) hin
  have ⟨haddr, hval⟩ := Op.write.inj hwrite
  simp only [configCalls, setupCalls, List.mem_cons] at hc
  rcases hc with rfl | rfl | rfl | rfl | hc
  · rw [← hval]; rfl
  · rw [← hval]; rfl
  · exact absurd haddr (by decide)
  · exact absurd haddr (by decide)
  · have ⟨j, col, hj, hreg, _⟩ := mem_tableCalls (length_daqEntry_le daq) hc
    have hbase := base_le_wpReg col hj
    rw [← hreg, haddr] at hbase
    exact absurd hbase (by decide)

/-- Every write before Enable is verified exactly when every call is accepted. -/
theorem beforeEnable_verified_iff (daq : Word) :
    (∀ a u, .write a u ∈ beforeEnable answer daq →
        Verified answer (beforeEnable answer daq) ⟨a, u, maskOf a⟩) ↔
      AllAccepted answer (configCalls daq) [primeWrite] := by
  have hdump (a v : Word) := write_notMem_dumpReads a v ctWpNum 0
  have ⟨hfirst, hsetup⟩ := List.pairwise_cons.mp (configCalls_distinct daq)
  have hwrites := writes_verified_iff answer (configCalls daq) [primeWrite] (dumpReads ctWpNum 0)
    (fun c hc => mask_configCalls daq hc) (fun _ _ hin => call_of_write_primed daq hin) hdump
  have hbefore : ∀ c ∈ setupCalls daq, c.write ∉ activateCall.done answer [primeWrite] := by
    intro c hc hin
    cases List.mem_append.mp hin with
    | inl hprime => exact hfirst c hc (List.mem_singleton.mp hprime).symm
    | inr hown => exact hfirst c hc (write_mem_attempt (Call.mem_attempts hown)).symm
  have hrest := verified_iff_allAccepted answer hsetup hbefore
    (fun c _ => hdump c.addr c.val)
  have ⟨ops, hops, hmem⟩ :=
    after_eq_append answer (setupCalls daq) (activateCall.done answer [primeWrite])
  -- the prime write looks like an attempt of the first call, but is not read back
  have hprime : ¬ activateCall.attempt <:+: [primeWrite] := by
    intro hinf
    exact absurd hinf.length_le (by decide)
  have hlater : activateCall.write ∉ ops ++ dumpReads ctWpNum 0 := by
    intro hin
    cases List.mem_append.mp hin with
    | inl hop =>
        have ⟨c, hc, hown⟩ := hmem _ hop
        exact hfirst c hc (write_mem_attempt hown)
    | inr hread => exact hdump _ _ hread
  have hactivate := verified_iff_accepted answer hprime hlater
  rw [← List.append_assoc, ← hops] at hactivate
  rw [beforeEnable, hwrites, configCalls, List.forall_mem_cons, after_cons, hactivate, hrest,
    AllAccepted]

theorem enable_iff (daq : Word) :
    (∀ pre v post, ((main daq).exec (oracle answer) []).2 = pre ++ .write trTeControl v :: post →
      v.getLsbD 1 = true → (∀ w, .write trTeControl w ∈ pre → w.getLsbD 1 = false) →
      ∀ a u, .write a u ∈ pre → Verified answer pre ⟨a, u, maskOf a⟩) ↔
      AllAccepted answer (configCalls daq) [primeWrite] := by
  obtain ⟨n, hn⟩ := Nat.exists_eq_succ_of_ne_zero
    (Nat.ne_of_gt (tries_pos answer enableCall 7 (beforeEnable answer daq)))
  have hops : ((main daq).exec (oracle answer) []).2 = beforeEnable answer daq ++
      .write trTeControl enableCall.val :: (.read trTeControl :: enableCall.attempts n) := by
    rw [exec_main, Call.done, defaultRetries, hn, Call.attempts_succ]
    rfl
  rw [← beforeEnable_verified_iff, hops]
  constructor
  · intro h
    exact h _ _ _ rfl (by decide) fun w hin => enable_clear_beforeEnable answer hin
  · intro h pre v post hsplit hv hpre
    have hsame : pre = beforeEnable answer daq := by
      refine eq_of_first (P := fun op => ∃ w, op = .write trTeControl w ∧ w.getLsbD 1 = true)
        hsplit.symm ⟨v, rfl, hv⟩ ⟨enableCall.val, rfl, by decide⟩ ?_ ?_
      · rintro op hop ⟨w, hw, hset⟩
        rw [hw] at hop
        rw [hpre w hop] at hset
        cases hset
      · rintro op hop ⟨w, hw, hset⟩
        rw [hw] at hop
        rw [enable_clear_beforeEnable answer hop] at hset
        cases hset
    rw [hsame]
    exact h

/-- Failures are reported exactly when there is none: where the arguments are
rejected or the device accepts every write of the table, and it accepts every write
of `main` before Enable. -/
theorem failuresReported_iff (es : List Entry) (daq : Word) :
    FailuresReported answer es daq ↔
      (Admitted es → AllAccepted answer (tableCalls (sortEntries es)) []) ∧
        AllAccepted answer (configCalls daq) [primeWrite] := by
  rw [← enable_iff answer daq]
  constructor
  · intro h
    refine ⟨?_, h.enable⟩
    intro hadm
    have hwatchpoints := h.watchpoints
    rw [exec_of_admitted answer hadm] at hwatchpoints
    exact (watchpoints_iff answer hadm).mp (hwatchpoints rfl)
  · intro ⟨htable, henable⟩
    refine ⟨?_, ?_, henable⟩
    · exact fun addr text val mask maxRetries h hval =>
        attemptsReported answer addr mask maxRetries h hval
    · by_cases hadm : Admitted es
      · rw [exec_of_admitted answer hadm]
        intro run _
        exact (watchpoints_iff answer hadm).mpr (htable hadm)
      · rw [exec_of_not_admitted answer hadm]
        intro run hzero
        cases hzero

end Device

/-- A device that reads as zero accepts nothing, and tracing is enabled all the same. -/
theorem enables_unverified_trace : ¬ FailuresReported readsZero [] 0x4201 := by
  intro h
  have haccepted := ((enable_iff readsZero 0x4201).mp h.enable).1
  have ⟨i, _, hmatch⟩ := haccepted
  have hzero : (0 : Word) &&& controlMask ≠ 0x01008069 &&& controlMask := by decide
  exact hzero hmatch

end TraceFS.CfgTrace
