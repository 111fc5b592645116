import TraceFS.Scripts.CfgTraceTable

/-!
The calls of `verified_write` on a device that may answer anything.

A call repeats its write until a readback matches, so what it does is told by the
number of attempts. `ctrace_set_watchpoints` makes 30 calls one after the other or
none, whatever they report.
-/
namespace TraceFS.CfgTrace
open Access Access.Prog Numerals ShellText

/-- A call of `verified_write` with a value that is a numeral. -/
structure Call where
  addr : Word
  val : Word
  mask : Word
  deriving DecidableEq, Repr

namespace Call

def code (c : Call) : Code Status := verifyAttempts c.addr c.val c.mask defaultRetries

/-- The two operations of an attempt. -/
def attempt (c : Call) : List Op := [.write c.addr c.val, .read c.addr]

def attempts (c : Call) (n : Nat) : List Op := (List.replicate n c.attempt).flatten

@[simp] theorem attempts_zero (c : Call) : c.attempts 0 = [] := rfl

theorem attempts_succ (c : Call) (n : Nat) : c.attempts (n + 1) = c.attempt ++ c.attempts n := rfl

theorem mem_attempts {c : Call} {n : Nat} {op : Op} (h : op ∈ c.attempts n) : op ∈ c.attempt := by
  have ⟨part, hpart, hop⟩ := List.mem_flatten.mp h
  rw [List.eq_of_mem_replicate hpart] at hop
  exact hop

section Device
variable (answer : List Op → (op : Op) → op.Res) (c : Call)

/-- The readback of an attempt made after the operations `h` matches. -/
def Matches (h : List Op) : Prop :=
  answer (h ++ [.write c.addr c.val]) (.read c.addr) &&& c.mask = c.val &&& c.mask

instance (h : List Op) : Decidable (c.Matches answer h) := inferInstanceAs (Decidable (_ = _))

/-- The attempts up to the first that matches, at most `n`. -/
def tries : Nat → List Op → Nat
  | 0, _ => 0
  | n + 1, h => if c.Matches answer h then 1 else tries n (h ++ c.attempt) + 1

/-- One of the `n` attempts after `h` matches. -/
def Accepted (n : Nat) (h : List Op) : Prop := ∃ i, i < n ∧ c.Matches answer (h ++ c.attempts i)

end Device
end Call

section Device
variable (answer : List Op → (op : Op) → op.Res)

theorem accepted_succ {c : Call} {n : Nat} {h : List Op} :
    c.Accepted answer (n + 1) h ↔ c.Matches answer h ∨ c.Accepted answer n (h ++ c.attempt) := by
  constructor
  · intro ⟨i, hi, hmatch⟩
    cases i with
    | zero => exact .inl (by simpa using hmatch)
    | succ i =>
        rw [Call.attempts_succ, ← List.append_assoc] at hmatch
        exact .inr ⟨i, by omega, hmatch⟩
  · intro hor
    cases hor with
    | inl hmatch => exact ⟨0, by omega, by simpa using hmatch⟩
    | inr hlater =>
        have ⟨i, hi, hmatch⟩ := hlater
        rw [List.append_assoc, ← Call.attempts_succ] at hmatch
        exact ⟨i + 1, by omega, hmatch⟩

theorem tries_le (c : Call) (n : Nat) (h : List Op) : c.tries answer n h ≤ n := by
  induction n generalizing h with
  | zero => exact Nat.le_refl 0
  | succ n ih =>
      have hrest := ih (h ++ c.attempt)
      rw [Call.tries]
      split <;> omega

theorem tries_pos (c : Call) (n : Nat) (h : List Op) : 0 < c.tries answer (n + 1) h := by
  rw [Call.tries]
  split <;> omega

/-- No attempt but the last one matches. -/
theorem not_matches_of_lt_tries {c : Call} {n i : Nat} {h : List Op}
    (hi : i + 1 < c.tries answer n h) : ¬ c.Matches answer (h ++ c.attempts i) := by
  induction n generalizing i h with
  | zero => cases hi
  | succ n ih =>
      rw [Call.tries] at hi
      split at hi
      case isTrue => omega
      case isFalse hmatch =>
        cases i with
        | zero => simpa using hmatch
        | succ i =>
            rw [Call.attempts_succ, ← List.append_assoc]
            exact ih (by omega)

/-- The last attempt matches if one does. -/
theorem matches_of_accepted {c : Call} {n : Nat} {h : List Op} (hacc : c.Accepted answer n h) :
    ∃ k, c.tries answer n h = k + 1 ∧ c.Matches answer (h ++ c.attempts k) := by
  induction n generalizing h with
  | zero =>
      have ⟨i, hi, _⟩ := hacc
      cases hi
  | succ n ih =>
      by_cases hmatch : c.Matches answer h
      · exact ⟨0, by rw [Call.tries, if_pos hmatch], by simpa using hmatch⟩
      · have ⟨k, hk, hlast⟩ := ih (((accepted_succ answer).mp hacc).resolve_left hmatch)
        refine ⟨k + 1, by rw [Call.tries, if_neg hmatch, hk], ?_⟩
        rw [Call.attempts_succ, ← List.append_assoc]
        exact hlast

/-- What a call does: the attempts up to the first match, and a status that tells
whether there was one. -/
theorem exec_verifyAttempts_oracle (c : Call) (n : Nat) (h : List Op) :
    ∃ status, (verifyAttempts c.addr c.val c.mask n).exec (oracle answer) h =
        (some status, h ++ c.attempts (c.tries answer n h)) ∧
      (status = 0 ↔ c.Accepted answer n h) := by
  induction n generalizing h with
  | zero =>
      refine ⟨1, by simp [verifyAttempts, Call.tries], ?_⟩
      constructor
      · intro hzero
        cases hzero
      · intro ⟨i, hi, _⟩
        cases hi
  | succ n ih =>
      rw [exec_verifyAttempts]
      by_cases hmatch : c.Matches answer h
      · refine ⟨0, ?_, ?_⟩
        · rw [Call.tries, if_pos hmatch]
          change (if c.Matches answer h then _ else _) = _
          rw [if_pos hmatch]
          simp [oracle, Call.attempts, Call.attempt]
        · exact ⟨fun _ => (accepted_succ answer).mpr (.inl hmatch), fun _ => rfl⟩
      · have ⟨status, hexec, hstatus⟩ := ih (h ++ c.attempt)
        have hhistory : h ++ [.write c.addr c.val] ++ [.read c.addr] = h ++ c.attempt := by
          simp [Call.attempt]
        refine ⟨status, ?_, ?_⟩
        · rw [Call.tries, if_neg hmatch]
          change (if c.Matches answer h then _ else _) = _
          rw [if_neg hmatch]
          simp only [oracle, hhistory]
          rw [hexec, Call.attempts_succ, List.append_assoc]
        · rw [hstatus, accepted_succ]
          exact ⟨.inr, fun hor => hor.resolve_left hmatch⟩

/-- The operations after a call with the default number of attempts. -/
def Call.done (c : Call) (h : List Op) : List Op :=
  h ++ c.attempts (c.tries answer defaultRetries h)

def after (cs : List Call) (h : List Op) : List Op := cs.foldl (fun h c => c.done answer h) h

@[simp] theorem after_nil (h : List Op) : after answer [] h = h := rfl

@[simp] theorem after_cons (c : Call) (cs : List Call) (h : List Op) :
    after answer (c :: cs) h = after answer cs (c.done answer h) := rfl

theorem after_append (cs cs' : List Call) (h : List Op) :
    after answer (cs ++ cs') h = after answer cs' (after answer cs h) := List.foldl_append

/-- The device accepts every call of a sequence that starts after `h`. -/
def AllAccepted : List Call → List Op → Prop
  | [], _ => True
  | c :: cs, h => c.Accepted answer defaultRetries h ∧ AllAccepted cs (c.done answer h)

theorem exec_verifiedWrite (addr mask : Word) {val : Word} {text : Text}
    (hval : arith text = some val) (h : List Op) :
    ∃ status, (verifiedWrite addr text mask defaultRetries).exec (oracle answer) h =
      (some status, Call.done answer ⟨addr, val, mask⟩ h) := by
  have ⟨status, hexec, _⟩ := exec_verifyAttempts_oracle answer ⟨addr, val, mask⟩ defaultRetries h
  refine ⟨status, ?_⟩
  rw [verifiedWrite, hval]
  exact hexec

/-- The calls that fill the slots from `k` on. -/
def slotCalls : Nat → List (Word × Word) → List Call
  | _, [] => []
  | k, (pc, cmd) :: slots =>
      ⟨wpReg k .addr, pc, defaultMask⟩ :: ⟨wpReg k .cmd, cmd, defaultMask⟩ :: slotCalls (k + 1) slots

theorem slotCalls_append (k : Nat) (xs ys : List (Word × Word)) :
    slotCalls k (xs ++ ys) = slotCalls k xs ++ slotCalls (k + xs.length) ys := by
  induction xs generalizing k with
  | nil => rfl
  | cons x xs ih =>
      rw [List.cons_append, slotCalls, slotCalls, ih, List.length_cons, List.cons_append,
        List.cons_append, Nat.add_right_comm, Nat.add_assoc]

theorem exec_writeSlot {k : Nat} {pcText cmdText : Text} {pc cmd : Word}
    (hpc : arith pcText = some pc) (hcmd : arith cmdText = some cmd) (h : List Op) :
    ∃ status, (writeSlot k pcText cmdText).exec (oracle answer) h =
      (some status, after answer (slotCalls k [(pc, cmd)]) h) := by
  have ⟨_, hfirst⟩ := exec_verifiedWrite answer (wpReg k .addr) defaultMask hpc h
  have ⟨status, hsecond⟩ := exec_verifiedWrite answer (wpReg k .cmd) defaultMask hcmd
    (Call.done answer ⟨wpReg k .addr, pc, defaultMask⟩ h)
  refine ⟨status, ?_⟩
  rw [writeSlot, exec_andThen hfirst]
  exact hsecond

theorem exec_writeSentinels {n k v : Nat} (hv : v + 2 * n ≤ 16 ^ 8) (h : List Op) :
    (writeSentinels n k v).exec (oracle answer) h =
      (some 0, after answer (slotCalls k (sentinels n v)) h) := by
  induction n generalizing k v h with
  | zero => rfl
  | succ n ih =>
      have ⟨_, hslot⟩ := exec_writeSlot answer (k := k) (arith_hexWord (v := v) (by omega))
        arith_noneCmd h
      rw [writeSentinels, exec_andThen hslot, ih (by omega)]
      rfl

theorem exec_writeRows (es : List Entry) (k : Nat) (h : List Op) :
    (writeRows k (es.map Entry.row)).exec (oracle answer) h =
      (some 0, after answer (slotCalls k (es.map Entry.slot)) h) := by
  induction es generalizing k h with
  | nil => rfl
  | cons e es ih =>
      have hspace : ' ' ∉ e.pcText :=
        ne_of_constant e.constant_pcText (by decide) (by decide) (by decide)
      have ⟨_, hslot⟩ := exec_writeSlot answer (k := k) e.arith_pcText e.arith_cmdText h
      rw [List.map_cons, writeRows, e.afterFirst_row, beforeFirst_append hspace,
        afterFirst_append hspace, exec_andThen hslot, ih]
      rfl

/-- The calls `ctrace_set_watchpoints` makes for the entries in their order. -/
def tableCalls (ss : List Entry) : List Call := slotCalls 0 (table ss)

/-- The arguments pass the tests of `ctrace_set_watchpoints`. -/
def Admitted (es : List Entry) : Prop :=
  es ≠ [] ∧ es.length ≤ ctWpNum ∧ (es.map Entry.pc).Nodup ∧
    tooLow ((sortEntries es).map Entry.row) = false

theorem exec_of_admitted {es : List Entry} (hadm : Admitted es) (h : List Op) :
    (ctraceSetWatchpoints (es.map Entry.arg)).exec (oracle answer) h =
      (some 0, after answer (tableCalls (sortEntries es)) h) := by
  have ⟨hne, hlen, hdup, hlow⟩ := hadm
  have hperm := sortEntries_perm es
  have hne' : sortEntries es ≠ [] := mt (fun hnil => by rw [hnil] at hperm; exact hperm.symm.eq_nil) hne
  have hnum : ctWpNum = 15 := rfl
  have hdup' : ((sortEntries es).map Entry.pc).Nodup := (hperm.map _).nodup_iff.mpr hdup
  rw [ctraceSetWatchpoints, if_neg (by rw [List.length_map]; omega), mapM_rowOf]
  change (programRows _).exec (oracle answer) h = _
  rw [sortLines_rows hne, programRows, if_neg (not_not_intro ((countDistinct_rows hne').mpr hdup')),
    if_neg (by simp [hlow]), List.length_map, exec_andThen (exec_writeSentinels answer (by omega) h),
    exec_writeRows, tableCalls, table, slotCalls_append, after_append, length_sentinels, Nat.zero_add]

theorem exec_of_not_admitted {es : List Entry} (hadm : ¬ Admitted es) (h : List Op) :
    (ctraceSetWatchpoints (es.map Entry.arg)).exec (oracle answer) h = (some 1, h) := by
  by_cases hlen : ctWpNum < es.length
  · rw [ctraceSetWatchpoints, if_pos (by rw [List.length_map]; exact hlen)]
    rfl
  · rw [ctraceSetWatchpoints, if_neg (by rw [List.length_map]; exact hlen), mapM_rowOf]
    change (programRows _).exec (oracle answer) h = _
    by_cases hne : es = []
    · -- printing no rows prints an empty line, which counts as one key
      subst hne
      rfl
    · have hperm := sortEntries_perm es
      have hne' : sortEntries es ≠ [] :=
        mt (fun hnil => by rw [hnil] at hperm; exact hperm.symm.eq_nil) hne
      rw [sortLines_rows hne, programRows]
      by_cases hdup : (es.map Entry.pc).Nodup
      · have hdup' : ((sortEntries es).map Entry.pc).Nodup := (hperm.map _).nodup_iff.mpr hdup
        have hlow : tooLow ((sortEntries es).map Entry.row) = true := by
          rw [← Bool.not_eq_false]
          exact fun hlow => hadm ⟨hne, Nat.le_of_not_lt hlen, hdup, hlow⟩
        rw [if_neg (not_not_intro ((countDistinct_rows hne').mpr hdup')), if_pos hlow]
        rfl
      · have hdup' : ¬ ((sortEntries es).map Entry.pc).Nodup :=
          mt (hperm.map _).nodup_iff.mp hdup
        rw [if_pos (mt (countDistinct_rows hne').mp hdup')]
        rfl

end Device

end TraceFS.CfgTrace
