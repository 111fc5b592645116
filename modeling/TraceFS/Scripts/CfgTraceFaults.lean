import TraceFS.Lib.MaskedWrites
import TraceFS.Scripts.CfgTraceMain

/-!
What the retries of `verified_write` are for: a device that loses a write, or takes
only some of its bits, is configured all the same as long as eight attempts in a row
reach every bit.
-/
namespace TraceFS.CfgTrace
open Access Access.Prog MaskedWrites

/-- A device that commits the bits `takes` of a write, and drives the bits nobody
compares. Both may depend on everything that happened before. -/
structure Flaky where
  initial : Word → Word
  takes : List Op → Word
  drives : List Op → Word

namespace Flaky
variable (d : Flaky)

def commit (s : List Op × (Word → Word)) : Op → List Op × (Word → Word)
  | .read a => (s.1 ++ [.read a], s.2)
  | .write a v => (s.1 ++ [.write a v], Write.apply s.2 ⟨a, d.takes s.1, v⟩)

/-- The registers behind the operations. -/
def regs (h : List Op) : Word → Word := (h.foldl d.commit ([], d.initial)).2

def answer (h : List Op) : (op : Op) → op.Res
  | .read a => blend (~~~maskOf a) (d.drives h) (d.regs h a)
  | .write _ _ => ()

/-- Eight attempts in a row reach every bit that is compared. -/
def Settles : Prop := ∀ (c : Call) (h : List Op) (j : Nat), c.mask.getLsbD j = true →
  ∃ i, i < defaultRetries ∧ (d.takes (h ++ c.attempts i)).getLsbD j = true

theorem commit_fst (h : List Op) (r : Word → Word) : (h.foldl d.commit ([], r)).1 = h := by
  induction h using List.reverseRecOn with
  | nil => rfl
  | append_singleton h op ih =>
      rw [List.foldl_concat]
      cases op with
      | read a | write a v => rw [commit, ih]

theorem regs_read (h : List Op) (a : Word) : d.regs (h ++ [.read a]) = d.regs h := by
  rw [regs, List.foldl_concat, commit, regs]

theorem regs_write (h : List Op) (a v : Word) :
    d.regs (h ++ [.write a v]) = Write.apply (d.regs h) ⟨a, d.takes h, v⟩ := by
  rw [regs, List.foldl_concat, commit, d.commit_fst, regs]

theorem regs_attempt (h : List Op) (c : Call) :
    d.regs (h ++ c.attempt) = Write.apply (d.regs h) ⟨c.addr, d.takes h, c.val⟩ := by
  have two : h ++ c.attempt = h ++ [.write c.addr c.val] ++ [.read c.addr] := by
    rw [List.append_assoc]
    rfl
  rw [two, regs_read, regs_write]

/-- What no operation writes is kept. -/
theorem regs_append {ops : List Op} {a : Word} (h : List Op) (other : ∀ v, .write a v ∉ ops) :
    d.regs (h ++ ops) a = d.regs h a := by
  induction ops using List.reverseRecOn with
  | nil => rw [List.append_nil]
  | append_singleton ops op ih =>
      have keep := ih fun v mem => other v (List.mem_append_left _ mem)
      rw [← List.append_assoc]
      cases op with
      | read b => rw [regs_read, keep]
      | write b v =>
          have apart : a ≠ b := by
            rintro rfl
            exact other v (List.mem_append_right _ List.mem_cons_self)
          rw [regs_write, Write.apply, Function.update_of_ne apart, keep]

/-- A bit that every write to the register clears stays clear. -/
theorem clear_append {ops : List Op} {a : Word} {j : Nat} (h : List Op)
    (clears : ∀ v, .write a v ∈ ops → v.getLsbD j = false) (clear : (d.regs h a).getLsbD j = false) :
    (d.regs (h ++ ops) a).getLsbD j = false := by
  induction ops using List.reverseRecOn with
  | nil => rwa [List.append_nil]
  | append_singleton ops op ih =>
      have keep := ih fun v mem => clears v (List.mem_append_left _ mem)
      rw [← List.append_assoc]
      cases op with
      | read b => rwa [regs_read]
      | write b v =>
          rw [regs_write]
          by_cases hit : Write.Addresses ⟨b, d.takes (h ++ ops), v⟩ a j
          · obtain ⟨rfl, -⟩ := id hit
            rw [Write.getLsbD_apply_of_addresses hit]
            exact clears v (List.mem_append_right _ List.mem_cons_self)
          · rwa [Write.getLsbD_apply_of_not_addresses hit]

/-- Behind `n` attempts a bit is that of the value if one of them reached it. -/
theorem getLsbD_attempts (c : Call) (n j : Nat) (h : List Op) :
    ((∃ i, i < n ∧ (d.takes (h ++ c.attempts i)).getLsbD j = true) →
        (d.regs (h ++ c.attempts n) c.addr).getLsbD j = c.val.getLsbD j) ∧
      ((d.regs h c.addr).getLsbD j = c.val.getLsbD j →
        (d.regs (h ++ c.attempts n) c.addr).getLsbD j = c.val.getLsbD j) := by
  induction n generalizing h with
  | zero =>
      refine ⟨?_, ?_⟩
      · rintro ⟨i, hi, -⟩
        exact absurd hi (Nat.not_lt_zero i)
      · rw [Call.attempts_zero, List.append_nil]
        exact id
  | succ n ih =>
      obtain ⟨later, kept⟩ := ih (h ++ c.attempt)
      rw [Call.attempts_succ, ← List.append_assoc]
      have reached (taken : (d.takes h).getLsbD j = true) :
          (d.regs (h ++ c.attempt) c.addr).getLsbD j = c.val.getLsbD j := by
        rw [regs_attempt, Write.getLsbD_apply_of_addresses ⟨rfl, taken⟩]
      refine ⟨?_, fun settled => kept ?_⟩
      · rintro ⟨i, hi, taken⟩
        cases i with
        | zero => exact kept (reached (by simpa using taken))
        | succ i =>
            rw [Call.attempts_succ, ← List.append_assoc] at taken
            exact later ⟨i, Nat.lt_of_succ_lt_succ hi, taken⟩
      · by_cases taken : (d.takes h).getLsbD j = true
        · exact reached taken
        · rw [regs_attempt, Write.getLsbD_apply_of_not_addresses fun hit => taken hit.2, settled]

theorem readback (h : List Op) (a : Word) :
    d.answer h (.read a) &&& maskOf a = d.regs h a &&& maskOf a :=
  blend_not_and _ _ _

theorem matches_iff {c : Call} (hmask : c.mask = maskOf c.addr) (h : List Op) :
    c.Matches d.answer h ↔ d.regs (h ++ c.attempt) c.addr &&& c.mask = c.val &&& c.mask := by
  rw [Call.Matches, hmask, d.readback, d.regs_write, d.regs_attempt]

section Settled
variable {d} (settles : d.Settles)
include settles

theorem accepted {c : Call} (hmask : c.mask = maskOf c.addr) (h : List Op) :
    c.Accepted d.answer defaultRetries h := by
  refine ⟨7, by decide, (d.matches_iff hmask _).mpr ?_⟩
  have eight : h ++ c.attempts 7 ++ c.attempt = h ++ c.attempts defaultRetries := by
    rw [List.append_assoc]
    rfl
  rw [eight, and_eq_and_iff]
  exact fun j hj => (d.getLsbD_attempts c defaultRetries j h).1 (settles c h j hj)

theorem done_value {c : Call} (hmask : c.mask = maskOf c.addr) (h : List Op) :
    d.regs (c.done d.answer h) c.addr &&& c.mask = c.val &&& c.mask := by
  obtain ⟨k, hk, last⟩ := matches_of_accepted d.answer (accepted settles hmask h)
  have more : h ++ c.attempts (k + 1) = h ++ c.attempts k ++ c.attempt := by
    rw [Call.attempts, List.replicate_succ', List.flatten_append, List.append_assoc]
    simp [Call.attempts]
  rw [Call.done, hk, more]
  exact (d.matches_iff hmask _).mp last

end Settled

theorem done_other {c : Call} {a : Word} (apart : c.addr ≠ a) (h : List Op) :
    d.regs (c.done d.answer h) a = d.regs h a := by
  refine d.regs_append h fun v mem => ?_
  have same : Op.write a v = c.write := by
    simpa [Call.attempt, Call.write] using Call.mem_attempts mem
  exact apart (Op.write.inj same).1.symm

theorem after_other {cs : List Call} {a : Word} (apart : ∀ c ∈ cs, c.addr ≠ a) (h : List Op) :
    d.regs (after d.answer cs h) a = d.regs h a := by
  induction cs generalizing h with
  | nil => rfl
  | cons c cs ih =>
      rw [after_cons, ih fun c' hc' => apart c' (List.mem_cons_of_mem c hc')]
      exact d.done_other (apart c List.mem_cons_self) h

/-- Calls that write different registers leave each with its value. -/
theorem after_value {d : Flaky} (settles : d.Settles) {cs : List Call}
    (hmask : ∀ c ∈ cs, c.mask = maskOf c.addr)
    (distinct : cs.Pairwise fun c c' => c.addr ≠ c'.addr) (h : List Op) {c : Call} (hc : c ∈ cs) :
    d.regs (after d.answer cs h) c.addr &&& c.mask = c.val &&& c.mask := by
  induction cs generalizing h with
  | nil => cases hc
  | cons c' cs ih =>
      obtain ⟨first, rest⟩ := List.pairwise_cons.mp distinct
      rw [after_cons]
      cases hc with
      | head =>
          rw [d.after_other fun c' hc' => (first c' hc').symm]
          exact done_value settles (hmask c List.mem_cons_self) h
      | tail _ hc => exact ih (fun c hc => hmask c (List.mem_cons_of_mem c' hc)) rest _ hc

end Flaky

/-- What the trace unit holds before Enable is set: 14 sentinels and the entry. -/
structure Prepared (daq : Word) (r : Word → Word) : Prop where
  dataControl : r trTeDataControl = 0x00000001
  tsControl : r trTsControl = 0x3f008023
  sentinel : ∀ k, k < 14 → r (wpReg k .addr) = BitVec.ofNat 32 (1 + 2 * k) ∧ r (wpReg k .cmd) = 0
  entry : r (wpReg 14 .addr) = 0xa1040000 ∧ r (wpReg 14 .cmd) = daq

/-- The trace unit runs with its configuration; nothing else was written. -/
structure Configured (daq : Word) (before r : Word → Word) : Prop where
  prepared : Prepared daq r
  control : r trTeControl &&& controlMask = 0x0180806f &&& controlMask
  others : ∀ a, a ≠ trTeControl → a ≠ trTeDataControl → a ≠ trTsControl →
    (∀ k col, k < ctWpNum → a ≠ wpReg k col) → r a = before a

theorem mem_slotCalls_getElem {slots : List (Word × Word)} (k : Nat) {i : Nat} (h : i < slots.length)
    (col : Column) : ⟨wpReg (k + i) col, col.get slots[i], defaultMask⟩ ∈ slotCalls k slots := by
  induction slots generalizing k i with
  | nil => cases h
  | cons slot slots ih =>
      rw [slotCalls]
      cases i with
      | zero => cases col <;> simp [Column.get]
      | succ i =>
          have mem := ih (k + 1) (Nat.lt_of_succ_lt_succ h)
          rw [Nat.add_right_comm] at mem
          exact List.mem_cons_of_mem _ (List.mem_cons_of_mem _ mem)

theorem and_defaultMask (x : Word) : x &&& defaultMask = x := BitVec.and_allOnes

theorem setupCalls_distinct (daq : Word) :
    (setupCalls daq).Pairwise fun c c' => c.addr ≠ c'.addr := by
  have hlen := length_daqEntry_le daq
  have table {a : Word} (low : a.toNat < ctWpBase) {c : Call} (hc : c ∈ tableCalls [daqEntry daq]) :
      a ≠ c.addr := by
    obtain ⟨j, col, hj, haddr, -⟩ := mem_tableCalls hlen hc
    have base := base_le_wpReg col hj
    rintro rfl
    rw [haddr] at low
    omega
  refine .cons ?_ (.cons ?_ (.cons ?_ (tableCalls_distinct hlen)))
  · simp only [List.forall_mem_cons]
    exact ⟨by decide, by decide, fun c hc => table (by decide) hc⟩
  · simp only [List.forall_mem_cons]
    exact ⟨by decide, fun c hc => table (by decide) hc⟩
  · exact fun c hc => table (by decide) hc

theorem prepared_of_calls {daq : Word} {r : Word → Word}
    (values : ∀ c ∈ setupCalls daq, r c.addr &&& c.mask = c.val &&& c.mask) : Prepared daq r := by
  have value {a v : Word} (mem : ⟨a, v, defaultMask⟩ ∈ setupCalls daq) : r a = v := by
    have same := values _ mem
    rwa [and_defaultMask, and_defaultMask] at same
  have slots : table [daqEntry daq] = sentinels 14 1 ++ [(0xa1040000, daq)] := rfl
  have slot {k : Nat} (h : k < (table [daqEntry daq]).length) (col : Column) :
      r (wpReg k col) = col.get ((table [daqEntry daq])[k]) := by
    have mem := mem_slotCalls_getElem 0 h col
    rw [Nat.zero_add] at mem
    exact value (List.mem_cons_of_mem _ (List.mem_cons_of_mem _ (List.mem_cons_of_mem _ mem)))
  have hlen : (table [daqEntry daq]).length = 15 := length_table (length_daqEntry_le daq)
  refine ⟨value (by simp [setupCalls]), value (by simp [setupCalls]), ?_, ?_⟩
  · intro k hk
    have here : k < (sentinels 14 1).length := by rwa [length_sentinels]
    have read (col : Column) := slot (k := k) (by omega) col
    simp only [slots, List.getElem_append_left here, getElem_sentinels here] at read
    exact ⟨read .addr, read .cmd⟩
  · exact ⟨slot (k := 14) (by omega) .addr, slot (k := 14) (by omega) .cmd⟩

section Main
variable {d : Flaky} (daq : Word)

theorem addr_ne_of_setup {c : Call} {a : Word} (hc : c ∈ setupCalls daq) (control : a ≠ trTeControl)
    (dataControl : a ≠ trTeDataControl) (tsControl : a ≠ trTsControl)
    (free : ∀ k col, k < ctWpNum → a ≠ wpReg k col) : c.addr ≠ a := by
  simp only [setupCalls, List.mem_cons] at hc
  rcases hc with rfl | rfl | rfl | hc
  · exact control.symm
  · exact dataControl.symm
  · exact tsControl.symm
  · obtain ⟨j, col, hj, haddr, -⟩ := mem_tableCalls (length_daqEntry_le daq) hc
    rw [haddr]
    exact (free j col hj).symm

theorem prepared_congr {r r' : Word → Word} (h : Prepared daq r)
    (same : ∀ a, a ≠ trTeControl → r' a = r a) : Prepared daq r' := by
  have kept {k : Nat} (hk : k < ctWpNum) (col : Column) : r' (wpReg k col) = r (wpReg k col) := by
    refine same _ fun heq => ?_
    have base := base_le_wpReg col hk
    rw [heq] at base
    exact absurd base (by decide)
  refine ⟨?_, ?_, ?_, ?_⟩
  · rw [same _ (by decide), h.dataControl]
  · rw [same _ (by decide), h.tsControl]
  · intro k hk
    have room : k < ctWpNum := Nat.lt_succ_of_lt hk
    rw [kept room, kept room]
    exact h.sentinel k hk
  · rw [kept (by decide), kept (by decide)]
    exact h.entry

theorem prepared_beforeEnable (settles : d.Settles) :
    Prepared daq (d.regs (beforeEnable d.answer daq)) := by
  refine prepared_of_calls fun c hc => ?_
  rw [beforeEnable, d.regs_append _ fun v => write_notMem_dumpReads _ v _ _, configCalls, after_cons]
  exact Flaky.after_value settles
    (fun c hc => mask_configCalls daq (List.mem_cons_of_mem activateCall hc))
    (setupCalls_distinct daq) _ hc

/-- The attempts to set Enable keep the rest of the configuration. -/
theorem prepared_of_attempts {h pre rest : List Op} {n : Nat} (prepared : Prepared daq (d.regs h))
    (split : enableCall.attempts n = pre ++ rest) : Prepared daq (d.regs (h ++ pre)) := by
  refine prepared_congr daq prepared fun a apart => d.regs_append h fun v mem => ?_
  have own : .write a v ∈ enableCall.attempts n := split ▸ List.mem_append_left rest mem
  have same : Op.write a v = enableCall.write := by
    simpa [Call.attempt, Call.write] using Call.mem_attempts own
  exact apart (Op.write.inj same).1

/-- From the activation on, Enable stays clear up to the attempts to set it. -/
theorem clear_of_prefix (settles : d.Settles) {pre gap : List Op}
    (split : beforeEnable d.answer daq = pre ++ gap)
    (activated : activateCall.done d.answer [primeWrite] <+: pre) :
    (d.regs pre trTeControl).getLsbD 1 = false := by
  obtain ⟨later, rfl⟩ := activated
  refine d.clear_append _ (fun v mem => ?_) ?_
  · have before : .write trTeControl v ∈ beforeEnable d.answer daq := by
      rw [split]
      exact List.mem_append_left _ (List.mem_append_right _ mem)
    exact enable_clear_beforeEnable d.answer before
  · have value := Flaky.done_value settles (c := activateCall) rfl [primeWrite]
    exact and_eq_and_iff.mp value 1 rfl

end Main

/-- The first write after reset is lost; the others take the halves of a word in turn. -/
def halfCommits : Flaky where
  initial := fun _ => 0
  takes h := if h = [] then 0 else if h.length % 4 < 2 then 0x0000ffff else 0xffff0000
  drives h := if h.length % 3 = 0 then 0xffffffff else 0

theorem length_attempts (c : Call) (n : Nat) : (c.attempts n).length = 2 * n := by
  induction n with
  | zero => rfl
  | succ n ih =>
      rw [Call.attempts_succ, List.length_append, ih, Nat.mul_succ, Nat.add_comm]
      rfl

theorem half_of_bit {j : Nat} (h : j < 32) : (0x0000ffff : Word).getLsbD j = true ∨
    (0xffff0000 : Word).getLsbD j = true := by
  decide +revert

theorem settles_halfCommits : halfCommits.Settles := by
  intro c h j hj
  have bit : j < 32 := BitVec.lt_of_getLsbD hj
  have takes (i : Nat) (hi : 0 < i) : halfCommits.takes (h ++ c.attempts i) =
      if (h.length + 2 * i) % 4 < 2 then 0x0000ffff else 0xffff0000 := by
    have some : h ++ c.attempts i ≠ [] := by
      intro none
      have len := congrArg List.length none
      rw [List.length_append, length_attempts, List.length_nil] at len
      omega
    simp only [halfCommits, if_neg some, List.length_append, length_attempts]
  -- attempts 1 and 2 take different halves
  rcases half_of_bit bit with low | high
  · by_cases one : (h.length + 2 * 1) % 4 < 2
    · exact ⟨1, by decide, by rwa [takes 1 (by decide), if_pos one]⟩
    · exact ⟨2, by decide, by rwa [takes 2 (by decide), if_pos (by omega)]⟩
  · by_cases one : (h.length + 2 * 1) % 4 < 2
    · exact ⟨2, by decide, by rwa [takes 2 (by decide), if_neg (by omega)]⟩
    · exact ⟨1, by decide, by rwa [takes 1 (by decide), if_neg one]⟩

end TraceFS.CfgTrace
