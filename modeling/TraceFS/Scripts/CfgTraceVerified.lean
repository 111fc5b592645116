import TraceFS.Scripts.CfgTraceCalls

/-!
Verified writes, seen in the list of operations alone.

A write is verified when one of its attempts reads back a match. In a sequence of
calls with different writes the operations tell the calls apart, so that every
write is verified exactly when the device accepts every call.
-/
namespace TraceFS.CfgTrace
open Access Access.Prog

section Lists
variable {α : Type}

theorem pairs_eq_append {x y : α} (hne : x ≠ y) {n : Nat} {rest pre post : List α}
    (hrest : x ∉ rest) (h : (List.replicate n [x, y]).flatten ++ rest = pre ++ x :: y :: post) :
    ∃ i, i < n ∧ pre = (List.replicate i [x, y]).flatten := by
  induction n generalizing pre with
  | zero =>
      rw [List.replicate_zero, List.flatten_nil, List.nil_append] at h
      exact absurd (h ▸ List.mem_append_right pre List.mem_cons_self) hrest
  | succ n ih =>
      rw [List.replicate_succ, List.flatten_cons, List.append_assoc] at h
      match pre with
      | [] => exact ⟨0, by omega, rfl⟩
      | [_] =>
          have hsecond := (List.cons_eq_cons.mp (List.cons_eq_cons.mp h).2).1
          exact absurd hsecond.symm hne
      | z :: z' :: pre =>
          have ⟨hz, htail⟩ := List.cons_eq_cons.mp h
          have ⟨hz', htail⟩ := List.cons_eq_cons.mp htail
          have ⟨i, hi, hpre⟩ := ih htail
          refine ⟨i + 1, by omega, ?_⟩
          rw [List.replicate_succ, List.flatten_cons, ← hpre, ← hz, ← hz']
          rfl

/-- Where the pair occurs among other elements, it is one of its repetitions. -/
theorem eq_of_pair_append {x y : α} (hne : x ≠ y) {n : Nat} {first rest pre post : List α}
    (hfirst : ¬ [x, y] <:+: first) (hrest : x ∉ rest)
    (h : first ++ ((List.replicate (n + 1) [x, y]).flatten ++ rest) = pre ++ x :: y :: post) :
    ∃ i, i < n + 1 ∧ pre = first ++ (List.replicate i [x, y]).flatten := by
  cases List.append_eq_append_iff.mp h with
  | inl hlater =>
      have ⟨gap, hpre, hgap⟩ := hlater
      have ⟨i, hi, hblocks⟩ := pairs_eq_append hne hrest hgap
      exact ⟨i, hi, by rw [hpre, hblocks]⟩
  | inr hearlier =>
      have ⟨gap, hpre, hgap⟩ := hearlier
      match gap with
      | [] => exact ⟨0, by omega, by simpa using hpre.symm⟩
      | [_] =>
          have hsecond := (List.cons_eq_cons.mp (List.cons_eq_cons.mp hgap).2).1
          exact absurd hsecond.symm hne
      | z :: z' :: gap =>
          have ⟨hz, htail⟩ := List.cons_eq_cons.mp hgap
          have ⟨hz', _⟩ := List.cons_eq_cons.mp htail
          exact absurd ⟨pre, gap, by rw [hpre, ← hz, ← hz']; simp⟩ hfirst

/-- The first element with a property splits a list in one way. -/
theorem eq_of_first {P : α → Prop} {x y : α} {pre pre' post post' : List α}
    (h : pre ++ x :: post = pre' ++ y :: post') (hx : P x) (hy : P y)
    (hpre : ∀ z ∈ pre, ¬ P z) (hpre' : ∀ z ∈ pre', ¬ P z) : pre = pre' := by
  induction pre generalizing pre' with
  | nil =>
      cases pre' with
      | nil => rfl
      | cons z pre' =>
          have hz := (List.cons_eq_cons.mp h).1
          exact absurd (hz ▸ hx) (hpre' z List.mem_cons_self)
  | cons z pre ih =>
      cases pre' with
      | nil =>
          have hz := (List.cons_eq_cons.mp h).1
          exact absurd (hz ▸ hy) (hpre z List.mem_cons_self)
      | cons z' pre' =>
          have ⟨hz, htail⟩ := List.cons_eq_cons.mp h
          rw [hz, ih htail (fun w hw => hpre w (List.mem_cons_of_mem z hw))
            (fun w hw => hpre' w (List.mem_cons_of_mem z' hw))]

end Lists

/-- The write of a call. -/
def Call.write (c : Call) : Op := .write c.addr c.val

section Device
variable (answer : List Op → (op : Op) → op.Res)

/-- One of the attempts of the call among the operations `h` matches. -/
def Verified (h : List Op) (c : Call) : Prop :=
  ∃ pre post, h = pre ++ c.write :: .read c.addr :: post ∧ c.Matches answer pre

/-- A call is verified exactly when it is accepted, if neither what comes before nor
what comes after looks like it. -/
theorem verified_iff_accepted {c : Call} {h rest : List Op} (hbefore : ¬ c.attempt <:+: h)
    (hafter : c.write ∉ rest) :
    Verified answer (c.done answer h ++ rest) c ↔ c.Accepted answer defaultRetries h := by
  have hne : c.write ≠ Op.read c.addr := by simp [Call.write]
  have ⟨n, hn⟩ := Nat.exists_eq_succ_of_ne_zero (Nat.ne_of_gt (tries_pos answer c 7 h))
  constructor
  · intro ⟨pre, post, hsplit, hmatch⟩
    rw [Call.done, defaultRetries, hn, List.append_assoc] at hsplit
    have ⟨i, hi, hpre⟩ := eq_of_pair_append hne hbefore hafter hsplit
    have hbound := tries_le answer c defaultRetries h
    rw [defaultRetries, hn] at hbound
    refine ⟨i, ?_, ?_⟩
    · rw [defaultRetries]
      omega
    · rw [hpre] at hmatch
      exact hmatch
  · intro hacc
    have ⟨k, hk, hmatch⟩ := matches_of_accepted answer hacc
    refine ⟨h ++ c.attempts k, rest, ?_, hmatch⟩
    rw [Call.done, hk, Call.attempts, List.replicate_succ', List.flatten_append]
    simp [Call.attempts, Call.attempt, Call.write]

/-- A sequence of calls adds their attempts. -/
theorem after_eq_append (cs : List Call) (h : List Op) :
    ∃ ops, after answer cs h = h ++ ops ∧ ∀ op ∈ ops, ∃ c ∈ cs, op ∈ c.attempt := by
  induction cs generalizing h with
  | nil => exact ⟨[], (List.append_nil h).symm, fun op hop => absurd hop List.not_mem_nil⟩
  | cons c cs ih =>
      have ⟨ops, hops, hmem⟩ := ih (c.done answer h)
      refine ⟨c.attempts (c.tries answer defaultRetries h) ++ ops, ?_, ?_⟩
      · rw [after_cons, hops, Call.done, List.append_assoc]
      · intro op hop
        cases List.mem_append.mp hop with
        | inl hown => exact ⟨c, List.mem_cons_self, Call.mem_attempts hown⟩
        | inr hlater =>
            have ⟨c', hc', hop'⟩ := hmem op hlater
            exact ⟨c', List.mem_cons_of_mem c hc', hop'⟩

theorem write_mem_attempt {c c' : Call} (h : c.write ∈ c'.attempt) : c.write = c'.write := by
  simpa [Call.attempt, Call.write] using h

/-- Every write of the sequence is made. -/
theorem write_mem_after {cs : List Call} {c : Call} (hc : c ∈ cs) (h : List Op) :
    c.write ∈ after answer cs h := by
  induction cs generalizing h with
  | nil => cases hc
  | cons c' cs ih =>
      cases hc with
      | head =>
          have ⟨ops, hops, _⟩ := after_eq_append answer cs (c.done answer h)
          have ⟨n, hn⟩ := Nat.exists_eq_succ_of_ne_zero (Nat.ne_of_gt (tries_pos answer c 7 h))
          have hmem : c.write ∈ c.attempts (c.tries answer defaultRetries h) := by
            rw [defaultRetries, hn, Call.attempts_succ]
            exact List.mem_append_left _ List.mem_cons_self
          rw [after_cons, hops, Call.done, List.append_assoc]
          exact List.mem_append_right h (List.mem_append_left ops hmem)
      | tail _ hmem => exact ih hmem (c'.done answer h)

/-- All calls of a sequence are verified exactly when the device accepts them. -/
theorem verified_iff_allAccepted {cs : List Call} {h tail : List Op}
    (hdistinct : cs.Pairwise fun c c' => c.write ≠ c'.write)
    (hbefore : ∀ c ∈ cs, c.write ∉ h) (htail : ∀ c ∈ cs, c.write ∉ tail) :
    (∀ c ∈ cs, Verified answer (after answer cs h ++ tail) c) ↔ AllAccepted answer cs h := by
  induction cs generalizing h with
  | nil => simp [AllAccepted]
  | cons c cs ih =>
      have ⟨hhead, hdistinct⟩ := List.pairwise_cons.mp hdistinct
      have ⟨ops, hops, hmem⟩ := after_eq_append answer cs (c.done answer h)
      have hafter : c.write ∉ ops ++ tail := by
        intro hin
        cases List.mem_append.mp hin with
        | inl hlater =>
            have ⟨c', hc', hop⟩ := hmem _ hlater
            exact hhead c' hc' (write_mem_attempt hop)
        | inr hin => exact htail c List.mem_cons_self hin
      have hinfix : ¬ c.attempt <:+: h := by
        intro hinf
        exact hbefore c List.mem_cons_self (hinf.subset List.mem_cons_self)
      have hrest : ∀ c' ∈ cs, c'.write ∉ c.done answer h := by
        intro c' hc' hin
        cases List.mem_append.mp hin with
        | inl hold => exact hbefore c' (List.mem_cons_of_mem c hc') hold
        | inr hown => exact hhead c' hc' (write_mem_attempt (Call.mem_attempts hown)).symm
      have hcs := ih hdistinct hrest fun c' hc' => htail c' (List.mem_cons_of_mem c hc')
      have hc := verified_iff_accepted answer hinfix hafter
      rw [← List.append_assoc, ← hops] at hc
      rw [List.forall_mem_cons, after_cons, hc, hcs, AllAccepted]

end Device

/-! The calls for the table write 30 different registers. -/

theorem wpReg_eq_iff {j j' : Nat} {col col' : Column} (hj : j < ctWpNum) (hj' : j' < ctWpNum) :
    wpReg j col = wpReg j' col' ↔ j = j' ∧ col = col' := by
  have hinj := @wpReg_inj ⟨j, hj⟩ ⟨j', hj'⟩ col col'
  rw [hinj, Fin.mk.injEq]

theorem mem_slotCalls {k : Nat} {slots : List (Word × Word)} {c : Call}
    (hc : c ∈ slotCalls k slots) :
    ∃ j col, k ≤ j ∧ j < k + slots.length ∧ c.addr = wpReg j col ∧ c.mask = defaultMask := by
  induction slots generalizing k with
  | nil => cases hc
  | cons slot slots ih =>
      rw [slotCalls] at hc
      rw [List.length_cons]
      cases hc with
      | head => exact ⟨k, .addr, by omega, by omega, rfl, rfl⟩
      | tail _ hc =>
          cases hc with
          | head => exact ⟨k, .cmd, by omega, by omega, rfl, rfl⟩
          | tail _ hc =>
              obtain ⟨j, col, hkj, hj, haddr⟩ := ih hc
              exact ⟨j, col, by omega, by omega, haddr⟩

theorem slotCalls_distinct {k : Nat} {slots : List (Word × Word)}
    (hk : k + slots.length ≤ ctWpNum) :
    (slotCalls k slots).Pairwise fun c c' => c.addr ≠ c'.addr := by
  induction slots generalizing k with
  | nil => exact List.Pairwise.nil
  | cons slot slots ih =>
      rw [List.length_cons] at hk
      have later (col : Column) {c : Call} (hc : c ∈ slotCalls (k + 1) slots) :
          wpReg k col ≠ c.addr := by
        have ⟨j, col', hkj, hj, haddr, _⟩ := mem_slotCalls hc
        rw [haddr, ne_eq, wpReg_eq_iff (by omega) (by omega)]
        intro ⟨heq, _⟩
        omega
      have hsame : wpReg k .addr ≠ wpReg k .cmd := by
        rw [ne_eq, wpReg_eq_iff (by omega) (by omega)]
        intro ⟨_, hcol⟩
        cases hcol
      rw [slotCalls]
      refine .cons ?_ (.cons ?_ (ih (by omega)))
      · intro c hc
        cases hc with
        | head => exact hsame
        | tail _ hc => exact later .addr hc
      · intro c hc
        exact later .cmd hc

section Table
variable {ss : List Entry} (hlen : ss.length ≤ ctWpNum)
include hlen

theorem mem_tableCalls {c : Call} (hc : c ∈ tableCalls ss) :
    ∃ j col, j < ctWpNum ∧ c.addr = wpReg j col ∧ c.mask = defaultMask := by
  have ⟨j, col, _, hj, haddr⟩ := mem_slotCalls hc
  rw [length_table hlen, Nat.zero_add] at hj
  exact ⟨j, col, hj, haddr⟩

theorem tableCalls_distinct : (tableCalls ss).Pairwise fun c c' => c.addr ≠ c'.addr := by
  apply slotCalls_distinct
  rw [length_table hlen, Nat.zero_add]

end Table

theorem write_ne_of_addr_ne {c c' : Call} (h : c.addr ≠ c'.addr) : c.write ≠ c'.write := by
  intro heq
  simp only [Call.write, Op.write.injEq] at heq
  exact h heq.1

end TraceFS.CfgTrace
