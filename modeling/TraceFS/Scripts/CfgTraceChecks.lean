import TraceFS.Scripts.CfgTraceCalls

/-!
Which argument lists `ctrace_set_watchpoints` accepts.

The test for a PC among the sentinels compares the zero-padded decimal key of the
smallest PC as an octal numeral, and a list without entries is taken for one with
a duplicate.
-/
namespace TraceFS.CfgTrace
open Access Access.Prog Numerals ShellText

/-- The largest sentinel below `n` entries. -/
def lastSentinel (n : Nat) : Nat := 2 * (ctWpNum - n) - 1

/-- The lists a table can be made of. -/
def Programmable (es : List Entry) : Prop :=
  es.length ≤ ctWpNum ∧ (es.map Entry.pc).Nodup ∧
    (0 < es.length → es.length < ctWpNum → ∀ e ∈ es, lastSentinel es.length < e.pc.toNat)

/-- Octal reading changes the outcome of the comparison with `last`: the digits are
no octal ones, or their octal value is not above `last` while the PC is. -/
def Misjudged (pc last : Nat) : Prop :=
  if 8 ≤ pc % 10 then pc ≤ last else 8 * (pc / 10) + pc % 10 ≤ last ∧ last < pc

/-- The list is not empty, and the comparison for its smallest PC comes out right,
if it is made. -/
def Judged (es : List Entry) : Prop :=
  es ≠ [] ∧ ¬ (es.length < ctWpNum ∧ (es.map Entry.pc).Nodup ∧
    ∃ e ∈ es, (∀ e' ∈ es, e.pc.toNat ≤ e'.pc.toNat) ∧
      Misjudged e.pc.toNat (lastSentinel es.length))

/-- The key of a PC read as a constant, for the values a sentinel can have. -/
theorem constant_key_le_iff (e : Entry) {last : Nat} (hlast : last < 28) :
    (∃ v, constant e.key = some v ∧ v ≤ last) ↔
      e.pc.toNat % 10 < 8 ∧ 8 * (e.pc.toNat / 10) + e.pc.toNat % 10 ≤ last := by
  by_cases hsmall : e.pc.toNat < 34
  · have hall : ∀ m : Fin 34, constant (fixedDigits 10 10 m.val) =
        if m.val % 10 < 8 then some (8 * (m.val / 10) + m.val % 10) else none := by decide
    have hkey : constant e.key = _ := hall ⟨e.pc.toNat, hsmall⟩
    rw [hkey]
    split
    case isTrue hdigit => simp [hdigit]
    case isFalse hdigit => simp [hdigit]
  · constructor
    · intro ⟨v, hv, hle⟩
      exfalso
      cases readBase_of_constant hv e.readBase_key with
      | inl heq => omega
      | inr hoctal =>
          -- read as octal the key stays above that of 33, which is 27
          have hbound : readBase 8 (fixedDigits 10 10 33) = some 27 := by decide
          have hlt := readBase_fixedDigits_lt (by decide) (by decide) (by omega) e.pc_lt hbound hoctal
          omega
    · intro ⟨hdigit, hle⟩
      omega

theorem tooLow_iff {e : Entry} {rest : List Entry} (hlen : (e :: rest).length < ctWpNum) :
    tooLow ((e :: rest).map Entry.row) = true ↔
      e.pc.toNat % 10 < 8 ∧
        8 * (e.pc.toNat / 10) + e.pc.toNat % 10 ≤ lastSentinel (e :: rest).length := by
  have hnum : ctWpNum = 15 := rfl
  have hone : (e :: rest).length = rest.length + 1 := rfl
  rw [← constant_key_le_iff e (by rw [lastSentinel]; omega), List.map_cons, tooLow, e.beforeFirst_row]
  simp only [List.length_cons, List.length_map]
  cases constant e.key with
  | none => simp
  | some v =>
      simp only [Option.some.injEq, exists_eq_left', Bool.and_eq_true, decide_eq_true_eq,
        lastSentinel]
      omega

/-- The test goes wrong exactly for the misjudged PCs. -/
theorem misjudged_iff {e : Entry} {rest : List Entry} (hlen : (e :: rest).length < ctWpNum) :
    Misjudged e.pc.toNat (lastSentinel (e :: rest).length) ↔
      ¬ (tooLow ((e :: rest).map Entry.row) = true ↔
        e.pc.toNat ≤ lastSentinel (e :: rest).length) := by
  rw [tooLow_iff hlen, Misjudged]
  split <;> omega

theorem programmable_iff_of_first {es : List Entry} {e : Entry} (he : e ∈ es)
    (hmin : ∀ e' ∈ es, e.pc.toNat ≤ e'.pc.toNat) :
    Programmable es ↔ es.length ≤ ctWpNum ∧ (es.map Entry.pc).Nodup ∧
      (es.length < ctWpNum → lastSentinel es.length < e.pc.toNat) := by
  have hpos : 0 < es.length := List.length_pos_of_mem he
  constructor
  · intro ⟨hlen, hdup, hlast⟩
    exact ⟨hlen, hdup, fun hlt => hlast hpos hlt e he⟩
  · intro ⟨hlen, hdup, hlast⟩
    exact ⟨hlen, hdup, fun _ hlt e' he' => Nat.lt_of_lt_of_le (hlast hlt) (hmin e' he')⟩

theorem judged_iff_of_first {es : List Entry} {e : Entry} (he : e ∈ es)
    (hmin : ∀ e' ∈ es, e.pc.toNat ≤ e'.pc.toNat) :
    Judged es ↔ (es.length < ctWpNum → (es.map Entry.pc).Nodup →
      ¬ Misjudged e.pc.toNat (lastSentinel es.length)) := by
  constructor
  · intro ⟨_, hjudged⟩ hlt hdup hbad
    exact hjudged ⟨hlt, hdup, e, he, hmin, hbad⟩
  · intro h
    refine ⟨List.ne_nil_of_mem he, ?_⟩
    intro ⟨hlt, hdup, e', he', hmin', hbad⟩
    have hsame : e'.pc.toNat = e.pc.toNat := Nat.le_antisymm (hmin' e he) (hmin e' he')
    rw [hsame] at hbad
    exact h hlt hdup hbad

/-- Without room for a sentinel nothing is too low. -/
theorem tooLow_of_full {rows : List Text} (h : ctWpNum ≤ rows.length) : tooLow rows = false := by
  cases rows with
  | nil => rfl
  | cons row rows =>
      have hnone : ctWpNum - (row :: rows).length = 0 := Nat.sub_eq_zero_of_le h
      rw [tooLow, hnone]
      split <;> simp

/-- The tests admit the programmable lists exactly when they judge right. -/
theorem admitted_iff_programmable (es : List Entry) :
    (Admitted es ↔ Programmable es) ↔ Judged es := by
  by_cases hne : es = []
  · subst hne
    have hprogrammable : Programmable [] :=
      ⟨Nat.zero_le _, List.nodup_nil, fun hpos => absurd hpos (Nat.lt_irrefl 0)⟩
    constructor
    · intro h
      exact absurd rfl (h.mpr hprogrammable).1
    · intro h
      exact absurd rfl h.1
  · have ⟨e, rest, hss, he, hmin⟩ := sortEntries_eq_cons (List.length_pos_iff.mpr hne)
    have hlen : (e :: rest).length = es.length := by
      rw [← hss, (sortEntries_perm es).length_eq]
    rw [programmable_iff_of_first he hmin, judged_iff_of_first he hmin, Admitted, hss]
    by_cases hlt : es.length < ctWpNum
    · have hshort : (e :: rest).length < ctWpNum := by omega
      have hwrong := misjudged_iff hshort
      rw [hlen] at hwrong
      have habove : lastSentinel es.length < e.pc.toNat ↔ ¬ e.pc.toNat ≤ lastSentinel es.length :=
        Nat.not_le.symm
      rw [hwrong, ← Bool.not_eq_true, habove]
      have hle : es.length ≤ ctWpNum := Nat.le_of_lt hlt
      by_cases hdup : (es.map Entry.pc).Nodup
      · simp only [ne_eq, hne, not_false_eq_true, hle, hdup, hlt, true_and, forall_const, not_not]
        exact not_iff_not
      · simp only [hdup, false_and, and_false, false_implies, implies_true]
    · have hfull : tooLow ((e :: rest).map Entry.row) = false :=
        tooLow_of_full (by rw [List.length_map, hlen]; omega)
      simp only [ne_eq, hne, not_false_eq_true, hlt, hfull, true_and, and_true, false_implies]

/-- Status 0 tells the programmable lists, and any other that nothing was written,
exactly when the tests judge right. -/
theorem programmable_iff_judged (answer : List Op → (op : Op) → op.Res) (es : List Entry) :
    let run := (ctraceSetWatchpoints (es.map Entry.arg)).exec (oracle answer) []
    ((run.1 = some 0 ↔ Programmable es) ∧
      (run.1 ≠ some 0 → ∀ addr val, Op.write addr val ∉ run.2)) ↔ Judged es := by
  intro run
  rw [← admitted_iff_programmable es]
  by_cases hadm : Admitted es
  · have hrun : run.1 = some 0 := by rw [show run = _ from exec_of_admitted answer hadm []]
    simp [hrun, hadm]
  · have hrun : run = (some 1, []) := exec_of_not_admitted answer hadm []
    simp [hrun, hadm]

/-- `30:0x1` -/
def entryThirty : Entry := ⟨['3', '0'], ['0', 'x', '1'], 30, 1, rfl, constant_one⟩

def readsZero : List Op → (op : Op) → op.Res
  | _, .read _ => 0
  | _, .write _ _ => ()

/-- Read as octal, 30 lies among the sentinels up to 27. -/
theorem rejects_pc_30 :
    let run := (ctraceSetWatchpoints ([entryThirty].map Entry.arg)).exec (oracle readsZero) []
    ¬ ((run.1 = some 0 ↔ Programmable [entryThirty]) ∧
      (run.1 ≠ some 0 → ∀ addr val, Op.write addr val ∉ run.2)) := by
  intro run h
  have hprogrammable : Programmable [entryThirty] := by
    refine ⟨by decide, List.nodup_singleton _, ?_⟩
    intro _ _ e he
    rw [List.mem_singleton.mp he]
    decide
  have hrun : run.1 = some 1 := by decide +kernel
  have hzero := h.1.mpr hprogrammable
  rw [hrun] at hzero
  cases hzero

end TraceFS.CfgTrace
