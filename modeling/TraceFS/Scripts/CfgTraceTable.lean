import TraceFS.Scripts.CfgTraceRows

/-!
The watchpoint table `ctrace_set_watchpoints` leaves behind on a device that keeps
what is written.
-/
namespace TraceFS.CfgTrace
open Access Numerals ShellText

/-- The addresses at which a zero-padded key is no octal numeral, up to the last
sentinel there can be. -/
def unreadable : List Nat := [8, 9, 18, 19]

theorem constant_key_eq_none {e : Entry} (h : e.pc.toNat < 28) :
    constant e.key = none ↔ e.pc.toNat ∈ unreadable := by
  have hall : ∀ m : Fin 28, constant (fixedDigits 10 10 m.val) = none ↔ m.val ∈ unreadable := by
    decide
  exact hall ⟨e.pc.toNat, h⟩

theorem lastSentinel_lt {e : Entry} {es : List Entry} {nsent : Nat}
    (hnsent : nsent = ctWpNum - (e :: es).length) (hpos : 0 < nsent)
    (hlow : tooLow ((e :: es).map Entry.row) = false)
    (hread : ¬(e.pc.toNat ∈ unreadable ∧ e.pc.toNat ≤ 2 * nsent - 1)) :
    2 * nsent - 1 < e.pc.toNat := by
  have hnum : ctWpNum = 15 := rfl
  have hlen : (e :: es).length = es.length + 1 := rfl
  rw [List.map_cons, tooLow, e.beforeFirst_row] at hlow
  simp only [List.length_cons, List.length_map] at hlow
  cases hconst : constant e.key with
  | none =>
      by_contra hle
      have hle := Nat.le_of_not_lt hle
      exact hread ⟨(constant_key_eq_none (by omega)).mp hconst, hle⟩
  | some m =>
      have hm := constant_le_of_readBase hconst e.readBase_key
      simp only [hconst, Bool.and_eq_false_iff, decide_eq_false_iff_not] at hlow
      omega

theorem tooLow_of_unreadable {e : Entry} {es : List Entry} (h : e.pc.toNat ∈ unreadable) :
    tooLow ((e :: es).map Entry.row) = false := by
  have hlt : e.pc.toNat < 28 := by
    have hall : ∀ m ∈ unreadable, m < 28 := by decide
    exact hall _ h
  rw [List.map_cons, tooLow, e.beforeFirst_row, (constant_key_eq_none hlt).mpr h]

def Ascending (slots : List (Word × Word)) : Prop := slots.Pairwise fun x y => x.1.toNat < y.1.toNat

theorem mem_sentinels {n v : Nat} {x : Word × Word} (h : x ∈ sentinels n v) :
    ∃ i, i < n ∧ x = (BitVec.ofNat 32 (v + 2 * i), 0) := by
  have ⟨i, hi, hx⟩ := List.getElem_of_mem h
  rw [length_sentinels] at hi
  exact ⟨i, hi, hx.symm.trans (getElem_sentinels _)⟩

theorem ascending_sentinels {n v : Nat} (hv : v + 2 * n ≤ 2 ^ 32) : Ascending (sentinels n v) := by
  induction n generalizing v with
  | zero => exact List.Pairwise.nil
  | succ n ih =>
      refine List.Pairwise.cons ?_ (ih (by omega))
      intro x hx
      have ⟨i, hi, hx⟩ := mem_sentinels hx
      rw [hx, BitVec.toNat_ofNat, BitVec.toNat_ofNat, Nat.mod_eq_of_lt (by omega),
        Nat.mod_eq_of_lt (by omega)]
      omega

theorem ascending_slots {ss : List Entry} (hsorted : ss.Pairwise fun e e' => e.pc.toNat ≤ e'.pc.toNat)
    (hdup : (ss.map Entry.pc).Nodup) : Ascending (ss.map Entry.slot) := by
  rw [List.Nodup, List.pairwise_map] at hdup
  rw [Ascending, List.pairwise_map]
  refine (hsorted.and hdup).imp ?_
  intro e e' h
  exact Nat.lt_of_le_of_ne h.1 (mt BitVec.eq_of_toNat_eq h.2)

theorem ascending_table {ss : List Entry} (hlen : ss.length ≤ ctWpNum)
    (hsorted : ss.Pairwise fun e e' => e.pc.toNat ≤ e'.pc.toNat) (hdup : (ss.map Entry.pc).Nodup)
    (hlast : ∀ e ∈ ss, 0 < ctWpNum - ss.length → 2 * (ctWpNum - ss.length) - 1 < e.pc.toNat) :
    Ascending (table ss) := by
  have hnum : ctWpNum = 15 := rfl
  refine List.pairwise_append.mpr
    ⟨ascending_sentinels (by omega), ascending_slots hsorted hdup, ?_⟩
  intro x hx y hy
  have ⟨i, hi, hx⟩ := mem_sentinels hx
  have ⟨e, he, hy⟩ := List.mem_map.mp hy
  have hlast := hlast e he (by omega)
  rw [hx, ← hy, BitVec.toNat_ofNat, Nat.mod_eq_of_lt (by omega)]
  change 1 + 2 * i < e.pc.toNat
  omega

theorem length_table {ss : List Entry} (hlen : ss.length ≤ ctWpNum) :
    (table ss).length = ctWpNum := by
  rw [table, List.length_append, length_sentinels, List.length_map]
  omega

/-- What the table is meant to be. -/
structure TableOk (es : List Entry) (wp : Fin ctWpNum → Word × Word) : Prop where
  ascending : ∀ i j, i < j → (wp i).1.toNat < (wp j).1.toNat
  entries : ∀ e ∈ es, ∃ i, wp i = e.slot ∧ ∀ j, (wp j).1 = e.pc → j = i
  rest : ∀ i, (∀ e ∈ es, (wp i).1 ≠ e.pc) → (wp i).1.toNat % 2 = 1 ∧ (wp i).2 = 0

section Table
variable {ss : List Entry} {wp f : Fin ctWpNum → Word × Word} (hlen : ss.length ≤ ctWpNum)
  (hwp : wp = fill f 0 (table ss))
include hlen hwp

theorem wp_eq_getElem (j : Fin ctWpNum) :
    ∃ h : j.val < (table ss).length, wp j = (table ss)[j.val] := by
  have h : j.val < (table ss).length := by
    rw [length_table hlen]
    exact j.isLt
  exact ⟨h, by rw [hwp, fill_getElem f (table ss) (Nat.zero_add j.val).symm h]⟩

theorem wp_ascending (hasc : Ascending (table ss)) {i j : Fin ctWpNum} (hij : i < j) :
    (wp i).1.toNat < (wp j).1.toNat := by
  have ⟨hi, hwi⟩ := wp_eq_getElem hlen hwp i
  have ⟨hj, hwj⟩ := wp_eq_getElem hlen hwp j
  rw [hwi, hwj]
  exact List.pairwise_iff_getElem.mp hasc _ _ hi hj hij

theorem wp_injective (hasc : Ascending (table ss)) {i j : Fin ctWpNum}
    (heq : (wp i).1.toNat = (wp j).1.toNat) : i = j := by
  rcases lt_trichotomy i j with hlt | hij | hlt
  · exact absurd heq (Nat.ne_of_lt (wp_ascending hlen hwp hasc hlt))
  · exact hij
  · exact absurd heq.symm (Nat.ne_of_lt (wp_ascending hlen hwp hasc hlt))

theorem exists_slot {e : Entry} (he : e ∈ ss) : ∃ i, wp i = e.slot := by
  have hmem : e.slot ∈ table ss := List.mem_append_right _ (List.mem_map_of_mem he)
  have ⟨i, hi, hslot⟩ := List.getElem_of_mem hmem
  rw [length_table hlen] at hi
  have ⟨_, hwi⟩ := wp_eq_getElem hlen hwp ⟨i, hi⟩
  exact ⟨⟨i, hi⟩, hwi.trans hslot⟩

theorem sentinel_of_rest {i : Fin ctWpNum} (hi : ∀ e ∈ ss, (wp i).1 ≠ e.pc) :
    (wp i).1.toNat % 2 = 1 ∧ (wp i).2 = 0 := by
  have ⟨hlt, hwi⟩ := wp_eq_getElem hlen hwp i
  have hmem : wp i ∈ table ss := hwi ▸ List.getElem_mem hlt
  cases List.mem_append.mp hmem with
  | inl hmem =>
      have ⟨k, hk, hx⟩ := mem_sentinels hmem
      have hnum : ctWpNum = 15 := rfl
      have hsmall : 1 + 2 * k < 2 ^ 32 := by omega
      rw [hx, BitVec.toNat_ofNat, Nat.mod_eq_of_lt hsmall]
      exact ⟨by omega, rfl⟩
  | inr hmem =>
      have ⟨e, he, hx⟩ := List.mem_map.mp hmem
      exact absurd (hx ▸ rfl) (hi e he)

theorem tableOk_of_ascending (hasc : Ascending (table ss)) : TableOk ss wp := by
  refine ⟨fun _ _ => wp_ascending hlen hwp hasc, ?_, fun _ => sentinel_of_rest hlen hwp⟩
  intro e he
  have ⟨i, hi⟩ := exists_slot hlen hwp he
  refine ⟨i, hi, fun j hj => wp_injective hlen hwp hasc ?_⟩
  rw [hj, hi]
  rfl

/-- A smallest PC among the sentinels spoils the order. -/
theorem not_tableOk {e : Entry} {es es' : List Entry} (hss : ss = e :: es) (hpos : 0 < ctWpNum - ss.length)
    (hle : e.pc.toNat ≤ 2 * (ctWpNum - ss.length) - 1) : ¬TableOk es' wp := by
  intro hok
  have hnum : ctWpNum = 15 := rfl
  have hone : ss.length = es.length + 1 := by rw [hss]; rfl
  have hlast : ctWpNum - ss.length - 1 < ctWpNum := by omega
  have hfirst : ctWpNum - ss.length < ctWpNum := by omega
  have hlt := hok.ascending ⟨_, hlast⟩ ⟨_, hfirst⟩ (by rw [Fin.lt_def]; exact Nat.sub_lt hpos Nat.one_pos)
  have ⟨hi, hwi⟩ := wp_eq_getElem hlen hwp ⟨_, hlast⟩
  have ⟨hj, hwj⟩ := wp_eq_getElem hlen hwp ⟨_, hfirst⟩
  have hsent : (table ss)[ctWpNum - ss.length - 1] =
      (BitVec.ofNat 32 (1 + 2 * (ctWpNum - ss.length - 1)), 0) := by
    simp only [table]
    rw [List.getElem_append_left (by rw [length_sentinels]; omega), getElem_sentinels]
  have hrow : (table ss)[ctWpNum - ss.length] = e.slot := by
    simp only [table, hss]
    rw [List.getElem_append_right (by rw [length_sentinels])]
    simp [length_sentinels]
  rw [hwi, hwj, hsent, hrow, BitVec.toNat_ofNat, Nat.mod_eq_of_lt (by omega)] at hlt
  change 1 + 2 * (ctWpNum - ss.length - 1) < e.pc.toNat at hlt
  omega

end Table

theorem tableOk_congr {es es' : List Entry} {wp : Fin ctWpNum → Word × Word}
    (hmem : ∀ e, e ∈ es ↔ e ∈ es') (hok : TableOk es wp) : TableOk es' wp :=
  ⟨hok.ascending, fun e he => hok.entries e ((hmem e).mpr he),
    fun i hi => hok.rest i fun e he => hi e ((hmem e).mp he)⟩

/-- The smallest PC lies among the sentinels, and its key is no octal numeral. -/
def SmallestUnread (es : List Entry) : Prop :=
  (es.map Entry.pc).Nodup ∧ ∃ e ∈ es, (∀ e' ∈ es, e.pc.toNat ≤ e'.pc.toNat) ∧
    e.pc.toNat ∈ unreadable ∧ e.pc.toNat ≤ 2 * (ctWpNum - es.length) - 1

theorem sortEntries_eq_cons {es : List Entry} (hpos : 0 < es.length) :
    ∃ e rest, sortEntries es = e :: rest ∧ e ∈ es ∧ ∀ e' ∈ es, e.pc.toNat ≤ e'.pc.toNat := by
  have hsorted := sortEntries_pairwise es
  have hperm := sortEntries_perm es
  cases hss : sortEntries es with
  | nil =>
      rw [hss] at hperm
      rw [← hperm.length_eq] at hpos
      cases hpos
  | cons e rest =>
      rw [hss] at hsorted hperm
      refine ⟨e, rest, rfl, hperm.subset List.mem_cons_self, ?_⟩
      intro e' he'
      cases List.mem_cons.mp (hperm.symm.subset he') with
      | inl heq => rw [heq]
      | inr hrest => exact (List.pairwise_cons.mp hsorted).1 e' hrest

section Arguments
variable {σ : Type} (d : Sticking σ) {es : List Entry} (hpos : 0 < es.length)
  (hlen : es.length ≤ ctWpNum) (s : σ)
include hpos hlen

theorem exec_ctraceSetWatchpoints :
    (ctraceSetWatchpoints (es.map Entry.arg)).exec d.perform s =
      (programRows ((sortEntries es).map Entry.row)).exec d.perform s := by
  rw [ctraceSetWatchpoints, if_neg (by rw [List.length_map]; omega), mapM_rowOf]
  change (programRows _).exec d.perform s = _
  rw [sortLines_rows (List.ne_nil_of_length_pos hpos)]

theorem tableOk_of_read (hread : ¬SmallestUnread es)
    (hstatus : ((ctraceSetWatchpoints (es.map Entry.arg)).exec d.perform s).1 = some 0) :
    TableOk es (d.contents ((ctraceSetWatchpoints (es.map Entry.arg)).exec d.perform s).2) := by
  have hperm := sortEntries_perm es
  have ⟨e, rest, hss, he, hmin⟩ := sortEntries_eq_cons hpos
  have hne : sortEntries es ≠ [] := by simp [hss]
  have hlen' : (sortEntries es).length ≤ ctWpNum := hperm.length_eq ▸ hlen
  rw [exec_ctraceSetWatchpoints d hpos hlen] at hstatus ⊢
  by_cases haccept : ((sortEntries es).map Entry.pc).Nodup ∧
      tooLow ((sortEntries es).map Entry.row) = false
  · have ⟨hdup, hlow⟩ := haccept
    have ⟨t, hexec, ht⟩ := programRows_writes d hne hlen' hdup hlow s
    rw [hexec]
    refine tableOk_congr (fun _ => hperm.mem_iff) (tableOk_of_ascending hlen' ht ?_)
    apply ascending_table hlen' (sortEntries_pairwise es) hdup
    intro e' he' hnsent
    have hlast : 2 * (ctWpNum - (sortEntries es).length) - 1 < e.pc.toNat := by
      apply lastSentinel_lt (by rw [hss]) hnsent (by rw [← hss]; exact hlow)
      intro hbad
      rw [hperm.length_eq] at hbad
      exact hread ⟨(hperm.map _).nodup_iff.mp hdup, e, he, hmin, hbad⟩
    exact Nat.lt_of_lt_of_le hlast (hmin e' (hperm.mem_iff.mp he'))
  · rw [programRows_rejects d hne haccept] at hstatus
    cases hstatus

theorem unordered_of_unread (hunread : SmallestUnread es) :
    ((ctraceSetWatchpoints (es.map Entry.arg)).exec d.perform s).1 = some 0 ∧
      ¬TableOk es (d.contents ((ctraceSetWatchpoints (es.map Entry.arg)).exec d.perform s).2) := by
  have hperm := sortEntries_perm es
  have ⟨e, rest, hss, he, hmin⟩ := sortEntries_eq_cons hpos
  have ⟨hdup, e', he', hmin', hmem, hle⟩ := hunread
  have hpc : e.pc.toNat = e'.pc.toNat := Nat.le_antisymm (hmin e' he') (hmin' e he)
  have hlow : tooLow ((sortEntries es).map Entry.row) = false := by
    rw [hss]
    exact tooLow_of_unreadable (hpc ▸ hmem)
  have hlen' : (sortEntries es).length ≤ ctWpNum := hperm.length_eq ▸ hlen
  have ⟨t, hexec, ht⟩ := programRows_writes d (by simp [hss]) hlen'
    ((hperm.map _).nodup_iff.mpr hdup) hlow s
  rw [exec_ctraceSetWatchpoints d hpos hlen, hexec]
  refine ⟨rfl, ?_⟩
  have hbig : ∀ m ∈ unreadable, 0 < m := by decide
  have hpos' := hbig _ hmem
  rw [← hperm.length_eq] at hle
  exact not_tableOk hlen' ht hss (by omega) (by omega)

end Arguments

/-- Status 0 comes with a proper table unless the smallest PC is unread. -/
theorem tableOk_iff {σ : Type} (d : Sticking σ) (es : List Entry) (hpos : 1 ≤ es.length)
    (hlen : es.length ≤ ctWpNum) (s : σ) :
    let run := (ctraceSetWatchpoints (es.map Entry.arg)).exec d.perform s
    (run.1 = some 0 → TableOk es (d.contents run.2)) ↔ ¬SmallestUnread es := by
  intro run
  constructor
  · intro hok hunread
    have ⟨hstatus, hbad⟩ := unordered_of_unread d hpos hlen s hunread
    exact hbad (hok hstatus)
  · intro hread hstatus
    exact tableOk_of_read d hpos hlen s hread hstatus

theorem constant_ramStart :
    constant ['0', 'x', 'a', '1', '0', '4', '0', '0', '0', '0'] =
      some (0xa1040000 : Word).toNat := rfl

def entryRam : Entry :=
  ⟨['0', 'x', 'a', '1', '0', '4', '0', '0', '0', '0'], ['0', 'x', '4', '2', '0', '1'], 0xa1040000, 0x4201,
    constant_ramStart, rfl⟩

theorem constant_one : constant ['0', 'x', '1'] = some (1 : Word).toNat := rfl

def entryHundred : Entry := ⟨['1', '0', '0'], ['0', 'x', '1'], 100, 1, rfl, constant_one⟩

def entryForty : Entry := ⟨['0', 'x', '2', '8'], ['7'], 40, 7, rfl, rfl⟩

/-- Three arguments out of order, the PCs in hexadecimal and in decimal. -/
theorem tableOk_iff_three :
    TableOk [entryRam, entryForty, entryHundred] (memory.contents
      ((ctraceSetWatchpoints ([entryRam, entryForty, entryHundred].map Entry.arg)).exec
        memory.perform fun _ => 0).2) := by
  refine (tableOk_iff memory [entryRam, entryForty, entryHundred] (by decide) (by decide)
    fun _ => 0).mpr ?_ (by decide +kernel)
  intro hunread
  have ⟨_, e, he, _, hmem, _⟩ := hunread
  have hread : ∀ e ∈ [entryRam, entryForty, entryHundred], e.pc.toNat ∉ unreadable := by decide
  exact hread e he hmem

/-- `0x8:0x1` -/
def entryEight : Entry := ⟨['0', 'x', '8'], ['0', 'x', '1'], 8, 1, rfl, constant_one⟩

theorem table_unordered_with_pc_8 :
    let run := (ctraceSetWatchpoints [entryEight.arg]).exec memory.perform fun _ => 0
    ¬(run.1 = some 0 → TableOk [entryEight] (memory.contents run.2)) := by
  intro run hok
  have hunread : SmallestUnread [entryEight] := by
    refine ⟨List.nodup_singleton _, entryEight, List.mem_cons_self, ?_, by decide, by decide⟩
    intro e he
    rw [List.mem_singleton.mp he]
  have ⟨hstatus, hbad⟩ := unordered_of_unread memory (by decide) (by decide)
    (fun _ => 0) hunread
  exact hbad (hok hstatus)

end TraceFS.CfgTrace
