import Mathlib.Data.List.Nodup
import TraceFS.Scripts.CfgTraceDevice

/-!
The rows made of the arguments: their order, the uniqueness test, and what is
written for them.
-/
namespace TraceFS.CfgTrace
open Access Numerals ShellText

/-- An argument `PC:CMD` of two numerals and their values. -/
structure Entry where
  pcText : Text
  cmdText : Text
  pc : Word
  cmd : Word
  constant_pcText : constant pcText = some pc.toNat
  constant_cmdText : constant cmdText = some cmd.toNat

namespace Entry

def arg (e : Entry) : Text := e.pcText ++ ':' :: e.cmdText

def key (e : Entry) : Text := fixedDigits 10 10 e.pc.toNat

def row (e : Entry) : Text := e.key ++ ' ' :: (e.pcText ++ ' ' :: e.cmdText)

def slot (e : Entry) : Word × Word := (e.pc, e.cmd)

theorem pc_lt (e : Entry) : e.pc.toNat < 10 ^ 10 := Nat.lt_trans e.pc.isLt (by decide)

theorem arith_pcText (e : Entry) : arith e.pcText = some e.pc := by
  simp [arith, e.constant_pcText]

theorem arith_cmdText (e : Entry) : arith e.cmdText = some e.cmd := by
  simp [arith, e.constant_cmdText]

theorem rowOf_arg (e : Entry) : rowOf e.arg = some e.row := by
  have hcolon : ':' ∉ e.pcText := ne_of_constant e.constant_pcText (by decide) (by decide) (by decide)
  simp only [rowOf, arg, beforeFirst_append hcolon, afterFirst_append hcolon, e.constant_pcText,
    Option.map_some, padded_eq_fixedDigits (by decide) (by decide) e.pc_lt]
  rfl

theorem readBase_key (e : Entry) : readBase 10 e.key = some e.pc.toNat :=
  readBase_fixedDigits (by decide) (by decide) e.pc_lt

theorem isBlank_of_mem_key (e : Entry) {c : Char} (hc : c ∈ e.key) : isBlank c = false := by
  have hdigit := digitVal_of_foldlM e.readBase_key hc
  cases hblank : isBlank c with
  | false => rfl
  | true =>
      simp only [isBlank, Bool.or_eq_true, decide_eq_true_eq] at hblank
      cases hblank with
      | inl h => subst h; cases hdigit
      | inr h => subst h; cases hdigit

theorem key_ne_nil (e : Entry) : e.key ≠ [] := by
  intro hnil
  have hlen := length_fixedDigits 10 10 e.pc.toNat
  rw [← key, hnil] at hlen
  cases hlen

theorem space_notMem_key (e : Entry) : ' ' ∉ e.key := by
  intro hc
  cases e.isBlank_of_mem_key hc

theorem beforeFirst_row (e : Entry) : beforeFirst ' ' e.row = e.key :=
  beforeFirst_append e.space_notMem_key _

theorem afterFirst_row (e : Entry) : afterFirst ' ' e.row = e.pcText ++ ' ' :: e.cmdText :=
  afterFirst_append e.space_notMem_key _

theorem firstField_row (e : Entry) : firstField e.row = e.key :=
  firstField_append e.key_ne_nil (fun _ => e.isBlank_of_mem_key) _

theorem row_ne_nil (e : Entry) : e.row ≠ [] := by simp [row]

/-- The first two fields of a row order the rows by PC. -/
theorem pc_le_of_row_le {e e' : Entry} (h : e.row ≤ e'.row) : e.pc.toNat ≤ e'.pc.toNat := by
  by_contra hle
  have hlt := Nat.lt_of_not_le hle
  exact absurd h (not_le_of_gt (fixedDigits_append_lt (by decide) (by decide) hlt e.pc_lt _ _))

theorem key_inj {e e' : Entry} : e.key = e'.key ↔ e.pc = e'.pc := by
  constructor
  · intro h
    have hread := e.readBase_key
    rw [h, e'.readBase_key] at hread
    exact (BitVec.eq_of_toNat_eq (Option.some.inj hread)).symm
  · intro h
    rw [key, key, h]

end Entry

theorem mapM_rowOf (es : List Entry) : (es.map Entry.arg).mapM rowOf = some (es.map Entry.row) := by
  induction es with
  | nil => rfl
  | cons e es ih => rw [List.map_cons, List.mapM_cons, e.rowOf_arg, ih]; rfl

theorem writeRows_sticks {σ : Type} (d : Sticking σ) (es : List Entry) {k : Nat}
    (hk : k + es.length ≤ ctWpNum) (s : σ) :
    ∃ t, (writeRows k (es.map Entry.row)).exec d.perform s = (some 0, t) ∧
      d.contents t = fill (d.contents s) k (es.map Entry.slot) := by
  induction es generalizing k s with
  | nil => exact ⟨s, rfl, rfl⟩
  | cons e es ih =>
      rw [List.length_cons] at hk
      have hspace : ' ' ∉ e.pcText :=
        ne_of_constant e.constant_pcText (by decide) (by decide) (by decide)
      have ⟨t, hexec, ht⟩ := writeSlot_sticks d (k := k) (by omega) e.arith_pcText e.arith_cmdText s
      have ⟨u, hexec', hu⟩ := ih (k := k + 1) (by omega) t
      refine ⟨u, ?_, ?_⟩
      · rw [List.map_cons, writeRows, e.afterFirst_row, beforeFirst_append hspace,
          afterFirst_append hspace, exec_andThen hexec]
        exact hexec'
      · rw [hu, ht, List.map_cons, fill]
        rfl

def sortEntries (es : List Entry) : List Entry := es.insertionSort fun e e' => e.row ≤ e'.row

theorem sortEntries_perm (es : List Entry) : (sortEntries es).Perm es := List.perm_insertionSort _ es

theorem sortEntries_pairwise (es : List Entry) :
    (sortEntries es).Pairwise fun e e' => e.pc.toNat ≤ e'.pc.toNat := by
  have : Std.Total fun e e' : Entry => e.row ≤ e'.row := ⟨fun e e' => le_total e.row e'.row⟩
  have : IsTrans Entry fun e e' => e.row ≤ e'.row := ⟨fun _ _ _ h h' => le_trans h h'⟩
  exact (List.pairwise_insertionSort _ es).imp Entry.pc_le_of_row_le

theorem printLines_of_ne_nil {lines : List Text} (h : lines ≠ []) : printLines lines = lines := by
  cases lines with
  | nil => exact absurd rfl h
  | cons line lines => rfl

theorem sortLines_rows {es : List Entry} (hne : es ≠ []) :
    splitLines (sortLines (printLines (es.map Entry.row))) = (sortEntries es).map Entry.row := by
  rw [printLines_of_ne_nil (by simpa using hne), sortLines, sortEntries,
    List.map_insertionSort _ (· ≤ ·) Entry.row es fun _ _ _ _ => Iff.rfl]
  apply splitLines_eq
  intro line hline
  have ⟨e, _, he⟩ := List.mem_map.mp ((List.mem_insertionSort _).mp hline)
  rw [← he]
  exact e.row_ne_nil

/-- The uniqueness test compares the PCs as numbers. -/
theorem countDistinct_rows {ss : List Entry} (hne : ss ≠ []) :
    countDistinct ((printLines (ss.map Entry.row)).map firstField) = (ss.map Entry.row).length ↔
      (ss.map Entry.pc).Nodup := by
  have hkeys : (ss.map Entry.row).map firstField = ss.map Entry.key := by
    rw [List.map_map]
    exact List.map_congr_left fun e _ => e.firstField_row
  rw [printLines_of_ne_nil (by simpa using hne), hkeys, List.length_map, ← List.length_map Entry.key,
    countDistinct_eq_length]
  simp only [List.Nodup, List.pairwise_map, ne_eq, Entry.key_inj]

/-- The slots the two loops write. -/
def table (ss : List Entry) : List (Word × Word) :=
  sentinels (ctWpNum - ss.length) 1 ++ ss.map Entry.slot

theorem length_sentinels (n v : Nat) : (sentinels n v).length = n := by
  induction n generalizing v with
  | zero => rfl
  | succ n ih => rw [sentinels, List.length_cons, ih]

theorem getElem_sentinels {n v i : Nat} (h : i < (sentinels n v).length) :
    (sentinels n v)[i] = (BitVec.ofNat 32 (v + 2 * i), 0) := by
  induction n generalizing v i with
  | zero => cases h
  | succ n ih =>
      cases i with
      | zero => rfl
      | succ i =>
          have hi : i < (sentinels n (v + 2)).length := Nat.lt_of_succ_lt_succ h
          have hnext := ih hi
          rw [show v + 2 * (i + 1) = v + 2 + 2 * i by omega, ← hnext]
          rfl

section Outcome
variable {σ : Type} (d : Sticking σ) {ss : List Entry} (hne : ss ≠ []) (hlen : ss.length ≤ ctWpNum)
include hne

theorem programRows_rejects (h : ¬((ss.map Entry.pc).Nodup ∧ tooLow (ss.map Entry.row) = false))
    (s : σ) : (programRows (ss.map Entry.row)).exec d.perform s = (some 1, s) := by
  rw [programRows]
  by_cases hdup : (ss.map Entry.pc).Nodup
  · have hlow : tooLow (ss.map Entry.row) = true := by
      rw [← Bool.not_eq_false]
      exact fun hlow => h ⟨hdup, hlow⟩
    rw [if_neg (not_not_intro ((countDistinct_rows hne).mpr hdup)), if_pos hlow]
    rfl
  · rw [if_pos (mt (countDistinct_rows hne).mp hdup)]
    rfl

include hlen in
theorem programRows_writes (hdup : (ss.map Entry.pc).Nodup)
    (hlow : tooLow (ss.map Entry.row) = false) (s : σ) :
    ∃ t, (programRows (ss.map Entry.row)).exec d.perform s = (some 0, t) ∧
      d.contents t = fill (d.contents s) 0 (table ss) := by
  have hnum : ctWpNum = 15 := rfl
  have ⟨t, hexec, ht⟩ := writeSentinels_sticks d (n := ctWpNum - ss.length) (k := 0) (v := 1)
    (by omega) (by omega) s
  have ⟨u, hexec', hu⟩ := writeRows_sticks d ss (k := ctWpNum - ss.length) (by omega) t
  refine ⟨u, ?_, ?_⟩
  · rw [programRows, if_neg (not_not_intro ((countDistinct_rows hne).mpr hdup)), if_neg (by simp [hlow])]
    rw [List.length_map, exec_andThen hexec]
    exact hexec'
  · rw [hu, ht, table, fill_append, length_sentinels, Nat.zero_add]

end Outcome

end TraceFS.CfgTrace
