import Mathlib.Data.List.Chain
import Mathlib.Data.List.Basic
import Mathlib.Data.List.SplitBy

/-!
Lists cut into numbered blocks.

Every item carries the number of its block, and the numbers never go back. Then
each block is a contiguous part of the list, the blocks in order make up the
list, and a numbering that moves on exactly where a relation between neighbours
fails cuts the list into chains of that relation, the parts of `List.splitBy`.
-/
namespace Blocks

variable {α : Type*} (key : α → Nat)

/-- The numbers never go back. -/
def Ordered (l : List α) : Prop := l.Pairwise fun a b => key a ≤ key b

def before (l : List α) (k : Nat) : List α := l.filter fun a => key a < k
def block (l : List α) (k : Nat) : List α := l.filter fun a => key a = k
def after (l : List α) (k : Nat) : List α := l.filter fun a => k < key a

variable {key} {l : List α}

theorem mem_block {k : Nat} {a : α} : a ∈ block key l k ↔ a ∈ l ∧ key a = k := by
  simp [block]

theorem block_cons (a : α) (l : List α) (k : Nat) :
    block key (a :: l) k = if key a = k then a :: block key l k else block key l k := by
  simp [block, List.filter_cons]

theorem block_eq_nil {k : Nat} (h : ∀ a ∈ l, key a ≠ k) : block key l k = [] := by
  simpa [block] using h

theorem before_append_block_append_after (h : Ordered key l) (k : Nat) :
    before key l k ++ (block key l k ++ after key l k) = l := by
  induction l with
  | nil => rfl
  | cons a l ih =>
      obtain ⟨hle, h⟩ := List.pairwise_cons.mp h
      have ih := ih h
      rcases Nat.lt_trichotomy (key a) k with hlt | heq | hgt
      · simpa [before, block, after, hlt, Nat.ne_of_lt hlt, Nat.lt_asymm hlt] using ih
      · -- nothing behind `a` can have a smaller number
        have hnil : before key l k = [] := by
          simpa [before, heq] using hle
        rw [hnil] at ih
        simp only [before] at hnil
        simpa [before, block, after, heq, hnil] using ih
      · have hnil : before key l k = [] := by
          simpa [before] using fun b hb => Nat.le_trans (Nat.le_of_lt hgt) (hle b hb)
        have hnil' : block key l k = [] :=
          block_eq_nil fun b hb => Nat.ne_of_gt (Nat.lt_of_lt_of_le hgt (hle b hb))
        rw [hnil, hnil'] at ih
        simp only [before, block] at hnil hnil'
        simpa [before, block, after, hgt, Nat.ne_of_gt hgt, Nat.lt_asymm hgt, hnil, hnil'] using ih

theorem key_getElem?_iff (h : Ordered key l) (k i : Nat) :
    (∃ a, l[i]? = some a ∧ key a = k) ↔
      (before key l k).length ≤ i ∧ i < (before key l k).length + (block key l k).length := by
  have split := before_append_block_append_after h k
  have hbefore {j : Nat} {a : α} (ha : (before key l k)[j]? = some a) : key a < k := by
    simpa [before] using (List.mem_filter.mp (List.mem_of_getElem? ha)).2
  have hblock {j : Nat} {a : α} (ha : (block key l k)[j]? = some a) : key a = k :=
    (mem_block.mp (List.mem_of_getElem? ha)).2
  have hafter {j : Nat} {a : α} (ha : (after key l k)[j]? = some a) : k < key a := by
    simpa [after] using (List.mem_filter.mp (List.mem_of_getElem? ha)).2
  constructor
  · intro ⟨a, ha, hkey⟩
    rw [← split] at ha
    by_cases hlow : i < (before key l k).length
    · rw [List.getElem?_append_left hlow] at ha
      exact absurd hkey (Nat.ne_of_lt (hbefore ha))
    · rw [List.getElem?_append_right (Nat.le_of_not_lt hlow)] at ha
      by_cases hmid : i - (before key l k).length < (block key l k).length
      · omega
      · rw [List.getElem?_append_right (Nat.le_of_not_lt hmid)] at ha
        exact absurd hkey (Nat.ne_of_gt (hafter ha))
  · intro ⟨hlow, hhigh⟩
    have hmid : i - (before key l k).length < (block key l k).length := by omega
    obtain ⟨a, hget⟩ : ∃ a, (block key l k)[i - (before key l k).length]? = some a :=
      ⟨_, List.getElem?_eq_getElem hmid⟩
    refine ⟨a, ?_, hblock hget⟩
    rw [← split, List.getElem?_append_right hlow, List.getElem?_append_left hmid]
    exact hget

/-- The blocks below `n`, one after the other, make up a list numbered below `n`. -/
theorem flatMap_block (h : Ordered key l) {n : Nat} (hn : ∀ a ∈ l, key a < n) :
    (List.range n).flatMap (block key l) = l := by
  induction n generalizing l with
  | zero =>
      cases l with
      | nil => rfl
      | cons a l => exact absurd (hn a List.mem_cons_self) (Nat.not_lt_zero _)
  | succ n ih =>
      have split := before_append_block_append_after h n
      have hafter : after key l n = [] := by
        simpa [after] using fun a ha => Nat.le_of_lt_succ (hn a ha)
      have hbefore : (List.range n).flatMap (block key l) = before key l n := by
        have hblock (k : Nat) (hk : k ∈ List.range n) :
            block key l k = block key (before key l n) k := by
          have hk := List.mem_range.mp hk
          simp only [block, before, List.filter_filter]
          apply List.filter_congr
          intro a _
          have hkey : key a = k ↔ key a = k ∧ key a < n := by omega
          rw [← Bool.decide_and, decide_eq_decide]
          exact hkey
        have := ih (l := before key l n) (h.filter _) (by simp [before])
        rw [← this]
        exact List.flatMap_congr hblock
      rw [List.range_succ, List.flatMap_append, hbefore]
      rw [hafter, List.append_nil] at split
      simpa using split

section Chain
variable {R : α → α → Prop} [DecidableRel R]

/-- The number stays where `R` holds between neighbours and moves on elsewhere. -/
def CutAt (key : α → Nat) (R : α → α → Prop) [DecidableRel R] (l : List α) : Prop :=
  l.IsChain fun a b => key b = if R a b then key a else key a + 1

theorem CutAt.ordered (h : CutAt key R l) : Ordered key l := by
  have hle : l.IsChain fun a b => key a ≤ key b :=
    h.imp fun a b hab => by split at hab <;> omega
  have : IsTrans α fun a b => key a ≤ key b := ⟨fun _ _ _ => Nat.le_trans⟩
  exact hle.pairwise

theorem CutAt.step (h : CutAt key R l) {i : Nat} {a b : α} (ha : l[i]? = some a)
    (hb : l[i + 1]? = some b) : key b = if R a b then key a else key a + 1 := by
  obtain ⟨hi, rfl⟩ := List.getElem?_eq_some_iff.mp hb
  obtain ⟨_, rfl⟩ := List.getElem?_eq_some_iff.mp ha
  exact List.isChain_iff_getElem.mp h i hi

theorem CutAt.block_isChain (h : CutAt key R l) (k : Nat) : (block key l k).IsChain R := by
  have hinfix : block key l k <:+: l :=
    ⟨before key l k, after key l k, by
      simpa using before_append_block_append_after h.ordered k⟩
  have hchain := List.IsChain.infix h hinfix
  apply hchain.imp_of_mem_imp
  intro a b ha hb hab
  have hkey : key b = key a := (mem_block.mp hb).2.trans (mem_block.mp ha).2.symm
  by_contra hR
  rw [if_neg hR] at hab
  omega

theorem CutAt.key_le {a b : α} (h : CutAt key R (a :: l)) (hb : b ∈ a :: l) : key a ≤ key b := by
  rcases List.mem_cons.mp hb with rfl | hb
  · exact Nat.le_refl _
  · exact (List.pairwise_cons.mp h.ordered).1 b hb

/-- A further element joins the first part or stands alone. -/
theorem splitBy_cons {r : α → α → Bool} {a b : α} {part : List α} {parts : List (List α)}
    (h : (b :: l).splitBy r = part :: parts) :
    (a :: b :: l).splitBy r =
      if r a b then (a :: part) :: parts else [a] :: part :: parts := by
  obtain ⟨hjoin, hnil, hchain, hcut⟩ := List.splitBy_eq_iff.mp h
  rw [List.mem_cons, not_or] at hnil
  obtain ⟨c, part, rfl⟩ := List.exists_cons_of_ne_nil (Ne.symm hnil.1)
  obtain rfl : b = c := (List.cons.inj hjoin).1
  have hfirst : (b :: part).IsChain fun x y => r x y := hchain _ List.mem_cons_self
  have hlater (m : List α) (hm : m ∈ parts) : m.IsChain fun x y => r x y :=
    hchain m (List.mem_cons_of_mem _ hm)
  split
  case isTrue hr =>
    refine List.splitBy_eq_iff.mpr ⟨congrArg (a :: ·) hjoin, ?_, ?_, ?_⟩
    · simp [hnil.2]
    · intro m hm
      cases hm with
      | head => exact List.IsChain.cons_cons hr hfirst
      | tail _ hm => exact hlater m hm
    · rw [List.isChain_cons] at hcut ⊢
      refine ⟨?_, hcut.2⟩
      intro m hm
      obtain ⟨_, hb, hrel⟩ := hcut.1 m hm
      exact ⟨List.cons_ne_nil _ _, hb, by simpa using hrel⟩
  case isFalse hr =>
    refine List.splitBy_eq_iff.mpr ⟨congrArg (a :: ·) hjoin, ?_, ?_, ?_⟩
    · simp [hnil.2]
    · intro m hm
      cases hm with
      | head => exact List.IsChain.singleton a
      | tail _ hm => exact hchain m hm
    · refine List.IsChain.cons_cons ?_ hcut
      exact ⟨List.cons_ne_nil _ _, List.cons_ne_nil _ _, by simpa using hr⟩

/-- A function under which `q` says of neighbours what `r` says takes parts to parts. -/
theorem splitBy_map {β : Type*} {r : α → α → Bool} {q : β → β → Bool} (f : α → β)
    (h : l.IsChain fun a b => q (f a) (f b) = r a b) :
    (l.map f).splitBy q = (l.splitBy r).map (List.map f) := by
  induction l with
  | nil => rfl
  | cons a l ih =>
      cases l with
      | nil => rfl
      | cons b l =>
          obtain ⟨hab, htail⟩ := List.isChain_cons_cons.mp h
          obtain ⟨part, parts, hparts⟩ := List.exists_cons_of_ne_nil
            (List.splitBy_ne_nil (r := r).mpr (List.cons_ne_nil b l))
          have ih := ih htail
          rw [hparts, List.map_cons, List.map_cons] at ih
          rw [splitBy_cons hparts, List.map_cons, List.map_cons, splitBy_cons ih, hab]
          split
          · rfl
          · rfl

/-- The blocks, from the first element's to the last one's, are the parts that `R`
cuts the list into. -/
theorem CutAt.splitBy {a : α} (h : CutAt key R (a :: l)) :
    (a :: l).splitBy (fun x y => R x y) =
      (List.range' (key a) (key ((a :: l).getLast (List.cons_ne_nil a l)) + 1 - key a)).map
        (block key (a :: l)) := by
  induction l generalizing a with
  | nil => simp [block, List.splitBy, List.splitBy.loop]
  | cons b l ih =>
      have htail : CutAt key R (b :: l) := List.IsChain.tail h
      have hb : key b = if R a b then key a else key a + 1 := (List.isChain_cons_cons.mp h).1
      have hlast := htail.key_le (List.getLast_mem (List.cons_ne_nil b l))
      have ih := ih htail
      -- above `a`'s number the blocks are those of the tail
      have hrange (k n : Nat) (hk : key a < k) :
          (List.range' k n).map (block key (a :: b :: l)) =
            (List.range' k n).map (block key (b :: l)) := by
        apply List.map_congr_left
        intro i hi
        have hi := (List.mem_range'_1.mp hi).1
        rw [block_cons, if_neg (by omega)]
      rw [List.getLast_cons (List.cons_ne_nil b l)]
      generalize key ((b :: l).getLast (List.cons_ne_nil b l)) = last at ih hlast ⊢
      obtain ⟨n, hn⟩ : ∃ n, last + 1 - key b = n + 1 := ⟨last - key b, by omega⟩
      rw [hn, List.range'_succ, List.map_cons] at ih
      rw [splitBy_cons ih]
      by_cases hR : R a b
      · rw [if_pos hR] at hb
        rw [if_pos (decide_eq_true hR), ← hb, hn, List.range'_succ, List.map_cons,
          hrange _ _ (by omega), block_cons a, if_pos hb.symm]
      · rw [if_neg hR] at hb
        have hlow : block key (b :: l) (key a) = [] := by
          apply block_eq_nil
          intro c hc
          have := htail.key_le hc
          omega
        rw [if_neg (by simpa using hR), show last + 1 - key a = n + 1 + 1 by omega,
          List.range'_succ, List.map_cons, hrange _ _ (by omega), block_cons a, if_pos rfl, hlow,
          ← hb, List.range'_succ, List.map_cons]

end Chain

end Blocks
