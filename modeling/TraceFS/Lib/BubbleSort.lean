import Mathlib.Data.List.Basic
import Mathlib.Logic.Equiv.Basic
import Mathlib.Order.Lattice

/-!
Sorting by exchanges of neighbours, largest key first.

A run is a sequence of places `j` at which the elements `j` and `j + 1` are compared
and, where they ascend, exchanged. Its history tells which comparisons exchanged; each
exchange removes one inversion.
-/
namespace BubbleSort
variable {α β : Type*} [LinearOrder β] (key : α → β)

/-- The elements at `j` and `j + 1` ascend. -/
def fires (l : List α) (j : ℕ) : Bool :=
  match l[j]?, l[j + 1]? with
  | some x, some y => decide (key x < key y)
  | _, _ => false

def step (l : List α) (j : ℕ) : List α :=
  match l[j]?, l[j + 1]? with
  | some x, some y => if key x < key y then (l.set j y).set (j + 1) x else l
  | _, _ => l

def sortBy (js : List ℕ) (l : List α) : List α := js.foldl (step key) l

def history : List ℕ → List α → List Bool
  | [], _ => []
  | j :: js, l => fires key l j :: history js (step key l j)

/-- The places of a whole sort of the elements `lo` to `lo + n`: each pass is one
comparison shorter than the one before. -/
def schedule (lo : ℕ) : ℕ → List ℕ
  | 0 => []
  | n + 1 => List.range' lo (n + 1) ++ schedule lo n

def inversions : List α → ℕ
  | [] => 0
  | x :: l => l.countP (fun y => decide (key x < key y)) + inversions l

variable {key}

theorem length_history (js : List ℕ) (l : List α) : (history key js l).length = js.length := by
  induction js generalizing l with
  | nil => rfl
  | cons j js ih => rw [history, List.length_cons, List.length_cons, ih]

theorem history_append (is js : List ℕ) (l : List α) :
    history key (is ++ js) l = history key is l ++ history key js (sortBy key is l) := by
  induction is generalizing l with
  | nil => rfl
  | cons i is ih => exact congrArg (fires key l i :: ·) (ih (step key l i))

theorem exists_neighbours {l : List α} {j : ℕ} (h : j + 1 < l.length) :
    ∃ front x y rest, front.length = j ∧ l = front ++ x :: y :: rest := by
  have hj : j < l.length := by omega
  refine ⟨l.take j, l[j], l[j + 1], l.drop (j + 2), ?_, ?_⟩
  · rw [List.length_take]
    omega
  · rw [List.getElem_cons_drop, List.getElem_cons_drop, List.take_append_drop]

theorem fires_neighbours (front rest : List α) (x y : α) :
    fires key (front ++ x :: y :: rest) front.length = decide (key x < key y) := by
  simp [fires]

theorem step_neighbours (front rest : List α) (x y : α) :
    step key (front ++ x :: y :: rest) front.length =
      front ++ if key x < key y then y :: x :: rest else x :: y :: rest := by
  rw [step]
  split_ifs with h <;> simp [h]

theorem length_step (l : List α) (j : ℕ) : (step key l j).length = l.length := by
  unfold step
  split
  · split
    · rw [List.length_set, List.length_set]
    · rfl
  · rfl

theorem step_of_not_fires {l : List α} {j : ℕ} (h : fires key l j = false) : step key l j = l := by
  unfold fires at h
  unfold step
  split
  case h_1 x y hx hy =>
    rw [hx, hy] at h
    exact if_neg (of_decide_eq_false h)
  case h_2 => rfl

theorem inversions_exchange (front rest : List α) {x y : α} (h : key x < key y) :
    inversions key (front ++ x :: y :: rest) = inversions key (front ++ y :: x :: rest) + 1 := by
  induction front with
  | nil =>
      simp only [List.nil_append, inversions, List.countP_cons, decide_eq_true h,
        decide_eq_false (not_lt_of_gt h), if_true, Bool.false_eq_true, if_false]
      omega
  | cons z front ih =>
      have same := ((List.Perm.swap x y rest).append_left front).countP_eq
        fun w => decide (key z < key w)
      rw [List.cons_append, List.cons_append, inversions, inversions, ih, same]
      rfl

variable (key) in
/-- A step permutes, and an exchange removes one inversion. -/
theorem step_spec {l : List α} {j : ℕ} (h : j + 1 < l.length) :
    (step key l j).Perm l ∧
      inversions key (step key l j) + (fires key l j).toNat = inversions key l := by
  obtain ⟨front, x, y, rest, rfl, rfl⟩ := exists_neighbours h
  rw [step_neighbours, fires_neighbours]
  by_cases hlt : key x < key y
  · rw [if_pos hlt, decide_eq_true hlt]
    exact ⟨(List.Perm.swap x y rest).append_left front, (inversions_exchange front rest hlt).symm⟩
  · rw [if_neg hlt, decide_eq_false hlt]
    exact ⟨List.Perm.refl _, rfl⟩

variable (key) in
theorem sortBy_spec {js : List ℕ} {l : List α} (h : ∀ j ∈ js, j + 1 < l.length) :
    (sortBy key js l).Perm l ∧
      inversions key (sortBy key js l) + (history key js l).count true = inversions key l := by
  induction js generalizing l with
  | nil => exact ⟨List.Perm.refl _, rfl⟩
  | cons j js ih =>
      obtain ⟨perm, count⟩ := step_spec key (h j List.mem_cons_self)
      obtain ⟨perm', count'⟩ := ih (l := step key l j) fun i hi => by
        rw [length_step]
        exact h i (List.mem_cons_of_mem _ hi)
      refine ⟨perm'.trans perm, ?_⟩
      rw [history, List.count_cons, ← count, ← count']
      have exchanged : (if fires key l j == true then 1 else 0) = (fires key l j).toNat := by
        cases fires key l j <;> rfl
      rw [exchanged, sortBy, sortBy, List.foldl_cons]
      omega

/-! Which elements are in order -/

def Above (key : α → β) (l : List α) (s t : ℕ) : Prop :=
  ∀ x ∈ l[s]?, ∀ y ∈ l[t]?, key y ≤ key x

theorem getElem?_step {l : List α} {j : ℕ} (h : j + 1 < l.length) (k : ℕ) :
    (step key l j)[k]? = l[if fires key l j then Equiv.swap j (j + 1) k else k]? := by
  obtain ⟨front, x, y, rest, rfl, rfl⟩ := exists_neighbours h
  rw [step_neighbours, fires_neighbours]
  by_cases hlt : key x < key y
  · simp only [if_pos hlt, decide_eq_true hlt, if_true, Equiv.swap_apply_def]
    by_cases hj : k = front.length
    · simp [hj]
    · by_cases hnext : k = front.length + 1
      · simp [hnext]
      · rw [if_neg hj, if_neg hnext]
        by_cases hk : k < front.length
        · rw [List.getElem?_append_left hk, List.getElem?_append_left hk]
        · obtain ⟨i, rfl⟩ : ∃ i, k = front.length + (i + 2) := ⟨k - front.length - 2, by omega⟩
          rw [List.getElem?_append_right (Nat.le_add_right _ _),
            List.getElem?_append_right (Nat.le_add_right _ _), Nat.add_sub_cancel_left]
          rfl
  · simp [if_neg hlt, decide_eq_false hlt]

/-- Above `hi` everything is in order, from `lo` on. -/
def Settled (key : α → β) (lo hi : ℕ) (l : List α) : Prop :=
  ∀ s t, lo ≤ s → s < t → hi < t → Above key l s t

/-- The element at `m` is the least from `lo` to `m`. -/
def Least (key : α → β) (lo m : ℕ) (l : List α) : Prop :=
  ∀ s, lo ≤ s → s < m → Above key l s m

theorem above_of_fires {l : List α} {j : ℕ} (h : fires key l j = true) : Above key l (j + 1) j := by
  intro y hy x hx
  rw [Option.mem_def] at hx hy
  rw [fires, hx, hy] at h
  exact le_of_lt (of_decide_eq_true h)

theorem above_of_not_fires {l : List α} {j : ℕ} (h : fires key l j = false) :
    Above key l j (j + 1) := by
  intro x hx y hy
  rw [Option.mem_def] at hx hy
  rw [fires, hx, hy] at h
  exact le_of_not_gt (of_decide_eq_false h)

theorem Above.trans {l : List α} {r s t : ℕ} (hs : s < l.length) (first : Above key l r s)
    (second : Above key l s t) : Above key l r t := by
  intro x hx z hz
  have hy : l[s] ∈ l[s]? := List.getElem?_eq_getElem hs
  exact (second _ hy _ hz).trans (first _ hx _ hy)

theorem Settled.step {l : List α} {lo hi j : ℕ} (h : Settled key lo hi l) (hlo : lo ≤ j)
    (hhi : j < hi) (hlen : hi < l.length) : Settled key lo hi (step key l j) := by
  intro s t hs hst ht
  rw [Above, getElem?_step (by omega), getElem?_step (by omega)]
  split
  · have high : Equiv.swap j (j + 1) t = t :=
      Equiv.swap_apply_of_ne_of_ne (by omega) (by omega)
    rw [high]
    refine h _ t ?_ ?_ ht
    · rw [Equiv.swap_apply_def]
      split_ifs <;> omega
    · rw [Equiv.swap_apply_def]
      split_ifs <;> omega
  · exact h s t hs hst ht

theorem Least.step {l : List α} {lo m : ℕ} (h : Least key lo m l) (hlen : m + 1 < l.length) :
    Least key lo (m + 1) (step key l m) := by
  intro s hs hsm
  rw [Above, getElem?_step hlen, getElem?_step hlen]
  cases hfires : fires key l m with
  | true =>
      rw [if_pos rfl, if_pos rfl, Equiv.swap_apply_right]
      by_cases heq : s = m
      · rw [heq, Equiv.swap_apply_left]
        exact above_of_fires hfires
      · rw [Equiv.swap_apply_of_ne_of_ne heq (by omega)]
        exact h s hs (by omega)
  | false =>
      rw [if_neg Bool.false_ne_true, if_neg Bool.false_ne_true]
      by_cases heq : s = m
      · rw [heq]
        exact above_of_not_fires hfires
      · exact (h s hs (by omega)).trans (by omega) (above_of_not_fires hfires)

/-! Passes -/

theorem sortBy_append (is js : List ℕ) (l : List α) :
    sortBy key (is ++ js) l = sortBy key js (sortBy key is l) :=
  List.foldl_append

variable (key) in
theorem length_sortBy (js : List ℕ) (l : List α) : (sortBy key js l).length = l.length := by
  induction js generalizing l with
  | nil => rfl
  | cons j js ih => exact (ih (step key l j)).trans (length_step l j)

theorem Settled.pass {l : List α} {lo hi m : ℕ} (h : Settled key lo hi l) (hm : lo + m ≤ hi)
    (hlen : hi < l.length) :
    Settled key lo hi (sortBy key (List.range' lo m) l) ∧
      Least key lo (lo + m) (sortBy key (List.range' lo m) l) := by
  induction m with
  | zero => exact ⟨h, fun s hs hsm => absurd hsm (by omega)⟩
  | succ m ih =>
      obtain ⟨settled, least⟩ := ih (by omega)
      have same := length_sortBy key (List.range' lo m) l
      rw [List.range'_1_concat, sortBy_append]
      exact ⟨settled.step (by omega) (by omega) (by omega), least.step (by omega)⟩

theorem Settled.lower {l : List α} {lo m : ℕ} (h : Settled key lo (m + 1) l)
    (least : Least key lo (m + 1) l) : Settled key lo m l := by
  intro s t hs hst ht
  by_cases heq : t = m + 1
  · rw [heq]
    exact least s hs (by omega)
  · exact h s t hs hst (by omega)

theorem Settled.schedule {l : List α} {lo n : ℕ} (h : Settled key lo (lo + n) l)
    (hlen : lo + n < l.length) : Settled key lo lo (sortBy key (schedule lo n) l) := by
  induction n generalizing l with
  | zero => exact h
  | succ n ih =>
      obtain ⟨settled, least⟩ := h.pass (Nat.le_refl _) hlen
      rw [BubbleSort.schedule, sortBy_append]
      apply ih (Settled.lower settled least)
      rw [length_sortBy]
      omega

theorem mem_schedule {lo n j : ℕ} (h : j ∈ schedule lo n) : lo ≤ j ∧ j < lo + n := by
  induction n with
  | zero => cases h
  | succ n ih =>
      rw [schedule, List.mem_append, List.mem_range'_1] at h
      obtain here | later := h
      · exact here
      · obtain ⟨hlo, hhi⟩ := ih later
        exact ⟨hlo, by omega⟩

theorem getElem?_sortBy {js : List ℕ} {l : List α} {k : ℕ}
    (h : ∀ j ∈ js, k < j ∧ j + 1 < l.length) : (sortBy key js l)[k]? = l[k]? := by
  induction js generalizing l with
  | nil => rfl
  | cons j js ih =>
      obtain ⟨hk, hlen⟩ := h j List.mem_cons_self
      have first : (step key l j)[k]? = l[k]? := by
        rw [getElem?_step hlen]
        split
        · rw [Equiv.swap_apply_of_ne_of_ne (by omega) (by omega)]
        · rfl
      refine (ih fun i hi => ?_).trans first
      rw [length_step]
      exact h i (List.mem_cons_of_mem _ hi)

/-! What a sort costs -/

variable (key) in
theorem inversions_append (front : List α) {l l' : List α} (h : l.Perm l') :
    inversions key (front ++ l) + inversions key l' =
      inversions key (front ++ l') + inversions key l := by
  induction front with
  | nil => exact Nat.add_comm _ _
  | cons x front ih =>
      have same := (h.append_left front).countP_eq fun y => decide (key x < key y)
      rw [List.cons_append, List.cons_append, inversions, inversions, same]
      omega

theorem inversions_eq_zero {l : List α} (h : l.Pairwise fun x y => key y ≤ key x) :
    inversions key l = 0 := by
  induction h with
  | nil => rfl
  | cons first _ ih =>
      rw [inversions, ih, Nat.add_zero, List.countP_eq_zero]
      intro y hy
      rw [decide_eq_true_eq]
      exact not_lt_of_ge (first y hy)

theorem settled_start (l : List α) (lo : ℕ) : Settled key lo (l.length - 1) l := by
  intro s t _ _ ht x _ y hy
  rw [List.getElem?_eq_none (by omega)] at hy
  cases hy

theorem pairwise_of_settled {l : List α} {lo : ℕ} (h : Settled key lo lo l) :
    (l.drop lo).Pairwise fun x y => key y ≤ key x := by
  rw [List.pairwise_iff_getElem]
  intro i j hi hj hij
  rw [List.getElem_drop, List.getElem_drop]
  exact h (lo + i) (lo + j) (by omega) (by omega) (by omega) _ (List.getElem?_eq_getElem _) _
    (List.getElem?_eq_getElem _)

variable (key) in
/-- The elements behind `front` are sorted, with one exchange for each inversion. -/
theorem sorts (front l : List α) :
    ∃ sorted, sortBy key (schedule front.length (l.length - 1)) (front ++ l) = front ++ sorted ∧
      sorted.Perm l ∧ sorted.Pairwise (fun x y => key y ≤ key x) ∧
      (history key (schedule front.length (l.length - 1)) (front ++ l)).count true =
        inversions key l := by
  have places {j : ℕ} (hj : j ∈ schedule front.length (l.length - 1)) :
      front.length ≤ j ∧ j + 1 < (front ++ l).length := by
    obtain ⟨hlo, hhi⟩ := mem_schedule hj
    rw [List.length_append]
    omega
  obtain ⟨perm, count⟩ := sortBy_spec key fun j hj => (places hj).2
  generalize hr : sortBy key (schedule front.length (l.length - 1)) (front ++ l) = r at perm count
  have hfront : r.take front.length = front := by
    apply List.ext_getElem?
    intro k
    rw [List.getElem?_take]
    split
    case isTrue hk =>
      rw [← hr, getElem?_sortBy fun j hj => ⟨by have := (places hj).1; omega, (places hj).2⟩,
        List.getElem?_append_left hk]
    case isFalse hk => exact (List.getElem?_eq_none (Nat.le_of_not_lt hk)).symm
  have hsplit : r = front ++ r.drop front.length := by
    conv_lhs => rw [← List.take_append_drop front.length r, hfront]
  have hperm : (r.drop front.length).Perm l := by
    rw [hsplit] at perm
    exact (List.perm_append_left_iff front).mp perm
  have hsorted : (r.drop front.length).Pairwise fun x y => key y ≤ key x := by
    cases l with
    | nil =>
        rw [List.perm_nil.mp hperm]
        exact List.Pairwise.nil
    | cons x l =>
        apply pairwise_of_settled
        rw [← hr]
        refine Settled.schedule ?_ ?_
        · have top : (front ++ x :: l).length - 1 = front.length + ((x :: l).length - 1) := by
            simp
          rw [← top]
          exact settled_start _ _
        · simp
  refine ⟨r.drop front.length, hsplit, hperm, hsorted, ?_⟩
  have moved := inversions_append key front hperm
  rw [inversions_eq_zero hsorted] at moved
  rw [← hsplit] at moved
  omega

/-- On sorted elements no comparison exchanges. -/
theorem history_sorted (front : List α) {l : List α} (h : l.Pairwise fun x y => key y ≤ key x)
    {js : List ℕ} (places : ∀ j ∈ js, front.length ≤ j) :
    sortBy key js (front ++ l) = front ++ l ∧
      history key js (front ++ l) = List.replicate js.length false := by
  have quiet {j : ℕ} (hj : front.length ≤ j) : fires key (front ++ l) j = false := by
    unfold fires
    split
    case h_1 x y hx hy =>
      rw [List.getElem?_append_right hj, List.getElem?_eq_some_iff] at hx
      rw [List.getElem?_append_right (by omega), List.getElem?_eq_some_iff] at hy
      obtain ⟨hi, rfl⟩ := hx
      obtain ⟨hi', rfl⟩ := hy
      exact decide_eq_false (not_lt_of_ge (List.pairwise_iff_getElem.mp h _ _ hi hi' (by omega)))
    case h_2 => rfl
  induction js with
  | nil => exact ⟨rfl, rfl⟩
  | cons j js ih =>
      have hj := quiet (places j List.mem_cons_self)
      obtain ⟨same, none⟩ := ih fun i hi => places i (List.mem_cons_of_mem _ hi)
      rw [sortBy, List.foldl_cons, history, step_of_not_fires hj, hj, none]
      exact ⟨same, rfl⟩

end BubbleSort
