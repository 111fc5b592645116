import Mathlib.Data.List.Nodup
import TraceFS.Lib.Numerals

/-!
Names made of a stem and a counter, cut to the size of a buffer.

As long as the last counter is printed whole, the names are pairwise different. Beyond
that a power of the base and the one before it share their name.
-/
namespace NumberedNames

variable (b limit : Nat) (sep : Char) (stem : List Char)

/-- `snprintf(name, limit + 1, "%s.%u", stem, n)` -/
def name (n : Nat) : List Char := (stem ++ sep :: Nat.toDigits b n).take limit

def names (n : Nat) : List (List Char) := (List.range' 1 n).map (name b limit sep stem)

/-- The name of `n` is not cut. -/
def Fits (n : Nat) : Prop := stem.length + 1 + (Nat.toDigits b n).length ≤ limit

instance (n : Nat) : Decidable (Fits b limit stem n) := inferInstanceAs (Decidable (_ ≤ _))

variable {b limit sep stem}

theorem name_of_fits {n : Nat} (h : Fits b limit stem n) :
    name b limit sep stem n = stem ++ sep :: Nat.toDigits b n := by
  apply List.take_of_length_le
  rw [List.length_append, List.length_cons]
  have hfits : stem.length + 1 + (Nat.toDigits b n).length ≤ limit := h
  omega

theorem mem_names {n : Nat} {x : List Char} :
    x ∈ names b limit sep stem n ↔ ∃ k, 1 ≤ k ∧ k ≤ n ∧ name b limit sep stem k = x := by
  simp only [names, List.mem_map, List.mem_range'_1]
  constructor
  · intro ⟨k, hk, hx⟩
    exact ⟨k, hk.1, by omega, hx⟩
  · intro ⟨k, hone, hle, hx⟩
    exact ⟨k, ⟨hone, by omega⟩, hx⟩

theorem names_succ (n : Nat) :
    names b limit sep stem (n + 1) = names b limit sep stem n ++ [name b limit sep stem (n + 1)] := by
  rw [names, List.range'_1_concat, List.map_append, List.map_singleton, Nat.add_comm 1 n, names]

/-- A name is the stem itself where the buffer ends with the stem. -/
theorem name_eq_stem_iff {n : Nat} : name b limit sep stem n = stem ↔ stem.length = limit := by
  constructor
  · intro h
    have hlen := congrArg List.length h
    rw [name, List.length_take, List.length_append, List.length_cons] at hlen
    omega
  · intro h
    rw [name, ← h, List.take_left]

theorem stem_notMem_names_iff {n : Nat} :
    stem ∉ names b limit sep stem n ↔ n = 0 ∨ stem.length ≠ limit := by
  rw [mem_names]
  constructor
  · intro h
    by_cases hlen : stem.length = limit
    · refine .inl (Nat.eq_zero_of_not_pos fun hpos => h ⟨1, Nat.le_refl 1, hpos, ?_⟩)
      exact name_eq_stem_iff.mpr hlen
    · exact .inr hlen
  · intro h ⟨k, hone, hle, hname⟩
    cases h with
    | inl hzero => omega
    | inr hlen => exact hlen (name_eq_stem_iff.mp hname)

section Base
variable (hb : 1 < b)
include hb

theorem length_toDigits_mono {m n : Nat} (h : m ≤ n) :
    (Nat.toDigits b m).length ≤ (Nat.toDigits b n).length := by
  rw [Nat.length_toDigits_le_iff hb Nat.length_toDigits_pos]
  exact Nat.lt_of_le_of_lt h
    ((Nat.length_toDigits_le_iff hb Nat.length_toDigits_pos).mp (Nat.le_refl _))

theorem Fits.mono {m n : Nat} (h : Fits b limit stem n) (hle : m ≤ n) : Fits b limit stem m := by
  have hmono := length_toDigits_mono hb hle
  have hfits : stem.length + 1 + (Nat.toDigits b n).length ≤ limit := h
  change stem.length + 1 + (Nat.toDigits b m).length ≤ limit
  omega

theorem toDigits_pow_succ (r : Nat) :
    Nat.toDigits b (b ^ (r + 1)) = Nat.toDigits b (b ^ r) ++ ['0'] := by
  have hpos : 0 < b ^ r := Nat.pow_pos (by omega)
  have hge : b ≤ b ^ (r + 1) := by
    rw [Nat.pow_succ]
    exact Nat.le_mul_of_pos_left b hpos
  rw [Nat.toDigits_of_base_le hb hge, Nat.pow_succ, Nat.mul_div_cancel _ (by omega),
    Nat.mul_mod_left]
  rfl

theorem length_toDigits_pow (r : Nat) : (Nat.toDigits b (b ^ r)).length = r + 1 := by
  induction r with
  | zero => rw [Nat.pow_zero, Nat.toDigits_of_lt_base hb, List.length_singleton]
  | succ r ih => rw [toDigits_pow_succ hb, List.length_append, ih, List.length_singleton]

variable (hb16 : b ≤ 16)
include hb16

theorem name_injOn {m n : Nat} (hm : Fits b limit stem m) (hn : Fits b limit stem n)
    (h : name b limit sep stem m = name b limit sep stem n) : m = n := by
  rw [name_of_fits hm, name_of_fits hn] at h
  have hdigits := (List.cons_eq_cons.mp (List.append_cancel_left h)).2
  exact Numerals.toDigits_injective hb hb16 hdigits

omit hb16 in
/-- Where the last name is cut, two of the names are the same. -/
theorem exists_collision {n : Nat} (hn : 1 < n) (h : ¬ Fits b limit stem n) :
    ∃ i j, 1 ≤ i ∧ i < j ∧ j ≤ n ∧ name b limit sep stem i = name b limit sep stem j := by
  by_cases hroom : limit ≤ stem.length + 1
  · -- nothing of the counter is left
    have hcut (k : Nat) : name b limit sep stem k = (stem ++ [sep]).take limit := by
      have hsplit : stem ++ sep :: Nat.toDigits b k = (stem ++ [sep]) ++ Nat.toDigits b k := by
        rw [List.append_assoc, List.singleton_append]
      rw [name, hsplit, List.take_append_of_le_length]
      rw [List.length_append, List.length_singleton]
      exact hroom
    exact ⟨1, 2, Nat.le_refl 1, by omega, hn, by rw [hcut, hcut]⟩
  · obtain ⟨r, hr⟩ := Nat.exists_eq_add_of_lt (Nat.lt_of_not_le hroom)
    have hpow : b ^ (r + 1) ≤ n := by
      refine Nat.le_of_not_lt fun hlt => h ?_
      have hlen := (Nat.length_toDigits_le_iff hb (Nat.succ_pos r)).mpr hlt
      change stem.length + 1 + (Nat.toDigits b n).length ≤ limit
      omega
    refine ⟨b ^ r, b ^ (r + 1), Nat.pow_pos (by omega), Nat.pow_lt_pow_right hb (by omega), hpow, ?_⟩
    have hlen : (stem ++ sep :: Nat.toDigits b (b ^ r)).length = limit := by
      rw [List.length_append, List.length_cons, length_toDigits_pow hb]
      omega
    rw [name, name, toDigits_pow_succ hb, List.take_of_length_le (Nat.le_of_eq hlen),
      ← List.cons_append, ← List.append_assoc, List.take_left' hlen]

theorem nodup_names_iff {n : Nat} :
    (names b limit sep stem n).Nodup ↔ n ≤ 1 ∨ Fits b limit stem n := by
  constructor
  · intro h
    by_contra hno
    have ⟨hmany, hcut⟩ := not_or.mp hno
    obtain ⟨i, j, hi, hij, hj, hname⟩ : ∃ i j, 1 ≤ i ∧ i < j ∧ j ≤ n ∧
        name b limit sep stem i = name b limit sep stem j :=
      exists_collision hb (Nat.lt_of_not_le hmany) hcut
    have hinj := List.inj_on_of_nodup_map h
    have hsame := hinj (List.mem_range'_1.mpr ⟨hi, by omega⟩)
      (List.mem_range'_1.mpr ⟨by omega, by omega⟩) hname
    omega
  · intro h
    refine List.Nodup.map_on ?_ List.nodup_range'
    intro i hi j hj hname
    have ⟨hi1, hin⟩ := List.mem_range'_1.mp hi
    have ⟨hj1, hjn⟩ := List.mem_range'_1.mp hj
    cases h with
    | inl hone => omega
    | inr hfits =>
        exact name_injOn hb hb16 (hfits.mono hb (by omega)) (hfits.mono hb (by omega)) hname

end Base
end NumberedNames
