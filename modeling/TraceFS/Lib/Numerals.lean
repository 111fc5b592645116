import Mathlib.Data.List.Forall2
import Mathlib.Data.List.Lex
import Mathlib.Data.Nat.Digits.Defs
import Mathlib.Data.Char

/-!
Printed and parsed numerals.

Zero-padded numerals of one width compare as texts the way their values compare
as numbers. Parsing follows C: a leading 0x is hexadecimal, any other leading 0 is
octal.
-/
namespace Numerals

def digitVal (c : Char) : Option Nat :=
  if '0' ≤ c ∧ c ≤ '9' then some (c.toNat - '0'.toNat)
  else if 'a' ≤ c ∧ c ≤ 'f' then some (c.toNat - 'a'.toNat + 10)
  else if 'A' ≤ c ∧ c ≤ 'F' then some (c.toNat - 'A'.toNat + 10)
  else none

def readDigit (b acc : Nat) (c : Char) : Option Nat :=
  (digitVal c).bind fun d => if d < b then some (b * acc + d) else none

/-- The value of a digit string in base `b`; a character that is no digit of that
base is an error. -/
def readBase (b : Nat) (cs : List Char) : Option Nat := cs.foldlM (readDigit b) 0

def constant : List Char → Option Nat
  | [] => none
  | '0' :: 'x' :: cs => if cs = [] then none else readBase 16 cs
  | '0' :: 'X' :: cs => if cs = [] then none else readBase 16 cs
  | '0' :: cs => readBase 8 cs
  | cs => readBase 10 cs

/-- `%0wu` and `%0wx`: padded with zeros to `w` characters. -/
def padded (b w v : Nat) : List Char := (Nat.toDigits b v).leftpad w '0'

def fixedDigits (b : Nat) : Nat → Nat → List Char
  | 0, _ => []
  | w + 1, v => fixedDigits b w (v / b) ++ [Nat.digitChar (v % b)]

theorem length_fixedDigits (b w v : Nat) : (fixedDigits b w v).length = w := by
  induction w generalizing v with
  | zero => rfl
  | succ w ih => simp [fixedDigits, ih]

theorem fixedDigits_zero (b w : Nat) : fixedDigits b w 0 = List.replicate w '0' := by
  induction w with
  | zero => rfl
  | succ w ih =>
      rw [fixedDigits, Nat.zero_div, ih, Nat.zero_mod, List.replicate_succ']
      rfl

section Base
variable {b : Nat} (hb : 1 < b)
include hb

theorem padded_eq_fixedDigits {w v : Nat} (hw : 0 < w) (hv : v < b ^ w) :
    padded b w v = fixedDigits b w v := by
  induction w generalizing v with
  | zero => omega
  | succ w ih =>
      by_cases hlt : v < b
      · rw [padded, Nat.toDigits_of_lt_base hlt, fixedDigits, Nat.div_eq_of_lt hlt,
          fixedDigits_zero, Nat.mod_eq_of_lt hlt]
        rfl
      · have hge := Nat.le_of_not_lt hlt
        have hw : 0 < w := by
          cases w with
          | zero => simp only [Nat.zero_add, Nat.pow_one] at hv; omega
          | succ w => omega
        have hdiv : v / b < b ^ w := by
          rw [Nat.div_lt_iff_lt_mul (by omega), ← Nat.pow_succ]
          exact hv
        rw [fixedDigits, ← ih hw hdiv, padded, padded, Nat.toDigits_of_base_le hb hge]
        simp [List.leftpad]

theorem readDigit_digitChar (hb16 : b ≤ 16) {acc d : Nat} (hd : d < b) :
    readDigit b acc (Nat.digitChar d) = some (b * acc + d) := by
  have hval : ∀ d : Fin 16, digitVal (Nat.digitChar d.val) = some d.val := by decide
  rw [readDigit, hval ⟨d, by omega⟩, Option.bind_some, if_pos hd]

/-- What is printed is read back. -/
theorem readBase_fixedDigits (hb16 : b ≤ 16) {w v : Nat} (hv : v < b ^ w) :
    readBase b (fixedDigits b w v) = some v := by
  induction w generalizing v with
  | zero =>
      have : v = 0 := by simpa using hv
      rw [this]
      rfl
  | succ w ih =>
      have hdiv : v / b < b ^ w := by
        rw [Nat.div_lt_iff_lt_mul (by omega), ← Nat.pow_succ]
        exact hv
      have hread := ih hdiv
      rw [readBase] at hread
      rw [fixedDigits, readBase, List.foldlM_append, hread]
      change (readDigit b (v / b) (Nat.digitChar (v % b))).bind some = some v
      rw [readDigit_digitChar hb hb16 (Nat.mod_lt _ (by omega)), Option.bind_some, Nat.div_add_mod]

theorem readBase_toDigits (hb16 : b ≤ 16) (v : Nat) : readBase b (Nat.toDigits b v) = some v := by
  have hpos : 0 < (Nat.toDigits b v).length := Nat.length_toDigits_pos
  have hv := (Nat.length_toDigits_le_iff hb hpos).mp (Nat.le_refl _)
  have hpadded : padded b (Nat.toDigits b v).length v = Nat.toDigits b v := by
    rw [padded, List.leftpad, Nat.sub_self, List.replicate_zero, List.nil_append]
  rw [← hpadded, padded_eq_fixedDigits hb hpos hv]
  exact readBase_fixedDigits hb hb16 hv

theorem toDigits_injective (hb16 : b ≤ 16) : Function.Injective (Nat.toDigits b) := by
  intro u v h
  have hu := readBase_toDigits hb hb16 u
  rw [h, readBase_toDigits hb hb16 v] at hu
  exact (Option.some.inj hu).symm

/-- Texts that start with equally long numerals are ordered by the values. -/
theorem fixedDigits_append_lt (hb16 : b ≤ 16) {w u v : Nat} (huv : u < v) (hv : v < b ^ w)
    (s t : List Char) : fixedDigits b w u ++ s < fixedDigits b w v ++ t := by
  have hchar : ∀ d e : Fin 16, d < e → Nat.digitChar d.val < Nat.digitChar e.val := by decide
  induction w generalizing u v s t with
  | zero =>
      have : v = 0 := by simpa using hv
      omega
  | succ w ih =>
      have hdiv : v / b < b ^ w := by
        rw [Nat.div_lt_iff_lt_mul (by omega), ← Nat.pow_succ]
        exact hv
      rw [fixedDigits, fixedDigits, List.append_assoc, List.append_assoc]
      by_cases hq : u / b < v / b
      · exact ih hq hdiv _ _
      · have hquot : u / b = v / b :=
          Nat.le_antisymm (Nat.div_le_div_right (Nat.le_of_lt huv)) (Nat.le_of_not_lt hq)
        have hmod : u % b < v % b := by
          have hu := Nat.div_add_mod u b
          have hv := Nat.div_add_mod v b
          rw [hquot] at hu
          omega
        have hub := Nat.mod_lt u (show b > 0 by omega)
        have hvb := Nat.mod_lt v (show b > 0 by omega)
        rw [hquot]
        have hlast := hchar ⟨u % b, by omega⟩ ⟨v % b, by omega⟩ hmod
        exact List.append_left_lt (List.cons_lt_cons_iff.mpr (.inl hlast))

end Base

theorem digitVal_of_foldlM {b acc v : Nat} {cs : List Char}
    (h : cs.foldlM (readDigit b) acc = some v) {c : Char} (hc : c ∈ cs) :
    (digitVal c).isSome = true := by
  induction cs generalizing acc with
  | nil => cases hc
  | cons d cs ih =>
      rw [List.foldlM_cons] at h
      have ⟨next, hd, hrest⟩ := Option.bind_eq_some_iff.mp h
      cases hc with
      | head =>
          have ⟨k, hk, _⟩ := Option.bind_eq_some_iff.mp hd
          rw [hk]
          rfl
      | tail _ hc => exact ih hrest hc

/-- The same digits mean no more in a smaller base. -/
theorem foldlM_readDigit_le {b b' m n u v : Nat} {cs : List Char} (hb : b ≤ b') (hmn : m ≤ n)
    (hu : cs.foldlM (readDigit b) m = some u) (hv : cs.foldlM (readDigit b') n = some v) :
    u ≤ v := by
  induction cs generalizing m n with
  | nil =>
      cases hu
      cases hv
      exact hmn
  | cons c cs ih =>
      rw [List.foldlM_cons] at hu hv
      have ⟨m', hm, hu⟩ := Option.bind_eq_some_iff.mp hu
      have ⟨n', hn, hv⟩ := Option.bind_eq_some_iff.mp hv
      refine ih ?_ hu hv
      have ⟨d, hd, hm⟩ := Option.bind_eq_some_iff.mp hm
      have ⟨e, he, hn⟩ := Option.bind_eq_some_iff.mp hn
      cases hd.symm.trans he
      have hm := (Option.ite_none_right_eq_some.mp hm).2
      have hn := (Option.ite_none_right_eq_some.mp hn).2
      cases hm
      cases hn
      have hmul := Nat.mul_le_mul hb hmn
      omega

/-- A decimal text read as a constant is read as octal at worst. -/
theorem constant_le_of_readBase {cs : List Char} {u v : Nat} (hu : constant cs = some u)
    (hv : readBase 10 cs = some v) : u ≤ v := by
  unfold constant at hu
  split at hu
  · cases hu
  · cases digitVal_of_foldlM hv (c := 'x') (by simp)
  · cases digitVal_of_foldlM hv (c := 'X') (by simp)
  · exact foldlM_readDigit_le (by decide) (Nat.le_refl 0) hu hv
  · exact Nat.le_of_eq (Option.some.inj (hu.symm.trans hv))

theorem readBase_of_constant {cs : List Char} {u v : Nat} (hu : constant cs = some u)
    (hv : readBase 10 cs = some v) : u = v ∨ readBase 8 cs = some u := by
  unfold constant at hu
  split at hu
  · cases hu
  · cases digitVal_of_foldlM hv (c := 'x') (by simp)
  · cases digitVal_of_foldlM hv (c := 'X') (by simp)
  · exact .inr hu
  · exact .inl (Option.some.inj (hu.symm.trans hv))

/-- A printed numeral read in a smaller base, digit by digit. -/
theorem readBase_fixedDigits_succ {b b' : Nat} (hb : 1 < b) (hb16 : b ≤ 16) {w v u : Nat}
    (h : readBase b' (fixedDigits b (w + 1) v) = some u) :
    ∃ q, readBase b' (fixedDigits b w (v / b)) = some q ∧ v % b < b' ∧ u = b' * q + v % b := by
  have hval : ∀ d : Fin 16, digitVal (Nat.digitChar d.val) = some d.val := by decide
  have hlt := Nat.mod_lt v (show b > 0 by omega)
  rw [fixedDigits, readBase, List.foldlM_append] at h
  have ⟨q, hq, hlast⟩ := Option.bind_eq_some_iff.mp h
  refine ⟨q, hq, ?_⟩
  change (readDigit b' q (Nat.digitChar (v % b))).bind some = some u at hlast
  rw [Option.bind_fun_some, readDigit, hval ⟨v % b, by omega⟩, Option.bind_some,
    Option.ite_none_right_eq_some] at hlast
  exact ⟨hlast.1, (Option.some.inj hlast.2).symm⟩

/-- Misread in a smaller base, numerals of one width keep their order. -/
theorem readBase_fixedDigits_lt {b b' : Nat} (hb : 1 < b) (hb16 : b ≤ 16) {w v v' u u' : Nat}
    (hlt : v < v') (hv' : v' < b ^ w) (hu : readBase b' (fixedDigits b w v) = some u)
    (hu' : readBase b' (fixedDigits b w v') = some u') : u < u' := by
  induction w generalizing v v' u u' with
  | zero =>
      simp only [Nat.pow_zero] at hv'
      omega
  | succ w ih =>
      have ⟨q, hq, hd, hsum⟩ := readBase_fixedDigits_succ hb hb16 hu
      have ⟨q', hq', hd', hsum'⟩ := readBase_fixedDigits_succ hb hb16 hu'
      have hdiv : v' / b < b ^ w := by
        rw [Nat.div_lt_iff_lt_mul (by omega), ← Nat.pow_succ]
        exact hv'
      by_cases hhigh : v / b < v' / b
      · have hqq := ih hhigh hdiv hq hq'
        have hmul : b' * (q + 1) ≤ b' * q' := Nat.mul_le_mul_left b' hqq
        rw [Nat.mul_add] at hmul
        omega
      · have hquot : v / b = v' / b :=
          Nat.le_antisymm (Nat.div_le_div_right (Nat.le_of_lt hlt)) (Nat.le_of_not_lt hhigh)
        have hv := Nat.div_add_mod v b
        have hv' := Nat.div_add_mod v' b
        rw [hquot] at hq hv
        have hqq : q = q' := Option.some.inj (hq.symm.trans hq')
        rw [hqq] at hsum
        omega

/-- Digits that follow others count below them. -/
theorem foldlM_readDigit_add {b m v : Nat} {cs : List Char}
    (h : cs.foldlM (readDigit b) m = some v) (n : Nat) :
    cs.foldlM (readDigit b) (n + m) = some (b ^ cs.length * n + v) := by
  induction cs generalizing m n with
  | nil =>
      cases h
      simp
  | cons c cs ih =>
      rw [List.foldlM_cons] at h ⊢
      have ⟨m', hm, hrest⟩ := Option.bind_eq_some_iff.mp h
      have ⟨d, hd, hm⟩ := Option.bind_eq_some_iff.mp hm
      have ⟨hlt, hm⟩ := Option.ite_none_right_eq_some.mp hm
      have hnext : readDigit b (n + m) c = some (b * n + m') := by
        rw [readDigit, hd, Option.bind_some, if_pos hlt, ← Option.some.inj hm, Nat.mul_add,
          Nat.add_assoc]
      rw [hnext, List.length_cons, Nat.pow_succ, Nat.mul_assoc]
      exact ih hrest (b * n)

theorem readBase_append {b u v : Nat} {cs ds : List Char} (hu : readBase b cs = some u)
    (hv : readBase b ds = some v) : readBase b (cs ++ ds) = some (b ^ ds.length * u + v) := by
  rw [readBase] at hu
  rw [readBase, List.foldlM_append, hu]
  exact foldlM_readDigit_add hv u

/-! The longest numeral at the front of a text. -/

def prefixFrom (b acc : Nat) : List Char → Nat
  | [] => acc
  | c :: cs =>
      match readDigit b acc c with
      | none => acc
      | some acc => prefixFrom b acc cs

/-- `strtoumax` with base 0 on a text that starts with a digit. -/
def strtoumax (cs : List Char) : Nat :=
  min (2 ^ 64 - 1) (match cs with
    | '0' :: 'x' :: cs => prefixFrom 16 0 cs
    | '0' :: 'X' :: cs => prefixFrom 16 0 cs
    | '0' :: cs => prefixFrom 8 0 cs
    | cs => prefixFrom 10 0 cs)

theorem prefixFrom_of_foldlM {b acc v : Nat} {cs : List Char}
    (h : cs.foldlM (readDigit b) acc = some v) : prefixFrom b acc cs = v := by
  induction cs generalizing acc with
  | nil =>
      cases h
      rfl
  | cons c cs ih =>
      rw [List.foldlM_cons] at h
      have ⟨next, hc, hrest⟩ := Option.bind_eq_some_iff.mp h
      rw [prefixFrom, hc]
      exact ih hrest

/-- A constant is a numeral from its first character to its last. -/
theorem strtoumax_of_constant {cs : List Char} {v : Nat} (h : constant cs = some v)
    (hv : v < 2 ^ 64) : strtoumax cs = v := by
  have hmin : min (2 ^ 64 - 1) v = v := Nat.min_eq_right (by omega)
  unfold constant at h
  split at h
  · cases h
  · have h := (Option.ite_none_left_eq_some.mp h).2
    rw [strtoumax, prefixFrom_of_foldlM h, hmin]
  · have h := (Option.ite_none_left_eq_some.mp h).2
    rw [strtoumax, prefixFrom_of_foldlM h, hmin]
  · rename_i ds hx hX
    unfold strtoumax
    split
    · rename_i hds
      exact absurd (List.cons_eq_cons.mp hds).2 (hx _)
    · rename_i hds
      exact absurd (List.cons_eq_cons.mp hds).2 (hX _)
    · rename_i hds
      rw [← (List.cons_eq_cons.mp hds).2, prefixFrom_of_foldlM h, hmin]
    · rename_i hzero
      exact absurd rfl (hzero ds)
  · rename_i hzero
    unfold strtoumax
    split
    · exact absurd rfl (hzero _)
    · exact absurd rfl (hzero _)
    · exact absurd rfl (hzero _)
    · rw [prefixFrom_of_foldlM h, hmin]

theorem le_of_foldlM_readDigit {b acc v : Nat} {cs : List Char} (hb : 0 < b)
    (h : cs.foldlM (readDigit b) acc = some v) : acc ≤ v := by
  induction cs generalizing acc with
  | nil =>
      cases h
      exact Nat.le_refl _
  | cons c cs ih =>
      rw [List.foldlM_cons] at h
      have ⟨next, hc, hrest⟩ := Option.bind_eq_some_iff.mp h
      have ⟨d, _, hc⟩ := Option.bind_eq_some_iff.mp hc
      have hnext := Option.some.inj (Option.ite_none_right_eq_some.mp hc).2
      have hmul := Nat.le_mul_of_pos_left acc hb
      have hle := ih hrest
      omega

/-- One decimal digit read as octal: the same digit, or the end of the numeral. -/
theorem readDigit_octal {m n n' : Nat} {c : Char} (h : readDigit 10 n c = some n') :
    ∃ d, d < 10 ∧ n' = 10 * n + d ∧
      readDigit 8 m c = if d < 8 then some (8 * m + d) else none := by
  have ⟨d, hd, hn⟩ := Option.bind_eq_some_iff.mp h
  have ⟨hlt, hn⟩ := Option.ite_none_right_eq_some.mp hn
  exact ⟨d, hlt, (Option.some.inj hn).symm, by rw [readDigit, hd, Option.bind_some]⟩

/-- Behind in the first digits means as far behind in the end. -/
theorem prefixFrom_add_le {k m n v : Nat} {cs : List Char} (hmn : m + k ≤ n)
    (h : cs.foldlM (readDigit 10) n = some v) : prefixFrom 8 m cs + k ≤ v := by
  induction cs generalizing m n with
  | nil =>
      cases h
      exact hmn
  | cons c cs ih =>
      rw [List.foldlM_cons] at h
      have ⟨n', hc, hrest⟩ := Option.bind_eq_some_iff.mp h
      have ⟨d, _, hn', hoctal⟩ := readDigit_octal (m := m) hc
      have hle := le_of_foldlM_readDigit (by omega) hrest
      rw [prefixFrom, hoctal]
      by_cases hdigit : d < 8
      · rw [if_pos hdigit]
        exact ih (by omega) hrest
      · rw [if_neg hdigit]
        dsimp only
        omega

/-- Read as octal from the front, a decimal numeral keeps its value only below 8. -/
theorem prefixFrom_octal {n v : Nat} {cs : List Char} (hn : n < 8)
    (h : cs.foldlM (readDigit 10) n = some v) : prefixFrom 8 n cs = v ↔ v < 8 := by
  induction cs generalizing n with
  | nil =>
      cases h
      simpa [prefixFrom] using hn
  | cons c cs ih =>
      rw [List.foldlM_cons] at h
      have ⟨n', hc, hrest⟩ := Option.bind_eq_some_iff.mp h
      have ⟨d, hd, hn', hoctal⟩ := readDigit_octal (m := n) hc
      have hle := le_of_foldlM_readDigit (by omega) hrest
      rw [prefixFrom, hoctal]
      by_cases hdigit : d < 8
      · rw [if_pos hdigit]
        dsimp only
        by_cases hzero : n = 0
        · have hsame : 8 * n + d = n' := by omega
          rw [hsame]
          exact ih (by omega) hrest
        · have hbehind : 8 * n + d + 1 ≤ n' := by omega
          have hlt := prefixFrom_add_le hbehind hrest
          omega
      · rw [if_neg hdigit]
        dsimp only
        omega

/-- A leading 0 makes a decimal numeral octal. -/
theorem strtoumax_of_readBase {cs : List Char} {v : Nat} (h : readBase 10 cs = some v)
    (hv : v < 2 ^ 64) :
    strtoumax cs ≤ v ∧ (strtoumax cs = v ↔ (cs.head? = some '0' → v < 8)) := by
  unfold strtoumax
  split
  · cases digitVal_of_foldlM h (c := 'x') (by simp)
  · cases digitVal_of_foldlM h (c := 'X') (by simp)
  · rename_i ds _ _
    have htail : ds.foldlM (readDigit 10) 0 = some v := h
    have hle := prefixFrom_add_le (show 0 + 0 ≤ 0 by decide) htail
    have hiff := prefixFrom_octal (show 0 < 8 by decide) htail
    rw [Nat.min_eq_right (by omega)]
    exact ⟨hle, hiff.trans ⟨fun hlt _ => hlt, fun hlt => hlt rfl⟩⟩
  · rename_i hzero
    rw [prefixFrom_of_foldlM h, Nat.min_eq_right (by omega)]
    refine ⟨Nat.le_refl v, fun _ hhead => ?_, fun _ => rfl⟩
    cases cs with
    | nil => cases hhead
    | cons c cs => exact absurd (congrArg (· :: cs) (Option.some.inj hhead)) (hzero cs)

/-- Numerals of one width, one after the other. -/
theorem readBase_flatten {b w : Nat} {ms : List (List Char)} {vs : List Nat}
    (h : List.Forall₂ (fun m v => readBase b m = some v) ms vs) (hw : ∀ m ∈ ms, m.length = w) :
    readBase b ms.flatten = some (Nat.ofDigits (b ^ w) vs.reverse) := by
  induction h with
  | nil => rfl
  | @cons m v ms vs hm hrest ih =>
      have hw' : ∀ m ∈ ms, m.length = w := fun m hm => hw m (List.mem_cons_of_mem _ hm)
      have hlen : ms.flatten.length = w * vs.length := by
        rw [List.length_flatten, List.map_congr_left hw', List.map_const', List.sum_replicate_nat,
          hrest.length_eq, Nat.mul_comm]
      rw [List.flatten_cons, readBase_append hm (ih hw'), hlen, List.reverse_cons,
        Nat.ofDigits_append, Nat.ofDigits_singleton, List.length_reverse, Nat.pow_mul, Nat.add_comm]

theorem le_ofDigits {b d : Nat} {ds : List Nat} (hb : 0 < b) (hd : d ∈ ds) :
    d ≤ Nat.ofDigits b ds := by
  induction ds with
  | nil => cases hd
  | cons e ds ih =>
      rw [Nat.ofDigits_cons]
      cases hd with
      | head => exact Nat.le_add_right _ _
      | tail _ hd =>
          have hmul := Nat.le_mul_of_pos_left (Nat.ofDigits b ds) hb
          have hle := ih hd
          omega

theorem digitVal_of_constant {cs : List Char} {v : Nat} (h : constant cs = some v) {c : Char}
    (hc : c ∈ cs) : (digitVal c).isSome = true ∨ c = 'x' ∨ c = 'X' := by
  unfold constant at h
  split at h
  · cases h
  · have h := (Option.ite_none_left_eq_some.mp h).2
    simp only [List.mem_cons] at hc
    rcases hc with rfl | rfl | hc
    · exact .inl rfl
    · exact .inr (.inl rfl)
    · exact .inl (digitVal_of_foldlM h hc)
  · have h := (Option.ite_none_left_eq_some.mp h).2
    simp only [List.mem_cons] at hc
    rcases hc with rfl | rfl | hc
    · exact .inl rfl
    · exact .inr (.inr rfl)
    · exact .inl (digitVal_of_foldlM h hc)
  · rw [List.mem_cons] at hc
    rcases hc with rfl | hc
    · exact .inl rfl
    · exact .inl (digitVal_of_foldlM h hc)
  · exact .inl (digitVal_of_foldlM h hc)

theorem ne_of_constant {cs : List Char} {v : Nat} (h : constant cs = some v) {c : Char}
    (hdigit : digitVal c = none) (hx : c ≠ 'x') (hX : c ≠ 'X') : c ∉ cs := by
  intro hc
  rcases digitVal_of_constant h hc with hsome | rfl | rfl
  · rw [hdigit] at hsome
    cases hsome
  · exact hx rfl
  · exact hX rfl

/-- `0x%08x` -/
def hexWord (v : Nat) : List Char := '0' :: 'x' :: padded 16 8 v

theorem constant_hexWord {v : Nat} (h : v < 16 ^ 8) : constant (hexWord v) = some v := by
  rw [hexWord, padded_eq_fixedDigits (by decide) (by decide) h]
  have hne : fixedDigits 16 8 v ≠ [] := by
    intro hnil
    have hlen := length_fixedDigits 16 8 v
    rw [hnil] at hlen
    cases hlen
  rw [constant, if_neg hne]
  exact readBase_fixedDigits (by decide) (by decide) h

end Numerals
