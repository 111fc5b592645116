import Mathlib.Data.List.GetD
import TraceFS.Lib.ByteMemory

/-!
Byte buffers copied word by word.

Loading a word and storing it again moves four bytes, so a loop over words copies
a prefix of the source and leaves the rest of the destination alone.
-/
namespace WordCopy
open ByteMemory

/-- Word `i` of a buffer, little-endian. -/
def wordAt (bs : List Byte) (i : Nat) : Word := loadWord (fun a => bs.getD (4 * i + a.toNat) 0) 0

def setWord (bs : List Byte) (i : Nat) (w : Word) : List Byte :=
  (List.range 4).foldl (fun bs j => bs.set (4 * i + j) (byteOf w j)) bs

/-- The first `n` words, from the lowest one. -/
def copyWords (src : List Byte) : Nat → List Byte → List Byte
  | 0, dst => dst
  | n + 1, dst => setWord (copyWords src n dst) n (wordAt src n)

/-- The first `n` bytes, from the lowest one. -/
def copyBytes (src : List Byte) : Nat → List Byte → List Byte
  | 0, dst => dst
  | n + 1, dst => (copyBytes src n dst).set n (src.getD n 0)

theorem byteOf_wordAt (bs : List Byte) (i : Nat) {j : Nat} (hj : j < 4) :
    byteOf (wordAt bs i) j = bs.getD (4 * i + j) 0 := by
  have hword : ((0 : Addr) + BitVec.ofNat 32 j).toNat = j := by
    have hzero : (0 : Addr).toNat = 0 := rfl
    rw [BitVec.toNat_add, BitVec.toNat_ofNat, hzero]
    omega
  rw [wordAt, byteOf_loadWord _ _ hj, hword]

theorem wordAt_congr {bs bs' : List Byte} {i : Nat}
    (h : ∀ j, j < 4 → bs.getD (4 * i + j) 0 = bs'.getD (4 * i + j) 0) :
    wordAt bs i = wordAt bs' i := by
  apply eq_of_byteOf
  intro j hj
  rw [byteOf_wordAt bs i hj, byteOf_wordAt bs' i hj]
  exact h j hj

@[simp] theorem length_setWord (bs : List Byte) (i : Nat) (w : Word) :
    (setWord bs i w).length = bs.length := by
  simp [setWord, List.range_succ]

@[simp] theorem length_copyWords (src : List Byte) (n : Nat) (dst : List Byte) :
    (copyWords src n dst).length = dst.length := by
  induction n with
  | zero => rfl
  | succ n ih => rw [copyWords, length_setWord, ih]

@[simp] theorem length_copyBytes (src : List Byte) (n : Nat) (dst : List Byte) :
    (copyBytes src n dst).length = dst.length := by
  induction n with
  | zero => rfl
  | succ n ih => rw [copyBytes, List.length_set, ih]

/-- A stored word is found in its four bytes and nowhere else. -/
theorem getElem?_setWord (bs : List Byte) (i : Nat) (w : Word) {k : Nat} (hk : k < bs.length) :
    (setWord bs i w)[k]? = if k / 4 = i then some (byteOf w (k % 4)) else bs[k]? := by
  have hlanes : List.range 4 = [0, 1, 2, 3] := rfl
  simp only [setWord, hlanes, List.foldl_cons, List.foldl_nil, List.getElem?_set, List.length_set]
  by_cases hi : k / 4 = i
  · have hlane : k % 4 < 4 := Nat.mod_lt k (by omega)
    have hk' : k = 4 * i + k % 4 := by omega
    rw [if_pos hi]
    match hj : k % 4, hlane with
    | 0, _ | 1, _ | 2, _ | 3, _ => grind
  · rw [if_neg hi]
    grind

theorem getElem?_copyWords {src dst : List Byte} {n : Nat} (hsrc : 4 * n ≤ src.length)
    (hdst : 4 * n ≤ dst.length) (k : Nat) :
    (copyWords src n dst)[k]? = if k < 4 * n then src[k]? else dst[k]? := by
  induction n with
  | zero => simp [copyWords]
  | succ n ih =>
      by_cases hk : k < dst.length
      · rw [copyWords, getElem?_setWord _ _ _ (by rwa [length_copyWords]),
          ih (by omega) (by omega), byteOf_wordAt _ _ (Nat.mod_lt k (by omega))]
        by_cases hword : k / 4 = n
        · have hplace : 4 * n + k % 4 = k := by omega
          have hin : k < src.length := by omega
          rw [if_pos hword, if_pos (by omega), hplace, List.getD_eq_getElem _ _ hin,
            List.getElem?_eq_getElem hin]
        · rw [if_neg hword]
          by_cases hbelow : k < 4 * n
          · rw [if_pos hbelow, if_pos (by omega)]
          · rw [if_neg hbelow, if_neg (by omega)]
      · rw [if_neg (by omega), List.getElem?_eq_none (by rw [length_copyWords]; omega),
          List.getElem?_eq_none (by omega)]

theorem getElem?_copyBytes {src dst : List Byte} {n : Nat} (hsrc : n ≤ src.length)
    (hdst : n ≤ dst.length) (k : Nat) :
    (copyBytes src n dst)[k]? = if k < n then src[k]? else dst[k]? := by
  induction n with
  | zero => simp [copyBytes]
  | succ n ih =>
      rw [copyBytes, List.getElem?_set, length_copyBytes, ih (by omega) (by omega)]
      by_cases hk : n = k
      · have hin : n < src.length := by omega
        rw [if_pos hk, if_pos (by omega), if_pos (by omega), List.getD_eq_getElem _ _ hin, ← hk,
          List.getElem?_eq_getElem hin]
      · rw [if_neg hk]
        by_cases hbelow : k < n
        · rw [if_pos hbelow, if_pos (by omega)]
        · rw [if_neg hbelow, if_neg (by omega)]

/-- A list that agrees with `src` below `n` and with `dst` from `n` on. -/
theorem eq_take_append_drop {src dst out : List Byte} {n : Nat} (hsrc : n ≤ src.length)
    (hout : ∀ k, out[k]? = if k < n then src[k]? else dst[k]?) :
    out = src.take n ++ dst.drop n := by
  apply List.ext_getElem?
  intro k
  have hlen : (src.take n).length = n := by
    rw [List.length_take]
    omega
  rw [hout k, List.getElem?_append, hlen]
  by_cases hk : k < n
  · rw [if_pos hk, if_pos hk, List.getElem?_take_of_lt hk]
  · rw [if_neg hk, if_neg hk, List.getElem?_drop, Nat.add_sub_cancel' (by omega)]

theorem copyWords_eq {src dst : List Byte} {n : Nat} (hsrc : 4 * n ≤ src.length)
    (hdst : 4 * n ≤ dst.length) :
    copyWords src n dst = src.take (4 * n) ++ dst.drop (4 * n) :=
  eq_take_append_drop hsrc (getElem?_copyWords hsrc hdst)

theorem copyBytes_eq {src dst : List Byte} {n : Nat} (hsrc : n ≤ src.length)
    (hdst : n ≤ dst.length) : copyBytes src n dst = src.take n ++ dst.drop n :=
  eq_take_append_drop hsrc (getElem?_copyBytes hsrc hdst)

end WordCopy
