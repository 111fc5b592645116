import Mathlib.Logic.Function.Basic
import TraceFS.Scripts.CfgTrace

/-!
A device that keeps what is written, and what the filling loops leave on it.
-/
namespace TraceFS.CfgTrace
open Access Numerals ShellText

def Column.get : Column → Word × Word → Word
  | .addr, x => x.1
  | .cmd, x => x.2

def Column.set : Column → Word → Word × Word → Word × Word
  | .addr, v, x => (v, x.2)
  | .cmd, v, x => (x.1, v)

@[simp] theorem Column.get_set (c : Column) (v : Word) (x : Word × Word) :
    c.get (c.set v x) = v := by
  cases c <;> rfl

/-- A device on which every write to a watchpoint register sticks. -/
structure Sticking (σ : Type) where
  perform : (op : Op) → σ → op.Res × σ
  contents : σ → Fin ctWpNum → Word × Word
  write : ∀ (k : Fin ctWpNum) c v s, contents (perform (.write (wpReg k.val c) v) s).2 =
    Function.update (contents s) k (c.set v (contents s k))
  read : ∀ (k : Fin ctWpNum) c s, (perform (.read (wpReg k.val c)) s).1 = c.get (contents s k)
  read_keeps : ∀ (k : Fin ctWpNum) c s, contents (perform (.read (wpReg k.val c)) s).2 = contents s

theorem toNat_wpReg (k : Fin ctWpNum) (c : Column) :
    (wpReg k.val c).toNat = ctWpBase + k.val * 8 + (if c = .addr then 0 else 4) := by
  have hk : k.val < 15 := k.isLt
  have hbase : ctWpBase = 0xa0904100 := rfl
  cases c with
  | addr => simp only [wpReg, BitVec.toNat_ofNat, if_true]; omega
  | cmd => simp only [wpReg, BitVec.toNat_ofNat, reduceCtorEq, if_false]; omega

theorem wpReg_inj {k k' : Fin ctWpNum} {c c' : Column} :
    wpReg k.val c = wpReg k'.val c' ↔ k = k' ∧ c = c' := by
  constructor
  · intro h
    have heq := congrArg BitVec.toNat h
    rw [toNat_wpReg, toNat_wpReg] at heq
    cases c <;> cases c' <;> simp_all <;> omega
  · intro h
    rw [h.1, h.2]

def memory : Sticking (Word → Word) where
  perform
    | .read a, s => (s a, s)
    | .write a v, s => ((), Function.update s a v)
  contents s k := (s (wpReg k.val .addr), s (wpReg k.val .cmd))
  write k c v s := by
    funext j
    by_cases hj : j = k
    · subst hj
      cases c <;> simp [Column.set, wpReg_inj]
    · cases c <;> simp [hj, wpReg_inj]
  read k c s := by cases c <;> rfl
  read_keeps k c s := rfl

section Sequencing
variable {σ : Type} {perform : (op : Op) → σ → op.Res × σ}

theorem exec_verifyAttempts (addr v mask : Word) (attempts : Nat) (s : σ) :
    (verifyAttempts addr v mask (attempts + 1)).exec perform s =
      let readback := perform (.read addr) (perform (.write addr v) s).2
      if readback.1 &&& mask = v &&& mask then (some 0, readback.2)
      else (verifyAttempts addr v mask attempts).exec perform readback.2 := by
  let readback := perform (.read addr) (perform (.write addr v) s).2
  change (if readback.1 &&& mask = v &&& mask then pure (some 0)
    else verifyAttempts addr v mask attempts : Code Status).exec perform readback.2 = _
  split
  next h => rw [if_pos h, Prog.exec_pure]
  next h => rw [if_neg h]

theorem exec_andThen {p q : Code Status} {s t : σ} {status : Nat}
    (h : p.exec perform s = (some status, t)) :
    (andThen p q).exec perform s = q.exec perform t := by
  rw [andThen, Prog.exec_bind, h]

end Sequencing

/-- Consecutive slots take the values of a list. -/
def fill {α : Type} {n : Nat} (f : Fin n → α) : Nat → List α → Fin n → α
  | _, [] => f
  | k, x :: xs => fill (fun j => if j.val = k then x else f j) (k + 1) xs

section Fill
variable {α : Type} {n : Nat}

theorem fill_append (f : Fin n → α) (k : Nat) (xs ys : List α) :
    fill f k (xs ++ ys) = fill (fill f k xs) (k + xs.length) ys := by
  induction xs generalizing f k with
  | nil => rfl
  | cons x xs ih =>
      rw [List.cons_append, fill, ih, fill, List.length_cons, Nat.add_right_comm, Nat.add_assoc]

theorem fill_of_lt (f : Fin n → α) {k : Nat} (xs : List α) {j : Fin n} (h : j.val < k) :
    fill f k xs j = f j := by
  induction xs generalizing f k with
  | nil => rfl
  | cons x xs ih =>
      rw [fill, ih _ (Nat.lt_succ_of_lt h), if_neg (Nat.ne_of_lt h)]

theorem fill_getElem (f : Fin n → α) {k : Nat} (xs : List α) {j : Fin n} {i : Nat}
    (hj : j.val = k + i) (hi : i < xs.length) : fill f k xs j = xs[i] := by
  induction xs generalizing f k i with
  | nil => cases hi
  | cons x xs ih =>
      rw [fill]
      cases i with
      | zero => rw [fill_of_lt _ _ (by omega), if_pos (show j.val = k from hj), List.getElem_cons_zero]
      | succ i =>
          rw [List.getElem_cons_succ]
          exact ih _ (by omega) (Nat.lt_of_succ_lt_succ hi)

end Fill

section Sticks
variable {σ : Type} (d : Sticking σ)

theorem verifyAttempts_sticks (k : Fin ctWpNum) (c : Column) (v mask : Word) (attempts : Nat)
    (s : σ) : ∃ t, (verifyAttempts (wpReg k.val c) v mask (attempts + 1)).exec d.perform s =
        (some 0, t) ∧ d.contents t = Function.update (d.contents s) k (c.set v (d.contents s k)) := by
  have hread := d.read k c (d.perform (.write (wpReg k.val c) v) s).2
  rw [d.write, Function.update_self, Column.get_set] at hread
  refine ⟨(d.perform (.read (wpReg k.val c)) (d.perform (.write (wpReg k.val c) v) s).2).2, ?_, ?_⟩
  · rw [exec_verifyAttempts, if_pos (by rw [hread])]
  · rw [d.read_keeps, d.write]

theorem verifiedWrite_sticks (k : Fin ctWpNum) (c : Column) {val : Text} {v : Word}
    (hv : arith val = some v) (s : σ) :
    ∃ t, (verifiedWrite (wpReg k.val c) val defaultMask defaultRetries).exec d.perform s =
        (some 0, t) ∧ d.contents t = Function.update (d.contents s) k (c.set v (d.contents s k)) := by
  rw [verifiedWrite, hv]
  exact verifyAttempts_sticks d k c v defaultMask 7 s

/-- A slot takes its address and command, and the others stay. -/
theorem writeSlot_sticks {k : Nat} (hk : k < ctWpNum) {pcText cmdText : Text} {pc cmd : Word}
    (hpc : arith pcText = some pc) (hcmd : arith cmdText = some cmd) (s : σ) :
    ∃ t, (writeSlot k pcText cmdText).exec d.perform s = (some 0, t) ∧
      d.contents t = fun j => if j.val = k then (pc, cmd) else d.contents s j := by
  have ⟨t, hexec, ht⟩ := verifiedWrite_sticks d ⟨k, hk⟩ .addr hpc s
  have ⟨u, hexec', hu⟩ := verifiedWrite_sticks d ⟨k, hk⟩ .cmd hcmd t
  refine ⟨u, ?_, ?_⟩
  · rw [writeSlot, exec_andThen hexec]
    exact hexec'
  · rw [hu, ht, Function.update_idem, Function.update_self]
    funext j
    simp only [Function.update_apply, Fin.ext_iff]
    rfl

/-- The slots of `n` sentinels from the address `v` on. -/
def sentinels : Nat → Nat → List (Word × Word)
  | 0, _ => []
  | n + 1, v => (BitVec.ofNat 32 v, 0) :: sentinels n (v + 2)

theorem arith_hexWord {v : Nat} (hv : v < 16 ^ 8) : arith (hexWord v) = some (BitVec.ofNat 32 v) := by
  rw [arith, constant_hexWord hv, Option.map_some]

theorem arith_noneCmd : arith noneCmd = some 0 := by decide

theorem writeSentinels_sticks {n k v : Nat} (hk : k + n ≤ ctWpNum) (hv : v + 2 * n ≤ 16 ^ 8)
    (s : σ) : ∃ t, (writeSentinels n k v).exec d.perform s = (some 0, t) ∧
      d.contents t = fill (d.contents s) k (sentinels n v) := by
  induction n generalizing k v s with
  | zero => exact ⟨s, rfl, rfl⟩
  | succ n ih =>
      have ⟨t, hexec, ht⟩ := writeSlot_sticks d (k := k) (by omega)
        (arith_hexWord (v := v) (by omega)) arith_noneCmd s
      have ⟨u, hexec', hu⟩ := ih (k := k + 1) (v := v + 2) (by omega) (by omega) t
      refine ⟨u, ?_, ?_⟩
      · rw [writeSentinels, exec_andThen hexec]
        exact hexec'
      · rw [hu, ht, sentinels, fill]

end Sticks

end TraceFS.CfgTrace
