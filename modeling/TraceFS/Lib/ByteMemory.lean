import Mathlib.Algebra.Group.Nat.Defs
import Mathlib.Data.List.Nodup

/-!
A byte-addressed 32-bit memory with little-endian words.

Words may lie at any address and wrap around; a word is what its four bytes say.
`storeSlots` fills numbered word slots above a base address.
-/
namespace ByteMemory

abbrev Addr := BitVec 32
abbrev Byte := BitVec 8
abbrev Word := BitVec 32
abbrev Memory := Addr → Byte

/-- Byte `i` of a word, from the least significant one. -/
def byteOf (w : Word) (i : Nat) : Byte := w.extractLsb' (8 * i) 8

def storeWord (m : Memory) (a : Addr) (w : Word) : Memory :=
  fun b => if (b - a).toNat < 4 then byteOf w (b - a).toNat else m b

def loadWord (m : Memory) (a : Addr) : Word := m (a + 3) ++ m (a + 2) ++ m (a + 1) ++ m a

theorem byteOf_loadWord (m : Memory) (a : Addr) {i : Nat} (hi : i < 4) :
    byteOf (loadWord m a) i = m (a + BitVec.ofNat 32 i) := by
  apply BitVec.eq_of_getLsbD_eq
  intro j hj
  simp only [byteOf, loadWord, BitVec.getLsbD_extractLsb', BitVec.getLsbD_append, hj, decide_true,
    Bool.true_and]
  match i, hi with
  | 0, _ => simp [hj]
  | 1, _ => simp [hj]
  | 2, _ =>
      have below : ¬ 16 + j < 8 ∧ ¬ 16 + j - 8 < 8 := by omega
      have place : 16 + j - 8 - 8 = j := by omega
      simp [below, place, hj]
  | 3, _ =>
      have below : ¬ 24 + j < 8 ∧ ¬ 24 + j - 8 < 8 ∧ ¬ 24 + j - 8 - 8 < 8 := by omega
      have place : 24 + j - 8 - 8 - 8 = j := by omega
      simp [below, place, hj]

theorem eq_of_byteOf {v w : Word} (h : ∀ i, i < 4 → byteOf v i = byteOf w i) : v = w := by
  apply BitVec.eq_of_getLsbD_eq
  intro j hj
  have hbyte := congrArg (fun b : Byte => b.getLsbD (j % 8)) (h (j / 8) (by omega))
  simpa [byteOf, BitVec.getLsbD_extractLsb', Nat.mod_lt, Nat.div_add_mod] using hbyte

theorem loadWord_eq_iff {m : Memory} {a : Addr} {w : Word} :
    loadWord m a = w ↔ ∀ i, i < 4 → m (a + BitVec.ofNat 32 i) = byteOf w i := by
  constructor
  · intro h i hi
    rw [← h, byteOf_loadWord m a hi]
  · intro h
    apply eq_of_byteOf
    intro i hi
    rw [byteOf_loadWord m a hi, h i hi]

/-- A store changes nothing above its word. -/
theorem storeWord_above {m : Memory} {a b : Addr} {w : Word} (h : a.toNat + 4 ≤ b.toNat) :
    storeWord m a w b = m b := by
  have hb := b.isLt
  rw [storeWord, if_neg]
  rw [BitVec.toNat_sub]
  omega

/-! Slots: word `k` above the base. -/

def slotAddr (base : Addr) (k : Nat) : Addr := base + BitVec.ofNat 32 (k * 4)

def slotByte (base : Addr) (k i : Nat) : Addr := slotAddr base k + BitVec.ofNat 32 i

theorem toNat_slotByte {base : Addr} {k i : Nat} (h : base.toNat + (4 * k + i) < 2 ^ 32) :
    (slotByte base k i).toNat = base.toNat + (4 * k + i) := by
  simp only [slotByte, slotAddr, BitVec.toNat_add, BitVec.toNat_ofNat]
  omega

/-- A byte that does not lie below the base has not wrapped around. -/
theorem lt_of_not_slotByte_lt {base : Addr} {k i : Nat} (hk : 4 * k + i < 2 ^ 32)
    (h : ¬ slotByte base k i < base) : base.toNat + (4 * k + i) < 2 ^ 32 := by
  have hbase := base.isLt
  simp only [BitVec.lt_def, slotByte, slotAddr, BitVec.toNat_add, BitVec.toNat_ofNat] at h
  omega

def storeSlots (m : Memory) (base : Addr) : List (Nat × Word) → Memory
  | [] => m
  | (k, w) :: l => storeSlots (storeWord m (slotAddr base k) w) base l

theorem storeWord_slotByte_of_ne {m : Memory} {base : Addr} {w : Word} {k l i : Nat}
    (hk : k < 2 ^ 30) (hl : l < 2 ^ 30) (hi : i < 4) (h : k ≠ l) :
    storeWord m (slotAddr base l) w (slotByte base k i) = m (slotByte base k i) := by
  have : ¬ (slotByte base k i - slotAddr base l).toNat < 4 := by
    simp only [slotByte, slotAddr, BitVec.toNat_sub, BitVec.toNat_add, BitVec.toNat_ofNat]
    omega
  rw [storeWord, if_neg this]

theorem storeWord_slotByte {m : Memory} {base : Addr} {w : Word} {k i : Nat} (hi : i < 4) :
    storeWord m (slotAddr base k) w (slotByte base k i) = byteOf w i := by
  have : (slotByte base k i - slotAddr base k).toNat = i := by
    simp only [slotByte, slotAddr, BitVec.toNat_sub, BitVec.toNat_add, BitVec.toNat_ofNat]
    omega
  rw [storeWord, this, if_pos hi]

theorem storeSlots_slotByte_of_not_mem {m : Memory} {base : Addr} {l : List (Nat × Word)}
    {k i : Nat} (hk : k < 2 ^ 30) (hl : ∀ p ∈ l, p.1 < 2 ^ 30) (hi : i < 4)
    (h : k ∉ l.map Prod.fst) :
    storeSlots m base l (slotByte base k i) = m (slotByte base k i) := by
  induction l generalizing m with
  | nil => rfl
  | cons p l ih =>
      have hp : k ≠ p.1 := fun hp => h (hp ▸ List.mem_cons_self)
      have h : k ∉ l.map Prod.fst := fun hmem => h (List.mem_cons_of_mem _ hmem)
      rw [storeSlots, ih (fun q hq => hl q (List.mem_cons_of_mem p hq)) h]
      exact storeWord_slotByte_of_ne hk (hl p List.mem_cons_self) hi hp

/-- Distinct slots keep what was stored into them. -/
theorem storeSlots_slotByte {m : Memory} {base : Addr} {l : List (Nat × Word)} {k i : Nat}
    {w : Word} (hl : ∀ p ∈ l, p.1 < 2 ^ 30) (nodup : (l.map Prod.fst).Nodup) (hi : i < 4)
    (h : (k, w) ∈ l) : storeSlots m base l (slotByte base k i) = byteOf w i := by
  induction l generalizing m with
  | nil => cases h
  | cons p l ih =>
      have hl' : ∀ q ∈ l, q.1 < 2 ^ 30 := fun q hq => hl q (List.mem_cons_of_mem p hq)
      obtain ⟨hp, nodup⟩ := List.nodup_cons.mp nodup
      cases h with
      | head =>
          rw [storeSlots, storeSlots_slotByte_of_not_mem (hl _ List.mem_cons_self) hl' hi hp,
            storeWord_slotByte hi]
      | tail _ h => exact ih hl' nodup h

/-- Bytes outside the slots keep their values. -/
theorem storeSlots_of_forall_ne {m : Memory} {base b : Addr} {l : List (Nat × Word)}
    (h : ∀ p ∈ l, ∀ i, i < 4 → b ≠ slotByte base p.1 i) : storeSlots m base l b = m b := by
  induction l generalizing m with
  | nil => rfl
  | cons p l ih =>
      rw [storeSlots, ih fun q hq => h q (List.mem_cons_of_mem p hq)]
      have : ¬ (b - slotAddr base p.1).toNat < 4 := by
        intro hlt
        apply h p List.mem_cons_self (b - slotAddr base p.1).toNat hlt
        rw [slotByte, BitVec.ofNat_toNat, BitVec.setWidth_eq, BitVec.add_comm,
          BitVec.sub_add_cancel]
      rw [storeWord, if_neg this]

end ByteMemory
