import TraceFS.Firmware.Scenarios

/-!
The values `x`, `y` and `z` take when the GPIO interrupt strikes anywhere in the task.

The table holds 90 at the indices 0 and 90 % 20, and `f` maps 90 to itself. So `x` and
`y` never are anything but 0 and 90, and `z` is multiplied only while it is below 90.
-/
namespace TraceFS.Scenarios
open Access

/-- The values after at most `n` calls of the task. -/
structure Ranges (n : Nat) (w : World) : Prop where
  x : w.vars .x = 0 ∨ w.vars .x = 90
  y : w.vars .y = 0 ∨ w.vars .y = 90
  z_nonneg : 0 ≤ (w.vars .z).toInt
  z_le : (w.vars .z).toInt ≤ 8010 + n
  log : ∀ e ∈ w.log, e.Defined

/-- So many calls leave room above `z` for one more addition of 90. -/
def callLimit : Nat := 2 ^ 31 - 10001

theorem toInt_eval {f : Arith} {a b : CInt} (h : (Logged.signed f a b).Defined) :
    (f.eval a b).toInt = f.exact a.toInt b.toInt := by
  have ⟨hlow, hhigh⟩ := h
  cases f with
  | add =>
      rw [Arith.eval, BitVec.toInt_add]
      exact Int.bmod_eq_of_le (by simpa [Arith.exact] using hlow) (by simpa [Arith.exact] using hhigh)
  | sub =>
      rw [Arith.eval, BitVec.toInt_sub]
      exact Int.bmod_eq_of_le (by simpa [Arith.exact] using hlow) (by simpa [Arith.exact] using hhigh)
  | mul =>
      rw [Arith.eval, BitVec.toInt_mul]
      exact Int.bmod_eq_of_le (by simpa [Arith.exact] using hlow) (by simpa [Arith.exact] using hhigh)

theorem Ranges.init (signal result : CInt) : Ranges 0 (.init signal result) where
  x := .inl rfl
  y := .inl rfl
  z_nonneg := Int.le_refl 0
  z_le := show (0 : Int) ≤ 8010 + (0 : Nat) by omega
  log _ he := absurd he List.not_mem_nil

theorem Ranges.logged {n : Nat} {w : World} (h : Ranges n w) {e : Logged} (he : e.Defined) :
    Ranges n (w.logged e) where
  x := h.x
  y := h.y
  z_nonneg := h.z_nonneg
  z_le := h.z_le
  log := by
    intro e' he'
    cases List.mem_append.mp he' with
    | inl hold => exact h.log e' hold
    | inr hnew =>
        rw [List.mem_singleton.mp hnew]
        exact he

/-- `signal` and `result` are outputs only. -/
theorem Ranges.output {n : Nat} {w : World} (h : Ranges n w) {v : Var}
    (hv : v = .signal ∨ v = .result) (m : CInt) :
    Ranges n { w with vars := Function.update w.vars v m } := by
  cases hv with
  | inl hv => subst hv; exact ⟨h.x, h.y, h.z_nonneg, h.z_le, h.log⟩
  | inr hv => subst hv; exact ⟨h.x, h.y, h.z_nonneg, h.z_le, h.log⟩

/-! The interrupt: what each of its branches does. -/

section Branches
variable {w : World}

theorem exec_swap (hxy : (w.vars .x).sle (w.vars .y) = true) :
    (rearrange.exec perform w).2 =
      { w with vars := Function.update (Function.update w.vars .x (w.vars .y)) .y (w.vars .x) } := by
  simp [rearrange, swap, read, write, perform, hxy]

theorem exec_min (hxy : ¬ (w.vars .x).sle (w.vars .y) = true)
    (hxz : (w.vars .x).sle (w.vars .z) = true) {m : CInt}
    (hm : cMin (w.vars .x) (w.vars .y) (w.vars .z) = m) :
    (rearrange.exec perform w).2 =
      { w.logged (.signed .add (w.vars .x) m) with
        vars := Function.update w.vars .x (Arith.eval .add (w.vars .x) m) } := by
  simp [rearrange, read, write, signed, perform, World.logged, hxy, hxz, hm]

theorem exec_max (hxy : ¬ (w.vars .x).sle (w.vars .y) = true)
    (hxz : ¬ (w.vars .x).sle (w.vars .z) = true) {m : CInt}
    (hm : cMax (w.vars .z) (w.vars .y) (w.vars .x) = m) :
    (rearrange.exec perform w).2 =
      { w.logged (.signed .mul (w.vars .z) m) with
        vars := Function.update w.vars .z (Arith.eval .mul (w.vars .z) m) } := by
  simp [rearrange, read, write, signed, perform, World.logged, hxy, hxz, hm]

theorem exec_setResult :
    ∃ f, (f = .add ∨ f = .sub) ∧ (setResult.exec perform w).2 =
      { w.logged (.signed f (w.vars .y) (w.vars .z)) with
        vars := Function.update w.vars .result (f.eval (w.vars .y) (w.vars .z)) } := by
  by_cases hyz : (w.vars .y).sle (w.vars .z) = true
  · exact ⟨.add, .inl rfl, by simp [setResult, read, write, signed, perform, World.logged, hyz]⟩
  · exact ⟨.sub, .inr rfl, by simp [setResult, read, write, signed, perform, World.logged, hyz]⟩

end Branches

theorem cMin_of_nonneg {c : CInt} (hc : 0 ≤ c.toInt) : cMin 90 0 c = 0 := by
  have hle : (0 : CInt).sle c = true := BitVec.sle_iff_toInt_le.mpr hc
  rw [cMin, if_neg (by decide), if_pos hle]

theorem cMax_of_lt {c : CInt} (hc : c.toInt < 90) : cMax c 0 90 = 90 := by
  have hle : c.sle 90 = true := BitVec.sle_iff_toInt_le.mpr (Int.le_of_lt hc)
  have hzero : (0 : CInt).sle 90 = true := by decide
  by_cases hneg : c.sle 0 = true
  · simp only [cMax, if_pos hneg, if_pos hzero]
  · simp only [cMax, if_neg hneg, if_pos hle]

section Interrupt
variable {n : Nat} {w : World} (h : Ranges n w)
include h

/-- The `else` branches are reached with 90 in `x` and 0 in `y` only. -/
theorem Ranges.of_not_sle (hxy : ¬ (w.vars .x).sle (w.vars .y) = true) :
    w.vars .x = 90 ∧ w.vars .y = 0 := by
  rcases h.x with hx | hx
  · rcases h.y with hy | hy
    · exact absurd (by rw [hx, hy]; decide) hxy
    · exact absurd (by rw [hx, hy]; decide) hxy
  · rcases h.y with hy | hy
    · exact ⟨hx, hy⟩
    · exact absurd (by rw [hx, hy]; decide) hxy

/-- `x` and `y` trade places, `x` grows by 0, or `z` below 90 is multiplied by 90. -/
theorem Ranges.rearrange : Ranges n (rearrange.exec perform w).2 := by
  by_cases hxy : (w.vars .x).sle (w.vars .y) = true
  · rw [exec_swap hxy]
    exact ⟨h.y, h.x, h.z_nonneg, h.z_le, h.log⟩
  · have ⟨hx, hy⟩ := h.of_not_sle hxy
    by_cases hxz : (w.vars .x).sle (w.vars .z) = true
    · have hmin : cMin (w.vars .x) (w.vars .y) (w.vars .z) = 0 := by
        rw [hx, hy]
        exact cMin_of_nonneg h.z_nonneg
      have hadd : (Logged.signed .add (w.vars .x) 0).Defined := by
        rw [hx]
        decide
      rw [exec_min hxy hxz hmin]
      refine ⟨.inr ?_, h.y, h.z_nonneg, h.z_le, (h.logged hadd).log⟩
      change Arith.eval .add (w.vars .x) 0 = 90
      rw [hx]
      rfl
    · have hz : (w.vars .z).toInt < 90 := by
        rw [hx, BitVec.sle_iff_toInt_le, Int.not_le] at hxz
        exact hxz
      have hmax : cMax (w.vars .z) (w.vars .y) (w.vars .x) = 90 := by
        rw [hx, hy]
        exact cMax_of_lt hz
      have ninety : (90 : CInt).toInt = 90 := rfl
      have hnonneg := h.z_nonneg
      have hmul : (Logged.signed .mul (w.vars .z) 90).Defined := by
        simp only [Logged.Defined, Arith.exact, ninety]
        omega
      have hvalue := toInt_eval hmul
      rw [Arith.exact, ninety] at hvalue
      rw [exec_max hxy hxz hmax]
      refine ⟨h.x, h.y, ?_, ?_, (h.logged hmul).log⟩
      · change 0 ≤ (Arith.eval .mul (w.vars .z) 90).toInt
        omega
      · change (Arith.eval .mul (w.vars .z) 90).toInt ≤ _
        omega

theorem Ranges.setResult (hn : n ≤ callLimit) : Ranges n (setResult.exec perform w).2 := by
  have hy : 0 ≤ (w.vars .y).toInt ∧ (w.vars .y).toInt ≤ 90 := by
    rcases h.y with hy | hy
    · rw [hy]
      decide
    · rw [hy]
      decide
  have hz := h.z_nonneg
  have hle := h.z_le
  have hlimit : n ≤ 2147473647 := hn
  have ⟨f, hf, hexec⟩ := exec_setResult (w := w)
  have hdefined : (Logged.signed f (w.vars .y) (w.vars .z)).Defined := by
    rcases hf with hf | hf
    · rw [hf, Logged.Defined, Arith.exact]
      omega
    · rw [hf, Logged.Defined, Arith.exact]
      omega
  rw [hexec]
  exact (h.logged hdefined).output (.inr rfl) _

theorem Ranges.interrupt (hn : n ≤ callLimit) : Ranges n (system.interrupt w) := by
  change Ranges n (isr2Minmax.exec perform w).2
  rw [isr2Minmax, Prog.exec_bind]
  exact h.rearrange.setResult hn

end Interrupt

/-! The task. -/

def AllDefined (w : World) : Prop := ∀ e ∈ w.log, e.Defined

/-- The index is 0 or 10, and the table entry there is mapped to 90. -/
theorem index_defined {x : CInt} (hx : x = 0 ∨ x = 90) :
    (Logged.index (x.srem 20)).Defined ∧ f (initVector.getD (x.srem 20).toNat 0) = 90 := by
  rcases hx with hx | hx
  · rw [hx]
    decide
  · rw [hx]
    decide

theorem Ranges.stable {n : Nat} (hn : n ≤ callLimit) (q : Prop) :
    Stable (system.setting AllDefined) fun w => Ranges n w ∧ q :=
  Interrupts.stable_of_interrupt system fun _ h => ⟨h.1.interrupt hn, h.2⟩

/-- One access of the task, with what is known of the values in its registers. -/
theorem access_triple {m n : Nat} (hm : m ≤ callLimit) (hn : n ≤ callLimit) {q : Prop} {op : Op}
    {r : op.Res → Prop}
    (h : ∀ w, Ranges m w → q → Ranges n (perform op w).2 ∧ r (perform op w).1) :
    Triple (system.setting AllDefined) (fun w => Ranges m w ∧ q) (Prog.perform op)
      fun v w => Ranges n w ∧ r v :=
  Triple.perform (Ranges.stable hm q) (fun _ hw => hw.1.log) (fun v => Ranges.stable hn (r v))
    fun w hw => h w hw.1 hw.2

theorem task_triple {n : Nat} (hn : n < callLimit) :
    Triple (system.setting AllDefined) (Ranges n) task100msNexus fun _ => Ranges (n + 1) := by
  have hn' : n ≤ callLimit := Nat.le_of_lt hn
  have hlimit : n < 2147473647 := hn
  have one : (1 : CInt).toInt = 1 := rfl
  have readZ : Triple (system.setting AllDefined) (fun w => Ranges n w ∧ True) (read .z)
      fun z w => Ranges n w ∧ 0 ≤ z.toInt ∧ z.toInt ≤ 8010 + n :=
    access_triple hn' hn' fun w h _ => ⟨h, h.z_nonneg, h.z_le⟩
  have writeSignal (z : CInt) : Triple (system.setting AllDefined)
      (fun w => Ranges n w ∧ 0 ≤ z.toInt ∧ z.toInt ≤ 8010 + n)
      (write .signal (if z.srem 3 = 0 then 1 else 0)) fun _ w => Ranges n w ∧ True :=
    access_triple hn' hn' fun w h _ => ⟨h.output (.inl rfl) _, trivial⟩
  have readX : Triple (system.setting AllDefined) (fun w => Ranges n w ∧ True) (read .x)
      fun x w => Ranges n w ∧ (x = 0 ∨ x = 90) :=
    access_triple hn' hn' fun w h _ => ⟨h, h.x⟩
  have lookup (x : CInt) : Triple (system.setting AllDefined)
      (fun w => Ranges n w ∧ (x = 0 ∨ x = 90)) (index (x.srem 20))
      fun v w => Ranges n w ∧ f v = 90 :=
    access_triple hn' hn' fun w h hx => ⟨h.logged (index_defined hx).1, (index_defined hx).2⟩
  have writeY (v : CInt) : Triple (system.setting AllDefined) (fun w => Ranges n w ∧ f v = 90)
      (write .y (f v)) fun _ w => Ranges n w ∧ True :=
    access_triple hn' hn' fun w h hv =>
      ⟨⟨h.x, .inr hv, h.z_nonneg, h.z_le, h.log⟩, trivial⟩
  have increment (z : CInt) : Triple (system.setting AllDefined)
      (fun w => Ranges n w ∧ 0 ≤ z.toInt ∧ z.toInt ≤ 8010 + n) (signed .add z 1)
      fun v w => Ranges n w ∧ 0 ≤ v.toInt ∧ v.toInt ≤ 8010 + (n + 1 : Nat) := by
    apply access_triple hn' hn'
    intro w h hz
    have hadd : (Logged.signed .add z 1).Defined := by
      rw [Logged.Defined, Arith.exact, one]
      omega
    have hvalue := toInt_eval hadd
    rw [Arith.exact, one] at hvalue
    refine ⟨h.logged hadd, ?_⟩
    change 0 ≤ (Arith.eval .add z 1).toInt ∧ (Arith.eval .add z 1).toInt ≤ _
    omega
  have writeZ (v : CInt) : Triple (system.setting AllDefined)
      (fun w => Ranges n w ∧ 0 ≤ v.toInt ∧ v.toInt ≤ 8010 + (n + 1 : Nat)) (write .z v)
      fun _ w => Ranges (n + 1) w ∧ True :=
    access_triple hn' hn fun w h hv => ⟨⟨h.x, h.y, hv.1, hv.2, h.log⟩, trivial⟩
  have whole : Triple (system.setting AllDefined) (fun w => Ranges n w ∧ True) task100msNexus
      fun _ w => Ranges (n + 1) w ∧ True :=
    readZ.bind fun z => (writeSignal z).bind fun _ => readX.bind fun x => (lookup x).bind fun v =>
      (writeY v).bind fun _ => readZ.bind fun z => (increment z).bind fun v => writeZ v
  simpa only [and_true] using whole

/-- However the interrupt strikes, no index leaves the table and no signed operation
overflows in fewer than 2^31 - 10000 calls of the task. -/
theorem shared_arithmetic_defined {signal result : CInt} {acts : List Interrupts.Act}
    {evs : List Unit} {m : Interrupts.Machine Op Op.Res World}
    (hcalls : acts.count .call < 2 ^ 31 - 10000)
    (h : Transition.run system.step ⟨.init signal result, .ret ()⟩ acts = some (evs, m)) :
    ∀ e ∈ m.state.log, e.Defined := by
  have hlimit : acts.count .call ≤ callLimit := Nat.le_of_lt_succ hcalls
  exact system.run_holds (I := Ranges) (fun _ _ _ hw => hw.log)
    (fun _ hn _ hw => hw.interrupt hn) (fun _ hn => task_triple hn)
    (Ranges.init signal result) hlimit h

/-- The interrupt strikes while the task holds the old `z`. -/
theorem shared_arithmetic_defined_torn :
    ∃ evs m, Transition.run system.step ⟨.init 0 0, .ret ()⟩
        ([.call] ++ List.replicate 6 .access ++ [.interrupt, .interrupt] ++
          List.replicate 2 .access) = some (evs, m) ∧
      m.state.vars .z = 1 ∧ m.state.vars .x = 90 ∧ ∀ e ∈ m.state.log, e.Defined := by
  have ⟨evs, m, h, hcheck⟩ := Transition.exists_run_of_check system.step ⟨.init 0 0, .ret ()⟩
    ([.call] ++ List.replicate 6 .access ++ [.interrupt, .interrupt] ++ List.replicate 2 .access)
    (fun _ m => m.state.vars .z == 1 && m.state.vars .x == 90) (by decide +kernel)
  have ⟨hz, hx⟩ := Bool.and_eq_true_iff.mp hcheck
  exact ⟨evs, m, h, eq_of_beq hz, eq_of_beq hx, shared_arithmetic_defined (by decide) h⟩

end TraceFS.Scenarios
