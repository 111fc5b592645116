import Mathlib.Logic.Relation
import TraceFS.Firmware.Handler

/-!
Every timer expiry becomes one scheduler tick.

Between traps the rising edges of T0INT equal the calls of `scheduler_next` plus
the edge kept in the controller's latch. Inside `handle_trap` an edge lives in
T0INT, in the latch or in the pending call; each access moves it on.
-/
namespace TraceFS.Handler

open Access Hal

/-! Bits of a register after an update. -/

theorem getLsbD_setField_self {w : Word} {i : Nat} {b : Bool} (hi : i < 32) :
    (setField w i b).getLsbD i = b := by
  cases b <;> simp [setField, hi]

theorem getLsbD_setField_of_ne {w : Word} {i j : Nat} {b : Bool} (h : i ≠ j) :
    (setField w i b).getLsbD j = w.getLsbD j := by
  cases b with
  | true => simp [setField, BitVec.getLsbD_twoPow, h]
  | false =>
      simp only [setField, Bool.false_eq_true, if_false, BitVec.getLsbD_and, BitVec.getLsbD_not,
        BitVec.getLsbD_twoPow, h, decide_false, Bool.and_false, Bool.not_false, Bool.and_true]
      by_cases hj : j < 32
      · simp [hj]
      · simp [hj, BitVec.getLsbD_of_ge w j (Nat.le_of_not_lt hj)]

theorem getLsbD_writeTcsr_t0int {old v : Word} :
    (writeTcsr old v).getLsbD t0int = (old.getLsbD t0int && !v.getLsbD t0int) :=
  getLsbD_setField_self (by decide)

theorem getLsbD_writeTcsr_of_ne {old v : Word} {j : Nat} (h : t0int ≠ j) :
    (writeTcsr old v).getLsbD j = v.getLsbD j :=
  getLsbD_setField_of_ne h

section Latch
variable (d : Device)

@[simp] theorem latch_t0int : d.latch.t0int = d.t0int := rfl
@[simp] theorem latch_enit0 : d.latch.enit0 = d.enit0 := rfl
@[simp] theorem latch_ent0 : d.latch.ent0 = d.ent0 := rfl
@[simp] theorem latch_mie : d.latch.mie = d.mie := rfl
@[simp] theorem latch_edges : d.latch.edges = d.edges := rfl
@[simp] theorem latch_ticks : d.latch.ticks = d.ticks := rfl

@[simp] theorem latch_latched : d.latch.latched = (d.latched || d.line) := by
  simp only [Device.latch, Device.latched]
  cases d.line with
  | false => simp
  | true => rw [if_pos rfl, getLsbD_setField_self (by decide), Bool.or_true]

end Latch

/-- Writing TCSR0 with ENT0 and ENIT0 clear stops the timer and raises nothing. -/
theorem writeReg_tcsr0_stops {d : Device} {w : Word} (hent0 : w.getLsbD ent0 = false)
    (henit0 : w.getLsbD enit0 = false) :
    let e := writeReg d w .tcsr0
    e.ent0 = false ∧ e.enit0 = false ∧ e.latched = d.latched ∧ e.ticks = d.ticks := by
  intro e
  have hent0' : e.ent0 = false := (getLsbD_writeTcsr_of_ne (by decide)).trans hent0
  have henit0' : e.enit0 = false := (getLsbD_writeTcsr_of_ne (by decide)).trans henit0
  have hline : e.line = false := by rw [Device.line, henit0', Bool.and_false]
  refine ⟨hent0', henit0', ?_, rfl⟩
  change Device.latched (Device.latch _) = _
  rw [latch_latched]
  exact (congrArg (d.latched || ·) hline).trans (Bool.or_false _)

structure SameTimer (d e : Device) : Prop where
  t0int : e.t0int = d.t0int
  enit0 : e.enit0 = d.enit0
  ent0 : e.ent0 = d.ent0
  latched : e.latched = d.latched
  edges : e.edges = d.edges
  ticks : e.ticks = d.ticks

def Quiet : Op → Prop
  | .read _ => True
  | .write .tcsr0 _ => False
  | .write .iar v => v.getLsbD 0 = false
  | .write _ _ => True
  | .readGpioByte _ => True
  | .writeGpioByte _ _ => True
  | .csrClearBits _ _ => False
  | .csrSetBits _ _ => False
  | .call .schedulerNext => False
  | .call .isr2Minmax => True

theorem Quiet.sameTimer {op : Op} {d : Device} (quiet : Quiet op)
    (raised : d.line = true → d.latched = true) : SameTimer d (perform op d).2 := by
  cases op with
  | write r v =>
      cases r with
      | tcsr0 => exact False.elim quiet
      | iar =>
          have hlatched : ({ d with isr := d.isr &&& ~~~v } : Device).latched = d.latched := by
            have hv : v.getLsbD 0 = false := quiet
            simp only [Device.latched, BitVec.getLsbD_and, BitVec.getLsbD_not, hv]
            simp
          refine ⟨rfl, rfl, rfl, ?_, rfl, rfl⟩
          change Device.latched (Device.latch _) = _
          rw [latch_latched, hlatched]
          change (d.latched || d.line) = d.latched
          cases hl : d.line with
          | false => simp
          | true => simp [raised hl]
      | _ => exact ⟨rfl, rfl, rfl, rfl, rfl, rfl⟩
  | csrClearBits csr mask => exact False.elim quiet
  | csrSetBits csr mask => exact False.elim quiet
  | call f =>
      cases f with
      | schedulerNext => exact False.elim quiet
      | isr2Minmax => exact ⟨rfl, rfl, rfl, rfl, rfl, rfl⟩
  | _ => exact ⟨rfl, rfl, rfl, rfl, rfl, rfl⟩

theorem writeReg_mie (d : Device) (v : Word) (r : Reg) : (writeReg d v r).mie = d.mie := by
  cases r <;> rfl

theorem Quiet.mie {op : Op} {d : Device} (quiet : Quiet op) : (perform op d).2.mie = d.mie := by
  cases op with
  | write r v => exact writeReg_mie d v r
  | csrClearBits csr mask => exact False.elim quiet
  | csrSetBits csr mask => exact False.elim quiet
  | call f => cases f <;> rfl
  | _ => rfl

/-! The assertions. -/

/-- Edges and latch agree, with `owed` calls of `scheduler_next` still to come. -/
structure Settled (owed : Nat) (d : Device) : Prop where
  connected : d.ent0 = true → d.enit0 = true
  raised : d.line = true → d.latched = true
  expired : d.ent0 = true → d.latched = true → d.t0int = true
  count : d.edges = d.ticks + owed + d.latched.toNat

/-- T0INT has been acknowledged, the controller not yet: a new edge shows in T0INT. -/
structure Acknowledged (d : Device) : Prop where
  connected : d.ent0 = true → d.enit0 = true
  line : d.t0int = true → d.enit0 = true
  latched : d.latched = true
  count : d.edges = d.ticks + 1 + d.t0int.toNat

theorem Settled.congr {owed : Nat} {d e : Device} (h : Settled owed d) (same : SameTimer d e) :
    Settled owed e where
  connected := by rw [same.ent0, same.enit0]; exact h.connected
  raised := by
    simp only [Device.line]
    rw [same.t0int, same.enit0, same.latched]
    exact h.raised
  expired := by rw [same.ent0, same.latched, same.t0int]; exact h.expired
  count := by rw [same.edges, same.ticks, same.latched]; exact h.count

theorem Acknowledged.congr {d e : Device} (h : Acknowledged d) (same : SameTimer d e) :
    Acknowledged e where
  connected := by rw [same.ent0, same.enit0]; exact h.connected
  line := by rw [same.t0int, same.enit0]; exact h.line
  latched := by rw [same.latched]; exact h.latched
  count := by rw [same.edges, same.ticks, same.t0int]; exact h.count

/-! The environment. -/

section Expire
variable (d : Device)

@[simp] theorem expire_t0int : (expire d).t0int = true :=
  getLsbD_setField_self (by decide)

@[simp] theorem expire_enit0 : (expire d).enit0 = d.enit0 :=
  getLsbD_setField_of_ne (by decide)

@[simp] theorem expire_ent0 : (expire d).ent0 = d.ent0 :=
  getLsbD_setField_of_ne (by decide)

@[simp] theorem expire_latched : (expire d).latched = (d.latched || d.enit0) := by
  have hline : (expire d).line = d.enit0 := by
    rw [Device.line, expire_t0int, expire_enit0, Bool.true_and]
  rw [expire, latch_latched]
  exact congrArg (d.latched || ·) hline

@[simp] theorem expire_mie : (expire d).mie = d.mie := rfl
@[simp] theorem expire_ticks : (expire d).ticks = d.ticks := rfl

@[simp] theorem expire_edges :
    (expire d).edges = if d.t0int then d.edges else d.edges + 1 := rfl

end Expire

theorem otherDevices_sameTimer (d : Device) (isr ier ipisr : Word) :
    SameTimer d (otherDevices d isr ier ipisr) :=
  ⟨rfl, rfl, rfl, getLsbD_setField_self (by decide), rfl, rfl⟩

theorem Settled.expire {owed : Nat} {d : Device} (h : Settled owed d) (running : d.ent0 = true) :
    Settled owed (expire d) := by
  have enabled := h.connected running
  have count := h.count
  refine ⟨?_, ?_, ?_, ?_⟩
  · simpa using h.connected
  · simp [enabled]
  · simp
  · -- a new edge finds the latch empty: a latched one would still show in T0INT
    cases ht : d.t0int with
    | true =>
        have hl := h.raised (by simp [Device.line, ht, enabled])
        simp [ht, hl, enabled] at count ⊢
        exact count
    | false =>
        have hl : d.latched = false := by
          cases hl : d.latched with
          | false => rfl
          | true => simp [h.expired running hl] at ht
        simp [ht, hl, enabled] at count ⊢
        exact count

theorem Acknowledged.expire {d : Device} (h : Acknowledged d) (running : d.ent0 = true) :
    Acknowledged (expire d) := by
  have enabled := h.connected running
  have count := h.count
  refine ⟨?_, ?_, ?_, ?_⟩
  · simpa using h.connected
  · simp [enabled]
  · simp [enabled]
  · cases ht : d.t0int with
    | true => simpa [ht] using count
    | false => simpa [ht] using count

/-! `handle_trap` among the environment's moves. -/

inductive Moves : Device → Device → Prop
  | refl (d : Device) : Moves d d
  | expire {d e : Device} (h : Moves d e) (running : e.ent0 = true) : Moves d (expire e)
  | otherDevices {d e : Device} (h : Moves d e) (isr ier ipisr : Word) :
      Moves d (otherDevices e isr ier ipisr)

theorem Moves.trans {d e f : Device} (h : Moves d e) (h' : Moves e f) : Moves d f := by
  induction h' with
  | refl => exact h
  | expire _ running ih => exact ih.expire running
  | otherDevices _ isr ier ipisr ih => exact ih.otherDevices isr ier ipisr

theorem Moves.mie {d e : Device} (h : Moves d e) : e.mie = d.mie := by
  induction h with
  | refl => rfl
  | expire _ _ ih => exact ih
  | otherDevices _ _ _ _ ih => exact ih

/-- `handle_trap` runs masked and never gets ahead of the timer. -/
def masked : Setting Op Op.Res Device where
  perform := perform
  env := Moves
  atAccess d := d.mie = false ∧ d.ticks ≤ d.edges
  refl := .refl
  trans _ _ _ := .trans

/-- Masked execution, with `A` to hold at every access. -/
def maskedBy (A : Device → Prop) : Setting Op Op.Res Device where
  perform := perform
  env := Moves
  atAccess d := d.mie = false ∧ A d
  refl := .refl
  trans _ _ _ := .trans

theorem stable_of {P : Device → Prop} (expire : ∀ d, P d → d.ent0 = true → P (expire d))
    (other : ∀ d e, P d → SameTimer d e → P e) : Stable masked P := by
  intro d e hd move
  change Moves d e at move
  induction move with
  | refl => exact hd
  | expire _ running ih => exact expire _ ih running
  | otherDevices _ isr ier ipisr ih => exact other _ _ ih (otherDevices_sameTimer _ isr ier ipisr)

def Masked (P : Device → Prop) (d : Device) : Prop := d.mie = false ∧ P d

theorem stable_settled (owed : Nat) : Stable masked (Settled owed) :=
  stable_of (fun _ h running => h.expire running) (fun _ _ h same => h.congr same)

theorem stable_acknowledged : Stable masked Acknowledged :=
  stable_of (fun _ h running => h.expire running) (fun _ _ h same => h.congr same)

theorem Masked.stableBy {A P : Device → Prop} (h : Stable (maskedBy A) P) :
    Stable (maskedBy A) (Masked P) :=
  fun d e hd move => ⟨(Moves.mie move).trans hd.1, h d e hd.2 move⟩

theorem Masked.stable {P : Device → Prop} (h : Stable masked P) : Stable masked (Masked P) :=
  Masked.stableBy (A := fun d => d.ticks ≤ d.edges) h

theorem Masked.settled_atAccess {owed : Nat} {d : Device} (h : Masked (Settled owed) d) :
    masked.atAccess d :=
  ⟨h.1, by rw [h.2.count]; omega⟩

theorem Masked.acknowledged_atAccess {d : Device} (h : Masked Acknowledged d) :
    masked.atAccess d :=
  ⟨h.1, by rw [h.2.count]; omega⟩

theorem quiet_triple {α : Type} {A P : Device → Prop} (stable : Stable (maskedBy A) P)
    (guard : ∀ d, P d → A d) (keep : ∀ op d, Quiet op → P d → P (perform op d).2)
    {p : Code α} (h : p.Uses Quiet) :
    Triple (maskedBy A) (Masked P) p fun _ => Masked P :=
  Triple.of_uses (Masked.stableBy stable) (fun d hd => ⟨hd.1, guard d hd.2⟩)
    (fun op d quiet hd => ⟨quiet.mie.trans hd.1, keep op d quiet hd.2⟩) h

theorem quiet_settled {α : Type} {p : Code α} (owed : Nat) (h : p.Uses Quiet) :
    Triple masked (Masked (Settled owed)) p fun _ => Masked (Settled owed) :=
  quiet_triple (A := fun d => d.ticks ≤ d.edges) (stable_settled owed)
    (fun _ hd => by rw [hd.count]; omega) (fun _ _ quiet hd => hd.congr (quiet.sameTimer hd.raised)) h

theorem quiet_acknowledged {α : Type} {p : Code α} (h : p.Uses Quiet) :
    Triple masked (Masked Acknowledged) p fun _ => Masked Acknowledged :=
  quiet_triple (A := fun d => d.ticks ≤ d.edges) stable_acknowledged
    (fun _ hd => by rw [hd.count]; omega)
    (fun _ _ quiet hd => hd.congr (quiet.sameTimer fun _ => hd.latched)) h

/-! The pieces of `handle_trap`. -/

theorem updateGpioByte_quiet (i : Fin 4) (mask status : Byte) :
    (updateGpioByte i mask status).Uses Quiet := by
  unfold updateGpioByte
  split
  · exact Prog.uses_pure _
  · exact Prog.uses_bind (Prog.uses_perform trivial) fun _ => Prog.uses_perform trivial

theorem ledToggle_quiet (led : Led) (status : Byte) : (ledToggle led status).Uses Quiet :=
  Prog.uses_bind (updateGpioByte_quiet 3 led.mask0 status) fun _ =>
    updateGpioByte_quiet 0 led.mask1 status

theorem heartbeatBeat_quiet : heartbeatBeat.Uses Quiet :=
  Prog.uses_bind (Prog.uses_perform trivial) fun _ => Prog.uses_perform trivial

theorem irqIsPendingInterrupt_quiet (irq : Irq) : (irqIsPendingInterrupt irq).Uses Quiet :=
  Prog.uses_bind (Prog.uses_perform trivial) fun _ => Prog.uses_pure _

theorem gpioAcknowledgeInterrupt_quiet : gpioAcknowledgeInterrupt.Uses Quiet := by
  apply Prog.uses_bind (Prog.uses_perform trivial)
  intro ipisr
  split
  · exact Prog.uses_perform trivial
  · exact Prog.uses_pure _

theorem timerAcknowledgeTimer1_quiet : (timerAcknowledgeTimer .timer1).Uses Quiet :=
  Prog.uses_bind (Prog.uses_perform trivial) fun _ => Prog.uses_perform trivial

theorem pollInterrupt_quiet {irq : Irq} (led : Led) {acknowledge handle : Code Unit}
    (hirq : irq ≠ .irq0) (hacknowledge : acknowledge.Uses Quiet) (hhandle : handle.Uses Quiet) :
    (pollInterrupt irq led acknowledge handle).Uses Quiet := by
  have hmask : irq.mask.getLsbD 0 = false := by
    cases irq with
    | irq0 => exact absurd rfl hirq
    | irq1 | irq2 | irq3 => rfl
  apply Prog.uses_bind (irqIsPendingInterrupt_quiet irq)
  intro pending
  cases pending with
  | false => exact ledToggle_quiet led ledOff
  | true =>
      apply Prog.uses_bind hacknowledge
      intro _
      have hiar : (irqAcknowledgeInterrupt irq).Uses Quiet :=
        Prog.uses_perform (show Quiet (.write .iar irq.mask) from hmask)
      apply Prog.uses_bind hiar
      intro _
      exact Prog.uses_bind (ledToggle_quiet led ledOn) fun _ => hhandle

/-- The latched edge, with the timer still to be acknowledged. -/
def Claimed (d : Device) : Prop := Settled 0 d ∧ d.latched = true

theorem stable_claimed : Stable masked Claimed :=
  stable_of
    (fun d h running => ⟨h.1.expire running, by simp [h.2]⟩)
    (fun _ _ h same => ⟨h.1.congr same, same.latched.trans h.2⟩)

theorem getLsbD_of_and_mask0 {w : Word} (h : (w &&& Irq.mask .irq0 != 0) = true) :
    w.getLsbD 0 = true := by
  have hmask : Irq.mask .irq0 = 1 := rfl
  cases hw : w.getLsbD 0 with
  | true => rfl
  | false =>
      rw [hmask, show w &&& 1 = 0 from BitVec.and_one_eq_setWidth_ofBool_getLsbD.trans (by rw [hw]; rfl)] at h
      cases h

/-- What is seen pending is latched, and stays so until it is acknowledged. -/
theorem pending_triple {A P : Device → Prop} (stable : Stable (maskedBy A) P)
    (guard : ∀ d, P d → A d) :
    Triple (maskedBy A) (Masked P) (irqIsPendingInterrupt .irq0) fun pending =>
      if pending then Masked fun d => P d ∧ d.latched = true else Masked P := by
  have hmasked := Masked.stableBy stable
  have hlatched (b : Bool) : Stable (maskedBy A) fun d => b = true → d.latched = true :=
    stable_of (fun d h _ hb => by simp [h hb]) (fun _ _ h same hb => same.latched.trans (h hb))
  apply Triple.bind (R := fun (ipr : Word) d =>
    Masked P d ∧ (ipr.getLsbD 0 = true → d.latched = true))
  · apply Triple.perform hmasked (fun d hd => ⟨hd.1, guard d hd.2⟩)
      (fun ipr => hmasked.and (hlatched _))
    intro d hd
    refine ⟨hd, ?_⟩
    -- the pending register shows a subset of the latched bits
    change (d.isr &&& d.ier).getLsbD 0 = true → d.isr.getLsbD 0 = true
    rw [BitVec.getLsbD_and]
    exact fun h => (Bool.and_eq_true_iff.mp h).1
  · intro ipr
    cases hp : (ipr &&& Irq.mask .irq0 != 0) with
    | false => exact Triple.pure hmasked fun d hd => hd.1
    | true =>
        have hclaimed : Stable (maskedBy A) fun d => P d ∧ d.latched = true :=
          stable.and fun d e h move => hlatched true d e (fun _ => h) move rfl
        exact Triple.pure (Masked.stableBy hclaimed) fun d hd =>
          ⟨hd.1.1, hd.1.2, hd.2 (getLsbD_of_and_mask0 hp)⟩

theorem irqIsPendingInterrupt_triple :
    Triple masked (Masked (Settled 0)) (irqIsPendingInterrupt .irq0) fun pending =>
      if pending then Masked Claimed else Masked (Settled 0) :=
  pending_triple (A := fun d => d.ticks ≤ d.edges) (stable_settled 0)
    fun _ hd => by rw [hd.count]; omega

/-- The written word may be older than the edges seen since it was read. -/
theorem Claimed.acknowledge {d : Device} {w : Word} (h : Claimed d)
    (henit0 : w.getLsbD enit0 = d.enit0) (hent0 : w.getLsbD ent0 = d.ent0) :
    Acknowledged (writeReg d (setField w t0int true) .tcsr0) := by
  obtain ⟨hsettled, hlatched⟩ := h
  have ht0int : (writeReg d (setField w t0int true) .tcsr0).t0int = false := by
    change (writeTcsr d.tcsr0 (setField w t0int true)).getLsbD t0int = false
    rw [getLsbD_writeTcsr_t0int, getLsbD_setField_self (by decide), Bool.not_true, Bool.and_false]
  have hother {i : Nat} (hi : t0int ≠ i) :
      (writeTcsr d.tcsr0 (setField w t0int true)).getLsbD i = w.getLsbD i := by
    rw [getLsbD_writeTcsr_of_ne hi, getLsbD_setField_of_ne hi]
  have henit0' : (writeReg d (setField w t0int true) .tcsr0).enit0 = d.enit0 :=
    (hother (by decide)).trans henit0
  have hent0' : (writeReg d (setField w t0int true) .tcsr0).ent0 = d.ent0 :=
    (hother (by decide)).trans hent0
  refine ⟨?_, ?_, ?_, ?_⟩
  · rw [hent0', henit0']
    exact hsettled.connected
  · rw [ht0int]
    exact fun h => Bool.noConfusion h
  · rw [writeReg, latch_latched]
    exact Bool.or_eq_true_iff.mpr (.inl hlatched)
  · rw [ht0int]
    have hcount := hsettled.count
    rw [hlatched] at hcount
    exact hcount

theorem timerAcknowledgeTimer0_triple :
    Triple masked (Masked Claimed) (timerAcknowledgeTimer .timer0) fun _ =>
      Masked Acknowledged := by
  have hclaimed := Masked.stable stable_claimed
  have hatAccess {d : Device} (hd : Masked Claimed d) : masked.atAccess d :=
    Masked.settled_atAccess ⟨hd.1, hd.2.1⟩
  -- the environment changes no bit of TCSR0 but T0INT
  have hbits (w : Word) : Stable masked fun d =>
      w.getLsbD enit0 = d.enit0 ∧ w.getLsbD ent0 = d.ent0 :=
    stable_of (fun d h _ => by simpa using h)
      (fun d e h same => by rw [same.enit0, same.ent0]; exact h)
  apply Triple.bind (R := fun (tcsr0 : Word) d => Masked Claimed d ∧
    (tcsr0.getLsbD enit0 = d.enit0 ∧ tcsr0.getLsbD ent0 = d.ent0))
  · exact Triple.perform hclaimed (fun _ => hatAccess) (fun w => hclaimed.and (hbits w))
      fun d hd => ⟨hd, rfl, rfl⟩
  · intro tcsr0
    exact Triple.perform (hclaimed.and (hbits tcsr0)) (fun d hd => hatAccess hd.1)
      (fun _ => Masked.stable stable_acknowledged)
      fun _ hd => ⟨hd.1.1, hd.1.2.acknowledge hd.2.1 hd.2.2⟩

/-- A released latch takes over what the line shows. -/
theorem writeReg_iar_latched (d : Device) :
    (writeReg d (Irq.mask .irq0) .iar).latched = d.line := by
  have hcleared : ({ d with isr := d.isr &&& ~~~Irq.mask .irq0 } : Device).latched = false := by
    simp only [Device.latched, BitVec.getLsbD_and, BitVec.getLsbD_not]
    simp [Irq.mask, Irq.toNat]
  rw [writeReg, latch_latched, hcleared, Bool.false_or]
  rfl

/-- Releasing the latch keeps exactly the edge T0INT shows. -/
theorem Acknowledged.release {d : Device} (h : Acknowledged d) :
    Settled 1 (writeReg d (Irq.mask .irq0) .iar) := by
  have hlatched : (writeReg d (Irq.mask .irq0) .iar).latched = d.t0int := by
    rw [writeReg_iar_latched, Device.line]
    cases ht : d.t0int with
    | false => rfl
    | true => exact h.line ht
  refine ⟨h.connected, ?_, ?_, ?_⟩
  · rw [hlatched]
    exact fun hline => (Bool.and_eq_true_iff.mp hline).1
  · rw [hlatched]
    exact fun _ ht => ht
  · rw [hlatched]
    exact h.count

theorem irqAcknowledgeInterrupt_triple :
    Triple masked (Masked Acknowledged) (irqAcknowledgeInterrupt .irq0) fun _ =>
      Masked (Settled 1) :=
  Triple.perform (Masked.stable stable_acknowledged) (fun _ => Masked.acknowledged_atAccess)
    (fun _ => Masked.stable (stable_settled 1)) fun _ hd => ⟨hd.1, hd.2.release⟩

theorem schedulerNext_triple :
    Triple masked (Masked (Settled 1)) (.perform (Op.call .schedulerNext)) fun _ =>
      Masked (Settled 0) := by
  apply Triple.perform (Masked.stable (stable_settled 1)) (fun _ => Masked.settled_atAccess)
    (fun _ => Masked.stable (stable_settled 0))
  intro d hd
  obtain ⟨hmie, hsettled⟩ := hd
  refine ⟨hmie, hsettled.connected, hsettled.raised, hsettled.expired, ?_⟩
  have hcount : d.edges = d.ticks + 1 + d.latched.toNat := hsettled.count
  change d.edges = d.ticks + 1 + 0 + d.latched.toNat
  rw [hcount, Nat.add_zero]

theorem pollTimer_triple :
    Triple masked (Masked (Settled 0))
      (pollInterrupt .irq0 .led0 acknowledgeTimers handleTimerInterrupt) fun _ =>
      Masked (Settled 0) := by
  apply Triple.bind irqIsPendingInterrupt_triple
  intro pending
  cases pending with
  | false => exact quiet_settled 0 (ledToggle_quiet .led0 ledOff)
  | true =>
      have acknowledge : Triple masked (Masked Claimed) acknowledgeTimers fun _ =>
          Masked Acknowledged :=
        timerAcknowledgeTimer0_triple.bind fun _ => quiet_acknowledged timerAcknowledgeTimer1_quiet
      have handle : Triple masked (Masked (Settled 1)) handleTimerInterrupt fun _ =>
          Masked (Settled 0) :=
        (quiet_settled 1 heartbeatBeat_quiet).bind fun _ => schedulerNext_triple
      exact acknowledge.bind fun _ => irqAcknowledgeInterrupt_triple.bind fun _ =>
        (quiet_settled 1 (ledToggle_quiet .led0 ledOn)).bind fun _ => handle

end TraceFS.Handler
