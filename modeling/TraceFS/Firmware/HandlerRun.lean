import TraceFS.Firmware.HandlerNesting

/-!
Ticks and edges over whole runs of the firmware with its devices.

Only the innermost activation can be inside the masked part of `handle_trap`, so
one `Safe` statement for it and the settled counts for everything else form an
invariant of every step, nested traps included.
-/
namespace TraceFS.Handler

open Access Hal

/-! Task code runs only in settled states: whole traps are its environment. -/

def betweenTraps : Setting Op Op.Res Device where
  perform := perform
  env d e := e = d ∨ Settled 0 e
  atAccess := Settled 0
  refl _ := .inl rfl
  trans d e f hde hef := by
    cases hef with
    | inl hfe => exact hfe ▸ hde
    | inr hf => exact .inr hf

theorem stable_betweenTraps : Stable betweenTraps (Settled 0) := by
  intro d e hd move
  cases move with
  | inl he => exact he ▸ hd
  | inr he => exact he

/-- What `timer_disable_timer` writes stops the timer, whenever it was read. -/
theorem Settled.disable {d : Device} {w : Word} (h : Settled 0 d) (henit0 : w.getLsbD enit0 = false)
    (hent0 : w.getLsbD ent0 = false) : Settled 0 (writeReg d w .tcsr0) := by
  have ⟨hent0', henit0', hlatched, _⟩ := writeReg_tcsr0_stops (d := d) hent0 henit0
  refine ⟨?_, ?_, ?_, ?_⟩
  · simp [hent0']
  · simp [Device.line, henit0']
  · simp [hent0']
  · rw [hlatched]
    exact h.count

theorem timerDisableTimer_triple :
    Triple betweenTraps (Settled 0) (timerDisableTimer .timer0) fun _ => Settled 0 := by
  apply Triple.bind (R := fun _ => Settled 0)
  · exact Triple.perform stable_betweenTraps (fun _ h => h) (fun _ => stable_betweenTraps)
      fun _ h => h
  · intro tcsr0
    apply Triple.perform stable_betweenTraps (fun _ h => h) (fun _ => stable_betweenTraps)
    intro d hd
    apply hd.disable
    · exact getLsbD_setField_self (by decide)
    · rw [getLsbD_setField_of_ne (by decide)]
      exact getLsbD_setField_self (by decide)

/-! The invariant. -/

/-- The innermost activation, and the devices when there is none. -/
def FrameOk (d : Device) : Frame → Prop
  | .prologue _ _ => Masked (Settled 0) d
  | .body p => Safe masked (fun _ => Settled 0) p d
  | .epilogue _ => Settled 0 d

def FramesOk (d : Device) : List Frame → Prop
  | [] => Settled 0 d
  | f :: fs => FrameOk d f ∧ ∀ g ∈ fs, Returned g

structure Inv (s : System) : Prop where
  task : Triple betweenTraps (Settled 0) s.task fun _ => Settled 0
  frames : FramesOk s.device s.frames

theorem kept_settled : Kept (fun d => d.ticks ≤ d.edges) (Settled 0) := by
  apply Kept.of_timer (stable_settled 0)
  · intro d h
    rw [h.count]
    omega
  · exact fun op d quiet h => h.congr (quiet.sameTimer h.raised)
  · exact fun _ _ _ h => h.congr ⟨rfl, rfl, rfl, rfl, rfl, rfl⟩
  · exact pollTimer_triple

theorem framesOk_iff {d : Device} {fs : List Frame} :
    FramesOk d fs ↔ Nested (fun d => d.ticks ≤ d.edges) (Settled 0) d fs := by
  cases fs with
  | nil => exact Iff.rfl
  | cons f fs => cases f <;> exact Iff.rfl

theorem FramesOk.ticks_le {d : Device} {fs : List Frame} (h : FramesOk d fs) :
    d.ticks ≤ d.edges := by
  have settled (hd : Settled 0 d) : d.ticks ≤ d.edges := by
    rw [hd.count]
    omega
  cases fs with
  | nil => exact settled h
  | cons f fs =>
      cases f with
      | prologue mcause mepc => exact settled h.1.2
      | body p =>
          cases p with
          | ret mepc => exact settled h.1.result
          | access op k => exact h.1.atAccess.2
      | epilogue mepc => exact settled h.1

theorem Inv.taskAccess {d : Device} {op : Op} {k : op.Res → Code Unit}
    (h : Inv { device := d, frames := [], task := .access op k }) :
    Inv { device := (perform op d).2, frames := [], task := k (perform op d).1 } := by
  have hnext : Safe betweenTraps (fun _ => Settled 0) (k (perform op d).1) (perform op d).2 :=
    (h.task d h.frames).next
  exact ⟨fun e he => hnext.env (.inr he), hnext.holds fun _ _ he => he⟩

theorem Inv.step {s t : System} {a : Act} {evs : List Unit} (h : Inv s)
    (hstep : Handler.step s a = some (evs, t)) : Inv t := by
  cases hbyTask : a.byTask with
  | false =>
      have hrule := step_rule hbyTask hstep
      have hframes := (framesOk_iff.mp h.frames).step kept_settled hrule
      exact ⟨hrule.task ▸ h.task, framesOk_iff.mpr hframes⟩
  | true =>
      have ⟨d, fs, task⟩ := s
      cases a with
      | callDisable =>
          simp only [Handler.step] at hstep
          split at hstep
          · cases hstep
            exact ⟨timerDisableTimer_triple, h.frames⟩
          · cases hstep
      | taskAccess =>
          simp only [Handler.step] at hstep
          split at hstep
          · cases task with
            | ret _ => cases hstep
            | access op k =>
                cases hstep
                exact h.taskAccess
          · cases hstep
      | _ => cases hbyTask

theorem Started.inv {s : System} (h : Started s) : Inv s := by
  refine ⟨?_, ?_⟩
  · rw [h.noCall]
    exact Triple.pure stable_betweenTraps fun _ hd => hd
  · rw [h.noTrap]
    refine ⟨fun _ => h.enabled, ?_, ?_, ?_⟩
    · simp [Device.line, h.notExpired]
    · simp [h.notLatched]
    · simp [h.noEdge, h.noTick, h.notLatched]

theorem writeReg_tcsr0_of_not_t0int {d : Device} {w : Word}
    (h : d.t0int = false ∨ w.getLsbD t0int = true) :
    (writeReg d w .tcsr0).t0int = false ∧ (writeReg d w .tcsr0).latched = d.latched := by
  have ht0int : (writeReg d w .tcsr0).t0int = false := by
    change (writeTcsr d.tcsr0 w).getLsbD t0int = false
    rw [getLsbD_writeTcsr_t0int]
    cases h with
    | inl h => rw [show d.tcsr0.getLsbD t0int = false from h, Bool.false_and]
    | inr h => rw [h, Bool.not_true, Bool.and_false]
  refine ⟨ht0int, ?_⟩
  have hline : (writeReg d w .tcsr0).line = false := by rw [Device.line, ht0int, Bool.false_and]
  rw [writeReg, latch_latched]
  exact (congrArg (d.latched || ·) hline).trans (Bool.or_false _)

/-- `timer_configure_periodic_timer` starts the timer without an expiry to report. -/
theorem configure_running (d : Device) (periodInUs : Word) :
    let e := ((timerConfigurePeriodicTimer .timer0 periodInUs).exec perform d).2
    e.ent0 = true ∧ e.enit0 = true ∧ e.t0int = false ∧ e.latched = d.latched ∧
      e.edges = d.edges ∧ e.ticks = d.ticks := by
  intro e
  let reset := writeReg d 0x100 .tcsr0
  have hreset : reset.t0int = false ∧ reset.latched = d.latched :=
    writeReg_tcsr0_of_not_t0int (.inr rfl)
  let period := writeReg reset (0xffffffff - periodInUs * (axiTimerClock / 1000000)) .tlr0
  have hperiod (r : Device) (v : Word) :
      (writeReg r v .tlr0).t0int = r.t0int ∧ (writeReg r v .tlr0).latched = r.latched :=
    ⟨rfl, rfl⟩
  let loaded := writeReg period 0x20 .tcsr0
  have hload : loaded.t0int = false ∧ loaded.latched = d.latched := by
    have := writeReg_tcsr0_of_not_t0int (d := period) (w := 0x20)
      (.inl ((hperiod reset _).1.trans hreset.1))
    exact ⟨this.1, this.2.trans ((hperiod reset _).2.trans hreset.2)⟩
  have he : e = writeReg loaded (periodicFields loaded.tcsr0) .tcsr0 := by
    simp only [e, timerConfigurePeriodicTimer, Hal.read, Hal.write, Prog.exec_bind,
      Prog.exec_perform, perform]
    rfl
  have hstart := writeReg_tcsr0_of_not_t0int (w := periodicFields loaded.tcsr0) (.inl hload.1)
  have hkept {i : Nat} (hi : t0int ≠ i) :
      (writeReg loaded (periodicFields loaded.tcsr0) .tcsr0).tcsr0.getLsbD i =
        (periodicFields loaded.tcsr0).getLsbD i :=
    getLsbD_writeTcsr_of_ne hi
  rw [he]
  refine ⟨?_, ?_, hstart.1, hstart.2.trans hload.2, rfl, rfl⟩
  · rw [Device.ent0, hkept (by decide), periodicFields]
    repeat rw [getLsbD_setField_of_ne (by decide)]
    exact getLsbD_setField_self (by decide)
  · rw [Device.enit0, hkept (by decide), periodicFields]
    repeat rw [getLsbD_setField_of_ne (by decide)]
    exact getLsbD_setField_self (by decide)

def Frame.inHandler : Frame → Bool
  | .body _ => true
  | _ => false

theorem Inv.counts {t : System} (h : Inv t) : t.device.ticks ≤ t.device.edges ∧
    ((∀ f ∈ t.frames, f.inHandler = false) →
      t.device.edges = t.device.ticks + if t.device.latched then 1 else 0) := by
  refine ⟨h.frames.ticks_le, ?_⟩
  intro outside
  have settled : Settled 0 t.device := by
    have hframes := h.frames
    cases hf : t.frames with
    | nil => rw [hf] at hframes; exact hframes
    | cons f fs =>
        rw [hf] at hframes
        have hout := outside f (hf ▸ List.mem_cons_self)
        cases f with
        | prologue mcause mepc => exact hframes.1.2
        | body p => cases hout
        | epilogue mepc => exact hframes.1
  rw [settled.count]
  cases t.device.latched <;> rfl

theorem Started.run {s t : System} {acts : List Act} {evs : List Unit} (start : Started s)
    (h : Transition.run step s acts = some (evs, t)) : Inv t :=
  Transition.run_invariant (fun _ s => Inv s) start.inv (fun _ _ _ _ _ hs hstep => hs.step hstep) h

/-- In every run the calls of `scheduler_next` stay within the rising edges of
T0INT, and outside `handle_trap` only the latched edge is missing. -/
theorem ticks_follow_edges {s t : System} {acts : List Act} {evs : List Unit} (start : Started s)
    (h : Transition.run step s acts = some (evs, t)) :
    t.device.ticks ≤ t.device.edges ∧
      ((∀ f ∈ t.frames, f.inHandler = false) →
        t.device.edges = t.device.ticks + if t.device.latched then 1 else 0) :=
  (start.run h).counts

/-- The timer as `timer_configure_periodic_timer` starts it, all interrupts enabled. -/
def startedSystem : System where
  device :=
    { tcsr0 := 0xf0, tlr0 := 0, tcsr1 := 0, isr := 0, ier := 0xf, ipisr := 0
      gpioData := fun _ => 0, heartbeatCounter := 0, mie := true, mpie := true
      edges := 0, ticks := 0 }
  frames := []
  task := .ret ()

theorem startedSystem_started : Started startedSystem :=
  ⟨rfl, rfl, rfl, rfl, rfl, rfl, rfl, rfl⟩

/-- The second expiry falls between the two acknowledgements. -/
def expiryBeforeRelease : List Act :=
  [.expire, .trap 0x8000000b 0x100, .callHandler] ++ List.replicate 4 .access ++
    [.expire] ++ List.replicate 18 .access ++ [.returnHandler, .mret]

theorem ticks_follow_edges_expiryBeforeRelease :
    ∃ evs t, Transition.run step startedSystem expiryBeforeRelease = some (evs, t) ∧
      t.device.edges = 2 ∧ t.device.ticks = 1 ∧
      (t.device.ticks ≤ t.device.edges ∧
        ((∀ f ∈ t.frames, f.inHandler = false) →
          t.device.edges = t.device.ticks + if t.device.latched then 1 else 0)) := by
  obtain ⟨evs, t, h, hcheck⟩ := Transition.exists_run_of_check step startedSystem
    expiryBeforeRelease (fun _ t => t.device.edges == 2 && t.device.ticks == 1) (by decide +kernel)
  obtain ⟨hedges, hticks⟩ := Bool.and_eq_true_iff.mp hcheck
  exact ⟨evs, t, h, eq_of_beq hedges, eq_of_beq hticks,
    ticks_follow_edges startedSystem_started h⟩

end TraceFS.Handler
