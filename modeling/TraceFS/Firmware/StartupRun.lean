import TraceFS.Firmware.Startup

/-!
What the initialisation establishes, whatever preempts it.

Until interrupts are enabled only the devices move. From then on the trap handler may
still find one stale tick, which it hands on at most once; and when the timer starts,
the scheduler's variables are those of `scheduler_init` up to ticks.
-/
namespace TraceFS.Startup
open Access Hal
open Handler (Frame Nested Silent Stopped Quiet Kept Masked maskedBy)
open Scheduler (Slot)

/-- The registers of the board as `hw_init` leaves them; IER counts among the devices. -/
structure Configured (b : Board) : Prop where
  mer : b.mer = 3
  external : b.mieCsr.getLsbD meieBit = true
  gier : b.gier = 0x80000000
  ipier : b.ipier = 1
  gpioTri : b.gpioTri = 0xf000

/-- Interrupts are only enabled on a configured board. -/
def Guarded (w : World) : Prop := w.device.mie = true → Configured w.board

abbrev setting : Setting Op Op.Res World := system.setting Guarded

/-! The handler's moves. -/

def World.tick (w : World) (a : Handler.Act) : Scheduler.State :=
  if Shutdown.callsNext w.system a then Scheduler.schedulerNext w.sched else w.sched

theorem interfere_rule {w u : World} {a : Handler.Act} (h : interfere w a = some u) :
    ∃ s, Handler.Rule w.system a s ∧
      u = { w with device := s.device, frames := s.frames, sched := w.tick a } := by
  have proceed (ha : a.byTask = false) (h : (Handler.step w.system a).map (fun r =>
      { w with
        device := r.2.device
        frames := r.2.frames
        sched := w.tick a }) = some u) :
      ∃ s, Handler.Rule w.system a s ∧
        u = { w with device := s.device, frames := s.frames, sched := w.tick a } := by
    obtain ⟨r, hr, rfl⟩ := Option.map_eq_some_iff.mp h
    exact ⟨r.2, Handler.step_rule ha hr, rfl⟩
  cases a with
  | callDisable | taskAccess => cases h
  | trap mcause mepc =>
      simp only [interfere, Option.ite_none_right_eq_some] at h
      exact proceed rfl h.2
  | expire | otherDevices isr ier ipisr | callHandler | access | returnHandler | mret =>
      exact proceed rfl h

/-- Without an activation and with interrupts disabled only the devices move. -/
theorem cold_rule {s t : Handler.System} {a : Handler.Act} (h : Handler.Rule s a t)
    (noTrap : s.frames = []) (masked : s.device.mie = false) :
    Handler.Moves s.device t.device ∧ t.frames = [] ∧ Shutdown.callsNext s a = false := by
  cases h with
  | expire running => exact ⟨(Handler.Moves.refl _).expire running, noTrap, rfl⟩
  | otherDevices isr ier ipisr =>
      exact ⟨(Handler.Moves.refl _).otherDevices isr ier ipisr, noTrap, rfl⟩
  | trap mcause mepc hmie => exact absurd (masked.symm.trans hmie) (by decide)
  | callHandler mcause mepc fs hframes | access op k fs hframes | returnHandler mepc fs hframes
  | mret mepc fs hframes => simp [noTrap] at hframes

/-! Before interrupts are enabled. -/

structure Cold (D : Device → Prop) (R : Board → Prop) (w : World) : Prop where
  noTrap : w.frames = []
  masked : w.device.mie = false
  atLoop : w.sched.pc = .loop
  device : D w.device
  board : R w.board

/-- An assertion that survives the moves of the devices. -/
def Settles (D : Device → Prop) : Prop := ∀ d e, D d → Handler.Moves d e → D e

section Cold
variable {D D' : Device → Prop} {R R' : Board → Prop}

theorem Cold.guarded {w : World} (h : Cold D R w) : Guarded w :=
  fun on => absurd (h.masked.symm.trans on) (by decide)

theorem stable_cold (settles : Settles D) : Stable setting (Cold D R) := by
  refine Preemption.stable_of_kept system (fun _ h => h) ?_ fun _ h _ => h
  intro w a u h hstep
  obtain ⟨s, rule, rfl⟩ := interfere_rule hstep
  obtain ⟨moves, noTrap, silent⟩ := cold_rule rule h.noTrap h.masked
  refine ⟨noTrap, (Handler.Moves.mie moves).trans h.masked, ?_, settles _ _ h.device moves, h.board⟩
  rw [World.tick, silent]
  exact h.atLoop

theorem cold_store (settles : Settles D) (op : Op)
    (keep : ∀ w, Cold D R w → Cold D R' (perform op w).2) :
    Triple setting (Cold D R) (store op) fun _ => Cold D R' :=
  Triple.perform (stable_cold settles) (fun _ h => h.guarded) (fun _ => stable_cold settles) keep

end Cold

/-- Code of the hardware layer whose accesses all keep an assertion. -/
theorem hal_triple {α : Type} {I : World → Prop} {K : Hal.Op → Prop} (stable : Stable setting I)
    (guard : ∀ w, I w → Guarded w) (keep : ∀ op w, K op → I w → I (perform (.hal op) w).2)
    {p : Hal.Code α} (uses : p.Uses K) : Triple setting I (hal p) fun _ => I := by
  induction p with
  | ret a => exact Triple.pure stable fun _ h => h
  | access op k ih =>
      intro w hw u move
      have hu := stable w u hw move
      exact ⟨guard u hu, ih _ (uses.2 _) _ (keep op u uses.1 hu)⟩

theorem hal_bind {α β : Type} (p : Hal.Code α) (f : α → Hal.Code β) :
    hal (p >>= f) = hal p >>= fun a => hal (f a) := by
  change hal (p.bind f) = (hal p).bind fun a => hal (f a)
  induction p with
  | ret a => rfl
  | access op k ih =>
      change Prog.access _ _ = Prog.access _ _
      congr
      funext r
      exact ih r

/-- The calls of `scheduler_next` so far, with one more to come at most. -/
def Counted (n : Nat) (d : Device) : Prop := d.ticks + 1 = n

/-- The timer is stopped; at most one tick is still latched. -/
def Idle (n : Nat) (d : Device) : Prop := Stopped 0 n d ∧ n ≤ d.ticks + 1

theorem moves_ticks {d e : Device} (h : Handler.Moves d e) : e.ticks = d.ticks := by
  induction h with
  | refl => rfl
  | expire _ _ ih => exact ih
  | otherDevices _ _ _ _ ih => exact ih

theorem settles_counted (n : Nat) : Settles (Counted n) := by
  intro d e h moves
  rw [Counted, moves_ticks moves]
  exact h

theorem settles_idle (n : Nat) : Settles (Idle n) := by
  intro d e h moves
  refine ⟨Handler.stable_stopped 0 n d e h.1 moves, ?_⟩
  rw [moves_ticks moves]
  exact h.2

theorem quiet_ticks {op : Hal.Op} (quiet : Quiet op) (d : Device) :
    (Hal.perform op d).2.ticks = d.ticks := by
  rw [Shutdown.perform_ticks, if_neg]
  rintro rfl
  exact quiet

theorem Idle.quiet {n : Nat} {op : Hal.Op} {d : Device} (h : Idle n d) (quiet : Quiet op) :
    Idle n (Hal.perform op d).2 := by
  refine ⟨h.1.quiet quiet, ?_⟩
  rw [quiet_ticks quiet]
  exact h.2

theorem Idle.write {n : Nat} {d : Device} {v : Word} (h : Idle n d) (hent0 : v.getLsbD ent0 = false)
    (henit0 : v.getLsbD enit0 = false) : Idle n (writeReg d v .tcsr0) :=
  ⟨h.1.write hent0 henit0, h.2⟩

/-- Stopping the timer leaves the latched tick, if there is one. -/
theorem Counted.write {n : Nat} {d : Device} {v : Word} (h : Counted n d)
    (hent0 : v.getLsbD ent0 = false) (henit0 : v.getLsbD enit0 = false) :
    Idle n (writeReg d v .tcsr0) := by
  obtain ⟨stopped, silent, latched, ticks⟩ := Handler.writeReg_tcsr0_stops (d := d) hent0 henit0
  have atMostOne := Bool.toNat_le d.latched
  refine ⟨⟨stopped, silent, ?_⟩, ?_⟩
  · rw [ticks, latched, ← h]
    omega
  · rw [ticks, h]

section Cold
variable {n : Nat} {R : Board → Prop}

theorem cold_counted {α : Type} {p : Hal.Code α} (uses : p.Uses Quiet) :
    Triple setting (Cold (Counted n) R) (hal p) fun _ => Cold (Counted n) R := by
  refine hal_triple (stable_cold (settles_counted n)) (fun _ h => h.guarded) ?_ uses
  intro op w quiet h
  exact ⟨h.noTrap, quiet.mie.trans h.masked, h.atLoop,
    (congrArg (· + 1) (quiet_ticks quiet w.device)).trans h.device, h.board⟩

theorem cold_idle {α : Type} {p : Hal.Code α} (uses : p.Uses Quiet) :
    Triple setting (Cold (Idle n) R) (hal p) fun _ => Cold (Idle n) R := by
  refine hal_triple (stable_cold (settles_idle n)) (fun _ h => h.guarded) ?_ uses
  intro op w quiet h
  exact ⟨h.noTrap, quiet.mie.trans h.masked, h.atLoop, h.device.quiet quiet, h.board⟩

theorem write_quiet {r : Reg} {v : Word} (quiet : Quiet (.write r v)) : (write r v).Uses Quiet :=
  Prog.uses_perform quiet

/-- A store that leaves the timer, the handler and the scheduler alone. -/
theorem cold_board {op : Op} {S : Board → Prop} (keep : ∀ w, (perform op w).2.frames = w.frames ∧
    (perform op w).2.device.mie = w.device.mie ∧ (perform op w).2.sched = w.sched ∧
    (perform op w).2.device.ticks = w.device.ticks)
    (board : ∀ w, R w.board → S (perform op w).2.board) :
    Triple setting (Cold (Counted n) R) (store op) fun _ => Cold (Counted n) S := by
  refine cold_store (settles_counted n) op fun w h => ?_
  obtain ⟨frames, mie, sched, ticks⟩ := keep w
  exact ⟨frames.trans h.noTrap, mie.trans h.masked, (congrArg Scheduler.State.pc sched).trans h.atLoop,
    (congrArg (· + 1) ticks).trans h.device, board w h.board⟩

/-- The interrupt controller passes interrupts on, and the core takes them. -/
def Delivering (b : Board) : Prop := b.mer = 3 ∧ b.mieCsr.getLsbD meieBit = true

theorem irqInit_triple :
    Triple setting (Cold (Counted n) fun _ => True) irqInit fun _ => Cold (Counted n) Delivering := by
  refine Triple.bind (R := fun _ => Cold (Counted n) fun _ => True)
    (cold_board (fun _ => ⟨rfl, rfl, rfl, rfl⟩) fun _ _ => trivial) fun _ => ?_
  refine Triple.bind (R := fun _ => Cold (Counted n) fun b => b.mer = 3)
    (cold_board (fun _ => ⟨rfl, rfl, rfl, rfl⟩) fun _ _ => rfl) fun _ => ?_
  refine (cold_counted (write_quiet (r := .ier) (v := 0x0000000f) trivial)).bind fun _ => ?_
  refine cold_board (fun _ => ⟨rfl, rfl, rfl, rfl⟩) fun w mer => ⟨mer, ?_⟩
  change (w.board.mieCsr ||| 0x800#32).getLsbD meieBit = true
  rw [BitVec.getLsbD_or]
  exact Bool.or_eq_true_iff.mpr (.inr rfl)

/-- `gpio_init` first resets what it then sets. -/
theorem gpioInit_triple :
    Triple setting (Cold (Counted n) Delivering) gpioInit fun _ => Cold (Counted n) Configured := by
  have reset (op : Op) (keep : ∀ w, (perform op w).2.frames = w.frames ∧
      (perform op w).2.device.mie = w.device.mie ∧ (perform op w).2.sched = w.sched ∧
      (perform op w).2.device.ticks = w.device.ticks)
      (board : ∀ w, Delivering w.board → Delivering (perform op w).2.board) :
      Triple setting (Cold (Counted n) Delivering) (store op) fun _ => Cold (Counted n) Delivering :=
    cold_board keep board
  refine (reset (.gpioData 0) (fun _ => ⟨rfl, rfl, rfl, rfl⟩) fun _ h => h).bind fun _ => ?_
  refine (reset (.gier 0) (fun _ => ⟨rfl, rfl, rfl, rfl⟩) fun _ h => h).bind fun _ => ?_
  refine (reset (.ipier 0) (fun _ => ⟨rfl, rfl, rfl, rfl⟩) fun _ h => h).bind fun _ => ?_
  refine (cold_counted Handler.gpioAcknowledgeInterrupt_quiet).bind fun _ => ?_
  refine Triple.bind (R := fun _ => Cold (Counted n) fun b => Delivering b ∧ b.gpioTri = 0xf000)
    (cold_board (fun _ => ⟨rfl, rfl, rfl, rfl⟩) fun _ h => ⟨h, rfl⟩) fun _ => ?_
  refine Triple.bind (R := fun _ => Cold (Counted n) fun b =>
    (Delivering b ∧ b.gpioTri = 0xf000) ∧ b.gier = 0x80000000)
    (cold_board (fun _ => ⟨rfl, rfl, rfl, rfl⟩) fun _ h => ⟨h, rfl⟩) fun _ => ?_
  exact cold_board (fun _ => ⟨rfl, rfl, rfl, rfl⟩) fun _ h =>
    ⟨h.1.1.1, h.1.1.2, h.2, rfl, h.1.2⟩

theorem timerInit_triple :
    Triple setting (Cold (Counted n) Configured) timerInit fun _ => Cold (Idle n) Configured := by
  refine Triple.bind (R := fun _ => Cold (Idle n) Configured) ?_ fun _ =>
    cold_idle (write_quiet trivial)
  refine Triple.perform (stable_cold (settles_counted n)) (fun _ h => h.guarded)
    (fun _ => stable_cold (settles_idle n)) fun w h => ?_
  exact ⟨h.noTrap, (Handler.writeReg_mie w.device 0x100 .tcsr0).trans h.masked, h.atLoop,
    h.device.write rfl rfl, h.board⟩

theorem hwInit_triple :
    Triple setting (Cold (Counted n) fun _ => True) hwInit fun _ => Cold (Idle n) Configured :=
  irqInit_triple.bind fun _ => gpioInit_triple.bind fun _ =>
    Triple.bind ((cold_counted (Handler.ledToggle_quiet .ledBlock0 ledOff)).bind fun _ =>
      cold_counted (Handler.ledToggle_quiet .ledBlock1 ledOff)) fun _ => timerInit_triple

end Cold

/-! The handler leaves the reload register and the enable register alone. -/

def KeepsSetup : Hal.Op → Prop
  | .write .tlr0 _ | .write .ier _ => False
  | _ => True

def KeepsIer : Hal.Op → Prop
  | .write .ier _ => False
  | _ => True

theorem KeepsSetup.ier {op : Hal.Op} (h : KeepsSetup op) : KeepsIer op := by
  cases op with
  | write r v => cases r <;> first | exact h | trivial
  | _ => trivial

theorem perform_tlr0 {op : Hal.Op} (keep : KeepsSetup op) (d : Device) :
    (Hal.perform op d).2.tlr0 = d.tlr0 := by
  cases op with
  | write r v =>
      cases r with
      | tlr0 => exact False.elim keep
      | _ => rfl
  | csrClearBits csr mask | csrSetBits csr mask =>
      simp only [Hal.perform]
      split <;> rfl
  | call f => cases f <;> rfl
  | _ => rfl

theorem perform_ier {op : Hal.Op} (keep : KeepsIer op) (d : Device) :
    (Hal.perform op d).2.ier = d.ier := by
  cases op with
  | write r v =>
      cases r with
      | ier => exact False.elim keep
      | _ => rfl
  | csrClearBits csr mask | csrSetBits csr mask =>
      simp only [Hal.perform]
      split <;> rfl
  | call f => cases f <;> rfl
  | _ => rfl

section Setup
open Prog

theorem updateGpioByte_setup (i : Fin 4) (mask status : Byte) :
    (updateGpioByte i mask status).Uses KeepsSetup := by
  unfold updateGpioByte
  split
  · exact uses_pure _
  · exact uses_bind (uses_perform trivial) fun _ => uses_perform trivial

theorem ledToggle_setup (led : Led) (status : Byte) : (ledToggle led status).Uses KeepsSetup :=
  uses_bind (updateGpioByte_setup 3 led.mask0 status) fun _ =>
    updateGpioByte_setup 0 led.mask1 status

theorem pollInterrupt_setup (irq : Irq) (led : Led) {acknowledge handle : Hal.Code Unit}
    (hacknowledge : acknowledge.Uses KeepsSetup) (hhandle : handle.Uses KeepsSetup) :
    (Handler.pollInterrupt irq led acknowledge handle).Uses KeepsSetup := by
  refine uses_bind (uses_bind (uses_perform trivial) fun _ => uses_pure _) fun pending => ?_
  cases pending with
  | false => exact ledToggle_setup led ledOff
  | true =>
      exact uses_bind hacknowledge fun _ => uses_bind (uses_perform trivial) fun _ =>
        uses_bind (ledToggle_setup led ledOn) fun _ => hhandle

theorem handleTrap_setup (mcause mepc : Word) :
    (Handler.handleTrap mcause mepc).Uses KeepsSetup := by
  have readWrite {r : Reg} {f : Word → Hal.Code Unit} (h : ∀ v, (f v).Uses KeepsSetup) :
      (Hal.read r >>= f).Uses KeepsSetup := uses_bind (uses_perform trivial) h
  have timers : Handler.acknowledgeTimers.Uses KeepsSetup :=
    uses_bind (readWrite fun _ => uses_perform trivial) fun _ =>
      readWrite fun _ => uses_perform trivial
  have tick : Handler.handleTimerInterrupt.Uses KeepsSetup :=
    uses_bind (readWrite fun _ => uses_perform trivial) fun _ => uses_perform trivial
  have gpio : gpioAcknowledgeInterrupt.Uses KeepsSetup := by
    refine readWrite fun ipisr => ?_
    split
    · exact uses_perform trivial
    · exact uses_pure _
  have poll : (Handler.pollInterrupts mcause).Uses KeepsSetup := by
    unfold Handler.pollInterrupts
    split
    · exact uses_pure _
    · exact uses_bind (pollInterrupt_setup .irq0 .led0 timers tick) fun _ =>
        uses_bind (pollInterrupt_setup .irq1 .led1 (uses_pure _) (uses_pure _)) fun _ =>
        uses_bind (pollInterrupt_setup .irq2 .led2 gpio (uses_perform trivial)) fun _ =>
        pollInterrupt_setup .irq3 .led3 (uses_pure _) (uses_pure _)
  exact uses_bind (uses_perform trivial) fun _ => uses_bind poll fun _ =>
    uses_bind (uses_perform trivial) fun _ => uses_pure _

end Setup

/-- No activation is going to write one of these registers. -/
def Untouched (fs : List Frame) : Prop := ∀ p, Frame.body p ∈ fs → p.Uses KeepsSetup

theorem setup_of_rule {s t : Handler.System} {a : Handler.Act} (h : Handler.Rule s a t)
    (untouched : Untouched s.frames) : t.device.tlr0 = s.device.tlr0 ∧ Untouched t.frames := by
  have tail {f : Frame} {fs : List Frame} (hframes : s.frames = f :: fs) : Untouched fs :=
    fun p mem => untouched p (hframes ▸ List.mem_cons_of_mem f mem)
  have push {f : Frame} {fs : List Frame} (rest : Untouched fs)
      (h : ∀ p, f = .body p → p.Uses KeepsSetup) : Untouched (f :: fs) := by
    intro p mem
    rcases List.mem_cons.mp mem with heq | mem
    · exact h p heq.symm
    · exact rest p mem
  cases h with
  | expire _ => exact ⟨rfl, untouched⟩
  | otherDevices isr ier ipisr => exact ⟨rfl, untouched⟩
  | trap mcause mepc _ => exact ⟨rfl, push untouched (by simp)⟩
  | callHandler mcause mepc fs hframes =>
      refine ⟨rfl, push (tail hframes) ?_⟩
      rintro p ⟨⟩
      exact handleTrap_setup mcause mepc
  | access op k fs hframes =>
      have uses := untouched (.access op k) (hframes ▸ List.mem_cons_self)
      refine ⟨perform_tlr0 uses.1 _, push (tail hframes) ?_⟩
      rintro p ⟨⟩
      exact uses.2 _
  | returnHandler mepc fs hframes => exact ⟨rfl, push (tail hframes) (by simp)⟩
  | mret mepc fs hframes => exact ⟨rfl, tail hframes⟩

/-- The enable register changes where the devices change it, and nowhere else. -/
theorem ier_of_rule {s t : Handler.System} {a : Handler.Act} (h : Handler.Rule s a t)
    (untouched : Untouched s.frames)
    (kept : ∀ isr ier ipisr, a = .otherDevices isr ier ipisr → ier = s.device.ier) :
    t.device.ier = s.device.ier := by
  cases h with
  | otherDevices isr ier ipisr => exact kept isr ier ipisr rfl
  | access op k fs hframes =>
      have uses := untouched (.access op k) (hframes ▸ List.mem_cons_self)
      exact perform_ier uses.1.ier _
  | expire _ | trap mcause mepc _ | callHandler mcause mepc fs hframes
  | returnHandler mepc fs hframes | mret mepc fs hframes => rfl

/-! Interrupts are enabled, the timer is stopped. -/

structure Warm (n : Nat) (w : World) : Prop where
  handler : Nested (Silent n) (Stopped 0 n) w.device w.frames
  counted : n ≤ w.device.ticks + 1
  atLoop : w.sched.pc = .loop
  board : Configured w.board
  untouched : Untouched w.frames

/-- `scheduler_ticks` and the first `k` slots are reset; the stale tick is the only
one they can have seen since. -/
structure Zeroed (n k : Nat) (w : World) : Prop extends Warm n w where
  ticks : w.sched.ticks.toNat + n ≤ w.device.ticks + 1
  queue : ∀ i : Slot, i.val < k → w.sched.queue i = none

theorem ticks_of_rule {w : World} {a : Handler.Act} {s : Handler.System}
    (rule : Handler.Rule w.system a s) :
    s.device.ticks = w.device.ticks + if Shutdown.callsNext w.system a then 1 else 0 :=
  Shutdown.ticks_of_hardware rule

theorem tick_pc (w : World) (a : Handler.Act) : (w.tick a).pc = w.sched.pc := by
  rw [World.tick]
  split <;> rfl

theorem Warm.rule {n : Nat} {w : World} {a : Handler.Act} {s : Handler.System} (h : Warm n w)
    (rule : Handler.Rule w.system a s) :
    Warm n { w with device := s.device, frames := s.frames, sched := w.tick a } where
  handler := Nested.step (Handler.kept_stopped n) h.handler rule
  counted := by
    have ticks := ticks_of_rule rule
    have counted := h.counted
    change n ≤ s.device.ticks + 1
    omega
  atLoop := (tick_pc w a).trans h.atLoop
  board := h.board
  untouched := (setup_of_rule rule h.untouched).2

theorem not_released_at_one (i : Slot) : Scheduler.releases 1 i = false := by
  decide +revert

theorem Zeroed.rule {n k : Nat} {w : World} {a : Handler.Act} {s : Handler.System} (h : Zeroed n k w)
    (rule : Handler.Rule w.system a s) :
    Zeroed n k { w with device := s.device, frames := s.frames, sched := w.tick a } := by
  have warm := h.toWarm.rule rule
  have silent := warm.handler.silent.count
  have counted := ticks_of_rule rule
  have ticks := h.ticks
  simp only at silent
  cases hcalls : Shutdown.callsNext w.system a with
  | false =>
      have same : w.tick a = w.sched := by rw [World.tick, hcalls, if_neg (by decide)]
      rw [hcalls, if_neg (by decide)] at counted
      refine ⟨warm, ?_, ?_⟩
      · simp only [same]
        omega
      · simp only [same]
        exact h.queue
  | true =>
      have next : w.tick a = Scheduler.schedulerNext w.sched := by
        rw [World.tick, hcalls, if_pos rfl]
      rw [hcalls, if_pos rfl] at counted
      have zero : w.sched.ticks = 0 := BitVec.eq_of_toNat_eq (by
        have none : (0 : BitVec 32).toNat = 0 := rfl
        omega)
      have one : w.sched.ticks + 1 = 1 := by
        rw [zero]
        rfl
      refine ⟨warm, ?_, ?_⟩
      · have value : (1 : BitVec 32).toNat = 1 := rfl
        simp only [next, Scheduler.schedulerNext_ticks, one, value]
        omega
      · intro i hi
        simp only [next]
        rw [Scheduler.schedulerNext_queue, one, not_released_at_one, if_neg (by decide)]
        exact h.queue i hi

/-- `main` is not preempted. -/
def Calm (I : World → Prop) (w : World) : Prop := w.frames = [] ∧ I w

theorem stable_of_rule {I : World → Prop}
    (kept : ∀ w a s, I w → Handler.Rule w.system a s →
      I { w with device := s.device, frames := s.frames, sched := w.tick a }) :
    Stable setting (Calm I) := by
  refine Preemption.stable_of_kept system (J := I) (fun _ h => h.2) ?_
    fun _ h calm => ⟨List.isEmpty_iff.mp calm, h⟩
  intro w a u h hstep
  obtain ⟨s, rule, rfl⟩ := interfere_rule hstep
  exact kept w a s h rule

theorem stable_warm (n : Nat) : Stable setting (Calm (Warm n)) :=
  stable_of_rule fun _ _ _ h rule => h.rule rule

theorem stable_zeroed (n k : Nat) : Stable setting (Calm (Zeroed n k)) :=
  stable_of_rule fun _ _ _ h rule => h.rule rule

/-! The timer runs. -/

def Running (d : Device) : Prop := d.ent0 = true ∧ d.enit0 = true

def Anything (_ : Device) : Prop := True

theorem stable_running : Stable (maskedBy Anything) Running :=
  Handler.stable_of (fun d h _ => ⟨(Handler.expire_ent0 d).trans h.1,
      (Handler.expire_enit0 d).trans h.2⟩)
    fun _ _ h same => ⟨same.ent0.trans h.1, same.enit0.trans h.2⟩

/-- Only a write of TCSR0 changes what it says. -/
theorem running_perform {op : Hal.Op} {d : Device} (h : Running d) (other : ∀ v, op ≠ .write .tcsr0 v) :
    Running (Hal.perform op d).2 := by
  cases op with
  | write r v =>
      cases r with
      | tcsr0 => exact absurd rfl (other v)
      | _ => exact h
  | csrClearBits csr mask | csrSetBits csr mask =>
      simp only [Hal.perform]
      split <;> exact h
  | call f => cases f <;> exact h
  | _ => exact h

theorem running_quiet {α : Type} {p : Hal.Code α} (h : p.Uses Quiet) :
    Triple (maskedBy Anything) (Masked Running) p fun _ => Masked Running := by
  refine Handler.quiet_triple stable_running (fun _ _ => trivial) ?_ h
  intro op d quiet hd
  refine running_perform hd fun v => ?_
  rintro rfl
  exact quiet

/-- The handler writes TCSR0 back as it read it, with T0INT set. -/
theorem running_acknowledge :
    Triple (maskedBy Anything) (Masked Running) (timerAcknowledgeTimer .timer0) fun _ =>
      Masked Running := by
  have stable := Masked.stableBy stable_running
  refine Triple.bind (R := fun (tcsr0 : Word) d => Masked Running d ∧
    (tcsr0.getLsbD ent0 = true ∧ tcsr0.getLsbD enit0 = true)) ?_ fun tcsr0 => ?_
  · exact Triple.perform stable (fun _ h => ⟨h.1, trivial⟩)
      (fun _ => stable.and fun _ _ h _ => h) fun _ h => ⟨h, h.2⟩
  · refine Triple.perform (stable.and fun _ _ h _ => h) (fun _ h => ⟨h.1.1, trivial⟩)
      (fun _ => stable) ?_
    rintro d ⟨⟨masked, -⟩, hent0, henit0⟩
    have kept {i : Nat} (hi : t0int ≠ i) (h : tcsr0.getLsbD i = true) :
        (writeReg d (setField tcsr0 t0int true) .tcsr0).tcsr0.getLsbD i = true :=
      (Handler.getLsbD_writeTcsr_of_ne hi).trans ((Handler.getLsbD_setField_of_ne hi).trans h)
    exact ⟨masked, kept (by decide) hent0, kept (by decide) henit0⟩

theorem running_perform_triple {op : Hal.Op} (quiet : ∀ v, op ≠ .write .tcsr0 v)
    (mie : ∀ d, (Hal.perform op d).2.mie = d.mie) :
    Triple (maskedBy Anything) (Masked Running) (.perform op) fun _ => Masked Running :=
  Triple.perform (Masked.stableBy stable_running) (fun _ h => ⟨h.1, trivial⟩)
    (fun _ => Masked.stableBy stable_running)
    fun d h => ⟨(mie d).trans h.1, running_perform h.2 quiet⟩

theorem kept_running : Kept Anything Running := by
  refine Kept.of_timer stable_running (fun _ _ => trivial) ?_ (fun _ _ _ h => h) ?_
  · intro op d quiet h
    refine running_perform h fun v => ?_
    rintro rfl
    exact quiet
  · refine Triple.bind (Handler.pending_triple stable_running fun _ _ => trivial) fun pending => ?_
    cases pending with
    | false => exact running_quiet (Handler.ledToggle_quiet .led0 ledOff)
    | true =>
        have acknowledge : Triple (maskedBy Anything) (Masked Running) Handler.acknowledgeTimers
            fun _ => Masked Running :=
          running_acknowledge.bind fun _ => running_quiet Handler.timerAcknowledgeTimer1_quiet
        have release : Triple (maskedBy Anything) (Masked Running) (irqAcknowledgeInterrupt .irq0)
            fun _ => Masked Running :=
          running_perform_triple (by simp) fun d => Handler.writeReg_mie d _ _
        have handle : Triple (maskedBy Anything) (Masked Running) Handler.handleTimerInterrupt
            fun _ => Masked Running :=
          (running_quiet Handler.heartbeatBeat_quiet).bind fun _ =>
            running_perform_triple (by simp) fun _ => rfl
        have whole := acknowledge.bind fun _ => release.bind fun _ =>
          (running_quiet (Handler.ledToggle_quiet .led0 ledOn)).bind fun _ => handle
        exact fun d h => whole d ⟨h.1, h.2.1⟩

/-- The scheduler's variables of `scheduler_init` after some calls of `scheduler_next`. -/
def Ticked (s : Scheduler.State) : Prop :=
  ∃ k evs, Transition.run Scheduler.step Scheduler.schedulerInit (List.replicate k .tick) =
    some (evs, s)

theorem Ticked.next {s : Scheduler.State} (h : Ticked s) : Ticked (Scheduler.schedulerNext s) := by
  obtain ⟨k, evs, hrun⟩ := h
  refine ⟨k + 1, evs ++ [.tick (s.ticks + 1)], ?_⟩
  rw [List.replicate_succ']
  exact Transition.run_append hrun rfl

/-- The reload value of `timer_configure_periodic_timer` in `scheduler_init`. -/
def reload : Word := 0xffffffff - slowdown * oneMillisecond * (axiTimerClock / 1000000)

/-- Everything is set up; the store of `scheduler_enable` may be to come. -/
structure Ready (w : World) : Prop where
  handler : Nested Anything Running w.device w.frames
  period : w.device.tlr0 = reload
  board : Configured w.board
  untouched : Untouched w.frames
  ticked : Ticked { w.sched with enabled := true }

theorem schedulerNext_enable (s : Scheduler.State) (b : Bool) :
    { Scheduler.schedulerNext s with enabled := b } =
      Scheduler.schedulerNext { s with enabled := b } := rfl

theorem Ready.rule {w : World} {a : Handler.Act} {s : Handler.System} (h : Ready w)
    (rule : Handler.Rule w.system a s) :
    Ready { w with device := s.device, frames := s.frames, sched := w.tick a } := by
  obtain ⟨same, untouched⟩ := setup_of_rule rule h.untouched
  have handler : Nested Anything Running w.system.device w.system.frames := h.handler
  refine ⟨Nested.step kept_running handler rule, same.trans h.period, h.board, untouched, ?_⟩
  rw [World.tick]
  split
  · rw [schedulerNext_enable]
    exact h.ticked.next
  · exact h.ticked

theorem stable_ready : Stable setting (Calm Ready) :=
  stable_of_rule fun _ _ _ h rule => h.rule rule

/-- No tick or one has come since `scheduler_ticks` was reset, and neither releases a task. -/
theorem Zeroed.ticked {n : Nat} {w : World} (h : Zeroed n 4 w) :
    Ticked { w.sched with enabled := true } := by
  have bound := h.ticks
  have silent := h.handler.silent.count
  have queue : w.sched.queue = fun _ => none := by
    funext i
    exact h.queue i i.isLt
  have one : (Scheduler.schedulerNext Scheduler.schedulerInit).queue = fun _ => none := by
    funext i
    rw [Scheduler.schedulerNext_queue, if_neg]
    · rfl
    · change ¬ Scheduler.releases 1 i = true
      rw [not_released_at_one]
      decide
  have fresh {q : Slot → Option Slot} {ticks : BitVec 32} (hq : w.sched.queue = q)
      (hticks : w.sched.ticks = ticks) :
      { w.sched with enabled := true } = Scheduler.State.mk q true ticks .loop := by
    rw [← hq, ← hticks, ← h.atLoop]
  rcases Nat.lt_or_ge w.sched.ticks.toNat 1 with none | some
  · have ticks : w.sched.ticks = 0 := BitVec.eq_of_toNat_eq (Nat.lt_one_iff.mp none)
    rw [fresh queue ticks]
    exact ⟨0, [], rfl⟩
  · have value : (1 : BitVec 32).toNat = 1 := rfl
    have ticks : w.sched.ticks = 1 := BitVec.eq_of_toNat_eq (by omega)
    rw [fresh (queue.trans one.symm) ticks]
    exact ⟨1, [.tick 1], rfl⟩

section Warm
variable {n k : Nat}

theorem warm_guarded {w : World} (h : Calm (Warm n) w) : Guarded w := fun _ => h.2.board

theorem zeroed_guarded {w : World} (h : Calm (Zeroed n k) w) : Guarded w := fun _ => h.2.board

theorem ready_guarded {w : World} (h : Calm Ready w) : Guarded w := fun _ => h.2.board

theorem Warm.idle {w : World} (calm : w.frames = []) (h : Warm n w) : Idle n w.device := by
  have handler := h.handler
  rw [calm] at handler
  exact ⟨handler, h.counted⟩

/-- An access of `main` that leaves the stopped timer alone. -/
theorem Warm.device {w : World} {d : Device} (calm : w.frames = []) (h : Warm n w)
    (idle : Idle n d) : Warm n { w with device := d } where
  handler := by
    simp only [calm]
    exact idle.1
  counted := idle.2
  atLoop := h.atLoop
  board := h.board
  untouched := h.untouched

theorem Zeroed.device {w : World} {d : Device} (calm : w.frames = []) (h : Zeroed n k w)
    (idle : Idle n d) (ticks : d.ticks = w.device.ticks) : Zeroed n k { w with device := d } :=
  ⟨h.toWarm.device calm idle, by rw [ticks]; exact h.ticks, h.queue⟩

theorem warm_quiet {α : Type} {p : Hal.Code α} (uses : p.Uses Quiet) :
    Triple setting (Calm (Warm n)) (hal p) fun _ => Calm (Warm n) := by
  refine hal_triple (stable_warm n) (fun _ h => warm_guarded h) ?_ uses
  rintro op w quiet ⟨calm, h⟩
  exact ⟨calm, h.device calm ((h.idle calm).quiet quiet)⟩

/-- `core_enable_interrupts` finds the board configured. -/
theorem coreEnable_triple :
    Triple setting (Cold (Idle n) Configured) (hal coreEnableInterrupts) fun _ => Calm (Warm n) := by
  refine Triple.perform (stable_cold (settles_idle n)) (fun _ h => h.guarded)
    (fun _ => stable_warm n) fun w h => ?_
  have idle : Idle n (Hal.perform (.csrSetBits csrMstatus 0x8) w.device).2 := by
    have stopped := h.device.1
    exact ⟨⟨stopped.ent0, stopped.enit0, stopped.count⟩, h.device.2⟩
  refine ⟨h.noTrap, ?_⟩
  have untouched : Untouched w.frames := by
    rw [h.noTrap]
    intro p mem
    cases mem
  have warm : Warm n w :=
    ⟨by rw [h.noTrap]; exact h.device.1, h.device.2, h.atLoop, h.board, untouched⟩
  exact warm.device h.noTrap idle

/-- The store `scheduler_ticks = 0` of `scheduler_init`. -/
theorem schedulerTicks_triple :
    Triple setting (Calm (Warm n)) (store (.schedulerTicks 0)) fun _ => Calm (Zeroed n 0) := by
  refine Triple.perform (stable_warm n) (fun _ h => warm_guarded h) (fun _ => stable_zeroed n 0) ?_
  rintro w ⟨calm, h⟩
  refine ⟨calm, ⟨h.handler, h.counted, h.atLoop, h.board, h.untouched⟩, ?_, ?_⟩
  · have counted := h.counted
    change (0 : BitVec 32).toNat + n ≤ w.device.ticks + 1
    have value : (0 : BitVec 32).toNat = 0 := rfl
    omega
  · intro i hi
    exact absurd hi (Nat.not_lt_zero _)

theorem clearSlot_triple (i : Slot) (hi : i.val = k) :
    Triple setting (Calm (Zeroed n k)) (store (.clearSlot i)) fun _ => Calm (Zeroed n (k + 1)) := by
  refine Triple.perform (stable_zeroed n k) (fun _ h => zeroed_guarded h)
    (fun _ => stable_zeroed n (k + 1)) ?_
  rintro w ⟨calm, h⟩
  refine ⟨calm, ⟨h.handler, h.counted, h.atLoop, h.board, h.untouched⟩, h.ticks, ?_⟩
  intro j hj
  change Function.update w.sched.queue i none j = none
  by_cases heq : j = i
  · rw [heq, Function.update_self]
  · have hne : j.val ≠ i.val := fun h => heq (Fin.ext h)
    rw [Function.update_of_ne heq]
    exact h.queue j (by omega)

/-- The reload register is set as well. -/
structure Loaded (n : Nat) (v : Word) (w : World) : Prop extends Zeroed n 4 w where
  period : w.device.tlr0 = v

theorem stable_loaded {v : Word} : Stable setting (Calm (Loaded n v)) :=
  stable_of_rule fun _ _ _ h rule =>
    ⟨h.toZeroed.rule rule, (setup_of_rule rule h.untouched).1.trans h.period⟩

theorem loaded_guarded {v : Word} {w : World} (h : Calm (Loaded n v) w) : Guarded w := fun _ => h.2.board

theorem hal_seq {α β : Type} {P : World → Prop} {I : α → World → Prop} {Q : β → World → Prop}
    {p : Hal.Code α} {f : α → Hal.Code β} (first : Triple setting P (hal p) I)
    (rest : ∀ a, Triple setting (I a) (hal (f a)) Q) : Triple setting P (hal (p >>= f)) Q := by
  rw [hal_bind]
  exact first.bind rest

/-- Whatever was read, the last store starts the timer. -/
theorem running_periodicFields (d : Device) (v : Word) :
    Running (writeReg d (periodicFields v) .tcsr0) := by
  have kept {i : Nat} (hi : t0int ≠ i) (h : (periodicFields v).getLsbD i = true) :
      (writeReg d (periodicFields v) .tcsr0).tcsr0.getLsbD i = true :=
    (Handler.getLsbD_writeTcsr_of_ne hi).trans h
  refine ⟨kept (by decide) ?_, kept (by decide) ?_⟩
  · rw [periodicFields]
    repeat rw [Handler.getLsbD_setField_of_ne (by decide)]
    exact Handler.getLsbD_setField_self (by decide)
  · rw [periodicFields]
    repeat rw [Handler.getLsbD_setField_of_ne (by decide)]
    exact Handler.getLsbD_setField_self (by decide)

theorem loadReload_triple (v : Word) :
    Triple setting (Calm (Zeroed n 4)) (hal (write .tlr0 v)) fun _ => Calm (Loaded n v) := by
  refine Triple.perform (stable_zeroed n 4) (fun _ h => zeroed_guarded h) (fun _ => stable_loaded) ?_
  rintro w ⟨calm, h⟩
  have idle := h.idle calm
  exact ⟨calm, h.device calm ⟨⟨idle.1.ent0, idle.1.enit0, idle.1.count⟩, idle.2⟩ rfl, rfl⟩

theorem timerConfigure_triple :
    Triple setting (Calm (Zeroed n 4))
      (hal (timerConfigurePeriodicTimer .timer0 (slowdown * oneMillisecond))) fun _ => Calm Ready := by
  refine hal_seq (I := fun _ => Calm (Zeroed n 4)) ?_ fun _ => ?_
  · refine Triple.perform (stable_zeroed n 4) (fun _ h => zeroed_guarded h)
      (fun _ => stable_zeroed n 4) ?_
    rintro w ⟨calm, h⟩
    exact ⟨calm, h.device calm ((h.idle calm).write rfl rfl) rfl⟩
  refine hal_seq (I := fun _ => Calm (Loaded n reload)) (loadReload_triple reload) fun _ => ?_
  refine hal_seq (I := fun _ => Calm (Loaded n reload)) ?_ fun _ => ?_
  · refine Triple.perform stable_loaded (fun _ h => loaded_guarded h) (fun _ => stable_loaded) ?_
    rintro w ⟨calm, h⟩
    exact ⟨calm, h.toZeroed.device calm ((h.idle calm).write rfl rfl) rfl, h.period⟩
  refine hal_seq (I := fun _ => Calm (Loaded n reload)) ?_ fun tcsr0 => ?_
  · exact Triple.perform stable_loaded (fun _ h => loaded_guarded h) (fun _ => stable_loaded)
      fun _ h => h
  · refine Triple.perform stable_loaded (fun _ h => loaded_guarded h) (fun _ => stable_ready) ?_
    rintro w ⟨calm, h⟩
    have handler :
        Nested Anything Running (writeReg w.device (periodicFields tcsr0) .tcsr0) w.frames := by
      rw [calm]
      exact running_periodicFields w.device tcsr0
    exact ⟨calm, handler, h.period, h.board, h.untouched, h.toZeroed.ticked⟩

theorem schedulerInit_triple :
    Triple setting (Calm (Warm n)) schedulerInit fun _ =>
      Calm fun w => Ready w ∧ w.sched.enabled = true := by
  refine schedulerTicks_triple.bind fun _ => ?_
  refine (clearSlot_triple 0 rfl).bind fun _ => ?_
  refine (clearSlot_triple 1 rfl).bind fun _ => ?_
  refine (clearSlot_triple 2 rfl).bind fun _ => ?_
  refine (clearSlot_triple 3 rfl).bind fun _ => ?_
  refine timerConfigure_triple.bind fun _ => ?_
  have stable : Stable setting (Calm fun w => Ready w ∧ w.sched.enabled = true) :=
    stable_of_rule fun w a s h rule => by
      refine ⟨h.1.rule rule, ?_⟩
      simp only [World.tick]
      split
      · exact h.2
      · exact h.2
  refine Triple.perform stable_ready (fun _ h => ready_guarded h) (fun _ => stable) ?_
  rintro w ⟨calm, h⟩
  exact ⟨calm, ⟨h.handler, h.period, h.board, h.untouched, h.ticked⟩, rfl⟩

end Warm

/-- The core leaves reset. -/
structure Reset (w : World) : Prop where
  noTrap : w.frames = []
  masked : w.device.mie = false
  atLoop : w.sched.pc = .loop

theorem main_triple (n : Nat) :
    Triple setting (Cold (Counted n) fun _ => True) main fun _ =>
      Calm fun w => Ready w ∧ w.sched.enabled = true := by
  refine (cold_counted (write_quiet (r := .heartbeatCounter) (v := 0) trivial)).bind fun _ => ?_
  refine (cold_counted Handler.heartbeatBeat_quiet).bind fun _ => ?_
  refine hwInit_triple.bind fun _ => ?_
  refine (cold_idle Handler.heartbeatBeat_quiet).bind fun _ => ?_
  refine coreEnable_triple.bind fun _ => ?_
  exact (warm_quiet Handler.heartbeatBeat_quiet).bind fun _ => schedulerInit_triple

theorem perform_frames (op : Op) (w : World) : (perform op w).2.frames = w.frames := by
  cases op <;> rfl

theorem moves_kept {I : World → Prop}
    (kept : ∀ w a s, I w → Handler.Rule w.system a s →
      I { w with device := s.device, frames := s.frames, sched := w.tick a })
    {w u : World} (h : I w) (moves : system.Moves w u) : I u := by
  induction moves with
  | refl => exact h
  | tail _ step ih =>
      obtain ⟨a, step⟩ := step
      obtain ⟨s, rule, rfl⟩ := interfere_rule step
      exact kept _ a s ih rule

section Run
variable {w : World} {acts : List (Preemption.Act Handler.Act)} {evs : List Unit}
  {m : Preemption.Machine Op Op.Res World Unit}

theorem safe_of_run (reset : Reset w)
    (h : Transition.run system.step ⟨w, main⟩ acts = some (evs, m)) :
    ∃ s, s.frames = [] ∧
      Safe setting (fun _ => Calm fun w => Ready w ∧ w.sched.enabled = true) m.rest s ∧
      system.Moves s m.state := by
  have start : Cold (Counted (w.device.ticks + 1)) (fun _ => True) w :=
    ⟨reset.noTrap, reset.masked, reset.atLoop, rfl, trivial⟩
  obtain ⟨s, calm, safe, moves⟩ := system.run_safe (List.isEmpty_iff.mpr reset.noTrap)
    (fun op s calm => by
      change (perform op s).2.frames.isEmpty = true
      rw [perform_frames]
      exact calm) (main_triple _ w start) h
  exact ⟨s, List.isEmpty_iff.mp calm, safe, moves⟩

theorem ready_of_run (reset : Reset w)
    (h : Transition.run system.step ⟨w, main⟩ acts = some (evs, m)) (returned : m.rest = .ret ()) :
    Ready m.state ∧ m.state.sched.enabled = true := by
  obtain ⟨s, -, safe, moves⟩ := safe_of_run reset h
  rw [returned] at safe
  refine moves_kept (I := fun u => Ready u ∧ u.sched.enabled = true) ?_ safe.result.2 moves
  intro u a t h rule
  refine ⟨h.1.rule rule, ?_⟩
  simp only [World.tick]
  split
  · exact h.2
  · exact h.2

/-- What `scheduler_run` starts from. -/
theorem ticked_of_run (reset : Reset w)
    (h : Transition.run system.step ⟨w, main⟩ acts = some (evs, m)) (returned : m.rest = .ret ()) :
    Ticked m.state.sched := by
  obtain ⟨ready, enabled⟩ := ready_of_run reset h returned
  have ticked := ready.ticked
  rw [← enabled] at ticked
  exact ticked

end Run

end TraceFS.Startup
