import TraceFS.Firmware.StartupRun

/-!
`main` at its call of `scheduler_run`.

What is set up there is known from the triples, but for the enable register of the
interrupt controller, which the devices may change between any two accesses. Where they
leave it alone, it holds what `irq_enable_all_interrupts` writes.
-/
namespace TraceFS.Startup
open Access Hal Prog

def KeepsEnables : Op → Prop
  | .hal op => KeepsIer op
  | _ => True

/-- Interrupts stay enabled or disabled. -/
def LeavesMie (op : Op) : Prop := ∀ w, (perform op w).2.device.mie = w.device.mie

/-- On every path IER is set to enable all interrupts, last of all that concerns it, and
before the core takes any. -/
def SetsIer {α : Type} : Code α → Prop
  | .ret _ => False
  | .access op k =>
      op = .hal (.write .ier 0x0000000f) ∧ (∀ r, (k r).Uses KeepsEnables) ∨
        LeavesMie op ∧ ∀ r, SetsIer (k r)

section Sets
variable {α β : Type} {p : Code α} {f : α → Code β}

theorem SetsIer.bind (h : SetsIer p) (rest : ∀ a, (f a).Uses KeepsEnables) :
    SetsIer (p >>= f) := by
  change SetsIer (p.bind f)
  induction p with
  | ret a => cases h
  | access op k ih =>
      rcases h with ⟨here, uses⟩ | ⟨leaves, later⟩
      · exact .inl ⟨here, fun r => uses_bind (uses r) rest⟩
      · exact .inr ⟨leaves, fun r => ih r (later r)⟩

theorem SetsIer.after (leaves : p.Uses LeavesMie) (rest : ∀ a, SetsIer (f a)) :
    SetsIer (p >>= f) := by
  change SetsIer (p.bind f)
  induction p with
  | ret a => exact rest a
  | access op k ih => exact .inr ⟨leaves.1, fun r => ih r (leaves.2 r)⟩

end Sets

/-! The functions of `main`. -/

theorem hal_uses {α : Type} {K : Hal.Op → Prop} {L : Op → Prop} (lift : ∀ op, K op → L (.hal op))
    {p : Hal.Code α} (h : p.Uses K) : (hal p).Uses L := by
  induction p with
  | ret a => trivial
  | access op k ih => exact ⟨lift op h.1, fun r => ih r (h.2 r)⟩

theorem hal_enables {α : Type} {p : Hal.Code α} (h : p.Uses KeepsIer) : (hal p).Uses KeepsEnables :=
  hal_uses (fun _ h => h) h

theorem heartbeatBeat_leavesMie : (hal heartbeatBeat).Uses LeavesMie :=
  hal_uses (fun _ quiet _ => quiet.mie) Handler.heartbeatBeat_quiet

theorem heartbeatBeat_enables : (hal heartbeatBeat).Uses KeepsEnables :=
  hal_enables (uses_bind (uses_perform trivial) fun _ => uses_perform trivial)

theorem gpioInit_enables : gpioInit.Uses KeepsEnables := by
  have acknowledge : gpioAcknowledgeInterrupt.Uses KeepsIer := by
    refine uses_bind (uses_perform trivial) fun ipisr => ?_
    split
    · exact uses_perform trivial
    · exact uses_pure _
  refine uses_bind (uses_perform trivial) fun _ => uses_bind (uses_perform trivial) fun _ =>
    uses_bind (uses_perform trivial) fun _ => uses_bind (hal_enables acknowledge) fun _ =>
    uses_bind (uses_perform trivial) fun _ => ?_
  exact uses_bind (uses_perform trivial) fun _ => uses_perform trivial

theorem ledToggle_enables (led : Led) (status : Byte) :
    (hal (ledToggle led status)).Uses KeepsEnables :=
  hal_uses (fun _ h => h.ier) (ledToggle_setup led status)

theorem schedulerInit_enables : schedulerInit.Uses KeepsEnables := by
  have timer : (timerConfigurePeriodicTimer .timer0 (slowdown * oneMillisecond)).Uses KeepsIer :=
    uses_bind (uses_perform trivial) fun _ => uses_bind (uses_perform trivial) fun _ =>
      uses_bind (uses_perform trivial) fun _ => uses_bind (uses_perform trivial) fun _ =>
      uses_perform trivial
  exact uses_bind (uses_perform trivial) fun _ => uses_bind (uses_perform trivial) fun _ =>
    uses_bind (uses_perform trivial) fun _ => uses_bind (uses_perform trivial) fun _ =>
    uses_bind (uses_perform trivial) fun _ => uses_bind (hal_enables timer) fun _ =>
    uses_perform trivial

theorem irqInit_setsIer : SetsIer irqInit := by
  refine SetsIer.after (uses_perform fun _ => rfl) fun _ => ?_
  refine SetsIer.after (uses_perform fun _ => rfl) fun _ => ?_
  exact SetsIer.bind (.inl ⟨rfl, fun _ => trivial⟩) fun _ => uses_perform trivial

theorem hwInit_setsIer : SetsIer hwInit := by
  refine irqInit_setsIer.bind fun _ => uses_bind gpioInit_enables fun _ => uses_bind ?_ fun _ => ?_
  · exact uses_bind (ledToggle_enables _ _) fun _ => ledToggle_enables _ _
  · exact uses_bind (uses_perform trivial) fun _ => uses_perform trivial

theorem main_setsIer : SetsIer main := by
  refine SetsIer.after (uses_perform fun _ => rfl) fun _ => ?_
  refine SetsIer.after heartbeatBeat_leavesMie fun _ => ?_
  refine hwInit_setsIer.bind fun _ => ?_
  exact uses_bind heartbeatBeat_enables fun _ => uses_bind (uses_perform trivial) fun _ =>
    uses_bind heartbeatBeat_enables fun _ => schedulerInit_enables

/-! A run in which the devices leave the register alone. -/

def enableKept (m : Preemption.Machine Op Op.Res World Unit) : Preemption.Act Handler.Act → Bool
  | .other (.otherDevices _ ier _) => ier == m.state.device.ier
  | _ => true

/-- The register is still to be set, with interrupts disabled, or it is set for good. -/
def Enabling (m : Preemption.Machine Op Op.Res World Unit) : Prop :=
  m.state.frames = [] ∧ m.state.device.mie = false ∧ SetsIer m.rest ∨
    m.state.device.ier = 0x0000000f ∧ Untouched m.state.frames ∧ m.rest.Uses KeepsEnables

theorem perform_enables {op : Op} (keep : KeepsEnables op) (w : World) :
    (perform op w).2.device.ier = w.device.ier := by
  cases op with
  | hal op => exact perform_ier keep w.device
  | _ => rfl

theorem Enabling.main {m u : Preemption.Machine Op Op.Res World Unit} {evs : List Unit}
    (h : Enabling m) (hstep : system.step m .main = some (evs, u)) : Enabling u := by
  simp only [Preemption.System.step, Option.ite_none_right_eq_some] at hstep
  obtain ⟨-, hstep⟩ := hstep
  cases hrest : m.rest with
  | ret a => simp [hrest] at hstep
  | access op k =>
      simp only [hrest, Option.some.injEq, Prod.mk.injEq] at hstep
      obtain ⟨-, rfl⟩ := hstep
      have frames := perform_frames op m.state
      rcases h with ⟨noTrap, masked, sets⟩ | ⟨set, untouched, uses⟩
      · rw [hrest] at sets
        rcases sets with ⟨rfl, uses⟩ | ⟨leaves, later⟩
        · refine .inr ⟨rfl, ?_, uses _⟩
          intro p mem
          have none : (perform (.hal (.write .ier 0x0000000f)) m.state).2.frames = [] :=
            frames.trans noTrap
          cases (none ▸ mem : Handler.Frame.body p ∈ [])
        · exact .inl ⟨frames.trans noTrap, (leaves m.state).trans masked, later _⟩
      · rw [hrest] at uses
        refine .inr ⟨(perform_enables uses.1 m.state).trans set, ?_, uses.2 _⟩
        intro p mem
        exact untouched p (frames ▸ mem)

theorem Enabling.step {m u : Preemption.Machine Op Op.Res World Unit}
    {a : Preemption.Act Handler.Act} {evs : List Unit} (h : Enabling m)
    (kept : enableKept m a = true) (hstep : system.step m a = some (evs, u)) : Enabling u := by
  cases a with
  | main => exact h.main hstep
  | other a =>
      obtain ⟨w, hw, heq⟩ := Option.map_eq_some_iff.mp hstep
      obtain ⟨-, rfl⟩ := Prod.mk.inj heq
      obtain ⟨s, rule, rfl⟩ := interfere_rule hw
      rcases h with ⟨noTrap, masked, sets⟩ | ⟨set, untouched, uses⟩
      · obtain ⟨moves, noTrap', -⟩ := cold_rule rule noTrap masked
        exact .inl ⟨noTrap', (Handler.Moves.mie moves).trans masked, sets⟩
      · refine .inr ⟨?_, (setup_of_rule rule untouched).2, uses⟩
        refine (ier_of_rule rule untouched fun isr ier ipisr ha => ?_).trans set
        subst ha
        exact eq_of_beq kept

section Run
variable {w : World} {acts : List (Preemption.Act Handler.Act)} {evs : List Unit}
  {m : Preemption.Machine Op Op.Res World Unit}

theorem enabling_of_run (reset : Reset w)
    (kept : Transition.Guarded system.step (fun m a => enableKept m a = true) ⟨w, main⟩ acts)
    (h : Transition.run system.step ⟨w, main⟩ acts = some (evs, m)) : Enabling m :=
  Transition.guarded_invariant _ (fun _ => Enabling)
    (.inl ⟨reset.noTrap, reset.masked, main_setsIer⟩)
    (fun _ _ _ _ _ inv kept hstep => inv.step kept hstep) kept h

theorem configured_of_preempted (reset : Reset w)
    (h : Transition.run system.step ⟨w, main⟩ acts = some (evs, m))
    (preempted : m.state.frames ≠ []) : Configured m.state.board := by
  obtain ⟨s, calm, safe, moves⟩ := safe_of_run reset h
  have guarded : Guarded s := safe.holds fun _ _ h => ready_guarded ⟨h.1, h.2.1⟩
  cases mie : s.device.mie with
  | true =>
      exact moves_kept (I := fun u => Configured u.board) (fun _ _ _ h _ => h) (guarded mie) moves
  | false =>
      have cold : m.state.frames = [] ∧ m.state.device.mie = false :=
        moves_kept (I := fun u => u.frames = [] ∧ u.device.mie = false)
          (fun u a t h rule => by
            obtain ⟨moves, noTrap, -⟩ := cold_rule rule h.1 h.2
            exact ⟨noTrap, (Handler.Moves.mie moves).trans h.2⟩) ⟨calm, mie⟩ moves
      exact absurd cold.1 preempted

theorem enabled_of_entered (reset : Reset w)
    (kept : Transition.Guarded system.step (fun m a => enableKept m a = true) ⟨w, main⟩ acts)
    (h : Transition.run system.step ⟨w, main⟩ acts = some (evs, m))
    (entered : m.state.frames ≠ [] ∨ m.rest = .ret ()) : m.state.device.ier = 0x0000000f := by
  rcases enabling_of_run reset kept h with ⟨noTrap, -, sets⟩ | ⟨set, -, -⟩
  · rcases entered with preempted | returned
    · exact absurd noTrap preempted
    · rw [returned] at sets
      cases sets
  · exact set

/-- From reset on, whatever the devices and the memory hold and wherever the handler
preempts `main`: it only runs on the configured board, and when `main` calls
`scheduler_run`, the timer runs with its period and the scheduler's variables are those
of `scheduler_init` after some ticks. In both cases all interrupts are enabled at the
controller, unless the devices have changed that. -/
theorem main_enters_scheduler (reset : Reset w)
    (h : Transition.run system.step ⟨w, main⟩ acts = some (evs, m)) :
    (m.state.frames ≠ [] → Configured m.state.board) ∧
      (m.rest = .ret () →
        Configured m.state.board ∧ m.state.device.tlr0 = reload ∧ Ticked m.state.sched ∧
          (m.state.frames = [] → m.state.device.ent0 = true ∧ m.state.device.enit0 = true)) ∧
      (Transition.Guarded system.step (fun m a => enableKept m a = true) ⟨w, main⟩ acts →
        m.state.frames ≠ [] ∨ m.rest = .ret () → m.state.device.ier = 0x0000000f) := by
  refine ⟨configured_of_preempted reset h, ?_, fun kept => enabled_of_entered reset kept h⟩
  intro returned
  obtain ⟨ready, -⟩ := ready_of_run reset h returned
  refine ⟨ready.board, ready.period, ticked_of_run reset h returned, ?_⟩
  intro idle
  have handler := ready.handler
  rw [idle] at handler
  exact handler

end Run

/-- Restarted over a running timer, with a tick latched and the queue full. -/
def stale : World where
  device :=
    { tcsr0 := 0xf0, tlr0 := 0, tcsr1 := 0, isr := 1, ier := 0xf, ipisr := 0
      gpioData := fun _ => 0xff, heartbeatCounter := 7, mie := false, mpie := false
      edges := 3, ticks := 2 }
  frames := []
  board := { mer := 3, gier := 0, ipier := 0, gpioTri := 0, mieCsr := 0x800 }
  sched := { queue := fun i => some i, enabled := false, ticks := 1234, pc := .loop }

/-- The stale tick is handled while `scheduler_init` clears the queue. -/
def staleTick : List (Preemption.Act Handler.Act) :=
  List.replicate 30 .main ++ [.other (.trap 0x8000000b 0x100), .other .callHandler] ++
    List.replicate 22 (.other .access) ++ [.other .returnHandler, .other .mret] ++
    List.replicate 6 .main

def returned : Code Unit → Bool
  | .ret _ => true
  | .access _ _ => false

theorem rest_of_returned {p : Code Unit} (h : returned p = true) : p = .ret () := by
  cases p with
  | ret _ => rfl
  | access op k => cases h

/-- The same with all interrupts disabled at the controller. -/
def staleDisabled : World := { stale with device := { stale.device with ier := 0 } }

theorem main_enters_scheduler_stale :
    ∃ evs m, Transition.run system.step ⟨staleDisabled, main⟩ staleTick = some (evs, m) ∧
      m.state.sched.ticks = 1 ∧ Configured m.state.board ∧ m.state.device.ier = 0x0000000f ∧
      Ticked m.state.sched := by
  obtain ⟨evs, m, hrun, h⟩ := Transition.exists_run_of_check system.step ⟨staleDisabled, main⟩
    staleTick (fun _ m => returned m.rest && m.state.sched.ticks == 1) (by decide +kernel)
  obtain ⟨hreturned, hticks⟩ := Bool.and_eq_true_iff.mp h
  have kept : Transition.Guarded system.step (fun m a => enableKept m a = true)
      ⟨staleDisabled, main⟩ staleTick := Transition.guarded_of_check (by decide +kernel)
  obtain ⟨-, entered, enabled⟩ := main_enters_scheduler ⟨rfl, rfl, rfl⟩ hrun
  have := entered (rest_of_returned hreturned)
  exact ⟨evs, m, hrun, eq_of_beq hticks, this.1, enabled kept (.inr (rest_of_returned hreturned)),
    this.2.2.1⟩

end TraceFS.Startup
