import TraceFS.Firmware.HandlerRun
import TraceFS.Firmware.TrapResume

/-!
The instructions of `trap_entry` under the accesses of `handle_trap`.

As long as no trap falls into the window of the epilogue, the machine with its
registers and frames is a run of the system that knows only devices and
activations, so what holds of the timer ticks there holds of the machine.
-/
namespace TraceFS.TrapNesting

open Access TrapEntry
open Hal hiding Reg

/-- The argument `mcause` of the coming `handle_trap`. -/
def Machine.cause (m : Machine) (index : Nat) : Word := if index ≤ 17 then m.mcause else m.regs a0

def Machine.frameOf (m : Machine) (a : Activation) : Handler.Frame :=
  match a.stage with
  | .entry index =>
      if index ≤ callIndex then .prologue (m.cause index) a.taken else .epilogue a.taken
  | .body p _ => .body p

/-- The system a machine stands for; the task calls nothing. -/
def Machine.system (m : Machine) : Handler.System where
  device := m.device
  frames := m.activations.map m.frameOf
  task := .ret ()

section Frames
variable {addr : Nat → Word} {m n : Machine} {evs : List Event}

theorem Resting.frameOf {b : Activation} (h : Resting b) : m.frameOf b = n.frameOf b := by
  cases hs : b.stage with
  | body p pc => simp only [Machine.frameOf, hs]
  | entry index =>
      have h23 := h.2
      rw [hs] at h23
      have h23 : index = 23 := h23
      simp [Machine.frameOf, hs, h23, callIndex]

theorem Linked.frames {taskPc : Word} {a : Activation} {rest : List Activation}
    (h : Linked addr taskPc a rest) : rest.map m.frameOf = rest.map n.frameOf := by
  induction rest generalizing a with
  | nil => rfl
  | cons b rest ih =>
      obtain ⟨-, -, hresting, hlinked⟩ := h
      rw [List.map_cons, List.map_cons, ih hlinked, hresting.frameOf (m := m) (n := n)]

theorem execInstr_mcause {frame : Nat → Word} {index : Nat} {i : Instr}
    (hi : trapEntry[index]? = some i) : (execInstr m frame i).1.mcause = m.mcause := by
  have hall : ∀ j : Fin trapEntry.length, ∀ rs : Fin 32, trapEntry[j] ≠ .csrw .mcause rs := by
    decide
  obtain ⟨hlt, rfl⟩ := List.getElem?_eq_some_iff.mp hi
  cases hinstr : trapEntry[index] with
  | csrw csr rs =>
      cases csr with
      | mcause => exact absurd hinstr (hall ⟨index, hlt⟩ rs)
      | mepc => rfl
  | sw rs2 offset base =>
      simp only [execInstr]
      split <;> rfl
  | csrr rd csr => cases csr <;> rfl
  | _ => rfl

/-- One instruction further the coming call still gets the same cause. -/
theorem cause_succ {frame : Nat → Word} {index : Nat} {i : Instr} (hi : trapEntry[index]? = some i)
    (hmcause : n.mcause = (execInstr m frame i).1.mcause)
    (hregs : n.regs = (execInstr m frame i).1.regs) (hlt : index < callIndex) :
    n.cause (index + 1) = m.cause index := by
  simp only [callIndex] at hlt
  rw [execInstr_mcause hi] at hmcause
  by_cases hle : index + 1 ≤ 17
  · rw [Machine.cause, Machine.cause, if_pos hle, if_pos (by omega), hmcause]
  · rw [Machine.cause, if_neg hle, Machine.cause, hregs]
    by_cases h17 : index = 17
    · subst h17
      obtain rfl : Instr.csrr a0 .mcause = i := Option.some.inj hi
      have hzero : a0 ≠ 0 := by decide
      rw [if_pos (Nat.le_refl 17)]
      change setReg m.regs a0 m.mcause a0 = m.mcause
      exact setReg_self hzero
    · rw [if_neg (by omega)]
      apply execInstr_regs
      intro hw
      have := a0_written hi hw
      omega

section Step
variable {a b : Activation} {rest : List Activation}

theorem system_of_activations (h : Ok addr m) (hm : m.activations = a :: rest)
    (hn : n.activations = b :: rest) :
    n.system = { device := n.device, frames := n.frameOf b :: rest.map m.frameOf, task := .ret () } := by
  rw [Machine.system, hn, List.map_cons, (h.running a rest hm).2.frames (m := n) (n := m)]

theorem system_trap (h : Ok addr m) (outside : m.inWindow = false) (mcause : Word)
    (hmie : m.device.mie = true) (hpending : m.device.isr &&& m.device.ier ≠ 0)
    (hstep : stepHere addr m (.trap mcause) = some (evs, n)) :
    Handler.step m.system (.trap mcause m.pc) = some ([], n.system) := by
  rw [stepHere, if_pos ⟨hmie, hpending⟩] at hstep
  obtain ⟨-, rfl⟩ := Prod.mk.inj (Option.some.inj hstep)
  have hframes (k : Machine) : m.activations.map m.frameOf = m.activations.map k.frameOf := by
    cases hm : m.activations with
    | nil => rfl
    | cons b rest =>
        have hresting := (h.interrupted hmie outside hm).1
        rw [List.map_cons, List.map_cons, hresting.frameOf (m := m) (n := k),
          (h.running b rest hm).2.frames (m := m) (n := k)]
  rw [Handler.step, if_pos ⟨hmie, hpending⟩]
  exact congrArg (fun fs => some ([], Handler.System.mk _ (_ :: fs) _)) (hframes _)

theorem system_call (h : Ok addr m) {index : Nat} (hm : m.activations = a :: rest)
    (hs : a.stage = .entry index) (hi : trapEntry[index]? = some .callHandleTrap)
    (hstep : stepInstr addr m a rest index = some (evs, n)) :
    Handler.step m.system .callHandler = some ([], n.system) := by
  obtain rfl := call_index hi
  have hrunning : AtEntry m a 22 := by
    have := (h.running a rest hm).1
    rw [Running, hs] at this
    exact this
  rw [stepInstr, hi] at hstep
  have hn := (Prod.mk.inj (Option.some.inj hstep)).2
  have hact := congrArg Machine.activations hn.symm
  have hframe : m.frameOf a = .prologue (m.regs a0) a.taken := by
    rw [Machine.frameOf, hs]
    rfl
  have hcalled : n.frameOf { a with stage := .body (Handler.handleTrap (m.regs a0) (m.regs a1)) m.pc } =
      .body (Handler.handleTrap (m.regs a0) a.taken) := by
    rw [← hrunning.argument (by decide) (by decide)]
    rfl
  rw [system_of_activations h hm hact, system_of_activations h hm hm, hframe, hcalled, ← hn]
  rfl

theorem system_mret (h : Ok addr m) {index : Nat} (hm : m.activations = a :: rest)
    (hs : a.stage = .entry index) (hi : trapEntry[index]? = some .mret)
    (hstep : stepInstr addr m a rest index = some (evs, n)) :
    Handler.step m.system .mret = some ([], n.system) := by
  obtain rfl := mret_index hi
  rw [stepInstr, hi] at hstep
  obtain ⟨-, rfl⟩ := Prod.mk.inj (Option.some.inj hstep)
  have hframe : m.frameOf a = .epilogue a.taken := by
    rw [Machine.frameOf, hs]
    rfl
  rw [system_of_activations h hm hm, hframe]
  exact congrArg (fun fs => some ([], Handler.System.mk _ fs _)) (h.running a rest hm).2.frames

theorem system_exec (h : Ok addr m) {index : Nat} {i : Instr} (hm : m.activations = a :: rest)
    (hs : a.stage = .entry index) (hi : trapEntry[index]? = some i) (hcall : i ≠ .callHandleTrap)
    (hmret : i ≠ .mret) (hstep : stepInstr addr m a rest index = some (evs, n)) :
    n.system = m.system := by
  rw [stepInstr_exec hi hcall hmret] at hstep
  have hn := (Prod.mk.inj (Option.some.inj hstep)).2
  have hact := congrArg Machine.activations hn.symm
  have hdevice : n.device = m.device := (congrArg Machine.device hn.symm).trans execInstr_other.1
  have hindex : index ≠ callIndex := by
    rintro rfl
    exact hcall (Option.some.inj hi).symm
  rw [system_of_activations h hm hact, system_of_activations h hm hm, hdevice]
  simp only [Machine.frameOf, hs]
  by_cases hlt : index < callIndex
  · have hmcause : n.mcause = (execInstr m a.frame i).1.mcause := by rw [← hn]
    have hregs : n.regs = (execInstr m a.frame i).1.regs := by rw [← hn]
    have hcause : n.cause (index + 1) = m.cause index := cause_succ hi hmcause hregs hlt
    rw [if_pos (Nat.succ_le_of_lt hlt), if_pos (Nat.le_of_lt hlt), hcause]
  · rw [if_neg (by omega), if_neg (by omega)]

theorem system_instr (h : Ok addr m) {index : Nat} (hm : m.activations = a :: rest)
    (hs : a.stage = .entry index) (hstep : stepInstr addr m a rest index = some (evs, n)) :
    ∃ acts, Transition.run Handler.step m.system acts = some ([], n.system) := by
  cases hi : trapEntry[index]? with
  | none => simp [stepInstr, hi] at hstep
  | some i =>
      by_cases hcall : i = .callHandleTrap
      · subst hcall
        exact ⟨_, Transition.run_single_iff.mpr (system_call h hm hs hi hstep)⟩
      · by_cases hmret : i = .mret
        · subst hmret
          exact ⟨_, Transition.run_single_iff.mpr (system_mret h hm hs hi hstep)⟩
        · refine ⟨[], ?_⟩
          rw [system_exec h hm hs hi hcall hmret hstep]
          rfl

theorem system_body {p : Code Word} {pc : Word} (hs : a.stage = .body p pc) :
    m.frameOf a = .body p := by
  rw [Machine.frameOf, hs]

theorem system_compute (h : Ok addr m) {pc : Word} {regs : TrapEntry.Reg → Word}
    (hstep : stepHere addr m (.compute pc regs) = some (evs, n)) : n.system = m.system := by
  cases hm : m.activations with
  | nil =>
      simp only [stepHere, hm, Option.some.injEq, Prod.mk.injEq] at hstep
      rw [← hstep.2, Machine.system, Machine.system, hm]
      rfl
  | cons a rest =>
      cases hs : a.stage with
      | entry index => simp [stepHere, hm, hs] at hstep
      | body p pc' =>
          simp only [stepHere, hm, hs, Option.some.injEq, Prod.mk.injEq] at hstep
          have hn := hstep.2
          have hact := congrArg Machine.activations hn.symm
          have hdevice : n.device = m.device := by rw [← hn]
          rw [system_of_activations h hm hact, system_of_activations h hm hm, hdevice,
            system_body hs, system_body rfl]

theorem system_access (h : Ok addr m) (hstep : stepHere addr m .access = some (evs, n)) :
    Handler.step m.system .access = some ([], n.system) := by
  cases hm : m.activations with
  | nil => simp [stepHere, hm] at hstep
  | cons a rest =>
      cases hs : a.stage with
      | entry index => simp [stepHere, hm, hs] at hstep
      | body p pc =>
          cases p with
          | ret v => simp [stepHere, hm, hs, Handler.advance] at hstep
          | access op k =>
              simp only [stepHere, hm, hs, Handler.advance, Option.map_some, Option.some.injEq,
                Prod.mk.injEq] at hstep
              have hn := hstep.2
              have hact := congrArg Machine.activations hn.symm
              have hdevice : n.device = (perform op m.device).2 := by rw [← hn]
              rw [system_of_activations h hm hact, system_of_activations h hm hm, hdevice,
                system_body hs, system_body rfl]
              rfl

theorem system_returnHandler (h : Ok addr m) {regs : TrapEntry.Reg → Word}
    (hstep : stepHere addr m (.returnHandler regs) = some (evs, n)) :
    Handler.step m.system .returnHandler = some ([], n.system) := by
  cases hm : m.activations with
  | nil => simp [stepHere, hm] at hstep
  | cons a rest =>
      cases hs : a.stage with
      | entry index => simp [stepHere, hm, hs] at hstep
      | body p pc =>
          cases p with
          | access op k => simp [stepHere, hm, hs] at hstep
          | ret v =>
              simp only [stepHere, hm, hs, Option.some.injEq, Prod.mk.injEq] at hstep
              have hn := hstep.2
              have hact := congrArg Machine.activations hn.symm
              have hdevice : n.device = m.device := by rw [← hn]
              have hv : v = a.taken := (h.body hm hs).2
              rw [system_of_activations h hm hact, system_of_activations h hm hm, hdevice,
                system_body hs, hv]
              rfl

theorem system_of_stepHere {act : Act} (h : Ok addr m) (outside : OutsideWindow m act)
    (hstep : stepHere addr m act = some (evs, n)) :
    ∃ acts, Transition.run Handler.step m.system acts = some ([], n.system) := by
  cases act with
  | trap mcause =>
      have hpending : m.device.mie = true ∧ m.device.isr &&& m.device.ier ≠ 0 := by
        by_contra hnot
        rw [stepHere, if_neg hnot] at hstep
        cases hstep
      exact ⟨_, Transition.run_single_iff.mpr
        (system_trap h outside mcause hpending.1 hpending.2 hstep)⟩
  | compute pc regs =>
      refine ⟨[], ?_⟩
      rw [system_compute h hstep]
      rfl
  | instr =>
      cases hm : m.activations with
      | nil => simp [stepHere, hm] at hstep
      | cons a rest =>
          cases hs : a.stage with
          | body p pc => simp [stepHere, hm, hs] at hstep
          | entry index =>
              simp only [stepHere, hm, hs] at hstep
              exact system_instr h hm hs hstep
  | access => exact ⟨_, Transition.run_single_iff.mpr (system_access h hstep)⟩
  | returnHandler regs => exact ⟨_, Transition.run_single_iff.mpr (system_returnHandler h hstep)⟩
  | expire | otherDevices isr ier ipisr => cases hstep

/-- Every step of the machine outside the window is a run of its system. -/
theorem system_of_step {act : Act} (h : Ok addr m) (outside : OutsideWindow m act)
    (hstep : step addr m act = some (evs, n)) :
    ∃ acts, Transition.run Handler.step m.system acts = some ([], n.system) := by
  have inside (hstep : (if m.pc = m.location addr then stepHere addr m act else none) =
      some (evs, n)) : ∃ acts, Transition.run Handler.step m.system acts = some ([], n.system) := by
    rw [if_pos h.here] at hstep
    exact system_of_stepHere h outside hstep
  cases act with
  | expire =>
      simp only [step, Option.ite_none_right_eq_some, Option.some.injEq, Prod.mk.injEq] at hstep
      obtain ⟨hent0, -, rfl⟩ := hstep
      exact ⟨[.expire], Transition.run_single_iff.mpr (if_pos hent0)⟩
  | otherDevices isr ier ipisr =>
      simp only [step, Option.some.injEq, Prod.mk.injEq] at hstep
      obtain ⟨-, rfl⟩ := hstep
      exact ⟨[.otherDevices isr ier ipisr], Transition.run_single_iff.mpr rfl⟩
  | trap mcause => exact inside hstep
  | compute pc regs => exact inside hstep
  | instr => exact inside hstep
  | access => exact inside hstep
  | returnHandler regs => exact inside hstep

end Step

theorem system_of_run {acts : List Act} (start : Idle m)
    (h : Transition.run (step addr) m acts = some (evs, n))
    (outside : Transition.Guarded (step addr) OutsideWindow m acts) :
    ∃ acts', Transition.run Handler.step m.system acts' = some ([], n.system) := by
  have hinv : Ok addr n ∧
      ∃ acts', Transition.run Handler.step m.system acts' = some ([], n.system) := by
    apply Transition.guarded_invariant OutsideWindow
      (fun _ u => Ok addr u ∧
        ∃ acts', Transition.run Handler.step m.system acts' = some ([], u.system))
      ⟨start.ok, [], rfl⟩ _ outside h
    intro past u act new v hu houtside hstep
    obtain ⟨hok, acts', hrun⟩ := hu
    obtain ⟨acts'', hnext⟩ := system_of_step hok houtside hstep
    exact ⟨(hok.step houtside hstep).1, acts' ++ acts'', Transition.run_append hrun hnext⟩
  exact hinv.2

/-- The timer ticks of the whole machine: with traps nesting between instructions,
`scheduler_next` is still called once for every expiry. -/
theorem ticks_of_machine {acts : List Act} (start : Idle m) (timer : Handler.Started m.system)
    (h : Transition.run (step addr) m acts = some (evs, n))
    (outside : Transition.Guarded (step addr) OutsideWindow m acts) :
    n.device.ticks ≤ n.device.edges ∧
      ((∀ a ∈ n.activations, ∀ p pc, a.stage ≠ .body p pc) →
        n.device.edges = n.device.ticks + if n.device.latched then 1 else 0) := by
  obtain ⟨acts', hrun⟩ := system_of_run start h outside
  have hcounts := (timer.run hrun).counts
  refine ⟨hcounts.1, fun quiet => hcounts.2 ?_⟩
  intro f hf
  obtain ⟨a, ha, rfl⟩ := List.mem_map.mp hf
  cases hs : a.stage with
  | body p pc => exact absurd hs (quiet a ha p pc)
  | entry index =>
      simp only [Machine.frameOf, hs]
      split <;> rfl

end Frames

end TraceFS.TrapNesting
