import TraceFS.Lib.Run
import TraceFS.Firmware.Leds

/-!
`led_toggle` in task code, interrupted between its read and its write.

A call of a task takes effect with its write: what `handle_trap` has changed since
the read lies in another byte, or under the mask of the call, which overwrites it.
The calls therefore act one after the other, in the order of their writes.
-/
namespace TraceFS.Leds
open Access Hal MaskedWrites

/-- The devices, and the task's call with what is left of it. -/
structure Machine where
  device : Device
  call : Option (Toggle × Code Unit)

inductive Act
  | call (c : TaskCall)
  | access
  | interrupt (mcause mepc : Word) (moves : List (List Move))
  | move (m : Move)

/-- A call of `led_toggle` by task code or by `handle_trap`. -/
inductive Event
  | task (t : Toggle)
  | handler (t : Toggle)
  deriving DecidableEq, Repr

def step : Transition.Step Machine Act Event := fun m a =>
  match a with
  | .call c =>
      match m.call with
      | none =>
          if c.made then
            some ([.task c.toggle], { m with call := some (c.toggle, c.toggle.code) })
          else none
      | some _ => none
  | .access =>
      match m.call with
      | some (t, .access op k) =>
          some ([], {
            device := (perform op m.device).2
            call :=
              match k (perform op m.device).1 with
              | .ret _ => none
              | rest => some (t, rest) })
      | _ => none
  | .interrupt mcause mepc moves =>
      some ((handlerToggles mcause ⟨m.device, moves⟩).map .handler,
        { m with
          device := ((Handler.handleTrap mcause mepc).exec performIn ⟨m.device, moves⟩).2.device })
  | .move mv => some ([], { m with device := mv.apply m.device })

def Event.toggle : Event → Toggle
  | .task t | .handler t => t

def task? : Event → Option Toggle
  | .task t => some t
  | .handler _ => none

def handler? : Event → Option Toggle
  | .task _ => none
  | .handler t => some t

def taskCalls (evs : List Event) : List Toggle := evs.filterMap task?
def handlerCalls (evs : List Event) : List Toggle := evs.filterMap handler?

/-- The calls one after the other, without an interruption. -/
def inOrder : List Toggle → Code Unit
  | [] => pure ()
  | t :: ts => do
      t.code
      inOrder ts

def Machine.running (m : Machine) : Option Toggle := m.call.map Prod.fst

theorem exec_inOrder (ts : List Toggle) (d : Device) :
    ((inOrder ts).exec perform d).2.gpioData = (ts.map Toggle.write).foldl Write.apply d.gpioData := by
  induction ts generalizing d with
  | nil => rfl
  | cons t ts ih =>
      have hcall : (t.code.exec perform d).2.gpioData = t.write.apply d.gpioData := by
        rw [toggle_code, updateGpioByte, if_neg (maskOf_ne_zero t.led)]
        rfl
      rw [inOrder, Prog.exec_bind, ih, hcall]
      rfl

/-! The invariant. -/

def writes (evs : List Event) : List (Write (Fin 4) 8) := evs.map fun e => e.toggle.write

/-- What a call is about to do; the byte to be written is what it would be if it were
read again. -/
inductive Pending (d : Device) (c : TaskCall) : Code Unit → Prop
  | start : Pending d c c.toggle.code
  | write : Pending d c (writeGpioByte (byteOf c.toggle.led)
      (blend (maskOf c.toggle.led) c.toggle.status (d.gpioData (byteOf c.toggle.led))))

/-- The calls that have taken effect, in their order. -/
structure Linearised (init : Gpio) (past order : List Event) (m : Machine) : Prop where
  handler : handlerCalls order = handlerCalls past
  task : taskCalls past = taskCalls order ++ m.running.toList
  gpio : m.device.gpioData = (writes order).foldl Write.apply init
  pending : ∀ t p, m.call = some (t, p) → ∃ c : TaskCall, t = c.toggle ∧ Pending m.device c p

theorem code_eq (t : Toggle) : t.code = .access (Op.readGpioByte (byteOf t.led)) fun old =>
    writeGpioByte (byteOf t.led) (blend (maskOf t.led) t.status old) := by
  rw [toggle_code, updateGpioByte, if_neg (maskOf_ne_zero t.led)]
  rfl

theorem Pending.congr {d d' : Device} {c : TaskCall} {p : Code Unit} (h : Pending d c p)
    (hsame : blend (maskOf c.toggle.led) c.toggle.status (d'.gpioData (byteOf c.toggle.led)) =
      blend (maskOf c.toggle.led) c.toggle.status (d.gpioData (byteOf c.toggle.led))) :
    Pending d' c p := by
  cases h with
  | start => exact .start
  | write =>
      rw [← hsame]
      exact .write

theorem Linearised.call {init : Gpio} {past order : List Event} {m : Machine}
    (h : Linearised init past order m) (hcall : m.call = none) (c : TaskCall) :
    Linearised init (past ++ [.task c.toggle]) order
      { m with call := some (c.toggle, c.toggle.code) } where
  handler := by
    rw [h.handler]
    simp [handlerCalls, handler?]
  task := by
    have htask := h.task
    rw [Machine.running, hcall] at htask
    have hlast : taskCalls (past ++ [.task c.toggle]) = taskCalls past ++ [c.toggle] := by
      simp [taskCalls, task?]
    rw [hlast, htask]
    simp [Machine.running]
  gpio := h.gpio
  pending t p hp := by
    cases hp
    exact ⟨c, rfl, .start⟩

/-- The read leaves the register, and the write is the point where the call acts. -/
theorem Linearised.access {init : Gpio} {past order : List Event} {m m' : Machine}
    (h : Linearised init past order m) {evs : List Event} (hstep : step m .access = some (evs, m')) :
    ∃ order', Linearised init (past ++ evs) order' m' := by
  simp only [step] at hstep
  split at hstep
  case h_2 => cases hstep
  case h_1 t op k hcall =>
    cases hstep
    have ⟨c, ht, hpending⟩ := h.pending t _ hcall
    have htask := h.task
    rw [Machine.running, hcall, Option.map_some, Option.toList_some] at htask
    rw [List.append_nil]
    generalize hp : Prog.access op k = p at hpending
    cases hpending with
    | start =>
        rw [code_eq] at hp
        cases hp
        refine ⟨order, h.handler, htask, h.gpio, fun t' p' hp' => ?_⟩
        cases hp'
        exact ⟨c, ht, .write⟩
    | write =>
        cases hp
        refine ⟨order ++ [.task t], ?_, ?_, ?_, fun t' p' hp' => nomatch hp'⟩
        · rw [← h.handler]
          simp [handlerCalls, handler?]
        · rw [htask]
          simp [taskCalls, task?, Machine.running]
        · rw [writes, List.map_append, List.foldl_append, ← writes, ← h.gpio, ht]
          rfl

theorem Linearised.interrupt {init : Gpio} {past order : List Event} {m : Machine}
    (h : Linearised init past order m) (mcause mepc : Word) (moves : List (List Move)) :
    let toggles := (handlerToggles mcause ⟨m.device, moves⟩).map Event.handler
    Linearised init (past ++ toggles) (order ++ toggles)
      { m with
        device := ((Handler.handleTrap mcause mepc).exec performIn ⟨m.device, moves⟩).2.device } := by
  intro toggles
  have hgpio := exec_handleTrap mcause mepc ⟨m.device, moves⟩
  have hwrites : writes toggles = (handlerToggles mcause ⟨m.device, moves⟩).map Toggle.write := by
    rw [writes, List.map_map]
    rfl
  have htask : taskCalls toggles = [] := by
    rw [taskCalls, List.filterMap_map]
    exact List.filterMap_eq_nil_iff.mpr fun _ _ => rfl
  refine ⟨?_, ?_, ?_, ?_⟩
  · simp only [handlerCalls, List.filterMap_append]
    exact congrArg (· ++ _) h.handler
  · have hpast := h.task
    simp only [taskCalls, List.filterMap_append] at hpast htask ⊢
    rw [htask, hpast, List.append_nil, List.append_nil]
    rfl
  · rw [hgpio, writes, List.map_append, List.foldl_append, ← writes, ← writes, ← h.gpio, hwrites]
  · intro t p hcall
    have ⟨c, ht, hpending⟩ := h.pending t p hcall
    refine ⟨c, ht, hpending.congr ?_⟩
    rw [hgpio]
    apply blend_foldl_of_yields (x := c.toggle.write)
    intro y hy
    have ⟨t, ht, hwrite⟩ := List.mem_map.mp hy
    rw [← hwrite]
    exact handlerToggles_yield ht c

theorem Linearised.move {init : Gpio} {past order : List Event} {m : Machine}
    (h : Linearised init past order m) (mv : Move) :
    Linearised init past order { m with device := mv.apply m.device } where
  handler := h.handler
  task := h.task
  gpio := (mv.gpioData m.device).trans h.gpio
  pending t p hcall := by
    have ⟨c, ht, hpending⟩ := h.pending t p hcall
    refine ⟨c, ht, hpending.congr ?_⟩
    rw [mv.gpioData]

theorem Linearised.step {init : Gpio} {past order evs : List Event} {m m' : Machine} {a : Act}
    (h : Linearised init past order m) (hstep : Leds.step m a = some (evs, m')) :
    ∃ order', Linearised init (past ++ evs) order' m' := by
  cases a with
  | call c =>
      simp only [Leds.step] at hstep
      split at hstep
      case h_2 => cases hstep
      case h_1 hcall =>
        cases (Option.ite_none_right_eq_some.mp hstep).2
        exact ⟨order, h.call hcall c⟩
  | access => exact h.access hstep
  | interrupt mcause mepc moves =>
      cases hstep
      exact ⟨_, h.interrupt mcause mepc moves⟩
  | move mv =>
      cases hstep
      rw [List.append_nil]
      exact ⟨order, h.move mv⟩

theorem Linearised.run {s u : Machine} {acts : List Act} {evs : List Event} (idle : s.call = none)
    (h : Transition.run Leds.step s acts = some (evs, u)) :
    ∃ order, Linearised s.device.gpioData evs order u := by
  refine Transition.run_invariant (fun past m => ∃ order, Linearised s.device.gpioData past order m)
    ⟨[], rfl, ?_, rfl, ?_⟩ (fun _ _ _ _ _ ⟨_, hlin⟩ hstep => hlin.step hstep) h
  · rw [Machine.running, idle]
    rfl
  · rw [idle]
    exact fun _ _ hcall => nomatch hcall

/-- The calls in the order are calls that were made. -/
theorem Linearised.mem {init : Gpio} {past order : List Event} {m : Machine}
    (h : Linearised init past order m) {e : Event} (he : e ∈ order) : e ∈ past := by
  cases e with
  | handler t =>
      have hin : t ∈ handlerCalls order := List.mem_filterMap.mpr ⟨_, he, rfl⟩
      rw [h.handler] at hin
      have ⟨e, he, ht⟩ := List.mem_filterMap.mp hin
      cases e with
      | task _ => cases ht
      | handler _ => cases ht; exact he
  | task t =>
      have hin : t ∈ taskCalls past := by
        rw [h.task]
        exact List.mem_append_left _ (List.mem_filterMap.mpr ⟨_, he, rfl⟩)
      have ⟨e, he, ht⟩ := List.mem_filterMap.mp hin
      cases e with
      | handler _ => cases ht
      | task _ => cases ht; exact he

/-- In every run the register holds what the calls of `led_toggle` leave when they are
executed one after the other, in an order that keeps the order of the tasks' calls and
that of the handler's; a call that has not written yet comes last. Every bit has the
status of the last call in that order that addresses it, and its first value without one. -/
theorem led_updates_linearise {s u : Machine} {acts : List Act} {evs : List Event}
    (idle : s.call = none) (h : Transition.run step s acts = some (evs, u)) :
    ∃ order : List Event,
      handlerCalls evs = handlerCalls order ∧
      taskCalls evs = taskCalls order ++ u.running.toList ∧
      u.device.gpioData =
        ((inOrder (order.map Event.toggle)).exec perform s.device).2.gpioData ∧
      (∀ before e after i j, order = before ++ e :: after → e.toggle.write.Addresses i j →
        (∀ e' ∈ after, ¬e'.toggle.write.Addresses i j) →
        (u.device.gpioData i).getLsbD j = e.toggle.status.getLsbD j) ∧
      ∀ i j, (∀ e ∈ evs, ¬e.toggle.write.Addresses i j) →
        (u.device.gpioData i).getLsbD j = (s.device.gpioData i).getLsbD j := by
  have ⟨order, hlin⟩ := Linearised.run idle h
  refine ⟨order, hlin.handler.symm, hlin.task, ?_, ?_, ?_⟩
  · rw [exec_inOrder, List.map_map]
    exact hlin.gpio
  · intro before e after i j horder haddresses hlast
    rw [hlin.gpio, horder, writes, List.map_append, List.map_cons]
    apply getLsbD_foldl_of_last haddresses
    intro y hy
    have ⟨e', he', hwrite⟩ := List.mem_map.mp hy
    rw [← hwrite]
    exact hlast e' he'
  · intro i j hnone
    rw [hlin.gpio]
    apply getLsbD_foldl_of_not_addressed
    intro y hy
    have ⟨e, he, hwrite⟩ := List.mem_map.mp hy
    rw [← hwrite]
    exact hnone e (hlin.mem he)

/-- A latched tick, and LEDs lit outside the low half of byte 0. -/
def tickPending : Machine where
  device :=
    { tcsr0 := 0xf0, tlr0 := 0, tcsr1 := 0, isr := 1, ier := 0xf, ipisr := 0
      gpioData := fun _ => 0xa0, heartbeatCounter := 0, mie := true, mpie := true
      edges := 0, ticks := 0 }
  call := none

/-- The handler sets LED 0 between the read and the write that clears all four. -/
theorem led_updates_linearise_interrupted :
    ∃ evs u, Transition.run step tickPending
        [.call (.task1000ms false), .access, .interrupt 0x8000000b 0x100 [], .access] = some (evs, u) ∧
      u.device.gpioData 0 = 0xa0 ∧
      ∃ order : List Event,
        handlerCalls evs = handlerCalls order ∧
        taskCalls evs = taskCalls order ++ u.running.toList ∧
        u.device.gpioData =
          ((inOrder (order.map Event.toggle)).exec perform tickPending.device).2.gpioData ∧
        (∀ before e after i j, order = before ++ e :: after → e.toggle.write.Addresses i j →
          (∀ e' ∈ after, ¬e'.toggle.write.Addresses i j) →
          (u.device.gpioData i).getLsbD j = e.toggle.status.getLsbD j) ∧
        ∀ i j, (∀ e ∈ evs, ¬e.toggle.write.Addresses i j) →
          (u.device.gpioData i).getLsbD j = (tickPending.device.gpioData i).getLsbD j := by
  have ⟨evs, u, h, hcheck⟩ := Transition.exists_run_of_check step tickPending
    [.call (.task1000ms false), .access, .interrupt 0x8000000b 0x100 [], .access]
    (fun _ u => u.device.gpioData 0 == 0xa0) (by decide +kernel)
  exact ⟨evs, u, h, eq_of_beq hcheck, led_updates_linearise rfl h⟩

end TraceFS.Leds
