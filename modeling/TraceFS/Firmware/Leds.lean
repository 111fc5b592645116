import TraceFS.Lib.MaskedWrites
import TraceFS.Firmware.HandlerTicks

/-!
The calls of `led_toggle` in task code and in `handle_trap`.

A call updates one byte of the GPIO data register under the mask of its LEDs. The
handler's calls are read off its run, while the devices move before every access.
-/
namespace TraceFS.Leds
open Access Hal MaskedWrites

abbrev Gpio := Fin 4 → Byte

structure Toggle where
  led : Led
  status : Byte
  deriving DecidableEq, Repr

def Toggle.code (t : Toggle) : Code Unit := ledToggle t.led t.status

/-- The byte and the bits of an LED; no LED has bits in both bytes. -/
def byteOf (led : Led) : Fin 4 := if led.mask0 ≠ 0 then 3 else 0
def maskOf (led : Led) : Byte := if led.mask0 ≠ 0 then led.mask0 else led.mask1

def Toggle.write (t : Toggle) : Write (Fin 4) 8 := ⟨byteOf t.led, maskOf t.led, t.status⟩

/-! The calls made by tasks and by `blinkenlights`. -/

inductive TaskCall
  | task5ms (flag on : Bool)
  | task1000ms (on : Bool)
  | blinkenlights (cycles : Word)
  deriving DecidableEq, Repr

/-- `((cycles & 0x03000000) << 6) >> 24` -/
def ledBits (cycles : Word) : Word := ((cycles &&& 0x03000000) <<< 6) >>> 24

def statusOf (on : Bool) : Byte := if on then ledOn else ledOff

def TaskCall.toggle : TaskCall → Toggle
  | .task5ms flag on => ⟨if flag then .ledUf1 else .ledUf2, statusOf on⟩
  | .task1000ms on => ⟨.ledBlock1, statusOf on⟩
  | .blinkenlights cycles => ⟨.ledBlock0, (ledBits cycles).setWidth 8⟩

/-- `blinkenlights` calls `led_toggle` under `if (led_bits)`. -/
def TaskCall.made : TaskCall → Bool
  | .blinkenlights cycles => ledBits cycles ≠ 0
  | _ => true

/-! The calls made by `handle_trap`. -/

inductive Move
  | expire
  | otherDevices (isr ier ipisr : Word)

def Move.apply (d : Device) : Move → Device
  | .expire => if d.ent0 then Hal.expire d else d
  | .otherDevices isr ier ipisr => Hal.otherDevices d isr ier ipisr

/-- The devices, and their moves before each of the next accesses. -/
structure World where
  device : Device
  moves : List (List Move)

def World.moved (w : World) : Device := (w.moves.headD []).foldl Move.apply w.device

def performIn (op : Op) (w : World) : op.Res × World :=
  ((perform op w.moved).1, ⟨(perform op w.moved).2, w.moves.tail⟩)

/-- The arguments of `pollInterrupt` for one interrupt. -/
structure Source where
  irq : Irq
  led : Led
  acknowledge : Code Unit
  handle : Code Unit

def Source.poll (x : Source) : Code Unit := Handler.pollInterrupt x.irq x.led x.acknowledge x.handle

def sources : List Source :=
  [⟨.irq0, .led0, Handler.acknowledgeTimers, Handler.handleTimerInterrupt⟩,
    ⟨.irq1, .led1, pure (), pure ()⟩,
    ⟨.irq2, .led2, gpioAcknowledgeInterrupt, Handler.handleGpioInterrupt⟩,
    ⟨.irq3, .led3, pure (), pure ()⟩]

/-- The call one block makes: ON where the interrupt is pending, OFF otherwise. -/
def Source.toggle (x : Source) (w : World) : Toggle :=
  ⟨x.led, statusOf ((irqIsPendingInterrupt x.irq).exec performIn w).1⟩

def togglesFrom : List Source → World → List Toggle
  | [], _ => []
  | x :: xs, w => x.toggle w :: togglesFrom xs (x.poll.exec performIn w).2

def handlerToggles (mcause : Word) (w : World) : List Toggle :=
  if mcause &&& 0x80000000 = 0 then []
  else togglesFrom sources (coreDisableInterrupts.exec performIn w).2

/-! What a call does to the register. -/

theorem maskOf_ne_zero (led : Led) : maskOf led ≠ 0 := by
  cases led <;> decide

theorem toggle_code (t : Toggle) :
    t.code = updateGpioByte (byteOf t.led) (maskOf t.led) t.status := by
  have ⟨led, status⟩ := t
  cases led <;> rfl

def KeepsGpio : Op → Prop
  | .writeGpioByte _ _ => False
  | _ => True

theorem Move.gpioData (d : Device) (m : Move) : (m.apply d).gpioData = d.gpioData := by
  cases m with
  | expire =>
      rw [Move.apply]
      split <;> rfl
  | otherDevices isr ier ipisr => rfl

theorem World.moved_gpioData (w : World) : w.moved.gpioData = w.device.gpioData := by
  rw [World.moved]
  generalize w.moves.headD [] = ms
  generalize w.device = d
  induction ms generalizing d with
  | nil => rfl
  | cons m ms ih => exact (ih _).trans (m.gpioData d)

theorem perform_gpioData {op : Op} (h : KeepsGpio op) (d : Device) :
    (perform op d).2.gpioData = d.gpioData := by
  cases op with
  | write r v => cases r <;> rfl
  | csrClearBits csr mask | csrSetBits csr mask =>
      simp only [perform]
      split <;> rfl
  | call f => cases f <;> rfl
  | writeGpioByte i v => exact False.elim h
  | _ => rfl

/-- Programs that write no byte of the register. -/
theorem exec_gpioData {α : Type} {p : Code α} (h : p.Uses KeepsGpio) (w : World) :
    (p.exec performIn w).2.device.gpioData = w.device.gpioData := by
  apply Prog.exec_of_uses (f := fun w : World => w.device.gpioData) _ h
  intro op w hop
  exact (perform_gpioData hop w.moved).trans w.moved_gpioData

theorem exec_toggle (t : Toggle) (w : World) :
    (t.code.exec performIn w).2.device.gpioData = t.write.apply w.device.gpioData := by
  rw [toggle_code, updateGpioByte, if_neg (maskOf_ne_zero t.led), Prog.exec_bind]
  change Function.update (World.moved _).gpioData (byteOf t.led) _ = _
  rw [World.moved_gpioData]
  change Function.update w.moved.gpioData (byteOf t.led)
    (blend (maskOf t.led) t.status (w.moved.gpioData (byteOf t.led))) = _
  rw [World.moved_gpioData]
  rfl

/-! The register after `handle_trap`. -/

theorem pollInterrupt_eq (x : Source) : x.poll = (do
    let pending ← irqIsPendingInterrupt x.irq
    if pending then do
      x.acknowledge
      irqAcknowledgeInterrupt x.irq
      (⟨x.led, ledOn⟩ : Toggle).code
      x.handle
    else (⟨x.led, ledOff⟩ : Toggle).code) := rfl

theorem exec_poll {x : Source} (hack : x.acknowledge.Uses KeepsGpio)
    (hhandle : x.handle.Uses KeepsGpio) (w : World) :
    (x.poll.exec performIn w).2.device.gpioData = (x.toggle w).write.apply w.device.gpioData := by
  have hpending : (irqIsPendingInterrupt x.irq).Uses KeepsGpio :=
    Prog.uses_bind (Prog.uses_perform trivial) fun _ => Prog.uses_pure _
  have hiar : (irqAcknowledgeInterrupt x.irq).Uses KeepsGpio := Prog.uses_perform trivial
  rw [pollInterrupt_eq, Prog.exec_bind, Source.toggle]
  have hread := exec_gpioData hpending w
  cases hp : ((irqIsPendingInterrupt x.irq).exec performIn w).1 with
  | true =>
      rw [if_pos rfl, Prog.exec_bind, Prog.exec_bind, Prog.exec_bind, exec_gpioData hhandle,
        exec_toggle, exec_gpioData hiar, exec_gpioData hack, hread]
      rfl
  | false =>
      rw [if_neg Bool.false_ne_true, exec_toggle, hread]
      rfl

theorem togglesFrom_gpioData {xs : List Source}
    (h : ∀ x ∈ xs, x.acknowledge.Uses KeepsGpio ∧ x.handle.Uses KeepsGpio) (w : World) :
    (xs.foldl (fun w x => (x.poll.exec performIn w).2) w).device.gpioData =
      ((togglesFrom xs w).map Toggle.write).foldl Write.apply w.device.gpioData := by
  induction xs generalizing w with
  | nil => rfl
  | cons x xs ih =>
      have ⟨hack, hhandle⟩ := h x List.mem_cons_self
      rw [List.foldl_cons, ih fun y hy => h y (List.mem_cons_of_mem x hy), exec_poll hack hhandle]
      rfl

theorem sources_keepGpio :
    ∀ x ∈ sources, x.acknowledge.Uses KeepsGpio ∧ x.handle.Uses KeepsGpio := by
  have hgpio : gpioAcknowledgeInterrupt.Uses KeepsGpio := by
    apply Prog.uses_bind (Prog.uses_perform trivial)
    intro ipisr
    split
    · exact Prog.uses_perform trivial
    · exact Prog.uses_pure _
  have htimers : Handler.acknowledgeTimers.Uses KeepsGpio :=
    ⟨trivial, fun _ => ⟨trivial, fun _ => ⟨trivial, fun _ => ⟨trivial, fun _ => trivial⟩⟩⟩⟩
  have htimer : Handler.handleTimerInterrupt.Uses KeepsGpio :=
    ⟨trivial, fun _ => ⟨trivial, fun _ => ⟨trivial, fun _ => trivial⟩⟩⟩
  have hisr : Handler.handleGpioInterrupt.Uses KeepsGpio := ⟨trivial, fun _ => trivial⟩
  simp only [sources, List.forall_mem_cons]
  exact ⟨⟨htimers, htimer⟩, ⟨trivial, trivial⟩, ⟨hgpio, hisr⟩, ⟨trivial, trivial⟩, nofun⟩

/-- `handle_trap` leaves what its calls of `led_toggle` leave, in their order. -/
theorem exec_handleTrap (mcause mepc : Word) (w : World) :
    ((Handler.handleTrap mcause mepc).exec performIn w).2.device.gpioData =
      ((handlerToggles mcause w).map Toggle.write).foldl Write.apply w.device.gpioData := by
  have hdisable : coreDisableInterrupts.Uses KeepsGpio := Prog.uses_perform trivial
  have henable : coreEnableInterrupts.Uses KeepsGpio := Prog.uses_perform trivial
  rw [Handler.handleTrap, Prog.exec_bind, Prog.exec_bind, Prog.exec_bind, Prog.exec_pure,
    exec_gpioData henable, handlerToggles, Handler.pollInterrupts]
  split
  · exact exec_gpioData hdisable w
  · rw [← exec_gpioData hdisable w, ← togglesFrom_gpioData sources_keepGpio]
    simp only [Prog.exec_bind]
    rfl

theorem led_of_togglesFrom {xs : List Source} {w : World} {t : Toggle} (h : t ∈ togglesFrom xs w) :
    ∃ x ∈ xs, t.led = x.led := by
  induction xs generalizing w with
  | nil => cases h
  | cons x xs ih =>
      cases h with
      | head => exact ⟨x, List.mem_cons_self, rfl⟩
      | tail _ h =>
          have ⟨y, hy, hled⟩ := ih h
          exact ⟨y, List.mem_cons_of_mem x hy, hled⟩

/-- The handler's LEDs lie in the low half of byte 0. -/
theorem handlerToggles_led {mcause : Word} {w : World} {t : Toggle}
    (h : t ∈ handlerToggles mcause w) : byteOf t.led = 0 ∧ Within (maskOf t.led) 0x0f := by
  have hsources : ∀ x ∈ sources, byteOf x.led = 0 ∧ maskOf x.led &&& 0x0f = maskOf x.led := by
    simp only [sources, List.forall_mem_cons]
    exact ⟨by decide, by decide, by decide, by decide, nofun⟩
  unfold handlerToggles at h
  split at h
  · cases h
  · have ⟨x, hx, hled⟩ := led_of_togglesFrom h
    have ⟨hbyte, hmask⟩ := hsources x hx
    rw [hled]
    exact ⟨hbyte, within_of_and_eq hmask⟩

/-- The tasks' LEDs lie in byte 3, or are all of the low half of byte 0. -/
theorem handlerToggles_yield {mcause : Word} {w : World} {t : Toggle}
    (h : t ∈ handlerToggles mcause w) (c : TaskCall) : t.write.Yields c.toggle.write := by
  have ⟨hbyte, hmask⟩ := handlerToggles_led h
  have hother : (0 : Fin 4) ≠ 3 := by decide
  intro hcell
  cases c with
  | task1000ms on => exact hmask
  | task5ms flag on =>
      cases flag <;> exact absurd (hbyte.symm.trans hcell) hother
  | blinkenlights cycles => exact absurd (hbyte.symm.trans hcell) hother

end TraceFS.Leds
