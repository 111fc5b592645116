import TraceFS.Firmware.HandlerTicks

/-!
Nested activations of `trap_entry`.

Only the innermost activation can be inside the masked part of `handle_trap`. What
`handle_trap` keeps when it runs masked is therefore kept by every move of the
devices and the handlers, nested traps included.
-/
namespace TraceFS.Handler

open Access Hal

/-- An assertion on the devices that holds between traps and survives them. -/
structure Kept (A P : Device → Prop) : Prop where
  stable : Stable (maskedBy A) P
  enables : ∀ d mie mpie, P d → P { d with mie := mie, mpie := mpie }
  handleTrap : ∀ mcause mepc, Triple (maskedBy A) (Masked P) (handleTrap mcause mepc) fun _ => P

section Quiet
variable {A P : Device → Prop} (stable : Stable (maskedBy A) P) (guard : ∀ d, P d → A d)
  (keep : ∀ op d, Quiet op → P d → P (perform op d).2)
include stable guard keep

/-- Only the timer's block of `handle_trap` needs a look of its own. -/
theorem Kept.of_timer (enables : ∀ d mie mpie, P d → P { d with mie := mie, mpie := mpie })
    (timer : Triple (maskedBy A) (Masked P)
      (pollInterrupt .irq0 .led0 acknowledgeTimers handleTimerInterrupt) fun _ => Masked P) :
    Kept A P where
  stable := stable
  enables := enables
  handleTrap mcause mepc := by
    have hmasked := Masked.stableBy stable
    have hguard : ∀ d, Masked P d → (maskedBy A).atAccess d := fun d hd => ⟨hd.1, guard d hd.2⟩
    have hquiet {p : Code Unit} (h : p.Uses Quiet) := quiet_triple stable guard keep h
    have disable : Triple (maskedBy A) (Masked P) coreDisableInterrupts fun _ => Masked P := by
      apply Triple.perform hmasked hguard (fun _ => hmasked)
      intro d hd
      exact ⟨show (d.mie && _) = false by rw [hd.1, Bool.false_and], enables d _ _ hd.2⟩
    have enable : Triple (maskedBy A) (Masked P) coreEnableInterrupts fun _ => P :=
      Triple.perform hmasked hguard (fun _ => stable) fun d hd => enables d _ _ hd.2
    have poll : Triple (maskedBy A) (Masked P) (pollInterrupts mcause) fun _ => Masked P := by
      unfold pollInterrupts
      split
      · exact Triple.pure hmasked fun _ h => h
      · exact timer.bind fun _ =>
          (hquiet (pollInterrupt_quiet .led1 (by decide) (Prog.uses_pure ())
            (Prog.uses_pure ()))).bind fun _ =>
          (hquiet (pollInterrupt_quiet .led2 (by decide) gpioAcknowledgeInterrupt_quiet
            (Prog.uses_perform trivial))).bind fun _ =>
          hquiet (pollInterrupt_quiet .led3 (by decide) (Prog.uses_pure ()) (Prog.uses_pure ()))
    exact disable.bind fun _ => poll.bind fun _ => enable.bind fun _ =>
      Triple.pure stable fun _ h => h

end Quiet

inductive Returned : Frame → Prop
  | body (mepc : Word) : Returned (.body (.ret mepc))
  | epilogue (mepc : Word) : Returned (.epilogue mepc)

def Act.byTask : Act → Bool
  | .callDisable | .taskAccess => true
  | _ => false

/-- What the devices and the activations do without the interrupted task. -/
inductive Rule (s : System) : Act → System → Prop where
  | expire : s.device.ent0 = true → Rule s .expire { s with device := expire s.device }
  | otherDevices (isr ier ipisr : Word) :
      Rule s (.otherDevices isr ier ipisr) { s with device := otherDevices s.device isr ier ipisr }
  | trap (mcause mepc : Word) : s.device.mie = true →
      Rule s (.trap mcause mepc)
        { s with
          device := { s.device with mpie := s.device.mie, mie := false }
          frames := .prologue mcause mepc :: s.frames }
  | callHandler (mcause mepc : Word) (fs : List Frame) : s.frames = .prologue mcause mepc :: fs →
      Rule s .callHandler { s with frames := .body (handleTrap mcause mepc) :: fs }
  | access (op : Op) (k : op.Res → Code Word) (fs : List Frame) :
      s.frames = .body (.access op k) :: fs →
      Rule s .access
        { s with
          device := (perform op s.device).2
          frames := .body (k (perform op s.device).1) :: fs }
  | returnHandler (mepc : Word) (fs : List Frame) : s.frames = .body (.ret mepc) :: fs →
      Rule s .returnHandler { s with frames := .epilogue mepc :: fs }
  | mret (mepc : Word) (fs : List Frame) : s.frames = .epilogue mepc :: fs →
      Rule s .mret
        { s with device := { s.device with mie := s.device.mpie, mpie := true }, frames := fs }

theorem step_rule {s t : System} {a : Act} {evs : List Unit} (ha : a.byTask = false)
    (h : step s a = some (evs, t)) : Rule s a t := by
  have ⟨d, fs, task⟩ := s
  cases a with
  | expire =>
      simp only [step, Option.ite_none_right_eq_some] at h
      cases h.2
      exact .expire h.1
  | otherDevices isr ier ipisr =>
      cases h
      exact .otherDevices isr ier ipisr
  | trap mcause mepc =>
      simp only [step, Option.ite_none_right_eq_some] at h
      cases h.2
      exact .trap mcause mepc h.1.1
  | callHandler =>
      simp only [step] at h
      split at h
      · cases h
        exact .callHandler _ _ _ rfl
      · cases h
  | access =>
      simp only [step] at h
      split at h
      · rename_i p fs
        cases p with
        | ret mepc => cases h
        | access op k =>
            cases h
            exact .access op k fs rfl
      · cases h
  | returnHandler =>
      simp only [step] at h
      split at h
      · cases h
        exact .returnHandler _ _ rfl
      · cases h
  | mret =>
      simp only [step] at h
      split at h
      · cases h
        exact .mret _ _ rfl
      · cases h
  | callDisable | taskAccess => cases ha

theorem Rule.task {s t : System} {a : Act} (h : Rule s a t) : t.task = s.task := by
  cases h <;> rfl

section Nested
variable (A P : Device → Prop)

/-- The innermost activation. -/
def Live (d : Device) : Frame → Prop
  | .prologue _ _ => Masked P d
  | .body p => Safe (maskedBy A) (fun _ => P) p d
  | .epilogue _ => P d

def Nested (d : Device) : List Frame → Prop
  | [] => P d
  | f :: fs => Live A P d f ∧ ∀ g ∈ fs, Returned g

end Nested

section Kept
variable {A P : Device → Prop} (hkept : Kept A P)
include hkept

theorem Returned.live_iff {d : Device} {f : Frame} (h : Returned f) : Live A P d f ↔ P d := by
  cases h with
  | epilogue mepc => exact Iff.rfl
  | body mepc =>
      constructor
      · intro (h : Safe (maskedBy A) (fun _ => P) (.ret mepc) d)
        exact h.result
      · exact fun hd e move => hkept.stable d e hd move

theorem Nested.of_mie {d : Device} {fs : List Frame} (h : Nested A P d fs) (hmie : d.mie = true) :
    P d ∧ ∀ f ∈ fs, Returned f := by
  cases fs with
  | nil => exact ⟨h, fun f hf => absurd hf List.not_mem_nil⟩
  | cons f fs =>
      have hf : Returned f := by
        cases f with
        | prologue mcause mepc => exact Bool.noConfusion (hmie.symm.trans h.1.1)
        | body p =>
            cases p with
            | ret mepc => exact .body mepc
            | access op k => exact Bool.noConfusion (hmie.symm.trans h.1.atAccess.1)
        | epilogue mepc => exact .epilogue mepc
      refine ⟨(hf.live_iff hkept).mp h.1, fun g hg => ?_⟩
      cases hg with
      | head => exact hf
      | tail _ hg => exact h.2 g hg

theorem Nested.move {d e : Device} {fs : List Frame} (h : Nested A P d fs) (move : Moves d e) :
    Nested A P e fs := by
  cases fs with
  | nil => exact hkept.stable d e h move
  | cons f fs =>
      refine ⟨?_, h.2⟩
      cases f with
      | prologue mcause mepc => exact ⟨(Moves.mie move).trans h.1.1, hkept.stable d e h.1.2 move⟩
      | body p => exact Safe.env h.1 move
      | epilogue mepc => exact hkept.stable d e h.1 move

theorem Nested.trap {d : Device} {fs : List Frame} (h : Nested A P d fs) (hmie : d.mie = true)
    (mcause mepc : Word) (mpie : Bool) :
    Nested A P { d with mpie := mpie, mie := false } (.prologue mcause mepc :: fs) := by
  have ⟨hd, hreturned⟩ := h.of_mie hkept hmie
  exact ⟨⟨rfl, hkept.enables d false mpie hd⟩, hreturned⟩

theorem Nested.mret {d : Device} {mepc : Word} {fs : List Frame}
    (h : Nested A P d (.epilogue mepc :: fs)) (mie mpie : Bool) :
    Nested A P { d with mie := mie, mpie := mpie } fs := by
  have hd := hkept.enables d mie mpie h.1
  cases fs with
  | nil => exact hd
  | cons g fs =>
      have hg := h.2 g List.mem_cons_self
      exact ⟨(hg.live_iff hkept).mpr hd, fun g' hg' => h.2 g' (List.mem_cons_of_mem g hg')⟩

theorem Nested.step {s t : System} {a : Act} (h : Nested A P s.device s.frames)
    (hrule : Rule s a t) : Nested A P t.device t.frames := by
  cases hrule with
  | expire running => exact h.move hkept ((Moves.refl _).expire running)
  | otherDevices isr ier ipisr => exact h.move hkept ((Moves.refl _).otherDevices isr ier ipisr)
  | trap mcause mepc hmie => exact h.trap hkept hmie mcause mepc s.device.mie
  | callHandler mcause mepc fs hframes =>
      rw [hframes] at h
      exact ⟨hkept.handleTrap mcause mepc _ h.1, h.2⟩
  | access op k fs hframes =>
      rw [hframes] at h
      exact ⟨Safe.next h.1, h.2⟩
  | returnHandler mepc fs hframes =>
      rw [hframes] at h
      exact ⟨((Returned.body mepc).live_iff hkept).mp h.1, h.2⟩
  | mret mepc fs hframes =>
      rw [hframes] at h
      exact Nested.mret hkept h s.device.mpie true

end Kept

end TraceFS.Handler
