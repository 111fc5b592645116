import TraceFS.Firmware.TrapNesting

/-!
Where `mret` goes when traps nest.

From its `csrr` on an activation carries the interrupted program counter in a
register or in `handle_trap`, and the only moment it depends on the shared `mepc`
again is between its `csrw` and its `mret`. A trap outside that window leaves
every outer activation as it was.
-/
namespace TraceFS.TrapNesting

open Access TrapEntry
open Hal hiding Reg

/-! What the instructions change. -/

def writesReg : Instr → Option TrapEntry.Reg
  | .addi rd _ _ => some rd
  | .lw rd _ _ => some rd
  | .csrr rd _ => some rd
  | .laExcReason rd => some rd
  | _ => none

def storesAt : Instr → Option Nat
  | .sw _ offset base => if base = sp then some offset else none
  | _ => none

def writesMepc : Instr → Bool
  | .csrw .mepc _ => true
  | _ => false

section Exec
variable {m : Machine} {frame : Nat → Word} {i : Instr}

theorem execInstr_regs {r : TrapEntry.Reg} (h : writesReg i ≠ some r) :
    (execInstr m frame i).1.regs r = m.regs r := by
  cases i with
  | addi rd rs imm => exact setReg_of_ne fun hr => h (congrArg some hr.symm)
  | lw rd offset base => exact setReg_of_ne fun hr => h (congrArg some hr.symm)
  | csrr rd csr => cases csr <;> exact setReg_of_ne fun hr => h (congrArg some hr.symm)
  | laExcReason rd => exact setReg_of_ne fun hr => h (congrArg some hr.symm)
  | sw rs2 offset base =>
      simp only [execInstr]
      split <;> rfl
  | csrw csr rs => cases csr <;> rfl
  | callHandleTrap => rfl
  | mret => rfl

theorem execInstr_frame {offset : Nat} (h : storesAt i ≠ some offset) :
    (execInstr m frame i).2 offset = frame offset := by
  cases i with
  | sw rs2 offset' base =>
      simp only [storesAt] at h
      simp only [execInstr]
      split
      case isTrue hb =>
          rw [if_pos hb] at h
          exact Function.update_of_ne (fun ho => h (congrArg some ho.symm)) _ _
      case isFalse => rfl
  | csrr rd csr => cases csr <;> rfl
  | csrw csr rs => cases csr <;> rfl
  | _ => rfl

theorem execInstr_mepc (h : writesMepc i = false) : (execInstr m frame i).1.mepc = m.mepc := by
  cases i with
  | csrw csr rs =>
      cases csr with
      | mcause => rfl
      | mepc => cases h
  | sw rs2 offset base =>
      simp only [execInstr]
      split <;> rfl
  | csrr rd csr => cases csr <;> rfl
  | _ => rfl

theorem execInstr_other : (execInstr m frame i).1.device = m.device ∧
    (execInstr m frame i).1.taskPc = m.taskPc := by
  cases i with
  | sw rs2 offset base =>
      simp only [execInstr]
      split <;> exact ⟨rfl, rfl⟩
  | csrr rd csr => cases csr <;> exact ⟨rfl, rfl⟩
  | csrw csr rs => cases csr <;> exact ⟨rfl, rfl⟩
  | _ => exact ⟨rfl, rfl⟩

end Exec

/-! Where `trap_entry` does it: `a0` goes to the slot at `5*4(sp)`. -/

def a0Slot : Nat := 5 * 4

section Listing
variable {index : Nat} {i : Instr} (h : trapEntry[index]? = some i)
include h

theorem a0_written (hw : writesReg i = some a0) : index = 17 ∨ index = 28 := by
  have hall : ∀ j : Fin trapEntry.length, writesReg trapEntry[j] = some a0 →
      j.val = 17 ∨ j.val = 28 := by decide
  obtain ⟨hlt, rfl⟩ := List.getElem?_eq_some_iff.mp h
  exact hall ⟨index, hlt⟩ hw

theorem a1_written (hw : writesReg i = some a1) : index = 18 ∨ index = 29 := by
  have hall : ∀ j : Fin trapEntry.length, writesReg trapEntry[j] = some a1 →
      j.val = 18 ∨ j.val = 29 := by decide
  obtain ⟨hlt, rfl⟩ := List.getElem?_eq_some_iff.mp h
  exact hall ⟨index, hlt⟩ hw

theorem a0Slot_stored (hw : storesAt i = some a0Slot) : index = 5 := by
  have hall : ∀ j : Fin trapEntry.length, storesAt trapEntry[j] = some a0Slot → j.val = 5 := by
    decide
  obtain ⟨hlt, rfl⟩ := List.getElem?_eq_some_iff.mp h
  exact hall ⟨index, hlt⟩ hw

theorem mepc_written (hw : writesMepc i = true) : index = 23 := by
  have hall : ∀ j : Fin trapEntry.length, writesMepc trapEntry[j] = true → j.val = 23 := by
    decide
  obtain ⟨hlt, rfl⟩ := List.getElem?_eq_some_iff.mp h
  exact hall ⟨index, hlt⟩ hw

end Listing

/-! The invariant. -/

structure AtEntry (m : Machine) (a : Activation) (index : Nat) : Prop where
  masked : index ≤ 22 → m.device.mie = false ∧ m.mepc = a.taken
  argument : 19 ≤ index → index ≤ 22 → m.regs a1 = a.taken
  kept : index ≤ 17 → m.regs a0 = a.savedA0
  saved : 6 ≤ index → a.frame a0Slot = a.savedA0
  returned : index = 23 → m.regs a0 = a.taken
  written : 24 ≤ index → m.mepc = a.taken
  restored : 29 ≤ index → m.regs a0 = a.savedA0

/-- An activation that may be interrupted: inside `handle_trap` or just before its
`csrw`. -/
def Resting (a : Activation) : Prop :=
  a.frame a0Slot = a.savedA0 ∧
    match a.stage with
    | .entry index => index = 23
    | .body p _ => p.Returns (· = a.taken)

def Running (m : Machine) (a : Activation) : Prop :=
  match a.stage with
  | .entry index => AtEntry m a index
  | .body _ _ => Resting a

/-- Each activation was taken where the next outer one rests, and keeps the `a0`
that one still needs. -/
def Linked (addr : Nat → Word) (taskPc : Word) : Activation → List Activation → Prop
  | a, [] => a.taken = taskPc
  | a, b :: rest =>
      a.taken = b.location addr ∧ (b.stage = .entry 23 → a.savedA0 = b.taken) ∧ Resting b ∧
        Linked addr taskPc b rest

structure Ok (addr : Nat → Word) (m : Machine) : Prop where
  here : m.pc = m.location addr
  running : ∀ a rest, m.activations = a :: rest → Running m a ∧ Linked addr m.taskPc a rest

theorem AtEntry.exec {m : Machine} {a : Activation} {index : Nat} {i : Instr} (pc : Word)
    (activations : List Activation) (h : AtEntry m a index) (hi : trapEntry[index]? = some i)
    (hcall : index ≠ 22) :
    AtEntry { (execInstr m a.frame i).1 with pc := pc, activations := activations }
      { a with frame := (execInstr m a.frame i).2, stage := .entry (index + 1) } (index + 1) := by
  have ha0 (hne : index ≠ 17 ∧ index ≠ 28) : (execInstr m a.frame i).1.regs a0 = m.regs a0 :=
    execInstr_regs fun hw => by
      have := a0_written hi hw
      omega
  have ha1 (hne : index ≠ 18 ∧ index ≠ 29) : (execInstr m a.frame i).1.regs a1 = m.regs a1 :=
    execInstr_regs fun hw => by
      have := a1_written hi hw
      omega
  have hslot (hne : index ≠ 5) : (execInstr m a.frame i).2 a0Slot = a.frame a0Slot :=
    execInstr_frame fun hw => hne (a0Slot_stored hi hw)
  have hmepc (hne : index ≠ 23) : (execInstr m a.frame i).1.mepc = m.mepc :=
    execInstr_mepc (by
      cases hw : writesMepc i with
      | false => rfl
      | true => exact absurd (mepc_written hi hw) hne)
  have ha0zero : a0 ≠ 0 := by decide
  have ha1zero : a1 ≠ 0 := by decide
  have hfetch {j : Nat} (hj : index = j) : trapEntry[j]? = some i := hj ▸ hi
  refine ⟨?_, ?_, ?_, ?_, ?_, ?_, ?_⟩
  · intro hle
    have hmasked := h.masked (by omega)
    exact ⟨(congrArg Device.mie execInstr_other.1).trans hmasked.1,
      (hmepc (by omega)).trans hmasked.2⟩
  · intro hge hle
    by_cases h18 : index = 18
    · obtain rfl : Instr.csrr a1 .mepc = i := Option.some.inj (hfetch h18)
      have hread : (execInstr m a.frame (.csrr a1 .mepc)).1.regs a1 = m.mepc := by
        change setReg m.regs a1 m.mepc a1 = m.mepc
        exact setReg_self ha1zero
      exact hread.trans (h.masked (by omega)).2
    · exact (ha1 (by omega)).trans (h.argument (by omega) (by omega))
  · intro hle
    exact (ha0 (by omega)).trans (h.kept (by omega))
  · intro hge
    by_cases h5 : index = 5
    · obtain rfl : Instr.sw a0 (5 * 4) sp = i := Option.some.inj (hfetch h5)
      have hstored : (execInstr m a.frame (.sw a0 (5 * 4) sp)).2 a0Slot = m.regs a0 := by
        rw [execInstr, if_pos rfl]
        change Function.update a.frame a0Slot (m.regs a0) a0Slot = m.regs a0
        exact Function.update_self _ _ _
      exact hstored.trans (h.kept (by omega))
    · exact (hslot h5).trans (h.saved (by omega))
  · omega
  · intro hge
    by_cases h23 : index = 23
    · obtain rfl : Instr.csrw .mepc a0 = i := Option.some.inj (hfetch h23)
      exact h.returned h23
    · exact (hmepc h23).trans (h.written (by omega))
  · intro hge
    by_cases h28 : index = 28
    · obtain rfl : Instr.lw a0 (5 * 4) sp = i := Option.some.inj (hfetch h28)
      have hloaded : (execInstr m a.frame (.lw a0 (5 * 4) sp)).1.regs a0 = a.frame a0Slot := by
        change setReg m.regs a0 (a.frame a0Slot) a0 = a.frame a0Slot
        exact setReg_self ha0zero
      exact hloaded.trans (h.saved (by omega))
    · exact (ha0 (by omega)).trans (h.restored (by omega))

/-! Steps. -/

section Steps
variable {addr : Nat → Word} {m n : Machine} {evs : List Event}

/-- An activation that can be interrupted is resting, and `a0` still holds what its
`csrw` will write. -/
theorem Ok.interrupted {b : Activation} {rest : List Activation} (h : Ok addr m)
    (hmie : m.device.mie = true) (outside : m.inWindow = false) (hm : m.activations = b :: rest) :
    Resting b ∧ (b.stage = .entry 23 → m.regs a0 = b.taken) := by
  have hrunning := (h.running b rest hm).1
  cases hs : b.stage with
  | body p pc =>
      rw [Running, hs] at hrunning
      exact ⟨hrunning, fun hb => by cases hb⟩
  | entry index =>
      rw [Running, hs] at hrunning
      have hbound : ¬ callIndex + 1 < index := by
        rw [Machine.inWindow, hm] at outside
        simpa only [hs, decide_eq_false_iff_not] using outside
      -- the prologue runs masked, so only the `csrw` itself is left
      have h23 : index = 23 := by
        by_contra hne
        have := (hrunning.masked (by simp only [callIndex] at hbound; omega)).1
        rw [hmie] at this
        cases this
      refine ⟨⟨hrunning.saved (by omega), ?_⟩, fun _ => hrunning.returned h23⟩
      rw [hs]
      exact h23

theorem Ok.trap (h : Ok addr m) (hmie : m.device.mie = true) (outside : m.inWindow = false)
    (mcause : Word) (device : Device) (masked : device.mie = false) :
    Ok addr { m with
      pc := addr 0
      mcause := mcause
      mepc := m.pc
      device := device
      activations :=
        { taken := m.pc, savedA0 := m.regs a0, frame := fun _ => 0, stage := .entry 0 } ::
          m.activations } := by
  have here := h.here
  refine ⟨rfl, ?_⟩
  intro a rest hactivations
  obtain ⟨rfl, rfl⟩ := List.cons.inj hactivations
  refine ⟨⟨fun _ => ⟨masked, rfl⟩, by omega, fun _ => rfl, by omega, by omega, by omega, by omega⟩,
    ?_⟩
  cases hm : m.activations with
  | nil =>
      rw [Machine.location, hm] at here
      exact here
  | cons b rest =>
      rw [Machine.location, hm] at here
      obtain ⟨hresting, ha0⟩ := h.interrupted hmie outside hm
      exact ⟨here, ha0, hresting, (h.running b rest hm).2⟩

theorem Resting.running {b : Activation} (h : Resting b)
    (ha0 : b.stage = .entry 23 → m.regs a0 = b.taken) : Running m b := by
  cases hs : b.stage with
  | body p pc =>
      rw [Running, hs]
      exact h
  | entry index =>
      have h23 := h.2
      rw [hs] at h23
      rw [Running, hs]
      refine ⟨by omega, by omega, by omega, fun _ => h.1, fun _ => ?_, by omega, by omega⟩
      rw [hs] at ha0
      exact ha0 (congrArg Stage.entry h23)

theorem Running.congr {a : Activation} (h : Running m a) (hmie : n.device.mie = m.device.mie)
    (hmepc : n.mepc = m.mepc) (hregs : n.regs = m.regs) : Running n a := by
  rw [Running] at h ⊢
  split
  case h_1 index hs =>
      rw [hs] at h
      have h : AtEntry m a index := h
      exact
        { masked := by rw [hmie, hmepc]; exact h.masked
          argument := by rw [hregs]; exact h.argument
          kept := by rw [hregs]; exact h.kept
          saved := h.saved
          returned := by rw [hregs]; exact h.returned
          written := by rw [hmepc]; exact h.written
          restored := by rw [hregs]; exact h.restored }
  case h_2 p pc hs =>
      rw [hs] at h
      exact h

theorem Linked.congr {taskPc : Word} {a b : Activation} {rest : List Activation}
    (h : Linked addr taskPc a rest) (taken : b.taken = a.taken) (savedA0 : b.savedA0 = a.savedA0) :
    Linked addr taskPc b rest := by
  cases rest with
  | nil => exact taken.trans h
  | cons c rest =>
      exact ⟨taken.trans h.1, fun hc => savedA0.trans (h.2.1 hc), h.2.2⟩

/-- The innermost activation moves on; what lies below it stays. -/
theorem Ok.replace {a b : Activation} {rest : List Activation} (h : Ok addr m)
    (hm : m.activations = a :: rest) (hn : n.activations = b :: rest) (htask : n.taskPc = m.taskPc)
    (taken : b.taken = a.taken) (savedA0 : b.savedA0 = a.savedA0) (here : n.pc = b.location addr)
    (running : Running n b) : Ok addr n := by
  refine ⟨by rw [Machine.location, hn]; exact here, ?_⟩
  intro b' rest' hb
  obtain ⟨rfl, rfl⟩ := List.cons.inj (hn.symm.trans hb)
  rw [htask]
  exact ⟨running, (h.running a rest hm).2.congr taken savedA0⟩

theorem Ok.body {a : Activation} {rest : List Activation} {p : Code Word} {pc : Word}
    (h : Ok addr m) (hm : m.activations = a :: rest) (hs : a.stage = .body p pc) :
    a.frame a0Slot = a.savedA0 ∧ p.Returns (· = a.taken) := by
  have hrunning := (h.running a rest hm).1
  rw [Running, hs, Resting, hs] at hrunning
  exact hrunning

theorem Ok.device (h : Ok addr m) (device : Device) (hmie : device.mie = m.device.mie) :
    Ok addr { m with device := device } :=
  ⟨h.here, fun a rest ha =>
    ⟨(h.running a rest ha).1.congr hmie rfl rfl, (h.running a rest ha).2⟩⟩

/-- Leaving an activation whose `mepc` and `a0` are restored. -/
theorem Ok.resume {a : Activation} {rest : List Activation} (h : Ok addr m)
    (hm : m.activations = a :: rest) (hmepc : m.mepc = a.taken) (ha0 : m.regs a0 = a.savedA0)
    (device : Device) :
    Ok addr { m with pc := m.mepc, device := device, activations := rest } := by
  have hlinked := (h.running a rest hm).2
  cases rest with
  | nil =>
      refine ⟨hmepc.trans hlinked, ?_⟩
      intro b rest' hb
      cases hb
  | cons b rest =>
      refine ⟨hmepc.trans hlinked.1, ?_⟩
      intro b' rest' hb
      obtain ⟨rfl, rfl⟩ := List.cons.inj hb
      exact ⟨hlinked.2.2.1.running fun hs => ha0.trans (hlinked.2.1 hs), hlinked.2.2.2⟩

theorem stepInstr_exec {a : Activation} {rest : List Activation} {index : Nat} {i : Instr}
    (hi : trapEntry[index]? = some i) (hcall : i ≠ .callHandleTrap) (hmret : i ≠ .mret) :
    stepInstr addr m a rest index =
      some ([], { (execInstr m a.frame i).1 with
        pc := addr (index + 1)
        activations :=
          { a with frame := (execInstr m a.frame i).2, stage := .entry (index + 1) } :: rest }) := by
  rw [stepInstr, hi]
  cases i with
  | callHandleTrap => exact absurd rfl hcall
  | mret => exact absurd rfl hmret
  | _ => rfl

theorem call_index {index : Nat} (h : trapEntry[index]? = some .callHandleTrap) : index = 22 := by
  have hall : ∀ j : Fin trapEntry.length, trapEntry[j] = .callHandleTrap → j.val = 22 := by decide
  obtain ⟨hlt, hcall⟩ := List.getElem?_eq_some_iff.mp h
  exact hall ⟨index, hlt⟩ hcall

theorem mret_index {index : Nat} (h : trapEntry[index]? = some .mret) : index = 41 := by
  have hall : ∀ j : Fin trapEntry.length, trapEntry[j] = .mret → j.val = 41 := by decide
  obtain ⟨hlt, hmret⟩ := List.getElem?_eq_some_iff.mp h
  exact hall ⟨index, hlt⟩ hmret

theorem not_resumed_nil (taken pc : Word) (h : Event.resumed taken pc ∈ ([] : List Event)) :
    pc = taken := by
  cases h

theorem Ok.instr {a : Activation} {rest : List Activation} {index : Nat} (h : Ok addr m)
    (hm : m.activations = a :: rest) (hs : a.stage = .entry index)
    (hstep : stepInstr addr m a rest index = some (evs, n)) :
    Ok addr n ∧ ∀ taken pc, .resumed taken pc ∈ evs → pc = taken := by
  have hrunning : AtEntry m a index := by
    have := (h.running a rest hm).1
    rw [Running, hs] at this
    exact this
  cases hi : trapEntry[index]? with
  | none => simp [stepInstr, hi] at hstep
  | some i =>
      by_cases hcall : i = .callHandleTrap
      · rw [hcall] at hi
        have hindex := call_index hi
        rw [stepInstr, hi] at hstep
        obtain ⟨rfl, rfl⟩ := Prod.mk.inj (Option.some.inj hstep)
        refine ⟨h.replace hm rfl rfl rfl rfl rfl ⟨hrunning.saved (by omega), ?_⟩, ?_⟩
        · have harg := hrunning.argument (by omega) (by omega)
          have := Handler.handleTrap_returns (m.regs a0) (m.regs a1)
          rw [harg] at this ⊢
          exact this
        · exact not_resumed_nil
      · by_cases hmret : i = .mret
        · rw [hmret] at hi
          have hindex := mret_index hi
          have hmepc := hrunning.written (by omega)
          rw [stepInstr, hi] at hstep
          obtain ⟨rfl, rfl⟩ := Prod.mk.inj (Option.some.inj hstep)
          refine ⟨h.resume hm hmepc (hrunning.restored (by omega)) _, ?_⟩
          intro taken pc hmem
          cases hmem with
          | head => exact hmepc
          | tail _ hmem => cases hmem
        · rw [stepInstr_exec hi hcall hmret] at hstep
          obtain ⟨rfl, rfl⟩ := Prod.mk.inj (Option.some.inj hstep)
          have hindex : index ≠ 22 := by
            intro h22
            rw [h22] at hi
            exact hcall (Option.some.inj hi).symm
          refine ⟨h.replace hm rfl execInstr_other.2 rfl rfl rfl ?_, ?_⟩
          · exact hrunning.exec _ _ hi hindex
          · exact not_resumed_nil

theorem Ok.compute {pc : Word} {regs : TrapEntry.Reg → Word} (h : Ok addr m)
    (hstep : TrapNesting.stepHere addr m (.compute pc regs) = some (evs, n)) :
    Ok addr n ∧ evs = [] := by
  cases hm : m.activations with
  | nil =>
      simp only [TrapNesting.stepHere, hm, Option.some.injEq, Prod.mk.injEq] at hstep
      obtain ⟨rfl, rfl⟩ := hstep
      exact ⟨⟨rfl, fun a rest ha => by cases ha⟩, rfl⟩
  | cons a rest =>
      cases hs : a.stage with
      | entry index => simp [TrapNesting.stepHere, hm, hs] at hstep
      | body p pc' =>
          have hresting := h.body hm hs
          simp only [TrapNesting.stepHere, hm, hs, Option.some.injEq, Prod.mk.injEq] at hstep
          obtain ⟨rfl, rfl⟩ := hstep
          exact ⟨h.replace hm rfl rfl rfl rfl rfl hresting, rfl⟩

theorem Ok.access (h : Ok addr m)
    (hstep : TrapNesting.stepHere addr m .access = some (evs, n)) : Ok addr n ∧ evs = [] := by
  cases hm : m.activations with
  | nil => simp [TrapNesting.stepHere, hm] at hstep
  | cons a rest =>
      cases hs : a.stage with
      | entry index => simp [TrapNesting.stepHere, hm, hs] at hstep
      | body p pc =>
          have hresting := h.body hm hs
          have here : m.pc = pc := by
            have := h.here
            rw [Machine.location, hm] at this
            simpa only [Activation.location, hs] using this
          cases p with
          | ret v => simp [TrapNesting.stepHere, hm, hs, Handler.advance] at hstep
          | access op k =>
              simp only [TrapNesting.stepHere, hm, hs, Handler.advance, Option.map_some,
                Option.some.injEq, Prod.mk.injEq] at hstep
              obtain ⟨rfl, rfl⟩ := hstep
              exact ⟨h.replace hm rfl rfl rfl rfl here ⟨hresting.1, hresting.2 _⟩, rfl⟩

/-- `handle_trap` hands back the argument it got from `mepc`. -/
theorem Ok.returnHandler {regs : TrapEntry.Reg → Word} (h : Ok addr m)
    (hstep : TrapNesting.stepHere addr m (.returnHandler regs) = some (evs, n)) :
    Ok addr n ∧ evs = [] := by
  cases hm : m.activations with
  | nil => simp [TrapNesting.stepHere, hm] at hstep
  | cons a rest =>
      cases hs : a.stage with
      | entry index => simp [TrapNesting.stepHere, hm, hs] at hstep
      | body p pc =>
          have hresting := h.body hm hs
          cases p with
          | access op k => simp [TrapNesting.stepHere, hm, hs] at hstep
          | ret v =>
              simp only [TrapNesting.stepHere, hm, hs, Option.some.injEq, Prod.mk.injEq] at hstep
              obtain ⟨rfl, rfl⟩ := hstep
              refine ⟨h.replace hm rfl rfl rfl rfl rfl ?_, rfl⟩
              have hzero : a0 ≠ 0 := by decide
              have ha0 : setReg regs a0 v a0 = a.taken := (setReg_self hzero).trans hresting.2
              exact ⟨by simp [callIndex], by simp [callIndex], by simp [callIndex],
                fun _ => hresting.1, fun _ => ha0, by simp [callIndex], by simp [callIndex]⟩

theorem Ok.stepHere {act : Act} (h : Ok addr m) (outside : OutsideWindow m act)
    (hstep : TrapNesting.stepHere addr m act = some (evs, n)) :
    Ok addr n ∧ ∀ taken pc, .resumed taken pc ∈ evs → pc = taken := by
  cases act with
  | trap mcause =>
      simp only [TrapNesting.stepHere, Option.ite_none_right_eq_some, Option.some.injEq,
        Prod.mk.injEq] at hstep
      obtain ⟨⟨hmie, -⟩, rfl, rfl⟩ := hstep
      exact ⟨h.trap hmie outside mcause _ rfl, not_resumed_nil⟩
  | compute pc regs =>
      obtain ⟨hn, rfl⟩ := h.compute hstep
      exact ⟨hn, not_resumed_nil⟩
  | access =>
      obtain ⟨hn, rfl⟩ := h.access hstep
      exact ⟨hn, not_resumed_nil⟩
  | returnHandler regs =>
      obtain ⟨hn, rfl⟩ := h.returnHandler hstep
      exact ⟨hn, not_resumed_nil⟩
  | instr =>
      cases hm : m.activations with
      | nil => simp [TrapNesting.stepHere, hm] at hstep
      | cons a rest =>
          cases hs : a.stage with
          | body p pc => simp [TrapNesting.stepHere, hm, hs] at hstep
          | entry index =>
              simp only [TrapNesting.stepHere, hm, hs] at hstep
              exact h.instr hm hs hstep
  | expire => cases hstep
  | otherDevices isr ier ipisr => cases hstep

theorem Ok.step {act : Act} (h : Ok addr m) (outside : OutsideWindow m act)
    (hstep : TrapNesting.step addr m act = some (evs, n)) :
    Ok addr n ∧ ∀ taken pc, .resumed taken pc ∈ evs → pc = taken := by
  have here {act : Act} (outside : OutsideWindow m act)
      (hstep : (if m.pc = m.location addr then TrapNesting.stepHere addr m act else none) =
        some (evs, n)) : Ok addr n ∧ ∀ taken pc, .resumed taken pc ∈ evs → pc = taken := by
    rw [if_pos h.here] at hstep
    exact h.stepHere outside hstep
  cases act with
  | expire =>
      simp only [TrapNesting.step, Option.ite_none_right_eq_some, Option.some.injEq,
        Prod.mk.injEq] at hstep
      obtain ⟨-, rfl, rfl⟩ := hstep
      exact ⟨h.device _ rfl, not_resumed_nil⟩
  | otherDevices isr ier ipisr =>
      simp only [TrapNesting.step, Option.some.injEq, Prod.mk.injEq] at hstep
      obtain ⟨rfl, rfl⟩ := hstep
      exact ⟨h.device _ rfl, not_resumed_nil⟩
  | trap mcause => exact here outside hstep
  | compute pc regs => exact here outside hstep
  | instr => exact here outside hstep
  | access => exact here outside hstep
  | returnHandler regs => exact here outside hstep

theorem Idle.ok (start : Idle m) : Ok addr m := by
  refine ⟨by rw [Machine.location, start.noTrap]; exact start.here, ?_⟩
  intro a rest ha
  rw [start.noTrap] at ha
  cases ha

/-- In a run without a trap between `csrw` and `mret` every activation resumes where
it was taken. -/
theorem resumes_where_taken {acts : List Act} (start : Idle m)
    (h : Transition.run (TrapNesting.step addr) m acts = some (evs, n))
    (outside : Transition.Guarded (TrapNesting.step addr) OutsideWindow m acts) :
    ∀ taken pc, Event.resumed taken pc ∈ evs → pc = taken := by
  have hinv : Ok addr n ∧ ∀ taken pc, Event.resumed taken pc ∈ evs → pc = taken := by
    apply Transition.guarded_invariant OutsideWindow
      (fun evs m => Ok addr m ∧ ∀ taken pc, Event.resumed taken pc ∈ evs → pc = taken)
      ⟨start.ok, not_resumed_nil⟩ _ outside h
    intro past m act new n hm houtside hstep
    have hnew := hm.1.step houtside hstep
    refine ⟨hnew.1, fun taken pc hmem => ?_⟩
    cases List.mem_append.mp hmem with
    | inl hpast => exact hm.2 taken pc hpast
    | inr hpresent => exact hnew.2 taken pc hpresent
  exact hinv.2

end Steps

/-! Two traps, the second one at different places of the first. -/

def trapEntryAddr (index : Nat) : Word := 0xa1040100 + BitVec.ofNat 32 (4 * index)

/-- A task at 0xa1042000, interrupted by the second source. -/
def idleMachine : Machine where
  pc := 0xa1042000
  regs _ := 0
  mcause := 0
  mepc := 0
  excReason _ := 0
  device :=
    { tcsr0 := 0xd0, tlr0 := 0, tcsr1 := 0, isr := 2, ier := 0xf, ipisr := 0
      gpioData := fun _ => 0, heartbeatCounter := 0, mie := true, mpie := true
      edges := 0, ticks := 0 }
  taskPc := 0xa1042000
  activations := []

def enterAndHandle : List Act :=
  .trap 0x8000000b :: (List.replicate 23 .instr ++ (List.replicate 15 .access ++
    [.returnHandler fun _ => 0]))

/-- The second trap is taken before instruction `23 + k` of the first activation. -/
def nestedTrap (k : Nat) : List Act :=
  enterAndHandle ++ (List.replicate k .instr ++ (.otherDevices 2 0xf 0 ::
    (enterAndHandle ++ (List.replicate 19 .instr ++ List.replicate (19 - k) .instr))))

theorem idleMachine_idle : Idle idleMachine := ⟨rfl, rfl⟩

theorem resumes_where_taken_nested_at_csrw :
    ∃ evs n, Transition.run (step trapEntryAddr) idleMachine (nestedTrap 0) = some (evs, n) ∧
      evs.length = 2 ∧ ∀ taken pc, Event.resumed taken pc ∈ evs → pc = taken := by
  obtain ⟨evs, n, h, hcheck⟩ := Transition.exists_run_of_check (step trapEntryAddr) idleMachine
    (nestedTrap 0) (fun evs _ => evs.length == 2) (by decide +kernel)
  exact ⟨evs, n, h, eq_of_beq hcheck, resumes_where_taken idleMachine_idle h
    (Transition.guarded_of_check (by decide +kernel))⟩

/-- A trap before the first load of the epilogue: the outer `mret` goes back to that
load instead of the task. -/
theorem outer_mret_resumes_in_epilogue :
    Idle idleMachine ∧
      ∃ evs n, Transition.run (step trapEntryAddr) idleMachine (nestedTrap 1) = some (evs, n) ∧
        Event.resumed 0xa1042000 (trapEntryAddr 24) ∈ evs ∧ trapEntryAddr 24 ≠ 0xa1042000 := by
  obtain ⟨evs, n, h, hcheck⟩ := Transition.exists_run_of_check (step trapEntryAddr) idleMachine
    (nestedTrap 1) (fun evs _ => evs.contains (.resumed 0xa1042000 (trapEntryAddr 24)))
    (by decide +kernel)
  exact ⟨idleMachine_idle, evs, n, h, List.contains_iff_mem.mp hcheck, by decide⟩

end TraceFS.TrapNesting
