import TraceFS.Firmware.ApplicationFinish
import TraceFS.Firmware.AsmTest

/-!
The compiled loop of `scheduler_run` behind `task_1000ms`.

`asm_test_main` returns with `s0` to `s11` overwritten. Where the compiler keeps `i` in
memory it survives; where it keeps `i` in one of these registers, `scheduler_queue[i] = NULL`
and the rest of the loop go on with what the test has left there. Everything else the
loop needs behind the call is taken to be computed again, as the committed build does,
which keeps `i` in `s0`.
-/
namespace TraceFS.Application
open Transition CTrace Scheduler

/-- Where `i` is while an entry runs. A register that `task_1000ms` itself saves and
restores counts as memory. -/
inductive Home
  | memory
  | saved (s : Fin 12)
  deriving DecidableEq, Repr

/-- `s0` and `s1` are `x8` and `x9`, `s2` to `s11` are `x18` to `x27`. -/
def savedReg (s : Fin 12) : Rv32im.Reg := BitVec.ofNat 5 (if s.val < 2 then 8 + s.val else 16 + s.val)

/-- `i` behind the call of the last task's entry, a C `int`. -/
def Home.index : Home → Int
  | .memory => lastSlot.val
  | .saved s => ((AsmTest.leftover.lookup (savedReg s)).getD 0).toInt

theorem leftover_savedReg (s : Fin 12) :
    (savedReg s, (AsmTest.leftover.lookup (savedReg s)).getD 0) ∈ AsmTest.leftover := by
  decide +revert

/-- A call of the test leaves the index in the register. -/
theorem index_of_done {m m' : Rv32im.Machine} (h : AsmTest.Done m m') (s : Fin 12) :
    (m'.regs (savedReg s)).toInt = (Home.saved s).index :=
  congrArg BitVec.toInt (h.leftover _ (leftover_savedReg s))

def itcmStack : Nat := 0x4000

/-- It leaves what is kept on the stack alone. -/
theorem stack_of_done {m m' : Rv32im.Machine} (h : AsmTest.Done m m') {a : ByteMemory.Addr}
    (inStack : itcmStack ≤ a.toNat) : m'.mem a = m.mem a := by
  apply h.frame
  have ends : ∀ run ∈ AsmTest.fullJson, run.1 + run.2.length ≤ 0x308 := by
    decide +kernel
  have far : 0x308 ≤ (a - BitVec.ofInt 32 AsmTest.resultsBase).toNat := by
    have base : (BitVec.ofInt 32 AsmTest.resultsBase).toNat = 0x100 := rfl
    have := a.isLt
    rw [BitVec.toNat_sub, base]
    unfold itcmStack at inStack
    omega
  refine List.any_eq_false.mpr fun run mem => ?_
  have := ends run mem
  rw [Bool.and_eq_true, Nat.blt_eq]
  omega

/-- The variable of the model, if any, that the linker has put at `scheduler_queue[i]`
outside of the queue. -/
inductive Target
  | schedulerEnabled | schedulerTicks | counter | other
  deriving DecidableEq, Repr

structure Build where
  home : Home
  outside : Target

def zero (m : Machine) : Target → Machine
  | .schedulerEnabled => { m with sched := { m.sched with enabled := false } }
  | .schedulerTicks => { m with sched := { m.sched with ticks := 0 } }
  | .counter => { m with counter := 0 }
  | .other => m

def slotAt (i : Int) : Option Slot :=
  if h : 0 ≤ i ∧ i.toNat < numTasks then some ⟨i.toNat, h.2⟩ else none

/-- `scheduler_queue[i] = NULL` behind the last task. Beyond the queue the loop then ends as
it does behind slot 3; in front of it the next test reads what is not modelled. -/
def Build.clear (b : Build) (m : Machine) : List Event × Machine :=
  match slotAt b.home.index with
  | some i =>
      ([.cleared i], { m with sched :=
        { m.sched with queue := Function.update m.sched.queue i none, pc := .next i } })
  | none =>
      let hit := zero m b.outside
      ([], { hit with sched :=
        { hit.sched with pc := if b.home.index < 0 then .fault else .next lastSlot } })

def buildStep (p : Platform) (b : Build) : Step Machine Input Event
  | m, .tick => step p m .tick
  | m, .cpu => if m.sched.pc = .clear lastSlot then some (b.clear m) else step p m .cpu

/-! A build that does not lose its way: `i` survives or lies behind the queue. -/

theorem index_of_leaves (home : Home)
    (leaves : home ∉ [.saved 5, .saved 9, .saved 10]) : home = .memory ∨ 3 < home.index := by
  cases home with
  | memory => exact .inl rfl
  | saved s => exact .inr (by decide +revert)

theorem clear_memory {p : Platform} {b : Build} {m : Machine} (home : b.home = .memory)
    (hpc : m.sched.pc = .clear lastSlot) : some (b.clear m) = step p m .cpu := by
  have other : ∀ i, m.sched.pc ≠ .call i := by simp [hpc]
  simp only [Build.clear, home, step, hpc, load_of_ne other, Machine.act, Scheduler.step, cpu,
    Option.map_some]
  rfl

theorem clear_beyond {b : Build} (m : Machine) (beyond : 3 < b.home.index) :
    b.clear m = ([], { zero m b.outside with sched :=
      { (zero m b.outside).sched with pc := .next lastSlot } }) := by
  have none : slotAt b.home.index = none := by
    refine dif_neg fun inside => ?_
    have small : b.home.index.toNat < 4 := inside.2
    omega
  simp only [Build.clear, none]
  rw [if_neg (by omega)]

/-- The scheduler is off, and the loop ends without another test. -/
def Leaving (m : Machine) : Prop :=
  m.sched.enabled = false ∧
    (m.sched.pc = .next lastSlot ∨ m.sched.pc = .loop ∨ m.sched.pc = .returned)

/-- The run so far is one in which `i` survived, or the loop is being left. -/
def OnTheWayOut (p : Platform) (k : Nat) (evs : List Event) (m : Machine) : Prop :=
  Staged evs m ∧ Traced p k evs m ∨ Leaving m ∧ Complete p k evs

theorem leaving_of_clear {b : Build} {m : Machine} (off : m.sched.enabled = false)
    (beyond : 3 < b.home.index) : Leaving (b.clear m).2 := by
  rw [clear_beyond m beyond]
  refine ⟨?_, .inl rfl⟩
  cases b.outside with
  | schedulerEnabled => rfl
  | schedulerTicks | counter | other => exact off

section Step
variable {p : Platform} {b : Build} {k : Nat} {past new : List Event} {m u : Machine} {a : Input}

theorem Complete.append (h : Complete p k past) (noStarts : starts new = [])
    (noWords : written new = []) : Complete p k (past ++ new) := by
  rw [Complete, starts_append, noStarts, written_append, noWords, List.append_nil, List.append_nil]
  exact h

/-- Behind the clobbered call three steps are left. -/
theorem Leaving.step (h : Leaving m) (hstep : buildStep p b m a = some (new, u)) :
    Leaving u ∧ starts new = [] ∧ written new = [] ∧
      rank u + (if a == .cpu then 1 else 0) ≤ rank m := by
  obtain ⟨off, hpc⟩ := h
  cases a with
  | tick =>
      obtain ⟨rfl, rfl⟩ := Prod.mk.inj (Option.some.inj hstep)
      exact ⟨⟨off, hpc⟩, rfl, rfl, Nat.le_refl _⟩
  | cpu =>
      rcases hpc with hpc | hpc | hpc
      all_goals
        simp only [buildStep, hpc, reduceCtorEq, if_false, Application.step, Machine.act,
          Scheduler.step, cpu] at hstep
      case inl =>
          obtain ⟨rfl, rfl⟩ := Prod.mk.inj (Option.some.inj hstep)
          refine ⟨⟨off, .inr (.inl rfl)⟩, rfl, rfl, ?_⟩
          simp [rank, hpc, off, leave, lastSlot]
      case inr.inl =>
          rw [off] at hstep
          obtain ⟨rfl, rfl⟩ := Prod.mk.inj (Option.some.inj hstep)
          refine ⟨⟨rfl, .inr (.inr rfl)⟩, rfl, rfl, ?_⟩
          simp [rank, hpc, off]
      case inr.inr => cases hstep

theorem OnTheWayOut.step (leaves : b.home ∉ [.saved 5, .saved 9, .saved 10])
    (h : OnTheWayOut p k past m) (hstep : buildStep p b m a = some (new, u)) :
    OnTheWayOut p k (past ++ new) u ∧
      (.tick 1000 ∈ past → rank u + (if a == .cpu then 1 else 0) ≤ rank m) := by
  rcases h with ⟨staged, traced⟩ | ⟨leaving, complete⟩
  · have follow (same : Application.step p m a = some (new, u)) :
        OnTheWayOut p k (past ++ new) u ∧
          (.tick 1000 ∈ past → rank u + (if a == .cpu then 1 else 0) ≤ rank m) :=
      have rule := rule_of_step same
      ⟨.inl ⟨staged_of_rule staged traced rule, traced_of_rule traced rule⟩,
        fun due => rank_of_rule staged traced due rule⟩
    cases a with
    | tick => exact follow hstep
    | cpu =>
        by_cases hpc : m.sched.pc = .clear lastSlot
        · simp only [buildStep, hpc, if_true] at hstep
          rcases index_of_leaves b.home leaves with home | beyond
          · exact follow ((clear_memory home hpc).symm.trans hstep)
          · have shape := staged.shape
            simp only [Shape, hpc] at shape
            have off : m.sched.enabled = false := shape
            have complete := complete_of_off staged traced off (by rw [hpc]; rfl) (by simp [hpc])
            have leaving := leaving_of_clear off beyond
            rw [Option.some.inj hstep] at leaving
            rw [clear_beyond m beyond] at hstep
            obtain ⟨rfl, rfl⟩ := Prod.mk.inj (Option.some.inj hstep)
            have off' : (zero m b.outside).sched.enabled = false := leaving.1
            refine ⟨.inr ⟨leaving, complete.append rfl rfl⟩, fun _ => ?_⟩
            simp only [rank, hpc, off', beq_self_eq_true, if_true]
            omega
        · simp only [buildStep, hpc, if_false] at hstep
          exact follow hstep
  · obtain ⟨leaving', noStarts, noWords, lower⟩ := leaving.step hstep
    exact ⟨.inr ⟨leaving', complete.append noStarts noWords⟩, fun _ => lower⟩

theorem OnTheWayOut.run {c : BitVec 32} {ins : List Input} {evs : List Event}
    (leaves : b.home ∉ [.saved 5, .saved 9, .saved 10])
    (h : run (buildStep p b) (start c) ins = some (evs, m)) : OnTheWayOut p c.toNat evs m :=
  run_invariant (OnTheWayOut p c.toNat) (.inl ⟨staged_start c, traced_start p c⟩)
    (fun _ _ _ _ _ inv hstep => (inv.step leaves hstep).1) h

theorem OnTheWayOut.rank_le (h : OnTheWayOut p k past m) : rank m ≤ 41 := by
  rcases h with ⟨staged, -⟩ | ⟨⟨off, hpc⟩, -⟩
  · exact Application.rank_le staged.shape
  · rcases hpc with hpc | hpc | hpc
    · simp only [rank, hpc, off]
      exact (rank_bound lastSlot false).2
    · simp [rank, hpc, off]
    · simp [rank, hpc]

theorem OnTheWayOut.proceeds (h : OnTheWayOut p k past m) (running : m.sched.pc ≠ .returned) :
    (buildStep p b m .cpu).isSome = true := by
  by_cases hpc : m.sched.pc = .clear lastSlot
  · simp [buildStep, hpc]
  · simp only [buildStep, hpc, if_false]
    rcases h with ⟨staged, traced⟩ | ⟨⟨off, hpc⟩, -⟩
    · exact exists_cpu_step staged traced running
    · rcases hpc with hpc | hpc | hpc
      · simp [Application.step, hpc, Machine.act, Scheduler.step, cpu]
      · simp [Application.step, hpc, Machine.act, Scheduler.step, cpu]
      · exact absurd hpc running

theorem OnTheWayOut.complete (h : OnTheWayOut p k past m) (returned : m.sched.pc = .returned) :
    Complete p k past := by
  rcases h with ⟨staged, traced⟩ | ⟨-, complete⟩
  · exact trace_of_returned staged traced returned
  · exact complete

end Step

/-! A build that keeps `i` in `s5`, where the test leaves 1: slot 3 stays set, and every
pass from slot 2 on dispatches `task_1000ms` again. -/

/-- What is left of the body called through slot `i`. -/
structure Remains (i : Slot) (todo : List Stmt) : Prop where
  returns : Returns todo
  plain : ∀ e, .emit e ∈ todo → bodyEmits e = true
  others : i ≠ lastSlot → .disable ∉ todo

theorem remains_entry (p : Platform) (c : BitVec 32) (i : Slot) :
    Remains i (entry p c (tasks i).entry) where
  returns := returns_entry p c _
  plain := (planned_entry p c i).plain
  others := by
    rw [disable_mem_entry, entry_eq_task1000ms_iff]
    exact id

theorem Remains.tail {i : Slot} {stmt : Stmt} {rest : List Stmt} (h : Remains i (stmt :: rest))
    (other : stmt ≠ .ret) : Remains i rest where
  returns := h.returns.tail other
  plain := fun e mem => h.plain e (List.mem_cons_of_mem _ mem)
  others := fun hi mem => h.others hi (List.mem_cons_of_mem _ mem)

/-- Switched off, the loop is not left: slot 3 is set in front of each end of the pass. -/
structure Trapped (m : Machine) : Prop where
  consistent : Consistent m.sched
  body : ∀ i t ws, m.sched.pc = .body i t ws → Remains i m.todo
  set : m.sched.enabled = false → m.sched.queue lastSlot ≠ none
  inPass : m.sched.enabled = false → m.sched.pc ≠ .loop ∧ m.sched.pc ≠ .next lastSlot
  running : m.sched.pc ≠ .returned

theorem trapped_start (c : BitVec 32) : Trapped (start c) where
  consistent := consistent_init
  body := by
    intro i t ws hpc
    cases hpc
  set := by
    intro off
    cases off
  inPass := by
    intro off
    cases off
  running := by simp [start, schedulerInit]

section Trapped
variable {p : Platform} {new : List Event} {m u : Machine} {a : Input}

/-- A step outside a body that keeps the queue and the switch. -/
theorem Trapped.quiet {s : State} (h : Trapped m) (hs : Consistent s)
    (enabled : s.enabled = m.sched.enabled) (queue : s.queue = m.sched.queue)
    (outside : ∀ i t ws, s.pc ≠ .body i t ws)
    (inPass : m.sched.enabled = false → s.pc ≠ .loop ∧ s.pc ≠ .next lastSlot)
    (running : s.pc ≠ .returned) : Trapped { m with sched := s, todo := load p m } where
  consistent := hs
  body := fun i t ws hpc => absurd hpc (outside i t ws)
  set := by
    rw [enabled, queue]
    exact h.set
  inPass := by
    rw [enabled]
    exact inPass
  running := running

theorem trapped_of_cpu {s : State} (h : Trapped m) (other : m.sched.pc ≠ .clear lastSlot)
    (rule : Scheduler.Rule m.sched .cpu new s) : Trapped { m with sched := s, todo := load p m } := by
  have hs := consistent_of_rule h.consistent rule
  cases rule with
  | enter hpc on | found i t hpc _ | own i t hpc _ | again i _ hpc =>
      exact h.quiet hs rfl rfl (by simp) (by simp) (by simp)
  | leave hpc off => exact absurd hpc (h.inPass off).1
  | empty i hpc hq =>
      refine h.quiet hs rfl rfl (by simp) (fun off => ⟨by simp, ?_⟩) (by simp)
      rintro ⟨⟩
      exact h.set off hq
  | fault i hpc hq => exact h.quiet hs rfl rfl (by simp) (by simp) (by simp)
  | wrap i hpc hge =>
      refine h.quiet hs rfl rfl (by simp) (fun off => ?_) (by simp)
      have last : i = lastSlot :=
        (by decide : ∀ i : Slot, ¬ i.val + 1 < numTasks → i = lastSlot) i hge
      exact absurd (last ▸ hpc) (h.inPass off).2
  | call i t hpc hq =>
      obtain rfl := h.consistent.ownTask i t hq
      refine ⟨hs, ?_, h.set, by simp, by simp⟩
      rintro j t ws ⟨⟩
      rw [load_of_call hpc hq]
      exact remains_entry p m.counter _
  | write i t w ws hpc =>
      rw [load_of_ne (by simp [hpc])]
      refine ⟨hs, ?_, h.set, by simp, by simp⟩
      rintro j t' ws' ⟨⟩
      exact h.body i t (w :: ws) hpc
  | clear i hpc =>
      have hi : i ≠ lastSlot := by
        rintro rfl
        exact other hpc
      refine ⟨hs, by simp, fun off => ?_, fun _ => ⟨by simp, by simpa using hi⟩, by simp⟩
      change Function.update m.sched.queue i none lastSlot ≠ none
      rw [Function.update_of_ne hi.symm]
      exact h.set off

theorem trapped_of_rule (h : Trapped m) (other : a = .cpu → m.sched.pc ≠ .clear lastSlot)
    (rule : Rule p m a new u) : Trapped u := by
  cases rule with
  | tick =>
      refine ⟨consistent_schedulerNext h.consistent, h.body, fun off => ?_, h.inPass, h.running⟩
      rw [schedulerNext_queue]
      split
      · exact Option.some_ne_none _
      · exact h.set off
  | cpu rule => exact trapped_of_cpu h (other rfl) rule
  | emit e rest i t hpc htodo ok =>
      refine ⟨consistent_of_rule h.consistent (.emit e i t hpc ok), ?_, h.set, by simp, by simp⟩
      rintro j t' ws ⟨⟩
      exact (htodo ▸ h.body i t [] hpc).tail (by simp)
  | count rest i t hpc htodo =>
      refine ⟨h.consistent, fun j t' ws hbody => ?_, h.set, h.inPass, h.running⟩
      exact (htodo ▸ h.body j t' ws hbody).tail (by simp)
  | disable rest i t hpc htodo =>
      have hi : i = lastSlot := by
        by_contra hi
        exact (h.body i t [] hpc).others hi (htodo ▸ List.mem_cons_self)
      have current := h.consistent.current
      simp only [hpc, hi, Pc.Current] at current
      refine ⟨consistent_of_rule h.consistent (.disable i t hpc), fun j t' ws hbody => ?_,
        fun _ => ?_, by simp [hpc], h.running⟩
      · exact (htodo ▸ h.body j t' ws hbody).tail (by simp)
      · rw [current.2]
        exact Option.some_ne_none _
  | ret rest i t hpc htodo =>
      exact ⟨consistent_of_rule h.consistent (.ret i t hpc), by simp, h.set, by simp, by simp⟩

theorem Trapped.step {b : Build} (home : b.home = .saved 5) (h : Trapped m)
    (hstep : buildStep p b m a = some (new, u)) : Trapped u := by
  cases a with
  | tick =>
      have same : Application.step p m .tick = some (new, u) := hstep
      exact trapped_of_rule h (by simp) (rule_of_step same)
  | cpu =>
      by_cases hpc : m.sched.pc = .clear lastSlot
      · simp only [buildStep, hpc, if_true] at hstep
        have second : b.clear m = ([.cleared 1], { m with sched :=
            { m.sched with queue := Function.update m.sched.queue 1 none, pc := .next 1 } }) := by
          simp only [Build.clear, home]
          rfl
        rw [second] at hstep
        obtain ⟨rfl, rfl⟩ := Prod.mk.inj (Option.some.inj hstep)
        refine ⟨⟨fun j t hq => ?_, True.intro⟩, by simp, fun off => ?_, by simp [lastSlot], by simp⟩
        · by_cases hj : j = 1
          · simp [hj] at hq
          · exact h.consistent.ownTask j t (by simpa [hj] using hq)
        · change Function.update m.sched.queue 1 none lastSlot ≠ none
          rw [Function.update_of_ne (by decide)]
          exact h.set off
      · simp only [buildStep, hpc, if_false] at hstep
        exact trapped_of_rule h (fun _ => hpc) (rule_of_step hstep)

theorem Trapped.proceeds {b : Build} (h : Trapped m) : (buildStep p b m .cpu).isSome = true := by
  by_cases hpc : m.sched.pc = .clear lastSlot
  · simp [buildStep, hpc]
  · simp only [buildStep, hpc, if_false]
    refine exists_cpu_step_of_body h.consistent (fun i t hbody => ?_) h.running
    have remains := h.body i t [] hbody
    exact ⟨remains.returns, remains.plain⟩

end Trapped

end TraceFS.Application
