import Mathlib.Data.List.FinRange
import TraceFS.Lib.Run
import TraceFS.Firmware.CTraceProtocol

/-!
The task scheduler of `scheduler.c` as a transition system.

`cpu` is the next step of `scheduler_run`, cut at every access to the volatile
queue; `tick` is `scheduler_next`, run to completion by the timer interrupt
between any two of them. A task body is any sequence of trace emissions, calls
of `scheduler_disable` and ticks, ended by `ret`.
-/
namespace TraceFS.Scheduler
open Transition CTrace

abbrev numTasks : Nat := 4

instance neZero_numTasks : NeZero numTasks := ⟨by decide⟩

abbrev Slot := Fin numTasks

inductive Entry where
  | task5ms | task10ms | task100ms | task1000ms
  deriving DecidableEq, Repr

structure Task where
  id : BitVec 16
  entry : Entry
  period : BitVec 32
  priority : BitVec 32
  deriving DecidableEq, Repr

def tasks : Slot → Task
  | 0 => { id := 1, entry := .task5ms, period := 5, priority := 0 }
  | 1 => { id := 2, entry := .task10ms, period := 10, priority := 1 }
  | 2 => { id := 3, entry := .task100ms, period := 100, priority := 2 }
  | 3 => { id := 4, entry := .task1000ms, period := 1000, priority := 3 }

/-- Where `scheduler_run` stands. `body i t words` is the entry of task `t`
called through slot `i`, in the middle of an emission with `words` to write. -/
inductive Pc where
  | loop
  | test (i : Slot)
  | own (i : Slot)
  | call (i : Slot)
  | body (i t : Slot) (words : List Word)
  | clear (i : Slot)
  | next (i : Slot)
  | returned
  | fault
  deriving DecidableEq, Repr

/-- `scheduler_queue` holds a pointer into `tasks` or NULL in every slot. -/
structure State where
  queue : Slot → Option Slot
  enabled : Bool
  ticks : BitVec 32
  pc : Pc

/-- The state in which `scheduler_init` hands over to `scheduler_run`. -/
def schedulerInit : State :=
  { queue := fun _ => none, enabled := true, ticks := 0, pc := .loop }

inductive Writer where
  | scheduler
  | body (t : Slot)
  deriving DecidableEq, Repr

inductive Event where
  | tick (now : BitVec 32)
  | wrote (w : Word) (writer : Writer)
  | started (t : Slot)
  | finished (t : Slot)
  | cleared (i : Slot)
  | disabled
  deriving DecidableEq, Repr

inductive Act where
  | tick
  | cpu
  | emit (e : Emission)
  | disable
  | ret
  deriving DecidableEq, Repr

def releases (now : BitVec 32) (i : Slot) : Bool := now % (tasks i).period == 0

def schedulerNext (s : State) : State :=
  let now := s.ticks + 1
  { s with
    ticks := now
    queue := (List.finRange numTasks).foldl
      (fun q i => if releases now i then Function.update q i (some i) else q) s.queue }

/-- The next step of `scheduler_run` outside a task body. Every dereference
reads the slot again; a NULL there would be a fault. -/
def cpu (s : State) : Option (List Event × State) :=
  match s.pc with
  | .loop => some ([], { s with pc := if s.enabled then .test 0 else .returned })
  | .test i => some ([], { s with pc := if (s.queue i).isSome then .own i else .next i })
  | .own i =>
      match s.queue i with
      | some t =>
          some ((ownershipTrace (tasks t).id).map (.wrote · .scheduler), { s with pc := .call i })
      | none => some ([], { s with pc := .fault })
  | .call i =>
      match s.queue i with
      | some t => some ([.started t], { s with pc := .body i t [] })
      | none => some ([], { s with pc := .fault })
  | .body i t (w :: ws) => some ([.wrote w (.body t)], { s with pc := .body i t ws })
  | .body _ _ [] => none
  | .clear i =>
      some ([.cleared i], { s with queue := Function.update s.queue i none, pc := .next i })
  | .next i =>
      some ([], { s with pc := if h : i.val + 1 < numTasks then .test ⟨i.val + 1, h⟩ else .loop })
  | .returned | .fault => none

/-- A task body emits typed data, markers, pc, nop and sync messages. -/
def bodyEmits : Emission → Bool
  | .ownership _ => false
  | _ => true

/-- What a task body does next, once its last emission is written out. -/
def inBody (s : State) (act : Slot → Slot → Option (List Event × State)) :
    Option (List Event × State) :=
  match s.pc with
  | .body i t [] => act i t
  | _ => none

def step : Step State Act Event
  | s, .tick => some ([.tick (s.ticks + 1)], schedulerNext s)
  | s, .cpu => cpu s
  | s, .emit e => inBody s fun i t =>
      if bodyEmits e then some ([], { s with pc := .body i t e.words }) else none
  | s, .disable => inBody s fun _ _ => some ([.disabled], { s with enabled := false })
  | s, .ret => inBody s fun i t => some ([.finished t], { s with pc := .clear i })

/-! What a step does, once and for all. -/

/-- The release loop sets exactly the slots it visits whose period divides `now`. -/
theorem release_loop (now : BitVec 32) (is : List Slot) (q : Slot → Option Slot) (i : Slot) :
    is.foldl (fun q i => if releases now i then Function.update q i (some i) else q) q i =
      if i ∈ is ∧ releases now i then some i else q i := by
  induction is generalizing q with
  | nil => simp
  | cons j is ih =>
      rw [List.foldl_cons, ih]
      by_cases hj : i = j
      · subst hj
        by_cases hr : releases now i <;> simp [hr]
      · by_cases hr : releases now j <;> simp [hr, hj]

theorem schedulerNext_queue (s : State) (i : Slot) :
    (schedulerNext s).queue i = if releases (s.ticks + 1) i then some i else s.queue i := by
  simp only [schedulerNext, release_loop, List.mem_finRange, true_and]

@[simp] theorem schedulerNext_pc (s : State) : (schedulerNext s).pc = s.pc := rfl
@[simp] theorem schedulerNext_enabled (s : State) : (schedulerNext s).enabled = s.enabled := rfl
@[simp] theorem schedulerNext_ticks (s : State) : (schedulerNext s).ticks = s.ticks + 1 := rfl

inductive Rule (s : State) : Act → List Event → State → Prop where
  | tick : Rule s .tick [.tick (s.ticks + 1)] (schedulerNext s)
  | enter : s.pc = .loop → s.enabled = true → Rule s .cpu [] { s with pc := .test 0 }
  | leave : s.pc = .loop → s.enabled = false → Rule s .cpu [] { s with pc := .returned }
  | found (i t : Slot) : s.pc = .test i → s.queue i = some t →
      Rule s .cpu [] { s with pc := .own i }
  | empty (i : Slot) : s.pc = .test i → s.queue i = none → Rule s .cpu [] { s with pc := .next i }
  | own (i t : Slot) : s.pc = .own i → s.queue i = some t →
      Rule s .cpu ((ownershipTrace (tasks t).id).map (.wrote · .scheduler)) { s with pc := .call i }
  | call (i t : Slot) : s.pc = .call i → s.queue i = some t →
      Rule s .cpu [.started t] { s with pc := .body i t [] }
  | fault (i : Slot) : s.pc = .own i ∨ s.pc = .call i → s.queue i = none →
      Rule s .cpu [] { s with pc := .fault }
  | write (i t : Slot) (w : Word) (ws : List Word) : s.pc = .body i t (w :: ws) →
      Rule s .cpu [.wrote w (.body t)] { s with pc := .body i t ws }
  | clear (i : Slot) : s.pc = .clear i →
      Rule s .cpu [.cleared i] { s with queue := Function.update s.queue i none, pc := .next i }
  | again (i : Slot) (h : i.val + 1 < numTasks) : s.pc = .next i →
      Rule s .cpu [] { s with pc := .test ⟨i.val + 1, h⟩ }
  | wrap (i : Slot) : s.pc = .next i → ¬ i.val + 1 < numTasks →
      Rule s .cpu [] { s with pc := .loop }
  | emit (e : Emission) (i t : Slot) : s.pc = .body i t [] → bodyEmits e = true →
      Rule s (.emit e) [] { s with pc := .body i t e.words }
  | disable (i t : Slot) : s.pc = .body i t [] →
      Rule s .disable [.disabled] { s with enabled := false }
  | ret (i t : Slot) : s.pc = .body i t [] → Rule s .ret [.finished t] { s with pc := .clear i }

theorem inBody_eq_some {s t : State} {evs : List Event}
    {act : Slot → Slot → Option (List Event × State)} (h : inBody s act = some (evs, t)) :
    ∃ i k, s.pc = .body i k [] ∧ act i k = some (evs, t) := by
  unfold inBody at h
  split at h
  case h_1 i k hpc => exact ⟨i, k, hpc, h⟩
  case h_2 => cases h

theorem cpu_rule {s t : State} {evs : List Event} (h : cpu s = some (evs, t)) :
    Rule s .cpu evs t := by
  unfold cpu at h
  split at h
  case h_1 hpc =>
      obtain ⟨rfl, rfl⟩ := Prod.mk.inj (Option.some.inj h)
      split
      case isTrue on => exact .enter hpc on
      case isFalse off => exact .leave hpc (Bool.eq_false_iff.mpr off)
  case h_2 i hpc =>
      cases hq : s.queue i <;> simp only [hq, Option.some.injEq, Prod.mk.injEq] at h <;>
        obtain ⟨rfl, rfl⟩ := h
      · exact .empty i hpc hq
      · exact .found i _ hpc hq
  case h_3 i hpc =>
      cases hq : s.queue i <;> simp only [hq, Option.some.injEq, Prod.mk.injEq] at h <;>
        obtain ⟨rfl, rfl⟩ := h
      · exact .fault i (.inl hpc) hq
      · exact .own i _ hpc hq
  case h_4 i hpc =>
      cases hq : s.queue i <;> simp only [hq, Option.some.injEq, Prod.mk.injEq] at h <;>
        obtain ⟨rfl, rfl⟩ := h
      · exact .fault i (.inr hpc) hq
      · exact .call i _ hpc hq
  case h_5 i k w ws hpc =>
      obtain ⟨rfl, rfl⟩ := Prod.mk.inj (Option.some.inj h)
      exact .write i k w ws hpc
  case h_6 => cases h
  case h_7 i hpc =>
      obtain ⟨rfl, rfl⟩ := Prod.mk.inj (Option.some.inj h)
      exact .clear i hpc
  case h_8 i hpc =>
      obtain ⟨rfl, rfl⟩ := Prod.mk.inj (Option.some.inj h)
      split
      case isTrue hlt => exact .again i hlt hpc
      case isFalse hge => exact .wrap i hpc hge
  case h_9 => cases h
  case h_10 => cases h

theorem step_rule {s t : State} {a : Act} {evs : List Event} (h : step s a = some (evs, t)) :
    Rule s a evs t := by
  cases a with
  | tick =>
      obtain ⟨rfl, rfl⟩ := Prod.mk.inj (Option.some.inj h)
      exact .tick
  | cpu => exact cpu_rule h
  | emit e =>
      obtain ⟨i, k, hpc, h⟩ := inBody_eq_some h
      simp only [Option.ite_none_right_eq_some, Option.some.injEq, Prod.mk.injEq] at h
      obtain ⟨ok, rfl, rfl⟩ := h
      exact .emit e i k hpc ok
  | disable =>
      obtain ⟨i, k, hpc, h⟩ := inBody_eq_some h
      obtain ⟨rfl, rfl⟩ := Prod.mk.inj (Option.some.inj h)
      exact .disable i k hpc
  | ret =>
      obtain ⟨i, k, hpc, h⟩ := inBody_eq_some h
      obtain ⟨rfl, rfl⟩ := Prod.mk.inj (Option.some.inj h)
      exact .ret i k hpc

end TraceFS.Scheduler
