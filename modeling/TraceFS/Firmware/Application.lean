import TraceFS.Firmware.SchedulerTrace

/-!
The firmware's own task bodies under the scheduler, and the trace they write.

Of each task the model keeps what reaches the trace or the scheduler: the
ownership message and `ctrace_test_main` write command words, `task_1000ms`
switches the scheduler off. A timer tick may fall between any two steps.

The code is that of the C functions: the `i` of `scheduler_run` survives every call.
`asm_test_main` overwrites the callee-saved registers, where a compiler may keep it;
`ApplicationBuild` follows the compiled loop behind `task_1000ms`.
-/
namespace TraceFS.Application
open Transition CTrace Scheduler

/-- What `ctrace_test_main` reads from the build and the core: its own address
and `CSR_MISA`. -/
structure Platform where
  misa : Word
  testMain : Word
  deriving DecidableEq, Repr

inductive Stmt where
  | emit (e : Emission)
  | count
  | disable
  | ret
  deriving DecidableEq, Repr

/-! `asw/ctrace_test/ctrace_test.c` -/

/-- The emissions of one call: `emit_pc` writes the word of marker 0, and a
floating-point constant is its bit pattern. -/
def testEmissions (p : Platform) (counter : BitVec 32) : List Emission :=
  if counter % 8 == 0 then [.marker 0xde, .marker 0xad, .marker 0xbe, .marker 0xef]
  else if counter % 8 == 1 then [.marker 0, .nop]
  else if counter % 8 == 2 then [.u8 0, .u16 0, .u32 0, .u64 0]
  else if counter % 8 == 3 then
    [.u8 0xff, .u16 0xffff, .u32 0xffffffff, .u64 0xffffffffffffffff]
  else if counter % 8 == 4 then
    [.s8 (BitVec.intMin 8), .s16 (BitVec.intMin 16), .s32 (BitVec.intMin 32),
      .s64 (BitVec.intMin 64)]
  else if counter % 8 == 5 then
    [.s8 (BitVec.intMax 8), .s16 (BitVec.intMax 16), .s32 (BitVec.intMax 32),
      .s64 (BitVec.intMax 64)]
  else if counter % 8 == 6 then
    .u32 0xdeadbeef ::
      ((if p.misa &&& (1#32 <<< 5) != 0 then [.f32 0x3f000000] else []) ++
        (if p.misa &&& (1#32 <<< 3) != 0 then [.f64 0x400199999999999a] else []))
  else if counter % 8 == 7 then [.p32 0, .p32 p.testMain]
  else []

def ctraceTestMain (p : Platform) (counter : BitVec 32) : List Stmt :=
  (testEmissions p counter).map .emit ++ [.count]

/-! `task_5ms.c`, `task_10ms.c`, `task_100ms.c`, `task_1000ms.c` -/

def task5ms : List Stmt := [.ret]

def task10ms : List Stmt := [.ret]

def task100ms (p : Platform) (counter : BitVec 32) : List Stmt := ctraceTestMain p counter ++ [.ret]

def task1000ms : List Stmt := [.disable, .ret]

def entry (p : Platform) (counter : BitVec 32) : Entry → List Stmt
  | .task5ms => task5ms
  | .task10ms => task10ms
  | .task100ms => task100ms p counter
  | .task1000ms => task1000ms

/-- The scheduler, the static `counter` of `ctrace_test_main`, and the rest of
the running body. -/
structure Machine where
  sched : State
  counter : BitVec 32
  todo : List Stmt

/-- `_start` clears no `.bss`, so the static counter starts with any value. -/
def start (counter : BitVec 32) : Machine := { sched := schedulerInit, counter := counter, todo := [] }

inductive Input where
  | tick
  | cpu
  deriving DecidableEq, Repr

/-- The scheduler takes an action and the body goes on with `todo`. -/
def Machine.act (m : Machine) (a : Act) (todo : List Stmt) : Option (List Event × Machine) :=
  (Scheduler.step m.sched a).map fun r => (r.1, { m with sched := r.2, todo := todo })

def perform (m : Machine) (rest : List Stmt) : Stmt → Option (List Event × Machine)
  | .emit e => m.act (.emit e) rest
  | .disable => m.act .disable rest
  | .ret => m.act .ret rest
  | .count => some ([], { m with counter := m.counter + 1, todo := rest })

/-- The call of a task's entry loads its body. -/
def load (p : Platform) (m : Machine) : List Stmt :=
  match m.sched.pc with
  | .call i => (m.sched.queue i).elim [] fun t => entry p m.counter (tasks t).entry
  | _ => m.todo

def step (p : Platform) : Step Machine Input Event
  | m, .tick => m.act .tick m.todo
  | m, .cpu =>
      match m.sched.pc, m.todo with
      | .body _ _ [], stmt :: rest => perform m rest stmt
      | _, _ => m.act .cpu (load p m)

inductive Rule (p : Platform) (m : Machine) : Input → List Event → Machine → Prop where
  | tick : Rule p m .tick [.tick (m.sched.ticks + 1)] { m with sched := schedulerNext m.sched }
  | cpu {evs : List Event} {s : State} : Scheduler.Rule m.sched .cpu evs s →
      Rule p m .cpu evs { m with sched := s, todo := load p m }
  | emit (e : Emission) (rest : List Stmt) (i t : Slot) : m.sched.pc = .body i t [] →
      m.todo = .emit e :: rest → bodyEmits e = true →
      Rule p m .cpu [] { m with sched := { m.sched with pc := .body i t e.words }, todo := rest }
  | count (rest : List Stmt) (i t : Slot) : m.sched.pc = .body i t [] →
      m.todo = .count :: rest →
      Rule p m .cpu [] { m with counter := m.counter + 1, todo := rest }
  | disable (rest : List Stmt) (i t : Slot) : m.sched.pc = .body i t [] →
      m.todo = .disable :: rest →
      Rule p m .cpu [.disabled] { m with sched := { m.sched with enabled := false }, todo := rest }
  | ret (rest : List Stmt) (i t : Slot) : m.sched.pc = .body i t [] → m.todo = .ret :: rest →
      Rule p m .cpu [.finished t] { m with sched := { m.sched with pc := .clear i }, todo := rest }

theorem act_eq_some {m u : Machine} {a : Act} {todo : List Stmt} {evs : List Event}
    (h : m.act a todo = some (evs, u)) :
    ∃ s, Scheduler.Rule m.sched a evs s ∧ u = { m with sched := s, todo := todo } := by
  obtain ⟨⟨e, s⟩, hs, heq⟩ := Option.map_eq_some_iff.mp h
  obtain ⟨rfl, rfl⟩ := Prod.mk.inj heq
  exact ⟨s, step_rule hs, rfl⟩

theorem rule_of_perform {p : Platform} {m u : Machine} {stmt : Stmt} {rest : List Stmt}
    {evs : List Event} {i t : Slot} (hpc : m.sched.pc = .body i t [])
    (htodo : m.todo = stmt :: rest) (h : perform m rest stmt = some (evs, u)) :
    Rule p m .cpu evs u := by
  cases stmt with
  | count =>
      obtain ⟨rfl, rfl⟩ := Prod.mk.inj (Option.some.inj h)
      exact .count rest i t hpc htodo
  | emit e =>
      obtain ⟨s, rule, rfl⟩ := act_eq_some h
      cases rule with
      | emit e j k hjk ok => exact .emit e rest j k hjk htodo ok
  | disable =>
      obtain ⟨s, rule, rfl⟩ := act_eq_some h
      cases rule with
      | disable j k hjk => exact .disable rest j k hjk htodo
  | ret =>
      obtain ⟨s, rule, rfl⟩ := act_eq_some h
      cases rule with
      | ret j k hjk => exact .ret rest j k hjk htodo

theorem rule_of_step {p : Platform} {m u : Machine} {a : Input} {evs : List Event}
    (h : step p m a = some (evs, u)) : Rule p m a evs u := by
  cases a with
  | tick =>
      obtain ⟨s, rule, rfl⟩ := act_eq_some h
      cases rule with
      | tick => exact .tick
  | cpu =>
      simp only [step] at h
      split at h
      case h_1 i t stmt rest hpc htodo => exact rule_of_perform hpc htodo h
      case h_2 =>
          obtain ⟨s, rule, rfl⟩ := act_eq_some h
          exact .cpu rule

/-- The application is one of the task sets the scheduler may run. -/
theorem scheduler_simulation (p : Platform) :
    Simulation (step p) Scheduler.step some fun m s => s = m.sched := by
  rintro m s a evs u rfl h
  have lift {a : Act} {todo : List Stmt} (h : m.act a todo = some (evs, u)) :
      ∃ bs t, run Scheduler.step m.sched bs = some (evs.filterMap some, t) ∧ t = u.sched := by
    obtain ⟨⟨e, s⟩, hs, heq⟩ := Option.map_eq_some_iff.mp h
    obtain ⟨rfl, rfl⟩ := Prod.mk.inj heq
    exact ⟨[a], s, run_single_iff.mpr (by simpa using hs), rfl⟩
  cases a with
  | tick => exact lift h
  | cpu =>
      simp only [step] at h
      split at h
      case h_2 => exact lift h
      case h_1 i t stmt rest hpc htodo =>
          cases stmt with
          | emit e | disable | ret => exact lift h
          | count =>
              obtain ⟨rfl, rfl⟩ := Prod.mk.inj (Option.some.inj h)
              exact ⟨[], m.sched, rfl, rfl⟩

theorem exists_scheduler_run {p : Platform} {c : BitVec 32} {m : Machine} {ins : List Input}
    {evs : List Event} (h : run (step p) (start c) ins = some (evs, m)) :
    ∃ acts, run Scheduler.step schedulerInit acts = some (evs, m.sched) := by
  obtain ⟨acts, s, hrun, rfl⟩ := (scheduler_simulation p).run rfl h
  rw [List.filterMap_some] at hrun
  exact ⟨acts, hrun⟩

end TraceFS.Application
