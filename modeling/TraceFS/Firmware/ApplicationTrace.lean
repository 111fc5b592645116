import TraceFS.Firmware.Application

/-!
What the trace of the firmware says: the tasks in the order of their dispatches,
and the reports of `ctrace_test_main`, round by round.

The invariant of a run compares the words written so far, followed by those the
dispatch under way still owes, with the messages of the dispatches.
-/
namespace TraceFS.Application
open Transition CTrace Scheduler

/-- Activations of the task that calls `ctrace_test_main`. -/
def activations (ts : List Slot) : Nat := ts.countP fun t => (tasks t).entry == .task100ms

/-- What an activation of task `t` reports after `k` earlier reports. -/
def report (p : Platform) (k : Nat) (t : Slot) : List Emission :=
  if (tasks t).entry == .task100ms then testEmissions p (BitVec.ofNat 32 (k % 8)) else []

def expected (p : Platform) : Nat → List Slot → List Emission
  | _, [] => []
  | k, t :: ts =>
      .ownership (tasks t).id :: (report p k t ++ expected p (k + activations [t]) ts)

def emissions (todo : List Stmt) : List Emission :=
  todo.filterMap fun
    | .emit e => some e
    | _ => none

def counts (todo : List Stmt) : Nat := todo.count .count

/-- The words the dispatch under way still has to write. -/
def outstanding (p : Platform) (m : Machine) : List Word :=
  match m.sched.pc with
  | .call i => protocol.stream (emissions (entry p m.counter (tasks i).entry))
  | .body _ _ ws => ws ++ protocol.stream (emissions m.todo)
  | _ => []

/-- The tasks whose ownership message is written. -/
def dispatched (evs : List Event) : Pc → List Slot
  | .call i => starts evs ++ [i]
  | _ => starts evs

def written (evs : List Event) : List Word := (writes evs).map Prod.fst

@[simp] theorem written_append (e₁ e₂ : List Event) :
    written (e₁ ++ e₂) = written e₁ ++ written e₂ := by
  rw [written, writes_append, List.map_append, written, written]

theorem testEmissions_mod (p : Platform) (k : Nat) :
    testEmissions p (BitVec.ofNat 32 (k % 8)) = testEmissions p (BitVec.ofNat 32 k) := by
  have hmod : BitVec.ofNat 32 (k % 8) % 8 = BitVec.ofNat 32 k % 8 := by
    apply BitVec.eq_of_toNat_eq
    have eight : (8 : BitVec 32).toNat = 8 := rfl
    rw [BitVec.toNat_umod, BitVec.toNat_umod, BitVec.toNat_ofNat, BitVec.toNat_ofNat, eight]
    omega
  simp only [testEmissions, hmod]

theorem expected_append (p : Platform) (k : Nat) (ts us : List Slot) :
    expected p k (ts ++ us) = expected p k ts ++ expected p (k + activations ts) us := by
  induction ts generalizing k with
  | nil => rfl
  | cons t ts ih =>
      have hk : k + activations (t :: ts) = k + activations [t] + activations ts := by
        rw [activations, ← List.singleton_append, List.countP_append, Nat.add_assoc]
        rfl
      rw [List.cons_append, expected, ih, hk, expected, List.cons_append, List.append_assoc]

/-- A body is loaded with what the activation is to report. -/
theorem emissions_entry (p : Platform) (k : Nat) (t : Slot) :
    emissions (entry p (BitVec.ofNat 32 k) (tasks t).entry) = report p k t := by
  have tests (c : BitVec 32) : emissions (task100ms p c) = testEmissions p c := by
    simp [emissions, task100ms, ctraceTestMain]
  rw [report]
  cases (tasks t).entry with
  | task5ms | task10ms | task1000ms => rfl
  | task100ms => exact (tests _).trans (testEmissions_mod p k).symm

theorem counts_entry (p : Platform) (c : BitVec 32) (t : Slot) :
    counts (entry p c (tasks t).entry) = activations [t] := by
  rw [activations, List.countP_singleton]
  cases (tasks t).entry with
  | task5ms | task10ms | task1000ms => rfl
  | task100ms =>
      have none : ((testEmissions p c).map Stmt.emit).count .count = 0 :=
        List.count_eq_zero.mpr (by simp)
      simp [counts, entry, task100ms, ctraceTestMain, none]

/-! The invariant of a run. -/

/-- A body ends with its only `ret`. -/
def Returns (todo : List Stmt) : Prop := ∃ pre, todo = pre ++ [.ret] ∧ .ret ∉ pre

/-- The trace so far against the machine; the static counter started at `k`. -/
structure Traced (p : Platform) (k : Nat) (evs : List Event) (m : Machine) : Prop where
  consistent : Consistent m.sched
  idle : running? m.sched.pc = none → m.todo = []
  returns : ∀ t, running? m.sched.pc = some t → Returns m.todo
  counter : m.counter + BitVec.ofNat 32 (counts m.todo) =
    BitVec.ofNat 32 (k + activations (starts evs))
  words : written evs ++ outstanding p m =
    protocol.stream (expected p k (dispatched evs m.sched.pc))

theorem returns_entry (p : Platform) (c : BitVec 32) (e : Entry) : Returns (entry p c e) := by
  cases e with
  | task5ms | task10ms => exact ⟨[], rfl, List.not_mem_nil⟩
  | task1000ms => exact ⟨[.disable], rfl, by simp⟩
  | task100ms => exact ⟨ctraceTestMain p c, rfl, by simp [ctraceTestMain]⟩

theorem Returns.tail {stmt : Stmt} {rest : List Stmt} (h : Returns (stmt :: rest))
    (other : stmt ≠ .ret) : Returns rest := by
  obtain ⟨pre, heq, hpre⟩ := h
  cases pre with
  | nil => exact absurd (List.cons.inj heq).1 other
  | cons s pre =>
      obtain ⟨rfl, rfl⟩ := List.cons.inj heq
      exact ⟨pre, rfl, fun mem => hpre (List.mem_cons_of_mem _ mem)⟩

theorem Returns.last {rest : List Stmt} (h : Returns (.ret :: rest)) : rest = [] := by
  obtain ⟨pre, heq, hpre⟩ := h
  cases pre with
  | nil => exact (List.cons.inj heq).2
  | cons s pre => exact absurd ((List.cons.inj heq).1 ▸ List.mem_cons_self) hpre

theorem load_of_call {p : Platform} {m : Machine} {i t : Slot} (hpc : m.sched.pc = .call i)
    (hq : m.sched.queue i = some t) : load p m = entry p m.counter (tasks t).entry := by
  simp only [load, hpc, hq, Option.elim_some]

theorem starts_snoc (evs : List Event) (t : Slot) :
    starts (evs ++ [.started t]) = starts evs ++ [t] := by
  rw [starts_append]
  rfl

theorem activations_append (ts us : List Slot) :
    activations (ts ++ us) = activations ts + activations us := List.countP_append

theorem traced_start (p : Platform) (c : BitVec 32) : Traced p c.toNat [] (start c) where
  consistent := consistent_init
  idle := fun _ => rfl
  returns := by intro t ht; cases ht
  counter := by
    have value : BitVec.ofNat 32 c.toNat = c := by rw [BitVec.ofNat_toNat, BitVec.setWidth_eq]
    exact (BitVec.add_zero c).trans value.symm
  words := rfl

theorem load_of_ne {p : Platform} {m : Machine} (other : ∀ i, m.sched.pc ≠ .call i) :
    load p m = m.todo := by
  rw [load]
  split
  case h_1 i hpc => exact absurd hpc (other i)
  case h_2 => rfl

theorem outstanding_of_idle {p : Platform} {m : Machine} (idle : running? m.sched.pc = none)
    (other : ∀ i, m.sched.pc ≠ .call i) : outstanding p m = [] := by
  rw [outstanding]
  split
  case h_1 i hpc => exact absurd hpc (other i)
  case h_2 i t ws hpc => simp [hpc, running?] at idle
  case h_3 => rfl

theorem dispatched_of_ne {evs : List Event} {pc : Pc} (other : ∀ i, pc ≠ .call i) :
    dispatched evs pc = starts evs := by
  cases pc with
  | call i => exact absurd rfl (other i)
  | _ => rfl

theorem dispatched_append {past new : List Event} (pc : Pc) (none : starts new = []) :
    dispatched (past ++ new) pc = dispatched past pc := by
  simp only [dispatched, starts_append, none, List.append_nil]

section Step
variable {p : Platform} {k : Nat} {past : List Event} {m : Machine}

theorem Traced.counter_append {new : List Event} (h : Traced p k past m) (none : starts new = []) :
    m.counter + BitVec.ofNat 32 (counts m.todo) =
      BitVec.ofNat 32 (k + activations (starts (past ++ new))) := by
  rw [starts_append, none, List.append_nil]
  exact h.counter

theorem Traced.tick (h : Traced p k past m) :
    Traced p k (past ++ [.tick (m.sched.ticks + 1)]) { m with sched := schedulerNext m.sched } where
  consistent := consistent_schedulerNext h.consistent
  idle := h.idle
  returns := h.returns
  counter := h.counter_append rfl
  words := by
    rw [written_append, dispatched_append _ rfl]
    exact (List.append_nil (written past)).symm ▸ h.words

/-- A step outside every body that writes nothing and calls nobody. -/
theorem Traced.quiet {new : List Event} {s : State} (h : Traced p k past m) (hs : Consistent s)
    (writesNone : written new = []) (startsNone : starts new = [])
    (before : running? m.sched.pc = none) (after : running? s.pc = none)
    (notCalled : ∀ i, m.sched.pc ≠ .call i) (notCalling : ∀ i, s.pc ≠ .call i) :
    Traced p k (past ++ new) { m with sched := s, todo := load p m } := by
  rw [load_of_ne notCalled]
  refine ⟨hs, fun _ => h.idle before, ?_, h.counter_append startsNone, ?_⟩
  · intro t ht
    rw [after] at ht
    cases ht
  · have words := h.words
    rw [outstanding_of_idle before notCalled, dispatched_of_ne notCalled] at words
    rw [outstanding_of_idle after notCalling, dispatched_append _ startsNone,
      dispatched_of_ne notCalling, written_append, writesNone, List.append_nil]
    exact words

/-- The ownership message announces a dispatch; the words of its body are due from here. -/
theorem Traced.own {i : Slot} (h : Traced p k past m) (hpc : m.sched.pc = .own i)
    (hs : Consistent { m.sched with pc := .call i }) :
    Traced p k (past ++ (ownershipTrace (tasks i).id).map (.wrote · .scheduler))
      { m with sched := { m.sched with pc := .call i }, todo := load p m } := by
  have idle : m.todo = [] := h.idle (by rw [hpc]; rfl)
  have notCalled : ∀ j, m.sched.pc ≠ .call j := by simp [hpc]
  have words := h.words
  rw [outstanding_of_idle (by rw [hpc]; rfl) notCalled, dispatched_of_ne notCalled,
    List.append_nil] at words
  have counter := h.counter
  rw [idle] at counter
  have hcounter : m.counter = BitVec.ofNat 32 (k + activations (starts past)) := by
    simpa [counts] using counter
  have hown : written ((ownershipTrace (tasks i).id).map (.wrote · .scheduler)) =
      (Emission.ownership (tasks i).id).words := rfl
  rw [load_of_ne notCalled]
  refine ⟨hs, fun _ => idle, ?_, h.counter_append (starts_own _), ?_⟩
  · intro t ht
    cases ht
  · rw [written_append, words, hown, dispatched, starts_append, starts_own, List.append_nil,
      expected_append, protocol.stream_append]
    simp only [outstanding, hcounter, emissions_entry, expected, List.append_nil,
      List.append_assoc]
    rfl

theorem Traced.call {i : Slot} (h : Traced p k past m) (hpc : m.sched.pc = .call i)
    (hq : m.sched.queue i = some i) (hs : Consistent { m.sched with pc := .body i i [] }) :
    Traced p k (past ++ [.started i])
      { m with sched := { m.sched with pc := .body i i [] }, todo := load p m } := by
  have idle : m.todo = [] := h.idle (by rw [hpc]; rfl)
  have counter := h.counter
  have words := h.words
  rw [idle] at counter
  simp only [hpc, dispatched, outstanding] at words
  rw [load_of_call hpc hq]
  refine ⟨hs, ?_, fun _ _ => returns_entry p m.counter _, ?_, ?_⟩
  · intro none
    cases none
  · have hcounter : m.counter = BitVec.ofNat 32 (k + activations (starts past)) := by
      simpa [counts] using counter
    rw [counts_entry, starts_snoc, activations_append, ← Nat.add_assoc, BitVec.ofNat_add _ (activations [i]),
      hcounter]
  · simp only [dispatched, outstanding]
    rw [written_append, starts_snoc, ← words]
    exact congrArg (· ++ _) (List.append_nil (written past))

/-- A step inside the running body that starts nothing: the rest of the body still
counts and writes what was due. -/
theorem Traced.inBody {new : List Event} {i t : Slot} {ws vs : List Word} {u : Machine}
    (h : Traced p k past m) (before : m.sched.pc = .body i t ws) (after : u.sched.pc = .body i t vs)
    (hs : Consistent u.sched) (startsNone : starts new = []) (returns : Returns u.todo)
    (counter : u.counter + BitVec.ofNat 32 (counts u.todo) =
      m.counter + BitVec.ofNat 32 (counts m.todo))
    (words : written new ++ (vs ++ protocol.stream (emissions u.todo)) =
      ws ++ protocol.stream (emissions m.todo)) : Traced p k (past ++ new) u := by
  have due := h.words
  simp only [before, outstanding, dispatched] at due
  refine ⟨hs, ?_, fun _ _ => returns, ?_, ?_⟩
  · intro none
    rw [after] at none
    cases none
  · rw [counter]
    exact h.counter_append startsNone
  · simp only [after, outstanding, dispatched]
    rw [starts_append, startsNone, List.append_nil, written_append, List.append_assoc, words]
    exact due

theorem Traced.ret {i t : Slot} {rest : List Stmt} (h : Traced p k past m)
    (hpc : m.sched.pc = .body i t []) (htodo : m.todo = .ret :: rest)
    (hs : Consistent { m.sched with pc := .clear i }) :
    Traced p k (past ++ [.finished t])
      { m with sched := { m.sched with pc := .clear i }, todo := rest } := by
  have returns := h.returns t (by rw [hpc]; rfl)
  rw [htodo] at returns
  obtain rfl := returns.last
  have counter := h.counter
  have words := h.words
  rw [htodo] at counter
  rw [hpc, outstanding, hpc, htodo] at words
  refine ⟨hs, fun _ => rfl, ?_, ?_, ?_⟩
  · intro k hk
    cases hk
  · rw [starts_append]
    exact (List.append_nil (starts past)).symm ▸ counter
  · rw [written_append, dispatched_append _ rfl]
    exact (List.append_nil (written past)).symm ▸ words

theorem traced_of_cpu {new : List Event} {s : State} (h : Traced p k past m)
    (rule : Scheduler.Rule m.sched .cpu new s) :
    Traced p k (past ++ new) { m with sched := s, todo := load p m } := by
  have hs := consistent_of_rule h.consistent rule
  cases rule with
  | enter hpc _ | leave hpc _ | found i t hpc _ | empty i hpc _ | again i _ hpc | wrap i hpc _
  | clear i hpc =>
      exact h.quiet hs rfl rfl (by rw [hpc]; rfl) rfl (by simp [hpc]) (by simp)
  | own i t hpc hq =>
      obtain rfl := h.consistent.ownTask i t hq
      exact h.own hpc hs
  | call i t hpc hq =>
      obtain rfl := h.consistent.ownTask i t hq
      exact h.call hpc hq hs
  | fault i hpc hq => exact absurd hs.current id
  | write i t w ws hpc =>
      have returns := h.returns t (by rw [hpc]; rfl)
      rw [load_of_ne (by simp [hpc])]
      exact h.inBody hpc rfl hs rfl returns rfl rfl

theorem traced_of_rule {a : Input} {new : List Event} {u : Machine} (h : Traced p k past m)
    (rule : Rule p m a new u) : Traced p k (past ++ new) u := by
  have current := h.consistent.current
  cases rule with
  | tick => exact h.tick
  | cpu rule => exact traced_of_cpu h rule
  | emit e rest i t hpc htodo ok =>
      have returns := h.returns t (by rw [hpc]; rfl)
      rw [htodo] at returns
      rw [hpc] at current
      refine h.inBody hpc rfl ⟨h.consistent.ownTask, current⟩ rfl (returns.tail (by simp)) ?_ ?_
      · rw [htodo]
        rfl
      · rw [htodo]
        rfl
  | count rest i t hpc htodo =>
      have returns := h.returns t (by rw [hpc]; rfl)
      rw [htodo] at returns
      refine h.inBody hpc hpc h.consistent rfl (returns.tail (by simp)) ?_ ?_
      · have hcount : counts (.count :: rest) = 1 + counts rest := by
          rw [counts, List.count_cons_self, Nat.add_comm, counts]
        rw [htodo, hcount, BitVec.ofNat_add, ← BitVec.add_assoc]
        rfl
      · rw [htodo]
        rfl
  | disable rest i t hpc htodo =>
      have returns := h.returns t (by rw [hpc]; rfl)
      rw [htodo] at returns
      refine h.inBody hpc hpc ⟨h.consistent.ownTask, current⟩ rfl (returns.tail (by simp)) ?_ ?_
      · rw [htodo]
        rfl
      · rw [htodo]
        rfl
  | ret rest i t hpc htodo =>
      rw [hpc] at current
      exact h.ret hpc htodo ⟨h.consistent.ownTask, current.2⟩

theorem traced_of_run {c : BitVec 32} {ins : List Input} {evs : List Event}
    (h : run (step p) (start c) ins = some (evs, m)) : Traced p c.toNat evs m :=
  run_invariant (Traced p c.toNat) (traced_start p c)
    (fun _ _ _ _ _ ht hstep => traced_of_rule ht (rule_of_step hstep)) h

end Step

/-- No dispatch is under way. -/
def Resting (pc : Pc) : Prop := running? pc = none ∧ ∀ i, pc ≠ .call i

/-- The trace is the messages of the dispatches so far, up to the words the current
one still owes. Between two dispatches it decodes to exactly these, and from any
word on to the last of them. -/
theorem trace_of_application (p : Platform) {c : BitVec 32} {m : Machine} {ins : List Input}
    {evs : List Event} (h : run (step p) (start c) ins = some (evs, m)) :
    written evs ++ outstanding p m =
        protocol.stream (expected p c.toNat (dispatched evs m.sched.pc)) ∧
      (Resting m.sched.pc →
        protocol.decode (written evs) = some (expected p c.toNat (starts evs)) ∧
        ∀ k, ∃ j, protocol.decode (Framing.resync continues ((written evs).drop k)) =
          some ((expected p c.toNat (starts evs)).drop j)) := by
  have traced := traced_of_run h
  refine ⟨traced.words, ?_⟩
  rintro ⟨idle, other⟩
  have words := traced.words
  rw [outstanding_of_idle idle other, dispatched_of_ne other, List.append_nil] at words
  refine ⟨words ▸ protocol.decode_stream _, fun k => ?_⟩
  obtain ⟨j, aligned, -⟩ := protocol.resync_drop (expected p c.toNat (starts evs)) k
  refine ⟨j, ?_⟩
  rw [words]
  exact (congrArg protocol.decode aligned).trans (protocol.decode_stream _)

/-- At tick 100 three tasks are released, and the third opens the first round. -/
theorem trace_of_application_first_round :
    ∃ evs m, run (step ⟨0, 0⟩) (start 0) (List.replicate 100 .tick ++ List.replicate 27 .cpu) =
        some (evs, m) ∧
      protocol.decode (written evs) =
        some [.ownership 1, .ownership 2, .ownership 3, .marker 0xde, .marker 0xad, .marker 0xbe,
          .marker 0xef] := by
  obtain ⟨evs, m, hrun, h⟩ := exists_run_of_check (step ⟨0, 0⟩) (start 0)
    (List.replicate 100 .tick ++ List.replicate 27 .cpu)
    (fun evs m => decide (m.sched.pc = .next 2) && decide (starts evs = [0, 1, 2]))
    (by decide +kernel)
  simp only [Bool.and_eq_true, decide_eq_true_eq] at h
  have decoded := ((trace_of_application ⟨0, 0⟩ hrun).2 (by rw [h.1]; exact ⟨rfl, by simp⟩)).1
  rw [h.2] at decoded
  exact ⟨evs, m, hrun, decoded⟩

end TraceFS.Application
