import Mathlib.Tactic.SplitIfs
import TraceFS.Firmware.ApplicationTrace

/-!
How the demonstration ends as long as `i` survives the calls: `task_1000ms` is
dispatched once, as the last task, and `scheduler_run` returns a bounded number of
steps after tick 1000.

The bound is a rank: the steps still to take if every slot tested on the way is
found set, the body of each costing at most its budget.
-/
namespace TraceFS.Application
open Transition CTrace Scheduler

def lastSlot : Slot := 3

def cost : Stmt → Nat
  | .emit e => 1 + e.words.length
  | _ => 1

def workload (todo : List Stmt) : Nat := (todo.map cost).sum

/-- The most steps an activation takes from its call to its return. -/
def budget : Entry → Nat
  | .task5ms => 1
  | .task10ms => 1
  | .task100ms => 14
  | .task1000ms => 2

/-- The steps from the test of slot `i` on to the return, when all slots from `i` on
are found set and `task_1000ms` is among them. -/
def passFrom (i : Slot) : Nat :=
  (((List.finRange numTasks).filter (i ≤ ·)).map fun j => 5 + budget (tasks j).entry).sum + 1

/-- The steps once slot `i` is done with. -/
def leave (i : Slot) (enabled : Bool) : Nat :=
  1 + if h : i.val + 1 < numTasks then passFrom ⟨i.val + 1, h⟩
    else if enabled then 1 + passFrom 0 else 1

def rank (m : Machine) : Nat :=
  match m.sched.pc with
  | .loop => if m.sched.enabled then 1 + passFrom 0 else 1
  | .test i => passFrom i
  | .own i => passFrom i - 1
  | .call i => passFrom i - 2
  | .body i _ ws => ws.length + workload m.todo + 1 + leave i false
  | .clear i => 1 + leave i false
  | .next i => leave i m.sched.enabled
  | .returned | .fault => 0

theorem passFrom_eq (i : Slot) :
    passFrom i = 4 + budget (tasks i).entry + leave i false := by
  decide +revert

theorem leave_of_ne {i : Slot} (hi : i ≠ lastSlot) (enabled : Bool) :
    leave i enabled = leave i false := by
  decide +revert

theorem rank_bound : ∀ (i : Slot) (enabled : Bool),
    1 + passFrom i ≤ 41 ∧ leave i enabled ≤ 41 := by
  decide

theorem words_length (e : Emission) :
    e.words.length = match e with
      | .u64 _ | .s64 _ | .f64 _ => 4
      | .u32 _ | .s32 _ | .f32 _ | .p32 _ => 2
      | _ => 1 := by
  cases e <;> rfl

theorem workload_testEmissions (p : Platform) (c : BitVec 32) :
    workload ((testEmissions p c).map .emit) ≤ 12 := by
  unfold testEmissions
  split_ifs <;> simp [workload, cost, words_length]

theorem workload_entry (p : Platform) (c : BitVec 32) (e : Entry) :
    workload (entry p c e) ≤ budget e := by
  cases e with
  | task5ms | task10ms | task1000ms => exact Nat.le_refl _
  | task100ms =>
      have tests := workload_testEmissions p c
      simp only [workload, entry, task100ms, ctraceTestMain, List.map_append, List.sum_append,
        budget] at tests ⊢
      simp only [List.map_cons, List.map_nil, List.sum_cons, List.sum_nil, cost]
      omega

/-- What is left of a body. Only that of the last slot switches the scheduler off. -/
structure Planned (i : Slot) (enabled : Bool) (ws : List Word) (todo : List Stmt) : Prop where
  affordable : ws.length + workload todo ≤ budget (tasks i).entry
  plain : ∀ e, .emit e ∈ todo → bodyEmits e = true
  once : todo.count .disable ≤ 1
  others : i ≠ lastSlot → enabled = true ∧ .disable ∉ todo
  last : i = lastSlot → enabled = decide (.disable ∈ todo)

def Shape (m : Machine) : Prop :=
  match m.sched.pc with
  | .loop => True
  | .test _ | .own _ | .call _ => m.sched.enabled = true
  | .body i _ ws => Planned i m.sched.enabled ws m.todo
  | .clear i => m.sched.enabled = decide (i ≠ lastSlot)
  | .next i => i ≠ lastSlot → m.sched.enabled = true
  | .returned => m.sched.enabled = false
  | .fault => False

theorem plain_testEmissions (p : Platform) (c : BitVec 32) :
    ∀ e ∈ testEmissions p c, bodyEmits e = true := by
  unfold testEmissions
  split_ifs <;> simp [bodyEmits]

theorem disable_mem_entry {p : Platform} {c : BitVec 32} {e : Entry} :
    .disable ∈ entry p c e ↔ e = .task1000ms := by
  cases e with
  | task5ms | task10ms | task1000ms => simp [entry, task5ms, task10ms, task1000ms]
  | task100ms => simp [entry, task100ms, ctraceTestMain]

theorem entry_eq_task1000ms_iff (i : Slot) : (tasks i).entry = .task1000ms ↔ i = lastSlot := by
  decide +revert

theorem planned_entry (p : Platform) (c : BitVec 32) (i : Slot) :
    Planned i true [] (entry p c (tasks i).entry) where
  affordable := by simpa using workload_entry p c (tasks i).entry
  plain := by
    cases (tasks i).entry with
    | task5ms | task10ms | task1000ms => simp [entry, task5ms, task10ms, task1000ms]
    | task100ms => simpa [entry, task100ms, ctraceTestMain] using plain_testEmissions p c
  once := by
    cases (tasks i).entry with
    | task5ms | task10ms | task1000ms => simp [entry, task5ms, task10ms, task1000ms]
    | task100ms =>
        have never : (entry p c .task100ms).count .disable = 0 :=
          List.count_eq_zero.mpr fun mem => by cases disable_mem_entry.mp mem
        omega
  others := by
    intro hi
    rw [disable_mem_entry, entry_eq_task1000ms_iff]
    exact ⟨rfl, hi⟩
  last := by
    intro hi
    exact (decide_eq_true (disable_mem_entry.mpr ((entry_eq_task1000ms_iff i).mpr hi))).symm

/-- `task_1000ms` was called. -/
def Called (m : Machine) : Prop :=
  m.sched.enabled = false ∨ m.sched.pc.dispatching lastSlot = true

/-- Where the demonstration stands. -/
structure Staged (evs : List Event) (m : Machine) : Prop where
  shape : Shape m
  called : Called m → ∃ pre, starts evs = pre ++ [lastSlot] ∧ lastSlot ∉ pre
  waiting : ¬ Called m → lastSlot ∉ starts evs
  released : .tick 1000 ∈ evs → Called m ∨ m.sched.queue lastSlot ≠ none

theorem staged_start (c : BitVec 32) : Staged [] (start c) where
  shape := True.intro
  called := by
    rintro (off | inside)
    · cases off
    · cases inside
  waiting := by
    intro _
    exact List.not_mem_nil
  released := by
    intro released
    cases released

section Step
variable {p : Platform} {k : Nat} {past new : List Event} {m u : Machine}

/-- A step that calls nobody and keeps the slot of the last task. -/
theorem Staged.quiet (h : Staged past m) (shape : Shape u) (startsNone : starts new = [])
    (tickNone : .tick 1000 ∉ new) (called : Called u ↔ Called m)
    (queue : ¬ Called m → u.sched.queue lastSlot = m.sched.queue lastSlot) :
    Staged (past ++ new) u where
  shape := shape
  called := by
    rw [starts_append, startsNone, List.append_nil, called]
    exact h.called
  waiting := by
    rw [starts_append, startsNone, List.append_nil, called]
    exact h.waiting
  released := by
    intro mem
    rcases List.mem_append.mp mem with mem | mem
    · by_cases hm : Called m
      · exact .inl (called.mpr hm)
      · rw [queue hm]
        exact .inr ((h.released mem).resolve_left hm)
    · exact absurd mem tickNone

theorem Staged.tick (h : Staged past m) :
    Staged (past ++ [.tick (m.sched.ticks + 1)]) { m with sched := schedulerNext m.sched } where
  shape := h.shape
  called := by
    rw [starts_append]
    exact (List.append_nil (starts past)).symm ▸ h.called
  waiting := by
    rw [starts_append]
    exact (List.append_nil (starts past)).symm ▸ h.waiting
  released := by
    intro mem
    rw [schedulerNext_queue]
    rcases List.mem_append.mp mem with mem | mem
    · refine (h.released mem).imp_right fun set => ?_
      split
      · exact Option.some_ne_none _
      · exact set
    · have now : m.sched.ticks + 1 = 1000 := by simpa using (List.mem_singleton.mp mem).symm
      rw [now, if_pos (by decide)]
      exact .inr (Option.some_ne_none _)

theorem Staged.call {i : Slot} (h : Staged past m) (hpc : m.sched.pc = .call i)
    (hq : m.sched.queue i = some i) :
    Staged (past ++ [.started i])
      { m with sched := { m.sched with pc := .body i i [] }, todo := load p m } := by
  have on : m.sched.enabled = true := by simpa only [Shape, hpc] using h.shape
  have early : ¬ Called m := by simp [Called, hpc, on, Pc.dispatching]
  have fresh := h.waiting early
  rw [load_of_call hpc hq]
  refine ⟨?_, ?_, ?_, ?_⟩
  · rw [Shape, on]
    exact planned_entry p m.counter i
  · rintro (off | inside)
    · exact absurd (on.symm.trans off) (by decide)
    · obtain rfl := of_decide_eq_true inside
      exact ⟨starts past, starts_snoc past _, fresh⟩
  · intro other
    rw [starts_snoc, List.mem_append, not_or]
    refine ⟨fresh, ?_⟩
    rintro mem
    obtain rfl := List.mem_singleton.mp mem
    exact other (.inr rfl)
  · intro mem
    rcases List.mem_append.mp mem with mem | mem
    · exact .inr ((h.released mem).resolve_left early)
    · cases List.mem_singleton.mp mem

theorem staged_of_cpu {s : State} (h : Staged past m) (traced : Traced p k past m)
    (rule : Scheduler.Rule m.sched .cpu new s) :
    Staged (past ++ new) { m with sched := s, todo := load p m } := by
  have hs := traced.consistent
  have shape := h.shape
  cases rule with
  | enter hpc on =>
      exact h.quiet on rfl List.not_mem_nil (by simp [Called, hpc, Pc.dispatching]) fun _ => rfl
  | leave hpc off =>
      exact h.quiet off rfl List.not_mem_nil (by simp [Called, hpc, Pc.dispatching]) fun _ => rfl
  | found i t hpc _ =>
      simp only [Shape, hpc] at shape
      exact h.quiet shape rfl List.not_mem_nil (by simp [Called, hpc, Pc.dispatching]) fun _ => rfl
  | empty i hpc _ =>
      simp only [Shape, hpc] at shape
      exact h.quiet (fun _ => shape) rfl List.not_mem_nil (by simp [Called, hpc, Pc.dispatching])
        fun _ => rfl
  | own i t hpc _ =>
      simp only [Shape, hpc] at shape
      exact h.quiet shape (starts_own _) (by simp) (by simp [Called, hpc, Pc.dispatching])
        fun _ => rfl
  | call i t hpc hq =>
      obtain rfl := hs.ownTask i t hq
      exact h.call hpc hq
  | fault i hpc hq =>
      have current := hs.current
      rcases hpc with hpc | hpc <;> simp [hpc, hq, Pc.Current] at current
  | write i t w ws hpc =>
      simp only [Shape, hpc] at shape
      rw [load_of_ne (by simp [hpc])]
      have affordable : ws.length + workload m.todo ≤ budget (tasks i).entry := by
        have more := shape.affordable
        rw [List.length_cons] at more
        omega
      exact h.quiet ⟨affordable, shape.plain, shape.once, shape.others, shape.last⟩ rfl (by simp)
        (by simp [Called, hpc, Pc.dispatching]) fun _ => rfl
  | clear i hpc =>
      simp only [Shape, hpc] at shape
      have called : Called m ↔ i = lastSlot := by
        simp [Called, hpc, shape, Pc.dispatching]
      refine h.quiet ?_ rfl (by simp) ?_ ?_
      · intro hi
        rw [shape]
        exact decide_eq_true hi
      · rw [called]
        simp [Called, shape, Pc.dispatching]
      · intro other
        exact Function.update_of_ne (fun heq => other (called.mpr heq.symm)) _ _
  | again i hlt hpc =>
      simp only [Shape, hpc] at shape
      have hi : i ≠ lastSlot := by
        rintro rfl
        exact absurd hlt (by decide)
      exact h.quiet (shape hi) rfl List.not_mem_nil (by simp [Called, hpc, Pc.dispatching])
        fun _ => rfl
  | wrap i hpc _ =>
      exact h.quiet True.intro rfl List.not_mem_nil (by simp [Called, hpc, Pc.dispatching])
        fun _ => rfl

theorem workload_cons (stmt : Stmt) (rest : List Stmt) :
    workload (stmt :: rest) = cost stmt + workload rest := by
  rw [workload, List.map_cons, List.sum_cons, workload]

theorem Planned.tail {i : Slot} {enabled : Bool} {ws : List Word} {stmt : Stmt} {rest : List Stmt}
    (h : Planned i enabled [] (stmt :: rest)) (paid : ws.length + 1 ≤ cost stmt)
    (other : stmt ≠ .disable) : Planned i enabled ws rest where
  affordable := by
    have affordable := h.affordable
    rw [workload_cons, List.length_nil] at affordable
    omega
  plain := fun e mem => h.plain e (List.mem_cons_of_mem _ mem)
  once := (List.count_le_count_cons).trans h.once
  others := fun hi => ⟨(h.others hi).1, fun mem => (h.others hi).2 (List.mem_cons_of_mem _ mem)⟩
  last := by
    intro hi
    rw [h.last hi]
    simp [other.symm]

theorem staged_of_rule {a : Input} (h : Staged past m) (traced : Traced p k past m)
    (rule : Rule p m a new u) : Staged (past ++ new) u := by
  have shape := h.shape
  cases rule with
  | tick => exact h.tick
  | cpu rule => exact staged_of_cpu h traced rule
  | emit e rest i t hpc htodo ok =>
      simp only [Shape, hpc, htodo] at shape
      exact h.quiet (shape.tail (Nat.le_of_eq (Nat.add_comm _ _)) (by simp)) rfl (by simp)
        (by simp [Called, hpc, Pc.dispatching]) fun _ => rfl
  | count rest i t hpc htodo =>
      simp only [Shape, hpc, htodo] at shape
      refine h.quiet ?_ rfl (by simp) Iff.rfl fun _ => rfl
      simp only [Shape, hpc]
      exact shape.tail (Nat.le_refl 1) (by simp)
  | disable rest i t hpc htodo =>
      simp only [Shape, hpc, htodo] at shape
      have hi : i = lastSlot := by
        by_contra hi
        exact (shape.others hi).2 List.mem_cons_self
      have never : .disable ∉ rest := by
        have once := shape.once
        rw [List.count_cons_self] at once
        exact List.count_eq_zero.mp (by omega)
      have affordable := shape.affordable
      rw [workload_cons] at affordable
      refine h.quiet ?_ rfl (by simp) (by simp [Called, hpc, hi, Pc.dispatching]) fun _ => rfl
      simp only [Shape, hpc]
      refine ⟨by omega, fun e mem => shape.plain e (List.mem_cons_of_mem _ mem), ?_,
        fun other => absurd hi other, fun _ => (decide_eq_false never).symm⟩
      rw [List.count_eq_zero.mpr never]
      exact Nat.zero_le 1
  | ret rest i t hpc htodo =>
      simp only [Shape, hpc, htodo] at shape
      have returns := traced.returns t (by rw [hpc]; rfl)
      rw [htodo] at returns
      obtain rfl := returns.last
      refine h.quiet ?_ rfl (by simp) (by simp [Called, hpc, Pc.dispatching]) fun _ => rfl
      by_cases hi : i = lastSlot
      · simpa [Shape, hi] using shape.last hi
      · simpa [Shape, hi] using (shape.others hi).1

/-! The rank. -/

theorem le_leave (i : Slot) (enabled : Bool) : 2 ≤ leave i enabled := by
  decide +revert

theorem leave_again (i : Slot) (enabled : Bool) (h : i.val + 1 < numTasks) :
    leave i enabled = 1 + passFrom ⟨i.val + 1, h⟩ := by
  rw [leave, dif_pos h]

theorem leave_wrap (i : Slot) (enabled : Bool) (h : ¬ i.val + 1 < numTasks) :
    leave i enabled = 1 + if enabled then 1 + passFrom 0 else 1 := by
  rw [leave, dif_neg h]

theorem rank_of_cpu {s : State} (h : Staged past m) (traced : Traced p k past m)
    (due : .tick 1000 ∈ past) (rule : Scheduler.Rule m.sched .cpu new s) :
    rank { m with sched := s, todo := load p m } + 1 ≤ rank m := by
  have hs := traced.consistent
  have shape := h.shape
  cases rule with
  | enter hpc on => simp only [rank, hpc, on, if_true]; omega
  | leave hpc off => simp [rank, hpc, off]
  | found i t hpc _ =>
      have enough := passFrom_eq i
      simp only [rank, hpc]
      omega
  | empty i hpc hq =>
      simp only [Shape, hpc] at shape
      have early : ¬ Called m := by simp [Called, hpc, shape, Pc.dispatching]
      have set := (h.released due).resolve_left early
      have hi : i ≠ lastSlot := by
        rintro rfl
        exact set hq
      have enough := passFrom_eq i
      simp only [rank, hpc, leave_of_ne hi]
      omega
  | own i t hpc _ =>
      have enough := passFrom_eq i
      have rest := le_leave i false
      simp only [rank, hpc]
      omega
  | call i t hpc hq =>
      obtain rfl := hs.ownTask i t hq
      have enough := passFrom_eq t
      have body := workload_entry p m.counter (tasks t).entry
      simp only [rank, hpc, load_of_call hpc hq, List.length_nil]
      omega
  | fault i hpc hq =>
      have current := hs.current
      rcases hpc with hpc | hpc <;> simp [hpc, hq, Pc.Current] at current
  | write i t w ws hpc =>
      rw [load_of_ne (by simp [hpc])]
      simp only [rank, hpc, List.length_cons]
      omega
  | clear i hpc =>
      simp only [Shape, hpc] at shape
      have same : leave i m.sched.enabled = leave i false := by
        by_cases hi : i = lastSlot
        · rw [shape, decide_eq_false (by simpa using hi)]
        · exact leave_of_ne hi _
      simp only [rank, hpc, same]
      omega
  | again i hlt hpc =>
      simp only [rank, hpc, leave_again i _ hlt]
      omega
  | wrap i hpc hge =>
      simp only [rank, hpc, leave_wrap i _ hge]
      omega

theorem rank_of_rule {a : Input} (h : Staged past m) (traced : Traced p k past m)
    (due : .tick 1000 ∈ past) (rule : Rule p m a new u) :
    rank u + (if a == .cpu then 1 else 0) ≤ rank m := by
  cases rule with
  | tick => exact Nat.le_refl _
  | cpu rule => exact rank_of_cpu h traced due rule
  | emit e rest i t hpc htodo _ =>
      simp only [rank, hpc, htodo, workload_cons, cost, List.length_nil, beq_self_eq_true, if_true]
      omega
  | count rest i t hpc htodo | disable rest i t hpc htodo =>
      simp only [rank, hpc, htodo, workload_cons, cost, List.length_nil, beq_self_eq_true, if_true]
      omega
  | ret rest i t hpc htodo =>
      simp only [rank, hpc, htodo, workload_cons, cost, List.length_nil, beq_self_eq_true, if_true]
      omega

/-- Only a scheduler that returned cannot go on. -/
theorem exists_cpu_step_of_body (consistent : Consistent m.sched)
    (body : ∀ i t, m.sched.pc = .body i t [] →
      Returns m.todo ∧ ∀ e, .emit e ∈ m.todo → bodyEmits e = true)
    (running : m.sched.pc ≠ .returned) : (step p m .cpu).isSome = true := by
  have current := consistent.current
  cases hpc : m.sched.pc with
  | loop | test i | clear i | next i =>
      simp [step, hpc, Machine.act, Scheduler.step, cpu]
  | own i | call i =>
      simp only [hpc, Pc.Current] at current
      simp [step, hpc, Machine.act, Scheduler.step, cpu, current]
  | returned => exact absurd hpc running
  | fault => simp [hpc, Pc.Current] at current
  | body i t ws =>
      cases ws with
      | cons w ws => simp [step, hpc, Machine.act, Scheduler.step, cpu]
      | nil =>
          obtain ⟨⟨pre, htodo, -⟩, plain⟩ := body i t hpc
          cases pre with
          | nil => simp [step, hpc, htodo, perform, Machine.act, Scheduler.step, inBody]
          | cons stmt pre =>
              cases stmt with
              | emit e =>
                  have plain := plain e (by simp [htodo])
                  simp [step, hpc, htodo, perform, Machine.act, Scheduler.step, inBody, plain]
              | count | disable | ret =>
                  simp [step, hpc, htodo, perform, Machine.act, Scheduler.step, inBody]

theorem exists_cpu_step (h : Staged past m) (traced : Traced p k past m)
    (running : m.sched.pc ≠ .returned) : (step p m .cpu).isSome = true := by
  refine exists_cpu_step_of_body traced.consistent (fun i t hpc => ?_) running
  have shape := h.shape
  simp only [Shape, hpc] at shape
  exact ⟨traced.returns t (by rw [hpc]; rfl), shape.plain⟩

/-- The trace is whole and names `task_1000ms` exactly once, at its end. -/
def Complete (p : Platform) (k : Nat) (evs : List Event) : Prop :=
  ∃ pre, starts evs = pre ++ [lastSlot] ∧ lastSlot ∉ pre ∧
    protocol.decode (written evs) = some (expected p k (pre ++ [lastSlot]))

/-- So it is when the scheduler is off and no dispatch under way. -/
theorem complete_of_off (h : Staged past m) (traced : Traced p k past m)
    (off : m.sched.enabled = false) (idle : running? m.sched.pc = none)
    (other : ∀ i, m.sched.pc ≠ .call i) : Complete p k past := by
  obtain ⟨pre, hstarts, hpre⟩ := h.called (.inl off)
  refine ⟨pre, hstarts, hpre, ?_⟩
  have words := traced.words
  rw [outstanding_of_idle idle other, dispatched_of_ne other, List.append_nil, hstarts] at words
  rw [words]
  exact protocol.decode_stream _

theorem trace_of_returned (h : Staged past m) (traced : Traced p k past m)
    (returned : m.sched.pc = .returned) : Complete p k past := by
  have shape := h.shape
  simp only [Shape, returned] at shape
  exact complete_of_off h traced shape (by rw [returned]; rfl) (by simp [returned])

theorem staged_of_run {c : BitVec 32} {ins : List Input} {evs : List Event}
    (h : run (step p) (start c) ins = some (evs, m)) : Staged evs m ∧ Traced p c.toNat evs m :=
  run_invariant (fun evs m => Staged evs m ∧ Traced p c.toNat evs m)
    ⟨staged_start c, traced_start p c⟩
    (fun _ _ _ _ _ both hstep =>
      ⟨staged_of_rule both.1 both.2 (rule_of_step hstep), traced_of_rule both.2 (rule_of_step hstep)⟩)
    h

end Step

theorem rank_le {m : Machine} (shape : Shape m) : rank m ≤ 41 := by
  have bound := rank_bound
  cases hpc : m.sched.pc with
  | loop =>
      have := (bound 0 true).1
      simp only [rank, hpc]
      split <;> omega
  | test i | own i | call i =>
      have := (bound i true).1
      simp only [rank, hpc]
      omega
  | clear i =>
      have := passFrom_eq i
      have := (bound i true).1
      simp only [rank, hpc]
      omega
  | next i =>
      simp only [rank, hpc]
      exact (bound i _).2
  | body i t ws =>
      simp only [Shape, hpc] at shape
      have affordable := shape.affordable
      have := passFrom_eq i
      have := (bound i true).1
      simp only [rank, hpc]
      omega
  | returned | fault => simp [rank, hpc]

/-- Behind tick 1000 few steps of the processor are left. -/
theorem steps_left {p : Platform} {c : BitVec 32} {m u : Machine} {as bs : List Input}
    {past later : List Event} (first : run (step p) (start c) as = some (past, m))
    (due : .tick 1000 ∈ past) (rest : run (step p) m bs = some (later, u)) :
    bs.count .cpu ≤ 41 := by
  obtain ⟨staged, traced⟩ := staged_of_run first
  have inv : ∀ s a evs t, (∃ past, .tick 1000 ∈ past ∧ Staged past s ∧ Traced p c.toNat past s) →
      step p s a = some (evs, t) →
      (∃ past, .tick 1000 ∈ past ∧ Staged past t ∧ Traced p c.toNat past t) ∧
        rank t + (if a == .cpu then 1 else 0) ≤ rank s := by
    rintro s a evs t ⟨past, mem, hs, ht⟩ hstep
    have rule := rule_of_step hstep
    exact ⟨⟨past ++ evs, List.mem_append_left _ mem, staged_of_rule hs ht rule,
      traced_of_rule ht rule⟩, rank_of_rule hs ht mem rule⟩
  obtain ⟨-, bound⟩ := run_rank _ rank (· == .cpu) inv ⟨past, due, staged, traced⟩ rest
  have le := rank_le staged.shape
  rw [List.count]
  omega

end TraceFS.Application
