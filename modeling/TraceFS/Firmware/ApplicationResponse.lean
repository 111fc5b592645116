import TraceFS.Firmware.ApplicationFinish
import TraceFS.Firmware.SchedulerDispatch

/-!
How long a released task waits: the slots on the way to its own are tested in
order, each found set costs at most its budget, and ticks cost nothing.

`task_1000ms` is the exception on the way. Once it is called it switches the
scheduler off, and what is still waiting behind it is never dispatched.
-/
namespace TraceFS.Application
open Transition CTrace Scheduler

/-- The most steps from the test of a slot to that of the next. Behind the last slot
only an empty one leads on. -/
def onTheWay (j : Slot) : Nat := if j = lastSlot then 2 else 5 + budget (tasks j).entry

def span (slots : Slot → Bool) : Nat := (((List.finRange numTasks).filter slots).map onTheWay).sum

/-- The most steps from the test of slot `j` to the call of slot `i`. -/
def toward (i j : Slot) : Nat :=
  3 + if j ≤ i then span fun l => j ≤ l && l < i
    else span (j ≤ ·) + 1 + span (· < i)

/-- The most steps to the call of slot `i` once slot `j` is done with. -/
def behind (i j : Slot) : Nat :=
  1 + if h : j.val + 1 < numTasks then toward i ⟨j.val + 1, h⟩ else 1 + toward i 0

def wait (i : Slot) (m : Machine) : Nat :=
  match m.sched.pc with
  | .loop => 1 + toward i 0
  | .test j => toward i j
  | .own j => toward i j - 1
  | .call j => toward i j - 2
  | .body j _ ws => if j = lastSlot then 1 else ws.length + workload m.todo + 1 + behind i j
  | .clear j => 1 + behind i j
  | .next j => behind i j
  | .returned | .fault => 0

/-- The longest wait is that of a task released just after its slot was tested. -/
def responseBound (i : Slot) : Nat := behind i i

theorem toward_eq {i j : Slot} (other : j ≠ i) : toward i j + 1 = onTheWay j + behind i j := by
  decide +revert

theorem toward_self (i : Slot) : toward i i = 3 := by
  decide +revert

theorem le_onTheWay (j : Slot) : 2 ≤ onTheWay j := by
  decide +revert

theorem le_toward (i j : Slot) : 3 ≤ toward i j := by
  decide +revert

theorem toward_last {i : Slot} (other : lastSlot ≠ i) : 4 ≤ toward i lastSlot := by
  decide +revert

theorem behind_again {i j : Slot} (h : j.val + 1 < numTasks) :
    behind i j = 1 + toward i ⟨j.val + 1, h⟩ := by
  rw [behind, dif_pos h]

theorem behind_wrap {i j : Slot} (h : ¬ j.val + 1 < numTasks) :
    behind i j = 1 + (1 + toward i 0) := by
  rw [behind, dif_neg h]

theorem le_responseBound (i j : Slot) :
    toward i j ≤ responseBound i ∧ behind i j ≤ responseBound i ∧ 1 + toward i 0 ≤ responseBound i := by
  decide +revert

section Step
variable {p : Platform} {k : Nat} {past new : List Event} {i : Slot} {m u : Machine}

theorem length_le_workload (todo : List Stmt) : todo.length ≤ workload todo := by
  induction todo with
  | nil => exact Nat.le_refl 0
  | cons stmt rest ih =>
      have paid : 1 ≤ cost stmt := by
        cases stmt with
        | emit e => exact Nat.le_add_right 1 _
        | count | disable | ret => exact Nat.le_refl 1
      rw [List.length_cons, workload_cons]
      omega

/-- While the scheduler is on, the body of the last task is about to switch it off. -/
theorem Planned.off_next {ws : List Word} {todo : List Stmt} (h : Planned lastSlot true ws todo)
    (returns : Returns todo) : ws = [] ∧ todo = [.disable, .ret] := by
  obtain ⟨pre, rfl, -⟩ := returns
  have mem : .disable ∈ pre := by
    have off := of_decide_eq_true (h.last rfl).symm
    simpa using off
  have few : ws.length + (pre ++ [Stmt.ret]).length ≤ 2 :=
    (Nat.add_le_add_left (length_le_workload _) _).trans h.affordable
  rw [List.length_append, List.length_singleton] at few
  have some : 0 < pre.length := List.length_pos_of_mem mem
  obtain ⟨stmt, rfl⟩ := List.length_eq_one_iff.mp (show pre.length = 1 by omega)
  obtain rfl := List.mem_singleton.mp mem
  exact ⟨List.length_eq_zero_iff.mp (by omega), rfl⟩

/-- A step of a run in which slot `i` goes on waiting. -/
def Nearer (i : Slot) (m u : Machine) (steps : Nat) : Prop :=
  (server u.sched).pending i = true ∧ u.sched.enabled = true ∧ wait i u + steps ≤ wait i m

theorem nearer_of_cpu {s : State} (h : Staged past m) (traced : Traced p k past m)
    (waiting : (server m.sched).pending i = true) (on : m.sched.enabled = true)
    (rule : Scheduler.Rule m.sched .cpu new s) :
    .started i ∈ new ∨ Nearer i m { m with sched := s, todo := load p m } 1 := by
  have hs := traced.consistent
  obtain ⟨queued, ahead⟩ := pending_iff.mp waiting
  cases rule with
  | enter hpc _ =>
      refine .inr ⟨pending_iff.mpr ⟨queued, rfl⟩, on, ?_⟩
      simp only [wait, hpc]
      omega
  | leave hpc off => exact absurd (on.symm.trans off) (by decide)
  | found j t hpc _ =>
      have room := le_toward i j
      refine .inr ⟨pending_iff.mpr ⟨queued, rfl⟩, on, ?_⟩
      simp only [wait, hpc]
      omega
  | empty j hpc hq =>
      have other : j ≠ i := by
        rintro rfl
        exact queued hq
      have way := le_onTheWay j
      have near := toward_eq other
      refine .inr ⟨pending_iff.mpr ⟨queued, rfl⟩, on, ?_⟩
      simp only [wait, hpc]
      omega
  | own j t hpc _ =>
      have room := le_toward i j
      refine .inr ⟨pending_iff.mpr ⟨queued, rfl⟩, on, ?_⟩
      simp only [wait, hpc]
      omega
  | call j t hpc hq =>
      obtain rfl := hs.ownTask j t hq
      by_cases other : t = i
      · subst other
        exact .inl List.mem_cons_self
      · refine .inr ⟨pending_iff.mpr ⟨queued, by simpa [Pc.dispatching] using other⟩, on, ?_⟩
        have body := workload_entry p m.counter (tasks t).entry
        have near := toward_eq other
        simp only [wait, hpc, load_of_call hpc hq, List.length_nil]
        split
        case isTrue last =>
            subst last
            have room := toward_last other
            omega
        case isFalse more =>
            rw [onTheWay, if_neg more] at near
            omega
  | fault j hpc hq =>
      have current := hs.current
      rcases hpc with hpc | hpc <;> simp [hpc, hq, Pc.Current] at current
  | write j t w ws hpc =>
      have shape := h.shape
      simp only [Shape, hpc, on] at shape
      have more : j ≠ lastSlot := by
        rintro rfl
        have none := (shape.off_next (traced.returns t (by rw [hpc]; rfl))).1
        cases none
      rw [hpc] at ahead
      rw [load_of_ne (by simp [hpc])]
      refine .inr ⟨pending_iff.mpr ⟨queued, ahead⟩, on, ?_⟩
      simp only [wait, hpc, if_neg more, List.length_cons]
      omega
  | clear j hpc =>
      have other : j ≠ i := by simpa [hpc, Pc.dispatching] using ahead
      refine .inr ⟨pending_iff.mpr ⟨?_, rfl⟩, on, ?_⟩
      · exact fun none => queued ((Function.update_of_ne (Ne.symm other) _ _).symm.trans none)
      · simp only [wait, hpc]
        omega
  | again j hlt hpc =>
      refine .inr ⟨pending_iff.mpr ⟨queued, rfl⟩, on, ?_⟩
      simp only [wait, hpc, behind_again hlt]
      omega
  | wrap j hpc hge =>
      refine .inr ⟨pending_iff.mpr ⟨queued, rfl⟩, on, ?_⟩
      simp only [wait, hpc, behind_wrap hge]
      omega

theorem nearer_of_rule {a : Input} (h : Staged past m) (traced : Traced p k past m)
    (waiting : (server m.sched).pending i = true) (on : m.sched.enabled = true) (rule : Rule p m a new u) :
    (.started i ∈ new ∨ u.sched.enabled = false) ∨
      Nearer i m u (if a == .cpu then 1 else 0) := by
  have shape := h.shape
  obtain ⟨queued, ahead⟩ := pending_iff.mp waiting
  -- the body of the last task has only its `disable` left to do
  have offNext {j t : Slot} {stmt : Stmt} {rest : List Stmt} (hpc : m.sched.pc = .body j t [])
      (htodo : m.todo = stmt :: rest) (other : stmt ≠ .disable) : j ≠ lastSlot := by
    rintro rfl
    simp only [Shape, hpc, on] at shape
    have todo := (shape.off_next (traced.returns t (by rw [hpc]; rfl))).2
    exact other (List.cons.inj (htodo.symm.trans todo)).1
  cases rule with
  | tick =>
      refine .inr ⟨pending_iff.mpr ⟨?_, ahead⟩, on, Nat.le_refl _⟩
      rw [schedulerNext_queue]
      split
      · exact Option.some_ne_none _
      · exact queued
  | cpu rule => exact (nearer_of_cpu h traced waiting on rule).imp_left .inl
  | disable rest j t hpc htodo => exact .inl (.inr rfl)
  | emit e rest j t hpc htodo _ =>
      have more := offNext hpc htodo (by simp)
      rw [hpc] at ahead
      refine .inr ⟨pending_iff.mpr ⟨queued, ahead⟩, on, ?_⟩
      simp only [wait, hpc, htodo, if_neg more, workload_cons, cost, List.length_nil,
        beq_self_eq_true, if_true]
      omega
  | count rest j t hpc htodo =>
      have more := offNext hpc htodo (by simp)
      refine .inr ⟨pending_iff.mpr ⟨queued, ahead⟩, on, ?_⟩
      simp only [wait, hpc, htodo, if_neg more, workload_cons, cost, List.length_nil,
        beq_self_eq_true, if_true]
      omega
  | ret rest j t hpc htodo =>
      have more := offNext hpc htodo (by simp)
      rw [hpc] at ahead
      refine .inr ⟨pending_iff.mpr ⟨queued, ahead⟩, on, ?_⟩
      simp only [wait, hpc, htodo, if_neg more, workload_cons, cost, List.length_nil,
        beq_self_eq_true, if_true]
      omega

theorem wait_le (h : Staged past m) (waiting : (server m.sched).pending i = true) (on : m.sched.enabled = true) :
    0 < wait i m ∧ wait i m ≤ responseBound i := by
  have shape := h.shape
  obtain ⟨queued, ahead⟩ := pending_iff.mp waiting
  have bound := le_responseBound i
  have room := le_toward i
  cases hpc : m.sched.pc with
  | loop =>
      have := (bound 0).2.2
      simp only [wait, hpc]
      omega
  | test j | own j | call j =>
      have := room j
      have := (bound j).1
      simp only [wait, hpc]
      omega
  | body j t ws =>
      have other : j ≠ i := by simpa [hpc, Pc.dispatching] using ahead
      have := room j
      have := (bound j).1
      have near := toward_eq other
      simp only [Shape, hpc] at shape
      have affordable := shape.affordable
      simp only [wait, hpc]
      split
      case isTrue => omega
      case isFalse more =>
          rw [onTheWay, if_neg more] at near
          omega
  | clear j =>
      have other : j ≠ i := by simpa [hpc, Pc.dispatching] using ahead
      have := le_onTheWay j
      have := (bound j).1
      have near := toward_eq other
      simp only [wait, hpc]
      omega
  | next j =>
      have := (bound j).2.1
      simp only [wait, hpc]
      exact ⟨by rw [behind]; omega, this⟩
  | returned =>
      simp only [Shape, hpc] at shape
      exact absurd (on.symm.trans shape) (by decide)
  | fault => simp only [Shape, hpc] at shape

end Step

/-- Tick 100 releases three tasks; the first has returned when tick 105 releases it again. -/
def missed : List Input :=
  List.replicate 100 .tick ++ (List.replicate 6 .cpu ++ List.replicate 5 .tick)

def notYet (evs : List Event) (m : Machine) : Bool := !evs.contains (.started 0) && m.sched.enabled

def missedNow (m : Machine) : Bool :=
  (m.sched.queue 0).isSome && !m.sched.pc.dispatching 0 &&
    (run (step ⟨0, 0⟩) m (List.replicate 31 .cpu)).any (fun r => notYet r.1 r.2) &&
    (run (step ⟨0, 0⟩) m (List.replicate 32 .cpu)).isSome

end TraceFS.Application
