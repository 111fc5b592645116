import TraceFS.Firmware.ApplicationResponse
import TraceFS.Firmware.SchedulerCounts

/-!
When the processor keeps up with the timer.

A release of a task is lost if its slot is still in use. With 34 steps between a
tick and the fifth one after it that never happens: until `task_1000ms` ends the
demonstration each of the other tasks is dispatched once in every period. A step is
one of `scheduler_run` or of a body; how long the processor takes for it is open.
-/
namespace TraceFS.Application
open Transition CTrace Scheduler

/-- Between a tick and the fifth one after it lie at least `n` steps of the processor. -/
def Paced (n : Nat) (ins : List Input) : Prop :=
  ∀ xs seg ys, ins = xs ++ .tick :: (seg ++ .tick :: ys) → 4 ≤ seg.count .tick →
    n ≤ seg.count .cpu

/-- The most steps from the call of a task to the clearing of its slot. -/
def finish (i : Slot) : Nat := budget (tasks i).entry + 1

/-- The steps until slot `i`, now set, is cleared. -/
def turnaround (i : Slot) (m : Machine) : Nat :=
  if m.sched.pc.dispatching i then
    match m.sched.pc with
    | .body _ _ ws => ws.length + workload m.todo + 1
    | _ => 1
  else wait i m + finish i

theorem turnaround_bound {i : Slot} (task : i ≠ lastSlot) : responseBound i + finish i = 34 := by
  decide +revert

theorem five_le_period (i : Slot) : 5 ≤ (tasks i).period.toNat := by
  decide +revert

theorem Paced.prefix {n : Nat} {xs ys : List Input} (h : Paced n (xs ++ ys)) : Paced n xs := by
  rintro xs' seg ys' rfl four
  exact h xs' seg (ys' ++ ys) (by simp) four

theorem turnaround_pos (i : Slot) (m : Machine) : 0 < turnaround i m := by
  rw [turnaround]
  split
  case isTrue =>
      split
      · exact Nat.succ_pos _
      · exact Nat.one_pos
  case isFalse => exact Nat.add_pos_right _ (Nat.succ_pos _)

theorem turnaround_of_pending {i : Slot} {m : Machine} (pending : (server m.sched).pending i = true) :
    turnaround i m = wait i m + finish i := by
  rw [turnaround, (pending_iff.mp pending).2]
  rfl

section Step
variable {p : Platform} {k : Nat} {past new : List Event} {i : Slot} {m u : Machine} {a : Input}

/-- Only the call of its entry starts a task. -/
theorem called_of_started (rule : Rule p m a new u) (mem : .started i ∈ new) :
    ∃ j, m.sched.pc = .call j ∧ m.sched.queue j = some i ∧
      u = { m with sched := { m.sched with pc := .body j i [] }, todo := load p m } := by
  cases rule with
  | cpu rule =>
      cases rule with
      | call j t hpc hq =>
          obtain rfl : i = t := by simpa using mem
          exact ⟨j, hpc, hq, rfl⟩
      | own j t _ _ => simp at mem
      | _ => simp at mem
  | _ => simp at mem

theorem turnaround_of_called (traced : Traced p k past m) (pending : (server m.sched).pending i = true)
    (rule : Rule p m a new u) (mem : .started i ∈ new) : turnaround i u + 1 ≤ turnaround i m := by
  obtain ⟨j, hpc, hq, rfl⟩ := called_of_started rule mem
  obtain rfl := traced.consistent.ownTask j i hq
  have body := workload_entry p m.counter (tasks i).entry
  have self := toward_self i
  rw [turnaround_of_pending pending]
  simp only [turnaround, Pc.dispatching, decide_true, if_true, load_of_call hpc hq, wait, hpc,
    List.length_nil, finish]
  omega

/-- In its own dispatch a slot is turned around by what is left of the body. -/
theorem turnaround_of_dispatching (inside : m.sched.pc.dispatching i = true)
    (rule : Rule p m a new u) :
    u.sched.queue i = none ∨ turnaround i u + (if a == .cpu then 1 else 0) ≤ turnaround i m := by
  cases rule with
  | tick => exact .inr (Nat.le_refl _)
  | cpu rule =>
      cases rule with
      | write j t w ws hpc =>
          rw [load_of_ne (by simp [hpc])]
          simp only [hpc, Pc.dispatching, decide_eq_true_eq] at inside
          refine .inr ?_
          simp only [turnaround, hpc, Pc.dispatching, inside, decide_true, if_true,
            List.length_cons, beq_self_eq_true]
          omega
      | clear j hpc =>
          simp only [hpc, Pc.dispatching, decide_eq_true_eq] at inside
          subst inside
          exact .inl (Function.update_self _ _ _)
      | fault j hpc _ => rcases hpc with hpc | hpc <;> simp [hpc, Pc.dispatching] at inside
      | enter hpc _ | leave hpc _ | found j t hpc _ | empty j hpc _ | own j t hpc _ | call j t hpc _
      | again j _ hpc | wrap j hpc _ => simp [hpc, Pc.dispatching] at inside
  | emit e rest j t hpc htodo _ | count rest j t hpc htodo | disable rest j t hpc htodo
  | ret rest j t hpc htodo =>
      simp only [hpc, Pc.dispatching, decide_eq_true_eq] at inside
      refine .inr ?_
      simp only [turnaround, hpc, htodo, workload_cons, cost, Pc.dispatching, inside, decide_true,
        if_true, List.length_nil, beq_self_eq_true]
      omega

/-- While the scheduler is on, the steps to the clearing of a set slot run out. -/
theorem turnaround_of_rule (h : Staged past m) (traced : Traced p k past m)
    (on : m.sched.enabled = true) (set : m.sched.queue i ≠ none) (rule : Rule p m a new u) :
    u.sched.enabled = false ∨ u.sched.queue i = none ∨
      turnaround i u + (if a == .cpu then 1 else 0) ≤ turnaround i m := by
  cases inside : m.sched.pc.dispatching i with
  | true => exact .inr (turnaround_of_dispatching inside rule)
  | false =>
      have pending := pending_iff.mpr ⟨set, inside⟩
      rcases nearer_of_rule h traced pending on rule with (started | off) | ⟨pending', -, lower⟩
      · refine .inr (.inr ?_)
        have called := turnaround_of_called traced pending rule started
        split <;> omega
      · exact .inl off
      · refine .inr (.inr ?_)
        rw [turnaround_of_pending pending, turnaround_of_pending pending']
        omega

/-- A start uses up the release its slot holds, and no other step of the processor does. -/
theorem starts_add_waiting_of_cpu {s t : State} (hs : Consistent s)
    (rule : Scheduler.Rule s .cpu new t) (i : Slot) :
    (starts new).count i + waiting t i = waiting s i := by
  have current := hs.current
  cases rule with
  | call j k hpc hq =>
      obtain rfl := hs.ownTask j k hq
      by_cases hj : k = i
      · subst hj
        simp [starts_single, started?, waiting, server, hpc, hq, Pc.dispatching]
      · simp [starts_single, started?, waiting, server, hpc, hj, Pc.dispatching]
  | fault j hpc hq =>
      rcases hpc with hpc | hpc <;> simp [hpc, hq, Pc.Current] at current
  | clear j hpc =>
      have free := server_clear hpc
      simp only [waiting, free]
      simp [starts_single, started?]
  | own j k hpc _ =>
      rw [starts_own]
      simp [waiting, server, hpc, Pc.dispatching]
  | enter hpc _ | leave hpc _ | found j k hpc _ | empty j hpc _ | write j k w ws hpc
  | again j _ hpc | wrap j hpc _ => simp [starts_single, started?, waiting, server, hpc, Pc.dispatching]

/-- What a step of the processor does to the releases of slot `i`. -/
structure Unreleased (i : Slot) (m u : Machine) (new : List Event) : Prop where
  counted : (starts new).count i + waiting u.sched i = waiting m.sched i
  ticks : u.sched.ticks = m.sched.ticks
  queue : u.sched.queue i ≠ none → m.sched.queue i ≠ none
  enabled : u.sched.enabled = true → m.sched.enabled = true

theorem unreleased_of_cpu (traced : Traced p k past m) (i : Slot) (rule : Rule p m .cpu new u) :
    Unreleased i m u new := by
  cases rule with
  | cpu rule =>
      have counted := starts_add_waiting_of_cpu traced.consistent rule i
      cases rule with
      | clear j hpc =>
          refine ⟨counted, rfl, fun set => ?_, id⟩
          by_cases hj : i = j
          · rw [hj] at set
            exact absurd (Function.update_self _ _ _) set
          · rwa [← Function.update_of_ne hj none m.sched.queue]
      | _ => exact ⟨counted, rfl, id, id⟩
  | emit e rest j t hpc _ _ | ret rest j t hpc _ =>
      exact ⟨by simp [starts_single, started?, waiting, server, hpc, Pc.dispatching], rfl, id, id⟩
  | count rest j t hpc _ => exact ⟨Nat.zero_add _, rfl, id, id⟩
  | disable rest j t hpc _ =>
      exact ⟨by simp [starts_single, started?, waiting, server, hpc, Pc.dispatching], rfl, id,
        fun on => by cases on⟩

/-- Slot `i` kept up with the timer: every release was started or waits, and what is in
use will be cleared within 34 steps of the tick that released it. -/
structure OnTime (i : Slot) (ins : List Input) (evs : List Event) (m : Machine) : Prop where
  counted : (starts evs).count i + waiting m.sched i =
    ins.count .tick / (tasks i).period.toNat
  due : m.sched.queue i ≠ none → ∃ xs seg, ins = xs ++ .tick :: seg ∧
    seg.count .tick = ins.count .tick % (tasks i).period.toNat ∧
    turnaround i m + seg.count .cpu ≤ 34

theorem mod_succ_period (n : Nat) (i : Slot) :
    (n + 1) % (tasks i).period.toNat =
      if (tasks i).period.toNat ≤ n % (tasks i).period.toNat + 1 then 0
      else n % (tasks i).period.toNat + 1 := by
  have five := five_le_period i
  have less := Nat.mod_lt n (show 0 < (tasks i).period.toNat by omega)
  rw [Nat.add_mod_eq_ite, Nat.mod_eq_of_lt (show 1 < (tasks i).period.toNat by omega)]
  split <;> omega

variable {ins : List Input}

/-- A slot that kept up is free again when the tick releases its task. -/
theorem OnTime.free (h : OnTime i ins past m) (paced : Paced 34 (ins ++ [.tick]))
    (last : (tasks i).period.toNat ≤ ins.count .tick % (tasks i).period.toNat + 1) :
    m.sched.queue i = none := by
  by_contra set
  obtain ⟨xs, seg, hins, hticks, bound⟩ := h.due set
  have five := five_le_period i
  have enough := paced xs seg [] (by rw [hins]; simp) (by omega)
  have := turnaround_pos i m
  omega

theorem OnTime.tick (h : OnTime i ins past m) (task : i ≠ lastSlot) (staged : Staged past m)
    (traced : Traced p k past m) (on : m.sched.enabled = true)
    (now : m.sched.ticks = BitVec.ofNat 32 (ins.count .tick))
    (paced : Paced 34 (ins ++ [.tick])) (short : ins.count .tick + 1 < 2 ^ 32) :
    OnTime i (ins ++ [.tick]) (past ++ [.tick (m.sched.ticks + 1)])
      { m with sched := schedulerNext m.sched } := by
  have next : m.sched.ticks + 1 = BitVec.ofNat 32 (ins.count .tick + 1) := by
    rw [now, BitVec.ofNat_add]
    rfl
  have one : (ins ++ [Input.tick]).count Input.tick = ins.count .tick + 1 := by simp
  have none : starts (past ++ [.tick (m.sched.ticks + 1)]) = starts past := by
    rw [starts_append]
    exact List.append_nil _
  have mod := mod_succ_period (ins.count .tick) i
  have div := div_succ_period short i
  have rel : releases (BitVec.ofNat 32 (ins.count .tick + 1)) i = true ↔
      (ins.count .tick + 1) % (tasks i).period.toNat = 0 := by
    rw [releases_iff, BitVec.toNat_ofNat, Nat.mod_eq_of_lt short, Nat.dvd_iff_mod_eq_zero]
  rw [mod] at rel
  have counted := h.counted
  have five := five_le_period i
  cases hrel : releases (BitVec.ofNat 32 (ins.count .tick + 1)) i with
  | true =>
      have last : (tasks i).period.toNat ≤ ins.count .tick % (tasks i).period.toNat + 1 := by
        by_contra more
        have zero := rel.mp hrel
        rw [if_neg more] at zero
        omega
      have free := h.free paced last
      have outside : m.sched.pc.dispatching i = false := by
        rw [Bool.eq_false_iff]
        intro inside
        have set := traced.consistent.queue_of_dispatching inside
        rw [free] at set
        cases set
      have pending := pending_of_release (next ▸ hrel) outside
      have before : waiting m.sched i = 0 := by simp [waiting, server, free]
      have after : waiting (schedulerNext m.sched) i = 1 := by rw [waiting, pending]; rfl
      refine ⟨?_, fun _ => ⟨ins, [], rfl, ?_, ?_⟩⟩
      · rw [none, one, div, hrel, after, ← counted, before]
        rfl
      · rw [one, mod, if_pos last]
        rfl
      · have bound := (wait_le staged.tick pending on).2
        have all := turnaround_bound task
        rw [turnaround_of_pending pending]
        simp only [List.count_nil]
        omega
  | false =>
      have more : ¬ (tasks i).period.toNat ≤ ins.count .tick % (tasks i).period.toNat + 1 := by
        intro last
        rw [if_pos last] at rel
        exact absurd (rel.mpr rfl) (by rw [hrel]; decide)
      have keep : (schedulerNext m.sched).queue i = m.sched.queue i := by
        rw [schedulerNext_queue, next, hrel]
        rfl
      have same : waiting (schedulerNext m.sched) i = waiting m.sched i := by
        simp only [waiting, server, keep, schedulerNext_pc]
      refine ⟨?_, fun set => ?_⟩
      · rw [none, one, div, hrel, same, counted]
        rfl
      · obtain ⟨xs, seg, hins, hticks, bound⟩ := h.due (keep ▸ set)
        refine ⟨xs, seg ++ [.tick], by rw [hins]; simp, ?_, ?_⟩
        · rw [one, mod, if_neg more, List.count_append, hticks]
          rfl
        · rw [List.count_append]
          exact bound

theorem OnTime.cpu (h : OnTime i ins past m) (staged : Staged past m) (traced : Traced p k past m)
    (on : u.sched.enabled = true) (rule : Rule p m .cpu new u) :
    OnTime i (ins ++ [.cpu]) (past ++ new) u := by
  have step := unreleased_of_cpu traced i rule
  have same : (ins ++ [Input.cpu]).count Input.tick = ins.count .tick := by simp
  refine ⟨?_, fun set => ?_⟩
  · rw [starts_append, List.count_append, same, ← h.counted, ← step.counted]
    omega
  · have before := step.queue set
    obtain ⟨xs, seg, hins, hticks, bound⟩ := h.due before
    refine ⟨xs, seg ++ [.cpu], by rw [hins]; simp, by rw [same, ← hticks]; simp, ?_⟩
    rcases turnaround_of_rule staged traced (step.enabled on) before rule with off | free | lower
    · exact absurd (on.symm.trans off) (by decide)
    · exact absurd free set
    · rw [List.count_append, List.count_singleton_self]
      simp only [beq_self_eq_true, if_true] at lower
      omega

/-- The invariant of a run. -/
structure KeepsUp (p : Platform) (k : Nat) (i : Slot) (ins : List Input) (evs : List Event)
    (m : Machine) : Prop where
  staged : Staged evs m
  traced : Traced p k evs m
  now : m.sched.ticks = BitVec.ofNat 32 (ins.count .tick)
  onTime : Paced 34 ins → ins.count .tick < 2 ^ 32 → m.sched.enabled = true → OnTime i ins evs m

theorem keepsUp_start (p : Platform) (c : BitVec 32) (i : Slot) :
    KeepsUp p c.toNat i [] [] (start c) where
  staged := staged_start c
  traced := traced_start p c
  now := rfl
  onTime _ _ _ := ⟨by simp [start, waiting, server, schedulerInit], fun set => absurd rfl set⟩

theorem keepsUp_of_rule (task : i ≠ lastSlot) (h : KeepsUp p k i ins past m)
    (rule : Rule p m a new u) : KeepsUp p k i (ins ++ [a]) (past ++ new) u := by
  have staged := staged_of_rule h.staged h.traced rule
  have traced := traced_of_rule h.traced rule
  cases a with
  | tick =>
      cases rule with
      | tick =>
          refine ⟨staged, traced, ?_, fun paced short on => ?_⟩
          · rw [List.count_append, List.count_singleton_self, BitVec.ofNat_add, ← h.now]
            rfl
          · rw [List.count_append, List.count_singleton_self] at short
            have before := h.onTime paced.prefix (Nat.lt_of_succ_lt short) on
            exact before.tick task h.staged h.traced on h.now paced short
  | cpu =>
      have step := unreleased_of_cpu h.traced i rule
      have same : (ins ++ [Input.cpu]).count Input.tick = ins.count .tick := by simp
      refine ⟨staged, traced, by rw [step.ticks, same, h.now], fun paced short on => ?_⟩
      have before := h.onTime paced.prefix (same ▸ short) (step.enabled on)
      exact before.cpu h.staged h.traced on rule

end Step

theorem keepsUp_of_run {p : Platform} {c : BitVec 32} {m : Machine} {ins : List Input}
    {evs : List Event} {i : Slot} (task : i ≠ lastSlot)
    (h : run (step p) (start c) ins = some (evs, m)) : KeepsUp p c.toNat i ins evs m :=
  run_invariant_acts (KeepsUp p c.toNat i) (keepsUp_start p c i)
    (fun _ _ _ _ _ _ before hstep => keepsUp_of_rule task before (rule_of_step hstep)) h

/-! A paced timer stops soon after tick 1000, with the processor. -/

theorem split_at_tick {k : Nat} {ins : List Input} (h : k < ins.count .tick) :
    ∃ xs ys, ins = xs ++ .tick :: ys ∧ xs.count .tick = k := by
  induction ins generalizing k with
  | nil => cases h
  | cons a ins ih =>
      cases a with
      | cpu =>
          obtain ⟨xs, ys, rfl, hxs⟩ := ih (k := k) (by simpa using h)
          exact ⟨.cpu :: xs, ys, rfl, by simpa using hxs⟩
      | tick =>
          cases k with
          | zero => exact ⟨[], ins, rfl, rfl⟩
          | succ k =>
              obtain ⟨xs, ys, rfl, hxs⟩ := ih (k := k) (by simpa using h)
              exact ⟨.tick :: xs, ys, rfl, by simpa using hxs⟩

theorem Paced.count {n k : Nat} {xs ys : List Input} (h : Paced n (xs ++ .tick :: ys))
    (ticks : 5 * k ≤ ys.count .tick) : n * k ≤ ys.count .cpu := by
  induction k generalizing xs ys with
  | zero => exact Nat.zero_le _
  | succ k ih =>
      obtain ⟨seg, zs, rfl, four⟩ := split_at_tick (show 4 < ys.count .tick by omega)
      have enough := h xs seg zs rfl (by omega)
      have later : Paced n ((xs ++ .tick :: seg) ++ .tick :: zs) := by simpa using h
      rw [List.count_append, List.count_cons_self] at ticks
      have rest := ih later (by omega)
      rw [Nat.mul_succ, List.count_append, List.count_cons_of_ne (by decide)]
      omega

theorem Paced.short {p : Platform} {c : BitVec 32} {m : Machine} {ins : List Input}
    {evs : List Event} (paced : Paced 34 ins) (h : run (step p) (start c) ins = some (evs, m)) :
    ins.count .tick < 1010 := by
  by_contra long
  obtain ⟨as, bs, rfl, thousand⟩ := split_at_tick (show 999 < ins.count .tick by omega)
  obtain ⟨past, t, _, first, later, rfl⟩ := run_append_iff.mp h
  obtain ⟨new, u, _, tick, rest, rfl⟩ := run_cons_iff.mp later
  have now := (keepsUp_of_run (i := 0) (by decide) first).now
  rw [thousand] at now
  have due : .tick 1000 ∈ past ++ new := by
    cases rule_of_step tick with
    | tick => simp [now]
  have left := steps_left (run_append first (run_single_iff.mpr tick)) due rest
  have many := paced.count (k := 2) (by simp at long; omega)
  omega

/-- With 34 steps of the processor in every five ticks no activation is lost: until
`task_1000ms` switches the scheduler off, each of the other tasks is dispatched once
in every period, but for a last release that still waits for its dispatch. -/
theorem dispatched_every_period (p : Platform) {c : BitVec 32} {m : Machine} {ins : List Input}
    {evs : List Event} (h : run (step p) (start c) ins = some (evs, m)) (paced : Paced 34 ins)
    (on : m.sched.enabled = true) {i : Slot} (task : i ≠ lastSlot) :
    (starts evs).count i + waiting m.sched i = ins.count .tick / (tasks i).period.toNat := by
  have short := paced.short h
  exact ((keepsUp_of_run task h).onTime paced (by omega) on).counted

/-- A timer that ticks every `g` steps of the processor. -/
def steady (g k : Nat) : List Input := (List.replicate k (.tick :: List.replicate g .cpu)).flatten

/-- In front of a tick every earlier tick had its steps. -/
theorem count_of_steady {g k : Nat} {xs ys : List Input} (h : steady g k = xs ++ .tick :: ys) :
    xs.count .cpu = g * xs.count .tick := by
  induction k generalizing xs with
  | zero => cases xs <;> cases h
  | succ k ih =>
      have split : .tick :: (List.replicate g .cpu ++ steady g k) = xs ++ .tick :: ys := h
      cases xs with
      | nil => simp
      | cons x xs =>
          obtain ⟨rfl, rest⟩ := List.cons.inj split
          rcases List.append_eq_append_iff.mp rest with ⟨gap, rfl, hgap⟩ | ⟨gap, hgap, hrest⟩
          · have := ih hgap
            simp [List.count_replicate, this, Nat.mul_add, Nat.add_comm]
          · cases gap with
            | nil =>
                rw [List.append_nil] at hgap
                simp [← hgap, List.count_replicate]
            | cons y gap =>
                obtain ⟨rfl, -⟩ := List.cons.inj hrest
                have wrong : Input.tick ∈ List.replicate g Input.cpu := by rw [hgap]; simp
                cases List.eq_of_mem_replicate wrong

/-- Seven steps a tick are enough. -/
theorem paced_steady {g : Nat} (h : 7 ≤ g) (k : Nat) : Paced 34 (steady g k) := by
  intro xs seg ys split four
  have first := count_of_steady split
  have later : steady g k = (xs ++ .tick :: seg) ++ .tick :: ys := by rw [split]; simp
  have second := count_of_steady later
  simp only [List.count_append, List.count_cons, first] at second
  have room : g * 5 ≤ g * (seg.count .tick + 1) := Nat.mul_le_mul_left g (by omega)
  simp [Nat.mul_add] at second room
  omega

/-- Eleven ticks, seven steps each: the second 10 ms period has begun, the third of 5 ms. -/
theorem dispatched_every_period_eleven :
    ∃ evs m, run (step ⟨0, 0⟩) (start 0) (steady 7 11) = some (evs, m) ∧
      m.sched.enabled = true ∧ (starts evs).count 0 + waiting m.sched 0 = 11 / 5 := by
  obtain ⟨evs, m, h, on⟩ := exists_run_of_check (step ⟨0, 0⟩) (start 0) (steady 7 11)
    (fun _ m => m.sched.enabled) (by decide +kernel)
  exact ⟨evs, m, h, on, dispatched_every_period ⟨0, 0⟩ h (paced_steady (by decide) 11) on
    (by decide)⟩

end TraceFS.Application
