import Mathlib.Algebra.Order.Group.Nat
import Mathlib.Data.Nat.ModEq
import TraceFS.Firmware.SchedulerRefinement

/-!
Dispatches counted against releases.

A slot that waits holds one release that no start has used up yet. Until the tick
counter wraps around, the ticks a period divides are as many as the counter
divided by the period.
-/
namespace TraceFS.Scheduler
open Transition

/-- The releases a slot holds: one while it waits for its dispatch. -/
def waiting (s : State) (i : Slot) : Nat := ((server s).pending i).toNat

/-- The releases of a step. -/
def released (s : State) : Act → Slot → Nat
  | .tick, i => (releases (s.ticks + 1) i).toNat
  | _, _ => 0

theorem waiting_schedulerNext (s : State) (i : Slot) :
    waiting (schedulerNext s) i ≤ waiting s i + (releases (s.ticks + 1) i).toNat := by
  simp only [waiting, server, schedulerNext_queue, schedulerNext_pc]
  cases releases (s.ticks + 1) i <;> cases s.pc.dispatching i <;> simp

theorem starts_single (e : Event) : starts [e] = (started? e).toList := by
  cases h : started? e <;> simp [starts, h]

/-- A start uses up the release its slot holds, and only a tick adds one. -/
theorem starts_add_waiting_of_rule {s t : State} {a : Act} {evs : List Event}
    (hs : Consistent s) (h : Rule s a evs t) (i : Slot) :
    (starts evs).count i + waiting t i ≤ waiting s i + released s a i := by
  have current := hs.current
  cases h with
  | tick => simpa [starts_single, started?, released] using waiting_schedulerNext s i
  | call j k hpc hq =>
      obtain rfl := hs.ownTask j k hq
      by_cases hj : k = i
      · subst hj
        simp [starts_single, started?, waiting, server, hpc, hq, Pc.dispatching]
      · simp [starts_single, started?, waiting, server, hpc, hj, Pc.dispatching]
  | fault j hpc hq =>
      rcases hpc with hpc | hpc <;> simp [hpc, hq, Pc.Current] at current
  | clear j hpc =>
      have hserver := server_clear hpc
      simp only [waiting, hserver]
      simp [starts_single, started?]
  | own j k hpc _ =>
      rw [starts_own]
      simp [waiting, server, hpc, Pc.dispatching]
  | enter hpc _ | leave hpc _ | found j k hpc _ | empty j hpc _ | write j k w ws hpc
  | again j _ hpc | wrap j hpc _ | emit e j k hpc _ | disable j k hpc | ret j k hpc =>
      simp [starts_single, started?, waiting, server, hpc, Pc.dispatching]

theorem releases_iff {now : BitVec 32} {i : Slot} :
    releases now i = true ↔ (tasks i).period.toNat ∣ now.toNat := by
  rw [releases, beq_iff_eq, ← BitVec.toNat_inj, BitVec.toNat_umod, Nat.dvd_iff_mod_eq_zero]
  rfl

/-- One more tick is one more multiple of the period exactly when it releases. -/
theorem div_succ_period {n : Nat} (h : n + 1 < 2 ^ 32) (i : Slot) :
    (n + 1) / (tasks i).period.toNat =
      n / (tasks i).period.toNat + (releases (BitVec.ofNat 32 (n + 1)) i).toNat := by
  have hnow : (BitVec.ofNat 32 (n + 1)).toNat = n + 1 := by
    rw [BitVec.toNat_ofNat]
    exact Nat.mod_eq_of_lt h
  rw [Nat.succ_div]
  by_cases hdvd : (tasks i).period.toNat ∣ n + 1
  · have hrel : releases (BitVec.ofNat 32 (n + 1)) i = true := releases_iff.mpr (by rwa [hnow])
    rw [if_pos hdvd, hrel]
    rfl
  · have hrel : ¬ releases (BitVec.ofNat 32 (n + 1)) i = true := by
      rw [releases_iff, hnow]
      exact hdvd
    rw [if_neg hdvd, Bool.eq_false_iff.mpr hrel]
    rfl

theorem starts_le_of_run {acts : List Act} {evs : List Event} {s : State}
    (h : run step schedulerInit acts = some (evs, s)) (hticks : acts.count .tick < 2 ^ 32) :
    s.ticks = BitVec.ofNat 32 (acts.count .tick) ∧ ∀ i,
      (starts evs).count i + waiting s i ≤ acts.count .tick / (tasks i).period.toNat := by
  induction acts using List.reverseRecOn generalizing evs s with
  | nil =>
      obtain ⟨rfl, rfl⟩ := Prod.mk.inj (Option.some.inj h)
      refine ⟨rfl, ?_⟩
      intro i
      simp [waiting, server, schedulerInit]
  | append_singleton acts a ih =>
      obtain ⟨past, u, new, hpast, hlast, hevs⟩ := run_append_iff.mp h
      have rule := step_rule (run_single_iff.mp hlast)
      rw [List.count_append] at hticks
      obtain ⟨hu, hcount⟩ := ih hpast (by omega)
      have hstep (i : Slot) := starts_add_waiting_of_rule (consistent_of_run hpast) rule i
      by_cases ha : a = .tick
      · subst ha
        have hone : ([Act.tick] : List Act).count .tick = 1 := rfl
        rw [hone] at hticks
        have hsucc : u.ticks + 1 = BitVec.ofNat 32 (acts.count .tick + 1) := by
          rw [hu, BitVec.ofNat_add]
          rfl
        have hnext : s.ticks = BitVec.ofNat 32 (acts.count .tick + 1) := by
          cases rule
          exact hsucc
        rw [List.count_append, hone]
        refine ⟨hnext, ?_⟩
        intro i
        have hone := hstep i
        have hall := hcount i
        simp only [released, hsucc] at hone
        rw [hevs, starts_append, List.count_append, div_succ_period hticks i]
        omega
      · have hnone : [a].count .tick = 0 := by simp [ha]
        have hkeep : s.ticks = u.ticks := by
          cases rule <;> first | rfl | exact absurd rfl ha
        rw [List.count_append, hnone, Nat.add_zero]
        refine ⟨by rw [hkeep, hu], ?_⟩
        intro i
        have hone := hstep i
        have hall := hcount i
        have hzero : released u a i = 0 := by
          cases a <;> first | rfl | exact absurd rfl ha
        rw [hevs, starts_append, List.count_append]
        omega

/-- No phantom dispatch: a task is started at most once for each multiple of its
period, and from the test of its slot to the call the slot holds the task. -/
theorem dispatches_le_releases {acts : List Act} {evs : List Event} {s : State}
    (h : run step schedulerInit acts = some (evs, s)) (hticks : acts.count .tick < 2 ^ 32) :
    (∀ i, (starts evs).count i ≤ s.ticks.toNat / (tasks i).period.toNat) ∧
      (∀ i, s.pc = .own i ∨ s.pc = .call i → s.queue i = some i) ∧ s.pc ≠ .fault := by
  have current := (consistent_of_run h).current
  refine ⟨?_, ?_, ?_⟩
  · intro i
    have ⟨hnow, hcount⟩ := starts_le_of_run h hticks
    have hi := hcount i
    rw [hnow, BitVec.toNat_ofNat, Nat.mod_eq_of_lt hticks]
    omega
  · intro i hpc
    cases hpc with
    | inl hown => simpa [hown, Pc.Current] using current
    | inr hcall => simpa [hcall, Pc.Current] using current
  · intro hfault
    simp [hfault, Pc.Current] at current

/-- Five ticks and the start of the 5 ms task. -/
theorem dispatches_le_releases_five_ticks :
    ∃ evs s, run step schedulerInit (List.replicate 5 .tick ++ List.replicate 4 .cpu) =
      some (evs, s) ∧ (starts evs).count 0 = 1 ∧
      (starts evs).count 0 ≤ s.ticks.toNat / (tasks 0).period.toNat := by
  obtain ⟨evs, s, hrun, hone⟩ := exists_run_of_check step schedulerInit
    (List.replicate 5 .tick ++ List.replicate 4 .cpu)
    (fun evs _ => decide ((starts evs).count 0 = 1)) (by decide)
  exact ⟨evs, s, hrun, of_decide_eq_true hone, (dispatches_le_releases hrun (by decide)).1 0⟩

end TraceFS.Scheduler
