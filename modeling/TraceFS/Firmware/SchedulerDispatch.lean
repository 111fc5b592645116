import TraceFS.Firmware.SchedulerRefinement

/-!
What happens to a released task: whether its activation is dispatched, and how
many other tasks are dispatched before it.
-/
namespace TraceFS.Scheduler
open Transition

/-- Some tick released task `i` and no dispatch of it has started since. -/
def Owed (evs : List Event) (i : Slot) : Prop :=
  ∃ past now later, evs = past ++ .tick now :: later ∧ releases now i = true ∧ i ∉ starts later

/-- While `scheduler_run` has not returned, every owed activation still has its
slot set. -/
def Kept (evs : List Event) (s : State) : Prop :=
  s.pc ≠ .returned → ∀ i, Owed evs i → s.queue i ≠ none

/-- A tick that releases a task inside that task's own dispatch. -/
def SelfRelease (s : State) (a : Act) : Prop :=
  a = .tick ∧ ∃ i, releases (s.ticks + 1) i = true ∧ s.pc.dispatching i = true

theorem owed_append {past new : List Event} {i : Slot} (h : Owed (past ++ new) i) :
    (Owed past i ∧ i ∉ starts new) ∨ ∃ now, .tick now ∈ new ∧ releases now i = true := by
  obtain ⟨before, now, later, heq, hrel, hnot⟩ := h
  rcases List.append_eq_append_iff.mp heq with ⟨mid, rfl, hnew⟩ | ⟨mid, hpast, hlater⟩
  · exact .inr ⟨now, by simp [hnew], hrel⟩
  · cases mid with
    | nil =>
        rw [List.nil_append] at hlater
        exact .inr ⟨now, hlater ▸ List.mem_cons_self, hrel⟩
    | cons e mid =>
        rw [List.cons_append] at hlater
        obtain ⟨rfl, rfl⟩ := List.cons.inj hlater
        rw [starts_append, List.mem_append, not_or] at hnot
        exact .inl ⟨⟨before, now, mid, hpast, hrel, hnot.1⟩, hnot.2⟩

theorem pending_iff {s : State} {i : Slot} :
    (server s).pending i = true ↔ s.queue i ≠ none ∧ s.pc.dispatching i = false := by
  simp [server, Option.isSome_iff_ne_none]

theorem act_of_tick_mem {s t : State} {a : Act} {evs : List Event} {now : BitVec 32}
    (h : Rule s a evs t) (hm : .tick now ∈ evs) :
    a = .tick ∧ now = s.ticks + 1 ∧ t = schedulerNext s := by
  cases h with
  | tick => exact ⟨rfl, by simpa using hm, rfl⟩
  | own i t _ _ => simp at hm
  | _ => simp at hm

theorem pending_of_release {s : State} {i : Slot} (hrel : releases (s.ticks + 1) i = true)
    (free : s.pc.dispatching i = false) : (server (schedulerNext s)).pending i = true := by
  rw [pending_iff, schedulerNext_queue, schedulerNext_pc, if_pos hrel]
  exact ⟨by simp, free⟩

theorem pending_of_owed {s : State} {acts : List Act} {evs : List Event}
    (h : run step schedulerInit acts = some (evs, s))
    (guarded : Guarded step (fun s a => ¬ SelfRelease s a) schedulerInit acts) (i : Slot)
    (owed : Owed evs i) : (server s).pending i = true := by
  suffices keep : Consistent s ∧ ∀ i, Owed evs i → (server s).pending i = true from keep.2 i owed
  refine guarded_invariant (fun s a => ¬ SelfRelease s a)
    (fun past u => Consistent u ∧ ∀ i, Owed past i → (server u).pending i = true)
    ⟨consistent_init, ?_⟩ ?_ guarded h
  · rintro i ⟨past, now, later, heq, -⟩
    simp at heq
  · rintro past u a new v ⟨hu, keep⟩ hG hstep
    have rule := step_rule hstep
    refine ⟨consistent_of_rule hu rule, ?_⟩
    intro i owed
    rcases owed_append owed with ⟨owed, unstarted⟩ | ⟨now, hmem, hrel⟩
    · obtain ⟨bs, hbs⟩ := server_of_rule hu rule
      exact Polling.pending_until_served (keep i owed) hbs unstarted
    · obtain ⟨rfl, rfl, rfl⟩ := act_of_tick_mem rule hmem
      refine pending_of_release hrel (Bool.eq_false_iff.mpr fun inside => ?_)
      exact hG ⟨rfl, i, hrel, inside⟩

theorem not_started_of_dispatching {s t : State} {a : Act} {evs : List Event} {i : Slot}
    (h : Rule s a evs t) (inside : s.pc.dispatching i = true) : starts evs = [] := by
  cases h with
  | call j k hpc _ => simp [hpc, Pc.dispatching] at inside
  | own j k hpc _ => simp [hpc, Pc.dispatching] at inside
  | _ => rfl

/-- A dispatch is only left by clearing its slot. -/
theorem cleared_of_leaving {s t : State} {a : Act} {evs : List Event} {i : Slot}
    (h : Rule s a evs t) (inside : s.pc.dispatching i = true)
    (outside : t.pc.dispatching i = false) : t.queue i = none ∧ t.pc = .next i := by
  cases h with
  | clear j hpc =>
      simp only [hpc, Pc.dispatching, decide_eq_true_eq] at inside
      subst inside
      simp
  | tick | disable => simp [inside] at outside
  | write j k w ws hpc | emit e j k hpc _ | ret j k hpc =>
      simp only [hpc, Pc.dispatching] at inside outside
      simp [inside] at outside
  | enter hpc _ | leave hpc _ | found j k hpc _ | empty j hpc _ | own j k hpc _ | call j k hpc _
  | again j _ hpc | wrap j hpc _ => simp [hpc, Pc.dispatching] at inside
  | fault j hpc _ => rcases hpc with hpc | hpc <;> simp [hpc, Pc.dispatching] at inside

theorem starts_of_dispatching {s t : State} {acts : List Act} {evs : List Event} {i : Slot}
    (inside : Guarded step (fun u _ => u.pc.dispatching i = true) s acts)
    (h : run step s acts = some (evs, t)) : starts evs = [] := by
  refine guarded_invariant (fun u _ => u.pc.dispatching i = true) (fun past _ => starts past = [])
    rfl ?_ inside h
  intro past u a new v none hu hstep
  rw [starts_append, none, not_started_of_dispatching (step_rule hstep) hu]
  rfl

/-- A self-release is lost: the clearing that ends the dispatch takes the new
activation with it. -/
theorem lost_of_self_release {s : State} {acts : List Act} {evs : List Event}
    (h : run step schedulerInit acts = some (evs, s))
    (outside : ∀ i, s.pc.dispatching i = false)
    (violated : ¬ Guarded step (fun s a => ¬ SelfRelease s a) schedulerInit acts) :
    ∃ as bs evs' s', acts = as ++ bs ∧ run step schedulerInit as = some (evs', s') ∧
      ¬ Kept evs' s' := by
  obtain ⟨as, a, bs, e₁, u, e₂, v, e₃, rfl, hu, -, hself, hv, hs, -⟩ :=
    exists_first_violation h violated
  obtain ⟨rfl, i, hrel, inside⟩ := not_not.mp hself
  obtain ⟨rfl, rfl⟩ := Prod.mk.inj (Option.some.inj hv)
  obtain ⟨cs, b, ds, f₁, w, f₂, x, rfl, hw, stays, last, hx, left⟩ :=
    exists_exit (P := fun u => u.pc.dispatching i = true) hs inside (by simp [outside i])
  have rule := step_rule hx
  obtain ⟨hqueue, hpc⟩ := cleared_of_leaving rule last (Bool.eq_false_iff.mpr left)
  have quiet : starts (f₁ ++ f₂) = [] := by
    rw [starts_append, starts_of_dispatching stays hw, not_started_of_dispatching rule last]
    rfl
  have tail : run step (schedulerNext u) (cs ++ [b]) = some (f₁ ++ f₂, x) :=
    run_append hw (run_single_iff.mpr hx)
  refine ⟨as ++ .tick :: (cs ++ [b]), ds, e₁ ++ .tick (u.ticks + 1) :: (f₁ ++ f₂), x,
    by simp, run_append hu (run_cons_iff.mpr ⟨_, _, _, hv, tail, rfl⟩), ?_⟩
  intro kept
  refine kept (by simp [hpc]) i ⟨e₁, u.ticks + 1, f₁ ++ f₂, rfl, hrel, ?_⟩ hqueue
  rw [quiet]
  exact List.not_mem_nil

theorem kept_of_guarded {s : State} {acts : List Act} {evs : List Event}
    (h : run step schedulerInit acts = some (evs, s))
    (guarded : Guarded step (fun s a => ¬ SelfRelease s a) schedulerInit acts) :
    Kept evs s := fun _ i owed => (pending_iff.mp (pending_of_owed h guarded i owed)).1

/-- No activation is lost in a run without self-releases; and a run that ends
outside every dispatch loses none in any of its states exactly when it has no
self-release. -/
theorem activations_kept_iff_no_self_release {s : State} {acts : List Act} {evs : List Event}
    (h : run step schedulerInit acts = some (evs, s)) :
    (Guarded step (fun s a => ¬ SelfRelease s a) schedulerInit acts → Kept evs s) ∧
    ((∀ i, s.pc.dispatching i = false) →
      ((∀ as bs evs' s', acts = as ++ bs → run step schedulerInit as = some (evs', s') →
          Kept evs' s') ↔
        Guarded step (fun s a => ¬ SelfRelease s a) schedulerInit acts)) := by
  refine ⟨kept_of_guarded h, fun outside => ⟨?_, ?_⟩⟩
  · intro always
    by_contra violated
    obtain ⟨as, bs, evs', s', heq, hrun, lost⟩ := lost_of_self_release h outside violated
    exact lost (always as bs evs' s' heq hrun)
  · rintro guarded as bs evs' s' rfl hrun
    exact kept_of_guarded hrun ((guarded_append hrun).mp guarded).1

theorem activations_kept_five_ticks :
    ∃ evs s, run step schedulerInit (List.replicate 5 .tick) = some (evs, s) ∧
      [.tick 5] <:+ evs ∧ Kept evs s := by
  obtain ⟨evs, s, hrun, hlast⟩ := exists_run_of_check step schedulerInit
    (List.replicate 5 .tick) (fun evs _ => decide ([.tick 5] <:+ evs)) (by decide)
  refine ⟨evs, s, hrun, of_decide_eq_true hlast,
    (activations_kept_iff_no_self_release hrun).1 ?_⟩
  simp [Guarded, SelfRelease, step, schedulerInit, Pc.dispatching, schedulerNext]

/-- The 5 ms task is released at tick 5, runs until tick 10, and its second
release is cleared away with the first. -/
theorem activation_lost_at_tick_ten :
    ∃ acts evs s, run step schedulerInit acts = some (evs, s) ∧ ¬ Kept evs s := by
  obtain ⟨evs, s, hrun, h⟩ := exists_run_of_check step schedulerInit
    (List.replicate 5 .tick ++ List.replicate 4 .cpu ++ List.replicate 5 .tick ++ [.ret, .cpu])
    (fun evs s => decide ([.tick 10, .finished 0, .cleared 0] <:+ evs) &&
      (s.queue 0).isNone && decide (s.pc = .next 0)) (by decide)
  simp only [Bool.and_eq_true, decide_eq_true_eq, Option.isNone_iff_eq_none] at h
  obtain ⟨⟨⟨past, hpast⟩, hqueue⟩, hpc⟩ := h
  refine ⟨_, evs, s, hrun, fun kept => ?_⟩
  exact kept (by simp [hpc]) 0
    ⟨past, 10, [.finished 0, .cleared 0], hpast.symm, by decide, by decide⟩ hqueue

/-- Bounded bypass: from the moment slot `i` changes from NULL to non-NULL until
the next start of task `i`, every other task is started at most once. -/
theorem bypassed_at_most_once {acts₀ acts : List Act} {evs₀ new evs : List Event}
    {s t u : State} {a : Act} {i j : Slot}
    (reach : run step schedulerInit acts₀ = some (evs₀, s)) (hstep : step s a = some (new, t))
    (was : s.queue i = none) (set : t.queue i ≠ none)
    (h : run step t acts = some (evs, u)) (waiting : i ∉ starts evs) (hne : j ≠ i) :
    (starts evs).count j ≤ 1 := by
  have hs := consistent_of_run reach
  have rule := step_rule hstep
  have free : s.pc.dispatching i = false := by
    refine Bool.eq_false_iff.mpr fun inside => ?_
    simp [hs.queue_of_dispatching inside] at was
  have pending : (server t).pending i = true := by
    rw [pending_iff]
    refine ⟨set, ?_⟩
    cases rule with
    | tick => exact free
    | clear k hpc =>
        by_cases hk : i = k <;> simp [hk, was] at set
    | _ => exact absurd was set
  obtain ⟨bs, hbs⟩ := server_of_run (consistent_of_rule hs rule) h
  exact Polling.bypass_le_one pending hbs waiting hne

/-- Tick 10 releases the 10 ms task; the 5 ms task, waiting since tick 5, is
started before it. -/
theorem bypassed_after_tick_ten :
    ∃ evs u, run step (schedulerNext (schedulerNext^[9] schedulerInit)) (List.replicate 4 .cpu) =
      some (evs, u) ∧ starts evs = [0] ∧ (starts evs).count 0 ≤ 1 := by
  obtain ⟨evs, u, hrun, h⟩ := exists_run_of_check step
    (schedulerNext (schedulerNext^[9] schedulerInit)) (List.replicate 4 .cpu)
    (fun evs _ => decide (starts evs = [0])) (by decide)
  have only : starts evs = [0] := of_decide_eq_true h
  have reach : ∃ evs₀, run step schedulerInit (List.replicate 9 .tick) =
      some (evs₀, schedulerNext^[9] schedulerInit) := ⟨_, rfl⟩
  have release : step (schedulerNext^[9] schedulerInit) .tick =
      some (_, schedulerNext (schedulerNext^[9] schedulerInit)) := rfl
  obtain ⟨_, reach⟩ := reach
  refine ⟨evs, u, hrun, only, ?_⟩
  exact bypassed_at_most_once (i := 1) reach release (by decide) (by decide) hrun
    (by simp [only]) (by decide)

end TraceFS.Scheduler
