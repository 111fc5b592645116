import Mathlib.Data.List.Induction

/-!
Finite runs of partial labelled transition functions.

A step consumes an action and either is refused or yields the events it emits
and the next state. Every rule below is about the run of a whole action list:
composition, invariants that may mention the events emitted so far, invariants
under a condition on every step, and forward simulation.
-/
namespace Transition

variable {σ τ α β ε δ : Type*}

/-- One step of a system: `none` refuses the action in this state. -/
abbrev Step (σ α ε : Type*) := σ → α → Option (List ε × σ)

def run (step : Step σ α ε) : σ → List α → Option (List ε × σ)
  | s, [] => some ([], s)
  | s, a :: as =>
      (step s a).bind fun r =>
        (run step r.2 as).map fun q => (r.1 ++ q.1, q.2)

@[simp] theorem run_nil (step : Step σ α ε) (s : σ) : run step s [] = some ([], s) := rfl

theorem run_cons_iff {step : Step σ α ε} {s u : σ} {a : α} {as : List α} {evs : List ε} :
    run step s (a :: as) = some (evs, u) ↔
      ∃ e₁ t e₂, step s a = some (e₁, t) ∧ run step t as = some (e₂, u) ∧ evs = e₁ ++ e₂ := by
  simp only [run, Option.bind_eq_some_iff, Option.map_eq_some_iff, Prod.exists, Prod.mk.injEq]
  constructor
  · rintro ⟨e₁, t, hs, e₂, u', hr, rfl, rfl⟩
    exact ⟨e₁, t, e₂, hs, hr, rfl⟩
  · rintro ⟨e₁, t, e₂, hs, hr, rfl⟩
    exact ⟨e₁, t, hs, e₂, u, hr, rfl, rfl⟩

theorem run_append_iff {step : Step σ α ε} {s u : σ} {as bs : List α} {evs : List ε} :
    run step s (as ++ bs) = some (evs, u) ↔
      ∃ e₁ t e₂, run step s as = some (e₁, t) ∧ run step t bs = some (e₂, u) ∧
        evs = e₁ ++ e₂ := by
  induction as generalizing s evs with
  | nil =>
      constructor
      · intro h
        exact ⟨[], s, evs, rfl, h, rfl⟩
      · rintro ⟨e₁, t, e₂, h₁, h₂, rfl⟩
        obtain ⟨rfl, rfl⟩ := Prod.mk.inj (Option.some.inj h₁)
        exact h₂
  | cons a as ih =>
      rw [List.cons_append, run_cons_iff]
      constructor
      · rintro ⟨e₁, t, e₂, hs, hr, rfl⟩
        obtain ⟨f₁, v, f₂, hv, hu, rfl⟩ := ih.mp hr
        exact ⟨e₁ ++ f₁, v, f₂, run_cons_iff.mpr ⟨e₁, t, f₁, hs, hv, rfl⟩, hu,
          (List.append_assoc _ _ _).symm⟩
      · rintro ⟨e, v, f₂, hv, hu, rfl⟩
        obtain ⟨e₁, t, f₁, hs, hr, rfl⟩ := run_cons_iff.mp hv
        exact ⟨e₁, t, f₁ ++ f₂, hs, ih.mpr ⟨f₁, v, f₂, hr, hu, rfl⟩, List.append_assoc _ _ _⟩

theorem run_append {step : Step σ α ε} {s t u : σ} {as bs : List α} {e₁ e₂ : List ε}
    (first : run step s as = some (e₁, t)) (second : run step t bs = some (e₂, u)) :
    run step s (as ++ bs) = some (e₁ ++ e₂, u) :=
  run_append_iff.mpr ⟨e₁, t, e₂, first, second, rfl⟩

theorem run_single_iff {step : Step σ α ε} {s t : σ} {a : α} {evs : List ε} :
    run step s [a] = some (evs, t) ↔ step s a = some (evs, t) := by
  rw [run_cons_iff]
  constructor
  · rintro ⟨e₁, u, e₂, hs, hr, rfl⟩
    obtain ⟨rfl, rfl⟩ := Prod.mk.inj (Option.some.inj hr)
    simpa using hs
  · intro h
    exact ⟨evs, t, [], h, rfl, (List.append_nil _).symm⟩

theorem exists_run_of_check (step : Step σ α ε) (s : σ) (acts : List α)
    (check : List ε → σ → Bool) (h : (run step s acts).any (fun r => check r.1 r.2) = true) :
    ∃ evs t, run step s acts = some (evs, t) ∧ check evs t = true := by
  cases hr : run step s acts with
  | none => simp [hr] at h
  | some r => exact ⟨r.1, r.2, rfl, by simpa [hr] using h⟩

/-- What holds at the start and survives every step holds after every run; the
invariant may speak about the events emitted so far. -/
theorem run_invariant {step : Step σ α ε} (Inv : List ε → σ → Prop) {init s : σ}
    {acts : List α} {evs : List ε} (start : Inv [] init)
    (preserved : ∀ past t a new u, Inv past t → step t a = some (new, u) → Inv (past ++ new) u)
    (h : run step init acts = some (evs, s)) : Inv evs s := by
  induction acts using List.reverseRecOn generalizing evs s with
  | nil =>
      obtain ⟨rfl, rfl⟩ := Prod.mk.inj (Option.some.inj h)
      exact start
  | append_singleton as a ih =>
      obtain ⟨past, t, new, hr, hs, rfl⟩ := run_append_iff.mp h
      exact preserved past t a new s (ih hr) (run_single_iff.mp hs)

/-- An invariant that also speaks about the actions so far. -/
theorem run_invariant_acts {step : Step σ α ε} (Inv : List α → List ε → σ → Prop) {init s : σ}
    {acts : List α} {evs : List ε} (start : Inv [] [] init)
    (preserved : ∀ as past t a new u, Inv as past t → step t a = some (new, u) →
      Inv (as ++ [a]) (past ++ new) u)
    (h : run step init acts = some (evs, s)) : Inv acts evs s := by
  induction acts using List.reverseRecOn generalizing evs s with
  | nil =>
      obtain ⟨rfl, rfl⟩ := Prod.mk.inj (Option.some.inj h)
      exact start
  | append_singleton as a ih =>
      obtain ⟨past, t, new, hr, hs, rfl⟩ := run_append_iff.mp h
      exact preserved as past t a new s (ih hr) (run_single_iff.mp hs)

/-- A rank that no step raises and every counted step lowers bounds the number of
counted steps. -/
theorem run_rank {step : Step σ α ε} (Inv : σ → Prop) (rank : σ → Nat) (counted : α → Bool)
    (preserved : ∀ s a evs t, Inv s → step s a = some (evs, t) →
      Inv t ∧ rank t + (if counted a then 1 else 0) ≤ rank s)
    {s t : σ} {acts : List α} {evs : List ε} (start : Inv s)
    (h : run step s acts = some (evs, t)) : Inv t ∧ rank t + acts.countP counted ≤ rank s := by
  induction acts generalizing s evs with
  | nil =>
      obtain ⟨rfl, rfl⟩ := Prod.mk.inj (Option.some.inj h)
      exact ⟨start, Nat.le_refl _⟩
  | cons a as ih =>
      obtain ⟨e₁, u, e₂, hs, hr, rfl⟩ := run_cons_iff.mp h
      obtain ⟨inv, lower⟩ := preserved s a e₁ u start hs
      obtain ⟨last, bound⟩ := ih inv hr
      refine ⟨last, ?_⟩
      rw [List.countP_cons]
      omega

/-- A rank that every counted step lowers until a step reaches the goal bounds the
counted steps up to the goal. -/
theorem run_rank_until {step : Step σ α ε} (Inv : σ → Prop) (Goal : List ε → σ → Prop)
    (rank : σ → Nat) (counted : α → Bool)
    (preserved : ∀ s a evs t, Inv s → step s a = some (evs, t) →
      Goal evs t ∨ Inv t ∧ rank t + (if counted a then 1 else 0) ≤ rank s)
    (positive : ∀ s, Inv s → 0 < rank s)
    {s t : σ} {acts : List α} {evs : List ε} (start : Inv s)
    (h : run step s acts = some (evs, t)) :
    (∃ as a bs e₁ u e₂ v, acts = as ++ a :: bs ∧ run step s as = some (e₁, u) ∧
        step u a = some (e₂, v) ∧ Goal e₂ v ∧ (as ++ [a]).countP counted ≤ rank s) ∨
      Inv t ∧ rank t + acts.countP counted ≤ rank s := by
  induction acts generalizing s evs with
  | nil =>
      obtain ⟨rfl, rfl⟩ := Prod.mk.inj (Option.some.inj h)
      exact .inr ⟨start, Nat.le_refl _⟩
  | cons a as ih =>
      obtain ⟨e₁, u, e₂, hs, hr, rfl⟩ := run_cons_iff.mp h
      rcases preserved s a e₁ u start hs with goal | ⟨inv, lower⟩
      · refine .inl ⟨[], a, as, [], s, e₁, u, rfl, rfl, hs, goal, ?_⟩
        have room := positive s start
        rw [List.nil_append, List.countP_singleton]
        split <;> omega
      · rcases ih inv hr with ⟨bs, b, cs, f₁, v, f₂, w, rfl, hv, hw, goal, bound⟩ | ⟨last, bound⟩
        · refine .inl ⟨a :: bs, b, cs, e₁ ++ f₁, v, f₂, w, rfl,
            run_cons_iff.mpr ⟨e₁, u, f₁, hs, hv, rfl⟩, hw, goal, ?_⟩
          rw [List.cons_append, List.countP_cons]
          omega
        · refine .inr ⟨last, ?_⟩
          rw [List.countP_cons]
          omega

/-- Every step of the run satisfies a condition on the state before it. -/
def Guarded (step : Step σ α ε) (G : σ → α → Prop) : σ → List α → Prop
  | _, [] => True
  | s, a :: as => G s a ∧ ∀ evs t, step s a = some (evs, t) → Guarded step G t as

theorem guarded_cons_of_step {step : Step σ α ε} {G : σ → α → Prop} {s t : σ} {a : α}
    {as : List α} {evs : List ε} (h : step s a = some (evs, t)) :
    Guarded step G s (a :: as) ↔ G s a ∧ Guarded step G t as := by
  constructor
  · intro guarded
    exact ⟨guarded.1, guarded.2 evs t h⟩
  · rintro ⟨first, rest⟩
    refine ⟨first, ?_⟩
    intro evs' t' h'
    obtain ⟨-, rfl⟩ := Prod.mk.inj (Option.some.inj (h.symm.trans h'))
    exact rest

theorem guarded_append {step : Step σ α ε} {G : σ → α → Prop} {s t : σ} {as bs : List α}
    {evs : List ε} (h : run step s as = some (evs, t)) :
    Guarded step G s (as ++ bs) ↔ Guarded step G s as ∧ Guarded step G t bs := by
  induction as generalizing s evs with
  | nil =>
      obtain ⟨rfl, rfl⟩ := Prod.mk.inj (Option.some.inj h)
      simp [Guarded]
  | cons a as ih =>
      obtain ⟨e₁, v, e₂, hs, hr, rfl⟩ := run_cons_iff.mp h
      rw [List.cons_append, guarded_cons_of_step hs, guarded_cons_of_step hs, ih hr, and_assoc]

theorem guarded_single {step : Step σ α ε} {G : σ → α → Prop} {s : σ} {a : α} :
    Guarded step G s [a] ↔ G s a := by
  simp [Guarded]

def guardedCheck (step : Step σ α ε) (G : σ → α → Prop) [∀ s a, Decidable (G s a)] :
    σ → List α → Bool
  | _, [] => true
  | s, a :: as => decide (G s a) && (step s a).all fun r => guardedCheck step G r.2 as

theorem guarded_of_check {step : Step σ α ε} {G : σ → α → Prop} [∀ s a, Decidable (G s a)] {s : σ}
    {as : List α} (h : guardedCheck step G s as = true) : Guarded step G s as := by
  induction as generalizing s with
  | nil => exact True.intro
  | cons a as ih =>
      obtain ⟨first, rest⟩ := Bool.and_eq_true_iff.mp h
      refine ⟨of_decide_eq_true first, ?_⟩
      intro evs t hs
      rw [hs] at rest
      exact ih rest

theorem guarded_invariant {step : Step σ α ε} (G : σ → α → Prop) (Inv : List ε → σ → Prop)
    {init s : σ} {acts : List α} {evs : List ε} (start : Inv [] init)
    (preserved : ∀ past t a new u, Inv past t → G t a → step t a = some (new, u) →
      Inv (past ++ new) u)
    (guarded : Guarded step G init acts)
    (h : run step init acts = some (evs, s)) : Inv evs s := by
  induction acts using List.reverseRecOn generalizing evs s with
  | nil =>
      obtain ⟨rfl, rfl⟩ := Prod.mk.inj (Option.some.inj h)
      exact start
  | append_singleton as a ih =>
      obtain ⟨past, t, new, hr, hs, rfl⟩ := run_append_iff.mp h
      have both := (guarded_append hr).mp guarded
      exact preserved past t a new s (ih both.1 hr) (guarded_single.mp both.2)
        (run_single_iff.mp hs)

/-- A run that violates the condition has a first step that violates it. -/
theorem exists_first_violation {step : Step σ α ε} {G : σ → α → Prop} {s t : σ}
    {acts : List α} {evs : List ε} (h : run step s acts = some (evs, t))
    (violated : ¬ Guarded step G s acts) :
    ∃ as a bs e₁ u e₂ v e₃, acts = as ++ a :: bs ∧ run step s as = some (e₁, u) ∧
      Guarded step G s as ∧ ¬ G u a ∧ step u a = some (e₂, v) ∧
      run step v bs = some (e₃, t) ∧ evs = e₁ ++ (e₂ ++ e₃) := by
  induction acts generalizing s evs with
  | nil => exact absurd True.intro violated
  | cons a as ih =>
      obtain ⟨e₁, u, e₂, hs, hr, rfl⟩ := run_cons_iff.mp h
      by_cases hG : G s a
      · have rest : ¬ Guarded step G u as := fun hg =>
          violated ((guarded_cons_of_step hs).mpr ⟨hG, hg⟩)
        obtain ⟨as', b, bs, f₁, v, f₂, w, f₃, rfl, hv, hg, hb, hw, ht, rfl⟩ := ih hr rest
        exact ⟨a :: as', b, bs, e₁ ++ f₁, v, f₂, w, f₃, rfl,
          run_cons_iff.mpr ⟨e₁, u, f₁, hs, hv, rfl⟩, (guarded_cons_of_step hs).mpr ⟨hG, hg⟩,
          hb, hw, ht, by simp⟩
      · exact ⟨[], a, as, [], s, e₁, u, e₂, rfl, rfl, True.intro, hG, hs, hr, rfl⟩

/-- A run that leaves a set of states has a first step that leaves it. -/
theorem exists_exit {step : Step σ α ε} {P : σ → Prop} {s t : σ} {acts : List α}
    {evs : List ε} (h : run step s acts = some (evs, t)) (inside : P s) (outside : ¬ P t) :
    ∃ as a bs e₁ u e₂ v, acts = as ++ a :: bs ∧ run step s as = some (e₁, u) ∧
      Guarded step (fun s _ => P s) s as ∧ P u ∧ step u a = some (e₂, v) ∧ ¬ P v := by
  induction acts generalizing s evs with
  | nil =>
      obtain ⟨rfl, rfl⟩ := Prod.mk.inj (Option.some.inj h)
      exact absurd inside outside
  | cons a as ih =>
      obtain ⟨e₁, u, e₂, hs, hr, rfl⟩ := run_cons_iff.mp h
      by_cases hu : P u
      · obtain ⟨as', b, bs, f₁, v, f₂, w, rfl, hv, hg, hPv, hw, hPw⟩ := ih hr hu
        exact ⟨a :: as', b, bs, e₁ ++ f₁, v, f₂, w, rfl,
          run_cons_iff.mpr ⟨e₁, u, f₁, hs, hv, rfl⟩,
          (guarded_cons_of_step hs).mpr ⟨inside, hg⟩, hPv, hw, hPw⟩
      · exact ⟨[], a, as, [], s, e₁, u, rfl, rfl, True.intro, inside, hs, hu⟩

/-- `R` is a forward simulation: each step of the first system is answered by a
run of the second that emits the events seen through `f`. -/
def Simulation (step : Step σ α ε) (step' : Step τ β δ) (f : ε → Option δ)
    (R : σ → τ → Prop) : Prop :=
  ∀ s t a evs s', R s t → step s a = some (evs, s') →
    ∃ bs t', run step' t bs = some (evs.filterMap f, t') ∧ R s' t'

theorem Simulation.run {step : Step σ α ε} {step' : Step τ β δ} {f : ε → Option δ}
    {R : σ → τ → Prop} (sim : Simulation step step' f R) {s s' : σ} {t : τ}
    {acts : List α} {evs : List ε} (related : R s t)
    (h : run step s acts = some (evs, s')) :
    ∃ bs t', Transition.run step' t bs = some (evs.filterMap f, t') ∧ R s' t' := by
  induction acts generalizing s t evs with
  | nil =>
      obtain ⟨rfl, rfl⟩ := Prod.mk.inj (Option.some.inj h)
      exact ⟨[], t, rfl, related⟩
  | cons a as ih =>
      obtain ⟨e₁, u, e₂, hs, hr, rfl⟩ := run_cons_iff.mp h
      obtain ⟨bs, v, hv, hR⟩ := sim s t a e₁ u related hs
      obtain ⟨cs, w, hw, hR'⟩ := ih hR hr
      exact ⟨bs ++ cs, w, by simpa only [List.filterMap_append] using run_append hv hw, hR'⟩

end Transition
