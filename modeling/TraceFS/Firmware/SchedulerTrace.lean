import TraceFS.Firmware.SchedulerRefinement

/-!
The schedule read back from the trace.

Only `__builtin_ctrace_ownership_trace` can set direct-data bit 23, so the
command words with that bit, taken in order, name the started tasks, and every
other word belongs to the task named last.
-/
namespace TraceFS.Scheduler
open Transition CTrace

/-- A word a reader of the trace takes for an ownership message: the command is
DAQ_DIRECT_DATA and bit 23 of the direct data is set. -/
def ownershipWord (w : Word) : Bool :=
  cmdField w == 3#6 && (directDataField w).getLsbD 23

def ownerId? (w : Word) : Option (BitVec 16) :=
  if ownershipWord w then some (payload w) else none

def wrote? : Event → Option (Word × Writer)
  | .wrote w writer => some (w, writer)
  | _ => none

def writes (evs : List Event) : List (Word × Writer) := evs.filterMap wrote?

def ownerIds (ws : List (Word × Writer)) : List (BitVec 16) := ws.filterMap fun p => ownerId? p.1

@[simp] theorem writes_append (e₁ e₂ : List Event) :
    writes (e₁ ++ e₂) = writes e₁ ++ writes e₂ := List.filterMap_append

@[simp] theorem ownerIds_append (ws vs : List (Word × Writer)) :
    ownerIds (ws ++ vs) = ownerIds ws ++ ownerIds vs := List.filterMap_append

/-! Which words can be mistaken for an ownership message. -/

theorem ownershipWord_dataWord (ind : BitVec 8) (data : BitVec 16) :
    ownershipWord (dataWord ind data) = ind.getLsbD 7 := by
  rw [ownershipWord, cmdField_dataWord, getLsbD_directData _ _ 23 (by omega)]
  rfl

/-- No typed data value, marker, nop or sync message sets bit 23. -/
theorem not_ownershipWord_of_bodyEmits {e : Emission} (h : bodyEmits e = true) :
    ∀ w ∈ e.words, ownershipWord w = false := by
  rw [words_eq]
  cases e with
  | ownership id => cases h
  | marker tag =>
      simp [emitMarker, ownershipWord, cmdField_build, Cmd.val]
  | nop | sync => simp [emitNop, emitSync, ownershipWord]; decide
  | _ => simp [ownershipWord_dataWord]

theorem ownerId_ownership (id : BitVec 16) : ownerId? (dataWord 0x80#8 id) = some id := by
  simp [ownerId?, ownershipWord_dataWord]

/-- The id of the message already written for a task not yet called. -/
def announced : Pc → List (BitVec 16)
  | .call i => [(tasks i).id]
  | _ => []

/-- The words the running body still has to write. -/
def unwritten : Pc → List Word
  | .body _ _ ws => ws
  | _ => []

/-- Whom the last ownership message names while a body runs. -/
def running? : Pc → Option Slot
  | .body _ t _ => some t
  | _ => none

/-- A word that is no ownership message was written by the body of the task that
the ownership messages before it name last. -/
def Attributed (ws : List (Word × Writer)) : Prop :=
  ∀ pre w writer post, ws = pre ++ (w, writer) :: post → ownershipWord w = false →
    ∃ t, writer = .body t ∧ (ownerIds pre).getLast? = some (tasks t).id

/-- The trace so far against the state of the scheduler. -/
structure TraceOk (evs : List Event) (s : State) : Prop where
  consistent : Consistent s
  schedule : ownerIds (writes evs) = (starts evs).map (fun t => (tasks t).id) ++ announced s.pc
  attributed : Attributed (writes evs)
  owner : ∀ t, running? s.pc = some t → (ownerIds (writes evs)).getLast? = some (tasks t).id
  plain : ∀ w ∈ unwritten s.pc, ownershipWord w = false

theorem attributed_concat {ws : List (Word × Writer)} {w : Word} {writer : Writer}
    (h : Attributed ws)
    (last : ownershipWord w = false →
      ∃ t, writer = .body t ∧ (ownerIds ws).getLast? = some (tasks t).id) :
    Attributed (ws ++ [(w, writer)]) := by
  intro pre v who post heq plain
  rcases List.eq_nil_or_concat post with rfl | ⟨post, x, rfl⟩
  · obtain ⟨rfl, hlast⟩ := List.append_inj' heq rfl
    obtain ⟨rfl, rfl⟩ := Prod.mk.inj (List.cons.inj hlast).1
    exact last plain
  · rw [List.concat_eq_append, ← List.cons_append, ← List.append_assoc] at heq
    obtain ⟨rfl, -⟩ := List.append_inj' heq rfl
    exact h pre v who post rfl plain

/-- A step that neither writes nor starts anything. -/
theorem TraceOk.quiet {past new : List Event} {s t : State} (h : TraceOk past s)
    (ht : Consistent t) (hw : writes new = []) (hst : starts new = [])
    (ha : announced t.pc = announced s.pc)
    (hr : ∀ k, running? t.pc = some k → running? s.pc = some k)
    (hu : ∀ w ∈ unwritten t.pc, ownershipWord w = false) : TraceOk (past ++ new) t where
  consistent := ht
  schedule := by simpa only [writes_append, starts_append, hw, hst, List.append_nil, ha] using
    h.schedule
  attributed := by simpa only [writes_append, hw, List.append_nil] using h.attributed
  owner := by
    intro k hk
    simpa only [writes_append, hw, List.append_nil] using h.owner k (hr k hk)
  plain := hu

theorem traceOk_init : TraceOk [] schedulerInit where
  consistent := consistent_init
  schedule := rfl
  attributed := by intro pre w writer post heq; simp [writes] at heq
  owner := by intro t ht; cases ht
  plain := by intro w hw; cases hw

theorem TraceOk.own {past : List Event} {s : State} {i : Slot} (h : TraceOk past s)
    (hpc : s.pc = .own i) (ht : Consistent { s with pc := .call i }) :
    TraceOk (past ++ (ownershipTrace (tasks i).id).map (.wrote · .scheduler))
      { s with pc := .call i } := by
  have hw : writes ((ownershipTrace (tasks i).id).map (.wrote · .scheduler)) =
      [(dataWord 0x80 (tasks i).id, .scheduler)] := rfl
  have hid : ownerIds [(dataWord 0x80 (tasks i).id, Writer.scheduler)] = [(tasks i).id] := by
    simp [ownerIds, ownerId_ownership]
  refine ⟨ht, ?_, ?_, ?_, ?_⟩
  · rw [writes_append, hw, ownerIds_append, hid, h.schedule, hpc, starts_append, starts_own]
    simp [announced]
  · rw [writes_append, hw]
    refine attributed_concat h.attributed ?_
    rw [ownershipWord_dataWord]
    intro plain
    cases plain
  · intro t ht
    cases ht
  · intro w hw
    cases hw

theorem TraceOk.call {past : List Event} {s : State} {i : Slot} (h : TraceOk past s)
    (hpc : s.pc = .call i) (ht : Consistent { s with pc := .body i i [] }) :
    TraceOk (past ++ [.started i]) { s with pc := .body i i [] } := by
  have hw : writes (past ++ [.started i]) = writes past := by
    rw [writes_append]
    exact List.append_nil _
  have schedule := h.schedule
  rw [hpc, announced] at schedule
  refine ⟨ht, ?_, ?_, ?_, ?_⟩
  · rw [hw, schedule, starts_append]
    simp [starts, started?, announced]
  · rw [hw]
    exact h.attributed
  · intro t ht
    obtain rfl := Option.some.inj ht
    rw [hw, schedule, List.getLast?_append]
    rfl
  · intro w hw
    cases hw

/-- A word of the running body names nobody and belongs to the task named last. -/
theorem TraceOk.write {past : List Event} {s : State} {i t : Slot} {w : Word} {ws : List Word}
    (h : TraceOk past s) (hpc : s.pc = .body i t (w :: ws))
    (ht : Consistent { s with pc := .body i t ws }) :
    TraceOk (past ++ [.wrote w (.body t)]) { s with pc := .body i t ws } := by
  have hw : writes (past ++ [.wrote w (.body t)]) = writes past ++ [(w, .body t)] := by
    rw [writes_append]
    rfl
  have plain := h.plain
  have owner := h.owner t (by rw [hpc]; rfl)
  have schedule := h.schedule
  rw [hpc] at plain schedule
  have hplain : ownershipWord w = false := plain w List.mem_cons_self
  have hid : ownerIds [(w, Writer.body t)] = [] := by simp [ownerIds, ownerId?, hplain]
  have hids : ownerIds (writes (past ++ [.wrote w (.body t)])) = ownerIds (writes past) := by
    rw [hw, ownerIds_append, hid, List.append_nil]
  refine ⟨ht, ?_, ?_, ?_, ?_⟩
  · rw [hids, schedule, starts_append]
    simp [starts, started?, announced]
  · rw [hw]
    exact attributed_concat h.attributed fun _ => ⟨t, rfl, owner⟩
  · intro k hk
    obtain rfl := Option.some.inj hk
    rw [hids]
    exact owner
  · intro v hv
    exact plain v (List.mem_cons_of_mem w hv)

theorem traceOk_of_rule {past new : List Event} {s t : State} {a : Act} (h : TraceOk past s)
    (rule : Rule s a new t) : TraceOk (past ++ new) t := by
  have hs := h.consistent
  have ht := consistent_of_rule hs rule
  cases rule with
  | tick => exact h.quiet ht rfl rfl rfl (fun _ hk => hk) h.plain
  | enter hpc _ | leave hpc _ | found i t hpc _ | empty i hpc _ | again i _ hpc | wrap i hpc _ =>
      exact h.quiet ht rfl rfl (by rw [hpc]; rfl) (by rintro k ⟨⟩) (by rintro w ⟨⟩)
  | own i t hpc hq =>
      obtain rfl := hs.ownTask i t hq
      exact h.own hpc ht
  | call i t hpc hq =>
      obtain rfl := hs.ownTask i t hq
      exact h.call hpc ht
  | fault i hpc hq => exact absurd ht.current id
  | write i t w ws hpc => exact h.write hpc ht
  | clear i hpc | ret i t hpc =>
      exact h.quiet ht rfl rfl (by rw [hpc]; rfl) (by rintro k ⟨⟩) (by rintro w ⟨⟩)
  | emit e i t hpc ok =>
      exact h.quiet ht rfl rfl (by rw [hpc]; rfl) (by rw [hpc]; exact fun _ hk => hk)
        (not_ownershipWord_of_bodyEmits ok)
  | disable i t hpc => exact h.quiet ht rfl rfl rfl (fun _ hk => hk) h.plain

/-- The ownership words carry, in order, the ids of the tasks whose entries were
called; only the message for a call that is the very next action may be ahead.
Every other word was written by the body of the task named last before it. -/
theorem schedule_of_trace {s : State} {acts : List Act} {evs : List Event}
    (h : run step schedulerInit acts = some (evs, s)) :
    ownerIds (writes evs) = (starts evs).map (fun t => (tasks t).id) ++ announced s.pc ∧
      Attributed (writes evs) := by
  have ok : TraceOk evs s := run_invariant TraceOk traceOk_init
    (fun _ _ _ _ _ hp hstep => traceOk_of_rule hp (step_rule hstep)) h
  exact ⟨ok.schedule, ok.attributed⟩

/-- The first dispatch of the 5 ms task, whose body emits one value. -/
theorem schedule_of_trace_first_dispatch :
    ∃ evs s, run step schedulerInit (List.replicate 5 .tick ++ List.replicate 4 .cpu ++
        [.emit (.u8 7), .cpu, .ret, .cpu]) = some (evs, s) ∧
      (writes evs).length = 2 ∧ ownerIds (writes evs) = [1] ∧ Attributed (writes evs) := by
  obtain ⟨evs, s, hrun, h⟩ := exists_run_of_check step schedulerInit
    (List.replicate 5 .tick ++ List.replicate 4 .cpu ++ [.emit (.u8 7), .cpu, .ret, .cpu])
    (fun evs s => decide ((writes evs).length = 2) && decide (starts evs = [0]) &&
      decide (s.pc = .next 0)) (by decide)
  simp only [Bool.and_eq_true, decide_eq_true_eq] at h
  obtain ⟨ids, attributed⟩ := schedule_of_trace hrun
  rw [h.1.2, h.2] at ids
  exact ⟨evs, s, hrun, h.1.1, ids, attributed⟩

end TraceFS.Scheduler
