import SchedulerLib.Scheduler.Cadence
import SchedulerLib.Scheduler.Moves

/-!
Every call of a task completes. In a build with statistics each piece of a run logs as many
completions of a slot as calls of it, so that the completions of a run are its executions.
-/

namespace SchedulerLib.Scheduler

open Lib

def Action.slot : Action → Option (Fin schMaxTasks)
  | .periodic id _ _ => some id
  | .background id _ _ => some id
  | .idle => none

def calledIds (log : List (SchEvent × Sch)) : List (Fin schMaxTasks) :=
  (actions log).filterMap fun x => x.1.slot

@[simp] theorem calledIds_append (l m : List (SchEvent × Sch)) :
    calledIds (l ++ m) = calledIds l ++ calledIds m := by
  simp [calledIds]

variable {σ : Type}

/-- Every call on the way is accounted. -/
def Balanced (w w' : SchWorld σ) : Prop :=
  ∃ l, w'.log = w.log ++ l ∧ completedIds l = calledIds l

theorem balanced_of_log {w w' : SchWorld σ} (log : w'.log = w.log) : Balanced w w' :=
  ⟨[], by rw [log, List.append_nil], rfl⟩

theorem Balanced.trans {w₁ w₂ w₃ : SchWorld σ} (h : Balanced w₁ w₂) (k : Balanced w₂ w₃) :
    Balanced w₁ w₃ := by
  obtain ⟨l, log, done⟩ := h
  obtain ⟨m, log', done'⟩ := k
  exact ⟨l ++ m, World.log_trans log log',
    by rw [completedIds_append, calledIds_append, done, done']⟩

theorem Completes.balanced {ids : List (Fin schMaxTasks)} {w w' : SchWorld σ}
    (h : Completes ids w w') {l : List (SchEvent × Sch)} (log : w'.log = w.log ++ l)
    (called : calledIds l = ids) : Balanced w w' := by
  obtain ⟨m, log', done⟩ := h
  obtain rfl := List.append_cancel_left (log.symm.trans log')
  exact ⟨l, log, done.trans called.symm⟩

theorem calledIds_of_actions {l : List (SchEvent × Sch)} (h : actions l = []) :
    calledIds l = [] := by
  rw [calledIds, h]
  rfl

theorem Undisturbed.balanced {w w' : SchWorld σ} (h : Undisturbed w w')
    (completes : Completes [] w w') : Balanced w w' := by
  obtain ⟨l, log, act, -⟩ := h.log
  exact completes.balanced log (calledIds_of_actions act)

theorem Marks.balanced {f : Fin schMaxTasks → SchTask} {w w' : SchWorld σ} (h : Marks f w w')
    (completes : Completes [] w w') : Balanced w w' := by
  obtain ⟨l, log, act, -⟩ := h.log
  exact completes.balanced log (calledIds_of_actions act)

theorem Performs.balanced {act : Action} {w w' : SchWorld σ} (h : Performs act w w')
    (completes : Completes act.slot.toList w w') : Balanced w w' := by
  obtain ⟨l, snapshot, log, act', -, -⟩ := h.log
  refine completes.balanced log ?_
  rw [calledIds, act']
  cases called : act.slot <;> simp [called]

section Runs

variable (trace : Bool) (port : Port σ)

theorem executePeriodic_balanced (now : BitVec 32) (selected : Fin schMaxTasks) (w : SchWorld σ)
    (pending : Pending w.state selected) :
    Balanced w (executePeriodic ⟨true, trace⟩ port now selected w) := by
  have completes : Completes [selected] (w.modify fun s => s.release now selected)
      (executePeriodic ⟨true, trace⟩ port now selected w) :=
    (executePeriodic_trail ⟨true, trace⟩ port now selected w pending).completes
  exact (executePeriodic_performs ⟨true, trace⟩ port now selected w).balanced completes

theorem runPeriodic_balanced (now : BitVec 32) (n : Nat) (w : SchWorld σ) :
    Balanced w (runPeriodic ⟨true, trace⟩ port now n w) :=
  runPeriodic_keeps ⟨true, trace⟩ port (Balanced w) now n w (balanced_of_log rfl)
    fun v i pending before => before.trans (executePeriodic_balanced trace port now i v pending)

theorem runBackground_balanced (w : SchWorld σ) :
    Balanced w (runBackground ⟨true, trace⟩ port w) := by
  refine runBackground_keeps ⟨true, trace⟩ port (Balanced w) (Balanced w) w (balanced_of_log rfl)
    (fun v before => ?_) fun v i background before => ?_
  · exact before.trans ((runIdle_performs ⟨true, trace⟩ port v).balanced
      (runIdle_trail ⟨true, trace⟩ port v).completes)
  · exact before.trans ((executeBackground_performs ⟨true, trace⟩ port i _ _ v).balanced
      (executeBackground_trail ⟨true, trace⟩ port i _ _ v background.inUse rfl).completes)

theorem run_balanced (w : SchWorld σ) (settled : Settled w.state) :
    Balanced w (run ⟨true, trace⟩ port w) := by
  have read := (nowTicks_silent port w).undisturbed.balanced
    (nowTicks_trail ⟨true, trace⟩ port w).completes
  have marked := (markPeriodicReady_marks ⟨true, trace⟩ port (nowTicks port w).1
    (nowTicks port w).2).balanced (markPeriodicReady_trail ⟨true, trace⟩ port (nowTicks port w).1
      (nowTicks port w).2 settled.pending).completes
  have looped := (read.trans marked).trans (runPeriodic_balanced trace port (nowTicks port w).1
    schMaxTasks _)
  rw [run_eq]
  exact looped.trans (runBackground_balanced trace port (afterLoop ⟨true, trace⟩ port w))

theorem step_balanced (w : SchWorld σ) (c : Call σ) (settled : Settled w.state) (h : Logged w) :
    Balanced w (step ⟨true, trace⟩ port w c) := by
  by_cases isRun : c = .run
  · subst isRun
    exact run_balanced trace port w settled
  · obtain ⟨trail, -⟩ := step_trail ⟨true, trace⟩ port h c isRun
    exact (step_undisturbed ⟨true, trace⟩ port w c isRun).balanced trail.completes

def completions (id : Fin schMaxTasks) (w w' : SchWorld σ) : Nat :=
  (completedIds (World.since w w')).count id

theorem completions_of_undisturbed {w w' : SchWorld σ} (balanced : Balanced w w')
    (h : Undisturbed w w') (id : Fin schMaxTasks) : completions id w w' = 0 := by
  obtain ⟨l, log, act, -⟩ := h.log
  obtain ⟨m, log', done⟩ := balanced
  obtain rfl := List.append_cancel_left (log.symm.trans log')
  rw [completions, World.since_of_log _ _ l log, done, calledIds_of_actions act, List.count_nil]

theorem count_slot (id : Fin schMaxTasks) (acts : List Action)
    (none_background : ∀ fn ctx, Action.background id fn ctx ∉ acts) :
    (acts.filterMap Action.slot).count id = (acts.filter (Action.isPeriodicOf id)).length := by
  induction acts with
  | nil => rfl
  | cons act rest ih =>
    have rest' := ih fun fn ctx mem => none_background fn ctx (List.mem_cons_of_mem _ mem)
    cases act with
    | periodic i fn ctx =>
      simp only [List.filterMap_cons, Action.slot, List.count_cons, List.filter_cons,
        Action.isPeriodicOf, rest']
      by_cases same : (i == id) = true <;> simp [same]
    | background i fn ctx =>
      have other : i ≠ id := by
        rintro rfl
        exact none_background fn ctx List.mem_cons_self
      simp only [List.filterMap_cons, Action.slot, List.count_cons_of_ne other, rest']
      rfl
    | idle => exact rest'

/-- A run that calls a task as a background task leaves one in its slot. -/
theorem run_background (cfg : Config) (w : SchWorld σ) (settled : Settled w.state)
    {id : Fin schMaxTasks} {fn ctx : Address}
    (called : .background id fn ctx ∈ (actionsSince w (run cfg port w)).map Prod.fst) :
    IsBackground ((run cfg port w).state.tasks id) := by
  obtain ⟨ids, loops⟩ := afterLoop_loops cfg port w settled
  obtain ⟨l, log, periodic, -⟩ := loops.log
  have handed := runBackground_handsOver cfg port _ (loops.settled settled)
  obtain ⟨m, last, snapshot, log', act, -, turn, -⟩ := handed.log
  rw [run_eq] at called ⊢
  rw [actionsSince, World.since_of_log _ _ (l ++ m) (World.log_trans log log'),
    actions_append, List.map_append, periodic, act, List.mem_append] at called
  rcases called with loop | background
  · obtain ⟨i, -, other⟩ := List.mem_map.mp loop
    cases other
  · obtain rfl := List.mem_singleton.mp background
    generalize (runBackground cfg port (afterLoop cfg port w)).state.nextBackgroundIdx = c at turn
    cases turn with
    | background id found =>
      have here := selectBackgroundTask_some found
      rw [slot_kept (handed.tasks id) here.inUse]
      exact here

/-- The completions of a task that is periodic in the end are its executions. -/
theorem run_completions (w : SchWorld σ) (settled : Settled w.state) (id : Fin schMaxTasks)
    (periodic : ((run ⟨true, trace⟩ port w).state.tasks id).periodTicks ≠ 0) :
    completions id w (run ⟨true, trace⟩ port w) =
      (executions id w (run ⟨true, trace⟩ port w)).length := by
  obtain ⟨l, log, done⟩ := run_balanced trace port w settled
  have none_background : ∀ fn ctx, Action.background id fn ctx ∉ (actions l).map Prod.fst := by
    intro fn ctx called
    rw [← World.since_of_log _ _ l log] at called
    exact periodic (run_background port ⟨true, trace⟩ w settled called).background
  rw [completions, executions, actionsSince, World.since_of_log _ _ l log, done,
    ← count_slot id _ none_background, List.filterMap_map]
  rfl

end Runs

end SchedulerLib.Scheduler
