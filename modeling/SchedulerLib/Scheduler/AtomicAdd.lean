import SchedulerLib.Scheduler.TaskTable

/-!
What one call of `sch_add_task` does to the scheduler, at any moment of any history: it
fails and changes nothing, or it fills the slot whose index is the task count. The log has
both kinds of calls, each with the state behind it, and the entry before it shows the state
the call has found.
-/

namespace SchedulerLib.Scheduler

open Lib

structure Fills (s s' : Sch) (id : Fin schMaxTasks) : Prop where
  previous : id.val = s.taskCount.toNat
  taskCount : s'.taskCount = s.taskCount + 1
  tasks : ∀ i ≠ id, s'.tasks i = s.tasks i
  stats : ∀ i ≠ id, s'.stats i = s.stats i
  cursor : s'.nextBackgroundIdx = s.nextBackgroundIdx
  traceHook : s'.traceHook = s.traceHook
  traceUserCtx : s'.traceUserCtx = s.traceUserCtx

theorem Represents.fills {events : List SchEvent} {s : Sch} (h : Represents events s)
    (cfg : Config) (r : Registration) (chosen : Chosen s r) :
    Fills s (s.register cfg r.id r.task) r.id where
  previous := h.chosen_id chosen
  taskCount := register_taskCount cfg s r.id r.task
  tasks i ne := by rw [register_tasks, Function.update_of_ne ne]
  stats i ne := register_stats_of_ne cfg s r.task ne
  cursor := register_cursor cfg s r.id r.task
  traceHook := by
    unfold Sch.register
    split_ifs <;> rfl
  traceUserCtx := by
    unfold Sch.register
    split_ifs <;> rfl

/-- What the log says of a call of `sch_add_task`, whoever made it, and of a call of a task. -/
def Explains (before : List (SchEvent × Sch)) : SchEvent × Sch → Prop
  | (.refused request _, s) =>
    (request.fn = 0 ∨ s.taskCount.toNat = schMaxTasks) ∧ s = lastState before
  | (.added id request _, s) => request.fn ≠ 0 ∧ Fills (lastState before) s id ∧
    id ∉ (registered (before.map Prod.fst)).map Registration.id
  | (.callback _ i fn _, s) => fn ≠ 0 ∧ (s.tasks i).inUse = true ∧ (s.tasks i).fn = fn
  | _ => True

def KeepsTasks (s s' : Sch) : Prop :=
  ∀ i, (s.tasks i).inUse = true →
    (s'.tasks i).inUse = true ∧ (s'.tasks i).identity = (s.tasks i).identity

theorem KeepsTasks.trans (s₁ s₂ s₃ : Sch) (h : KeepsTasks s₁ s₂) (k : KeepsTasks s₂ s₃) :
    KeepsTasks s₁ s₃ := by
  intro i used
  obtain ⟨used', same⟩ := h i used
  obtain ⟨used'', same'⟩ := k i used'
  exact ⟨used'', same'.trans same⟩

theorem KeepsTasks.refl (s : Sch) : KeepsTasks s s := fun _ used => ⟨used, rfl⟩

theorem Retains.keepsTasks {s s' : Sch} (h : Retains s s') : KeepsTasks s s' :=
  fun i used => ⟨(h.inUse i).trans used, h.identity i⟩

theorem register_keepsTasks (cfg : Config) {s : Sch} {r : Registration} (chosen : Chosen s r) :
    KeepsTasks s (s.register cfg r.id r.task) := by
  intro i used
  have apart : i ≠ r.id := by
    rintro rfl
    rw [chosen.free] at used
    cases used
  rw [register_tasks, Function.update_of_ne apart]
  exact ⟨used, rfl⟩

theorem select_retains (s : Sch) : Retains s (selectBackgroundTask s).2 := by
  have tasks := selectBackgroundTask_tasks s
  refine ⟨selectBackgroundTask_taskCount s, fun i => by rw [tasks], fun i => by rw [tasks],
    fun i => by rw [tasks], fun i raised => Or.inl (by rwa [tasks] at raised), fun below => ?_⟩
  cases found : (selectBackgroundTask s).1 with
  | none => rwa [selectBackgroundTask_of_none found]
  | some i =>
    rw [(selectBackgroundTask_found found).2.1]
    exact Nat.mod_lt _ schMaxTasks_pos

variable {σ : Type}

structure Consistent (w : SchWorld σ) : Prop where
  table : World.Throughout Represents w
  tasks : World.Ordered KeepsTasks w
  calls : World.Recorded Explains w

namespace Consistent

variable {w : SchWorld σ}

theorem start (env : σ) : Consistent (World.start Sch.init env : SchWorld σ) :=
  ⟨World.throughout_start _ _ represents_init, World.ordered_start _ _ _,
    World.recorded_start _ _ _⟩

theorem setEnv (h : Consistent w) (env : σ) : Consistent (w.setEnv env) :=
  ⟨h.table.setEnv env, h.tasks, h.calls⟩

theorem setState (h : Consistent w) (s : Sch) (retains : Retains w.state s) :
    Consistent (w.setState s) :=
  ⟨h.table.setState s (h.table.now.retains retains),
    h.tasks.setState KeepsTasks.trans s retains.keepsTasks, h.calls⟩

theorem emit (h : Consistent w) (e : SchEvent) (none_added : e.registration = none)
    (not_called : ∀ phase i fn ctx, SchEvent.callback phase i fn ctx = e → fn ≠ 0)
    (explains : Explains w.log (e, w.state)) : Consistent (w.emit e) :=
  ⟨h.table.emit e (h.table.now.note e none_added not_called),
    h.tasks.emit (KeepsTasks.refl _) e, h.calls.emit e explains⟩

theorem register (h : Consistent w) (cfg : Config) (r : Registration) (logged : Logged w)
    (chosen : Chosen w.state r) :
    Consistent ((w.modify fun s => s.register cfg r.id r.task).emit
      (.added r.id r.request r.time)) := by
  have represents := h.table.now
  have kept := h.tasks.setState KeepsTasks.trans _ (register_keepsTasks cfg chosen)
  refine ⟨h.table.record _ _ (represents.register cfg r chosen), kept.emit (KeepsTasks.refl _) _,
    World.Recorded.emit (w := w.modify fun s => s.register cfg r.id r.task) h.calls _ ?_⟩
  refine ⟨chosen.fn, ?_, fun mem => ?_⟩
  · rw [World.modify_log, ← logged]
    exact represents.fills cfg r chosen
  · have listed : r.id.val ∈ List.range w.state.taskCount.toNat := by
      rw [← represents.ids]
      rw [List.mem_map] at mem ⊢
      obtain ⟨r', earlier, same⟩ := mem
      exact ⟨r', earlier, congrArg Fin.val same⟩
    rw [represents.chosen_id chosen, List.mem_range] at listed
    exact lt_irrefl _ listed

theorem record (h : Consistent w) (s : Sch) (e : SchEvent) (retains : Retains w.state s)
    (none_added : e.registration = none)
    (not_called : ∀ phase i fn ctx, SchEvent.callback phase i fn ctx = e → fn ≠ 0)
    (explains : Explains w.log (e, s)) : Consistent ((w.setState s).emit e) :=
  (h.setState s retains).emit e none_added not_called explains

theorem note (h : Consistent w) (e : SchEvent) (plain : e.plain = true) :
    Consistent (w.emit e) := by
  cases e <;> first
    | exact h.emit _ rfl (fun _ _ _ _ other => by cases other) trivial
    | cases plain

theorem move {cfg : Config} (w w' : SchWorld σ) (move : Move cfg w w') (h : Consistent w) :
    Consistent w' := by
  cases move with
  | setEnv env => exact h.setEnv env
  | note e plain => exact h.note e plain
  | refuse request error logged refuses =>
    have reason := (h.table.now.refuses_iff request).mp refuses
    exact h.emit _ rfl (fun _ _ _ _ other => by cases other) ⟨reason, logged⟩
  | register r logged chosen => exact h.register cfg r logged chosen
  | resetStats =>
    exact h.record _ .resetStats (retains_of_eq rfl rfl rfl) rfl
      (fun _ _ _ _ other => by cases other) trivial
  | setTraceHook hook userCtx =>
    exact h.record _ (.setTraceHook hook userCtx) (retains_of_eq rfl rfl rfl) rfl
      (fun _ _ _ _ other => by cases other) trivial
  | mark now i ready quiet =>
    exact h.setState _ (retains_setTask _ i _ rfl rfl rfl fun _ => ⟨ready.inUse, ready.periodic⟩)
  | release now i pending =>
    exact h.setState _ (retains_setTask _ i _ rfl rfl rfl fun raised => by cases raised)
  | tally i stats runCount missCount => exact h.setState _ (retains_of_eq rfl rfl rfl)
  | call phase i fn ctx used own =>
    have nonNull : fn ≠ 0 := own ▸ h.table.now.fn i used
    refine h.emit _ rfl (fun _ _ _ _ same => ?_) ⟨nonNull, used, own⟩
    cases same
    exact nonNull
  | complete i execStart execEnd =>
    exact h.record _ (.completed i execStart execEnd) (retains_of_eq rfl rfl rfl) rfl
      (fun _ _ _ _ other => by cases other) trivial
  | select => exact h.setState _ (select_retains w.state)

end Consistent

variable (cfg : Config) (port : Port σ)

/-- `sch_add_task` fails and changes nothing, or fills the next slot and returns its id. -/
structure AddsAtomically (request : TaskRequest) (v : SchWorld σ) : Prop where
  fails_iff : (addTask cfg port request v).1 < 0 ↔
    request.fn = 0 ∨ v.state.taskCount.toNat = schMaxTasks
  unchanged : (addTask cfg port request v).1 < 0 → (addTask cfg port request v).2.state = v.state
  fills : 0 ≤ (addTask cfg port request v).1 → ∃ id : Fin schMaxTasks,
    (addTask cfg port request v).1 = id ∧ Fills v.state (addTask cfg port request v).2.state id

theorem addsAtomically_of_refused {request : TaskRequest} {v v' : SchWorld σ} {error : Int}
    (out : addTask cfg port request v = (error, v')) (negative : error < 0)
    (reason : request.fn = 0 ∨ v.state.taskCount.toNat = schMaxTasks)
    (same : v'.state = v.state) : AddsAtomically cfg port request v := by
  refine ⟨?_, fun _ => ?_, fun positive => ?_⟩
  · rw [out]
    exact iff_of_true negative reason
  · rw [out]
    exact same
  · rw [out] at positive
    exact absurd negative (not_lt.mpr positive)

theorem Represents.addsAtomically {events : List SchEvent} {v : SchWorld σ}
    (h : Represents events v.state) (request : TaskRequest) :
    AddsAtomically cfg port request v := by
  rcases addTask_cases cfg port request v with ⟨error, negative, refuses, out⟩ |
    ⟨error, negative, refuses, out⟩ | ⟨r, rfl, -, chosen, out⟩
  · exact addsAtomically_of_refused cfg port out negative ((h.refuses_iff request).mp refuses) rfl
  · exact addsAtomically_of_refused cfg port out negative ((h.refuses_iff request).mp refuses) rfl
  · have positive : ¬ ((r.id : Int) < 0) := not_lt.mpr (Int.natCast_nonneg _)
    have accepts : ¬ (r.request.fn = 0 ∨ v.state.taskCount.toNat = schMaxTasks) := by
      rintro (null | full)
      · exact chosen.fn null
      · exact absurd chosen.room (by rw [full]; exact lt_irrefl _)
    refine ⟨?_, fun negative => ?_, fun _ => ?_⟩
    · rw [out]
      exact iff_of_false positive accepts
    · rw [out] at negative
      exact absurd negative positive
    · rw [out]
      exact ⟨r.id, rfl, h.fills cfg r chosen⟩

/-- At every moment of a history, inside its runs too, the table is as represented, and
`sch_add_task` would fail or fill the next slot; each call of it that was made, and each call
of a task, is in the log as explained there; and between calls no slot is pending. -/
theorem table_represents (env : σ) (calls : List (Call σ)) :
    let w := history cfg port env calls
    World.Throughout (fun events s => Represents events s ∧
      ∀ (request : TaskRequest) (v : SchWorld σ),
        AddsAtomically cfg port request (v.setState s)) w ∧
      World.Ordered KeepsTasks w ∧ World.Recorded Explains w ∧
      ∀ i, (w.state.tasks i).pending = false := by
  intro w
  have consistent : Consistent w :=
    history_invariant cfg port Consistent Consistent.move env (Consistent.start env) calls
  refine ⟨consistent.table.mono fun events s represents => ⟨represents, fun request v => ?_⟩,
    consistent.tasks, consistent.calls, (history_settled cfg port env calls).pending⟩
  exact Represents.addsAtomically cfg port (v := v.setState s) represents request

end SchedulerLib.Scheduler
