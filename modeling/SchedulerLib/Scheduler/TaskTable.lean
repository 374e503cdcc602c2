import SchedulerLib.Scheduler.Moves

/-!
The task table as a list that only grows. Ids are handed out in order, the slots in use are
the ones with an id handed out, and a slot keeps what its registration asked for. Checked
move by move, this holds whenever a callback looks at the table, and at every call of
`sch_add_task`, which either changes nothing or fills the next slot.
-/

namespace SchedulerLib.Scheduler

open Lib

def SchEvent.registration : SchEvent → Option Registration
  | .added id request time => some ⟨id, request, time⟩
  | _ => none

def registered (events : List SchEvent) : List Registration :=
  events.filterMap SchEvent.registration

theorem registered_concat (events : List SchEvent) (e : SchEvent) :
    registered (events ++ [e]) = registered events ++ e.registration.toList := by
  rw [registered, List.filterMap_append]
  cases h : e.registration <;> simp [registered, h]

/-- What a task is; the rest of a slot is its state. -/
def SchTask.identity (task : SchTask) : Address × Address × BitVec 32 × BitVec 16 :=
  (task.fn, task.ctx, task.periodTicks, task.priority)

structure Represents (events : List SchEvent) (s : Sch) : Prop where
  ids : (registered events).map (fun r => r.id.val) = List.range s.taskCount.toNat
  room : s.taskCount.toNat ≤ schMaxTasks
  inUse : ∀ i, (s.tasks i).inUse = true ↔ i.val < s.taskCount.toNat
  enabled : ∀ i, (s.tasks i).inUse = true → (s.tasks i).enabled = true
  fn : ∀ i, (s.tasks i).inUse = true → (s.tasks i).fn ≠ 0
  pending : ∀ i, (s.tasks i).pending = true →
    (s.tasks i).inUse = true ∧ (s.tasks i).periodTicks ≠ 0
  cursor : s.nextBackgroundIdx.toNat < schMaxTasks
  identity : ∀ r ∈ registered events, (s.tasks r.id).identity = r.task.identity
  called : ∀ phase i fn ctx, SchEvent.callback phase i fn ctx ∈ events → fn ≠ 0

theorem represents_init : Represents [] Sch.init where
  ids := rfl
  room := by decide
  inUse i := by simp [Sch.init, emptySlot]
  enabled _ used := by cases used
  fn _ used := by cases used
  pending _ raised := by cases raised
  cursor := by decide
  identity r mem := by cases mem
  called _ _ _ _ mem := by cases mem

/-- A change that keeps the table but for pending flags and releases. -/
structure Retains (s s' : Sch) : Prop where
  taskCount : s'.taskCount = s.taskCount
  inUse : ∀ i, (s'.tasks i).inUse = (s.tasks i).inUse
  enabled : ∀ i, (s'.tasks i).enabled = (s.tasks i).enabled
  identity : ∀ i, (s'.tasks i).identity = (s.tasks i).identity
  pending : ∀ i, (s'.tasks i).pending = true →
    (s.tasks i).pending = true ∨ (s.tasks i).inUse = true ∧ (s.tasks i).periodTicks ≠ 0
  cursor : s.nextBackgroundIdx.toNat < schMaxTasks → s'.nextBackgroundIdx.toNat < schMaxTasks

theorem SchTask.identity_fn {task task' : SchTask} (h : task'.identity = task.identity) :
    task'.fn = task.fn :=
  congrArg Prod.fst h

theorem SchTask.identity_periodTicks {task task' : SchTask} (h : task'.identity = task.identity) :
    task'.periodTicks = task.periodTicks :=
  congrArg (fun x => x.2.2.1) h

theorem retains_of_eq {s s' : Sch} (tasks : s'.tasks = s.tasks)
    (taskCount : s'.taskCount = s.taskCount)
    (cursor : s'.nextBackgroundIdx = s.nextBackgroundIdx) : Retains s s' where
  taskCount := taskCount
  inUse i := by rw [tasks]
  enabled i := by rw [tasks]
  identity i := by rw [tasks]
  pending i raised := Or.inl (by rwa [tasks] at raised)
  cursor below := by rwa [cursor]

theorem setTask_same {α : Type} (f : SchTask → α) (s : Sch) (i : Fin schMaxTasks)
    (task : SchTask) (same : f task = f (s.tasks i)) (j : Fin schMaxTasks) :
    f ((s.setTask i task).tasks j) = f (s.tasks j) := by
  by_cases here : j = i
  · rw [here, Sch.setTask_self, same]
  · rw [Sch.setTask_of_ne s task here]

theorem retains_setTask (s : Sch) (i : Fin schMaxTasks) (task : SchTask)
    (inUse : task.inUse = (s.tasks i).inUse) (enabled : task.enabled = (s.tasks i).enabled)
    (identity : task.identity = (s.tasks i).identity)
    (pending : task.pending = true → (s.tasks i).inUse = true ∧ (s.tasks i).periodTicks ≠ 0) :
    Retains s (s.setTask i task) where
  taskCount := rfl
  inUse := setTask_same SchTask.inUse s i task inUse
  enabled := setTask_same SchTask.enabled s i task enabled
  identity := setTask_same SchTask.identity s i task identity
  pending j raised := by
    by_cases here : j = i
    · rw [here, Sch.setTask_self] at raised
      rw [here]
      exact Or.inr (pending raised)
    · rw [Sch.setTask_of_ne s task here] at raised
      exact Or.inl raised
  cursor below := below

namespace Represents

variable {events : List SchEvent} {s s' : Sch}

theorem retains (h : Represents events s) (r : Retains s s') : Represents events s' where
  ids := by rw [r.taskCount, h.ids]
  room := by
    rw [r.taskCount]
    exact h.room
  inUse i := by rw [r.inUse, r.taskCount, h.inUse]
  enabled i used := by
    rw [r.inUse] at used
    rw [r.enabled, h.enabled i used]
  fn i used := by
    rw [r.inUse] at used
    rw [SchTask.identity_fn (r.identity i)]
    exact h.fn i used
  pending i raised := by
    rw [r.inUse, SchTask.identity_periodTicks (r.identity i)]
    rcases r.pending i raised with before | ready
    · exact h.pending i before
    · exact ready
  cursor := r.cursor h.cursor
  identity r' mem := by rw [r.identity, h.identity r' mem]
  called := h.called

theorem note (h : Represents events s) (e : SchEvent) (none_added : e.registration = none)
    (not_called : ∀ phase i fn ctx, SchEvent.callback phase i fn ctx = e → fn ≠ 0) :
    Represents (events ++ [e]) s := by
  have same : registered (events ++ [e]) = registered events := by
    rw [registered_concat, none_added, Option.toList_none, List.append_nil]
  refine ⟨by rw [same, h.ids], h.room, h.inUse, h.enabled, h.fn, h.pending, h.cursor, ?_, ?_⟩
  · rw [same]
    exact h.identity
  · intro phase i fn ctx mem
    rcases List.mem_append.mp mem with old | new
    · exact h.called phase i fn ctx old
    · exact not_called phase i fn ctx (List.mem_singleton.mp new)

theorem chosen_id (h : Represents events s) {r : Registration} (chosen : Chosen s r) :
    r.id.val = s.taskCount.toNat := by
  have behind : s.taskCount.toNat ≤ r.id.val := by
    by_contra below
    have used := (h.inUse r.id).mpr (not_le.mp below)
    rw [chosen.free] at used
    cases used
  refine le_antisymm ?_ behind
  by_contra beyond
  have used := chosen.lowest ⟨s.taskCount.toNat, chosen.room⟩ (Fin.lt_def.mpr (not_le.mp beyond))
  exact lt_irrefl _ ((h.inUse _).mp used)

theorem count_succ (h : Represents events s) : (s.taskCount + 1).toNat = s.taskCount.toNat + 1 := by
  have room : s.taskCount.toNat ≤ 64 := h.room
  have one : (1 : BitVec 32).toNat = 1 := rfl
  rw [BitVec.toNat_add, one]
  exact Nat.mod_eq_of_lt (by omega)

theorem refuses_iff (h : Represents events s) (request : TaskRequest) :
    Refuses s request ↔ request.fn = 0 ∨ s.taskCount.toNat = schMaxTasks := by
  have room := h.room
  constructor
  · rintro (null | full | used)
    · exact Or.inl null
    · exact Or.inr (le_antisymm room full)
    · have last := (h.inUse (Fin.last 63)).mp (used _)
      exact Or.inr (le_antisymm room last)
  · rintro (null | full)
    · exact Or.inl null
    · exact Or.inr (Or.inl full.ge)

end Represents

theorem register_all {cfg : Config} {s : Sch} {r : Registration} (Q : SchTask → Prop)
    (new : Q r.task) (old : ∀ i, Q (s.tasks i)) (i : Fin schMaxTasks) :
    Q ((s.register cfg r.id r.task).tasks i) := by
  rw [register_tasks]
  by_cases here : i = r.id
  · rwa [here, Function.update_self]
  · rw [Function.update_of_ne here]
    exact old i

theorem Represents.register {events : List SchEvent} {s : Sch} (h : Represents events s)
    (cfg : Config) (r : Registration) (chosen : Chosen s r) :
    Represents (events ++ [.added r.id r.request r.time]) (s.register cfg r.id r.task) := by
  have id := h.chosen_id chosen
  have count : (s.register cfg r.id r.task).taskCount.toNat = s.taskCount.toNat + 1 := by
    rw [register_taskCount, h.count_succ]
  have more : registered (events ++ [.added r.id r.request r.time]) = registered events ++ [r] := by
    rw [registered_concat]
    rfl
  have old : ∀ i ≠ r.id, (s.register cfg r.id r.task).tasks i = s.tasks i := fun i ne => by
    rw [register_tasks, Function.update_of_ne ne]
  have new : (s.register cfg r.id r.task).tasks r.id = r.task := by
    rw [register_tasks, Function.update_self]
  refine ⟨?_, ?_, fun i => ?_, ?_, ?_, ?_, ?_, fun r' mem => ?_, fun phase i fn ctx mem => ?_⟩
  · rw [more, List.map_append, h.ids, count, List.range_succ, List.map_singleton, id]
  · rw [count]
    exact chosen.room
  · rw [count]
    by_cases here : i = r.id
    · rw [here, new, id]
      simp [Registration.task]
    · have apart : i.val ≠ s.taskCount.toNat := fun same => here (Fin.ext (same.trans id.symm))
      rw [old i here, h.inUse]
      omega
  · exact register_all (fun task => task.inUse = true → task.enabled = true) (fun _ => rfl) h.enabled
  · exact register_all (fun task => task.inUse = true → task.fn ≠ 0) (fun _ => chosen.fn) h.fn
  · exact register_all (fun task => task.pending = true →
      task.inUse = true ∧ task.periodTicks ≠ 0) (fun raised => by cases raised) h.pending
  · rw [register_cursor]
    exact h.cursor
  · rw [more, List.mem_append, List.mem_singleton] at mem
    rcases mem with earlier | rfl
    · have listed : r'.id.val ∈ List.range s.taskCount.toNat := by
        rw [← h.ids]
        exact List.mem_map_of_mem (f := fun r => r.id.val) earlier
      have apart : r'.id ≠ r.id := by
        intro same
        rw [same, id, List.mem_range] at listed
        exact lt_irrefl _ listed
      rw [old r'.id apart, h.identity r' earlier]
    · rw [new]
  · rcases List.mem_append.mp mem with earlier | added
    · exact h.called phase i fn ctx earlier
    · cases List.mem_singleton.mp added

end SchedulerLib.Scheduler
