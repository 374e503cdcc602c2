import SchedulerLib.Scheduler.Model

/-!
What the pieces of a run leave alone. Instrumentation is silent: it touches neither tasks
nor the round-robin cursor. A callback leaves the task table undisturbed: used slots stay
as they are, and a slot it fills holds a new task that is not pending.
-/

namespace SchedulerLib.Scheduler

open Lib

/-- What a run does to the outside. -/
inductive Action where
  | periodic (id : Fin schMaxTasks) (fn ctx : Address)
  | background (id : Fin schMaxTasks) (fn ctx : Address)
  | idle
  deriving DecidableEq, Repr

def Action.of : SchEvent → Option Action
  | .callback .periodic id fn ctx => some (.periodic id fn ctx)
  | .callback .background id fn ctx => some (.background id fn ctx)
  | .idle => some .idle
  | _ => none

/-- The actions in a piece of the log, each with the scheduler as it was at that moment. -/
def actions (log : List (SchEvent × Sch)) : List (Action × Sch) :=
  log.filterMap fun x => (Action.of x.1).map fun act => (act, x.2)

/-- A successful `sch_add_task`: the slot, the arguments and the true time. -/
structure Registration where
  id : Fin schMaxTasks
  request : TaskRequest
  time : Nat
  deriving DecidableEq, Repr

def registrations (log : List (SchEvent × Sch)) : List Registration :=
  log.filterMap fun x => match x.1 with
    | .added id request time => some ⟨id, request, time⟩
    | _ => none

def Registration.task (r : Registration) : SchTask where
  fn := r.request.fn
  ctx := r.request.ctx
  periodTicks := r.request.periodTicks
  nextRelease := BitVec.ofNat 32 r.time + r.request.startDelayTicks
  priority := r.request.priority
  enabled := true
  pending := false
  inUse := true

def SchEvent.reading : SchEvent → Option Nat
  | .nowTicks time => some time
  | _ => none

def readings (events : List SchEvent) : List Nat := events.filterMap SchEvent.reading

@[simp] theorem actions_nil : actions [] = [] := rfl
@[simp] theorem registrations_nil : registrations [] = [] := rfl

@[simp] theorem actions_append (l m : List (SchEvent × Sch)) :
    actions (l ++ m) = actions l ++ actions m := by
  simp [actions]

@[simp] theorem registrations_append (l m : List (SchEvent × Sch)) :
    registrations (l ++ m) = registrations l ++ registrations m := by
  simp [registrations]

structure Fresh (task : SchTask) : Prop where
  inUse : task.inUse = true
  enabled : task.enabled = true
  pending : task.pending = false
  fn : task.fn ≠ 0

theorem slot_kept {task task' : SchTask}
    (h : task' = task ∨ task.inUse = false ∧ Fresh task') (used : task.inUse = true) :
    task' = task := by
  rcases h with same | ⟨free, -⟩
  · exact same
  · rw [used] at free
    cases free

theorem slot_free {task task' : SchTask}
    (h : task' = task ∨ task.inUse = false ∧ Fresh task') (free : task'.inUse = false) :
    task.inUse = false := by
  rcases h with same | ⟨free', -⟩
  · rwa [same] at free
  · exact free'

theorem slot_unfilled {task task' : SchTask}
    (h : task' = task ∨ task.inUse = false ∧ Fresh task') (same : task'.inUse = task.inUse) :
    task' = task := by
  rcases h with stays | ⟨free, fresh⟩
  · exact stays
  · rw [fresh.inUse, free] at same
    cases same

structure Grows (s s' : Sch) : Prop where
  tasks : ∀ i, s'.tasks i = s.tasks i ∨ (s.tasks i).inUse = false ∧ Fresh (s'.tasks i)
  cursor : s'.nextBackgroundIdx = s.nextBackgroundIdx

theorem Grows.refl (s : Sch) : Grows s s := ⟨fun _ => Or.inl rfl, rfl⟩

theorem Grows.of_eq {s s' : Sch} (tasks : s'.tasks = s.tasks)
    (cursor : s'.nextBackgroundIdx = s.nextBackgroundIdx) : Grows s s' :=
  ⟨fun i => Or.inl (congrFun tasks i), cursor⟩

theorem Grows.kept {s s' : Sch} (h : Grows s s') (i : Fin schMaxTasks)
    (used : (s.tasks i).inUse = true) : s'.tasks i = s.tasks i :=
  slot_kept (h.tasks i) used

theorem Grows.free {s s' : Sch} (h : Grows s s') (i : Fin schMaxTasks)
    (free : (s'.tasks i).inUse = false) : (s.tasks i).inUse = false :=
  slot_free (h.tasks i) free

theorem Grows.trans {s₁ s₂ s₃ : Sch} (h : Grows s₁ s₂) (k : Grows s₂ s₃) : Grows s₁ s₃ where
  tasks i := by
    rcases k.tasks i with same | ⟨free, fresh⟩
    · rw [same]
      exact h.tasks i
    · exact Or.inr ⟨h.free i free, fresh⟩
  cursor := k.cursor.trans h.cursor

/-- `r` happened on the way from `s` to `s'`, and its task still stands as registered. -/
def Registers (s s' : Sch) (r : Registration) : Prop :=
  (s.tasks r.id).inUse = false ∧ s'.tasks r.id = r.task

variable {σ : Type}

structure Silent (w w' : SchWorld σ) : Prop where
  tasks : w'.state.tasks = w.state.tasks
  cursor : w'.state.nextBackgroundIdx = w.state.nextBackgroundIdx
  log : ∃ l, w'.log = w.log ++ l ∧ actions l = [] ∧ registrations l = []

structure Undisturbed (w w' : SchWorld σ) : Prop where
  grows : Grows w.state w'.state
  log : ∃ l, w'.log = w.log ++ l ∧ actions l = [] ∧
    ∀ r ∈ registrations l, Registers w.state w'.state r

/-- Exactly one action, taken with the tasks as they were at the start. -/
structure Performs (act : Action) (w w' : SchWorld σ) : Prop where
  grows : Grows w.state w'.state
  log : ∃ l snapshot, w'.log = w.log ++ l ∧ actions l = [(act, snapshot)] ∧
    snapshot.tasks = w.state.tasks ∧ ∀ r ∈ registrations l, Registers w.state w'.state r

theorem Silent.refl (w : SchWorld σ) : Silent w w := ⟨rfl, rfl, [], (List.append_nil _).symm, rfl, rfl⟩

theorem Silent.of_log {w w' : SchWorld σ} (tasks : w'.state.tasks = w.state.tasks)
    (cursor : w'.state.nextBackgroundIdx = w.state.nextBackgroundIdx) (log : w'.log = w.log) :
    Silent w w' :=
  ⟨tasks, cursor, [], by rw [log, List.append_nil], rfl, rfl⟩

theorem emit_silent (w : SchWorld σ) (e : SchEvent) (act : actions [(e, w.state)] = [])
    (reg : registrations [(e, w.state)] = []) : Silent w (w.emit e) :=
  ⟨rfl, rfl, [(e, w.state)], rfl, act, reg⟩

theorem Silent.trans {w₁ w₂ w₃ : SchWorld σ} (h : Silent w₁ w₂) (k : Silent w₂ w₃) :
    Silent w₁ w₃ := by
  obtain ⟨l, log, act, reg⟩ := h.log
  obtain ⟨m, log', act', reg'⟩ := k.log
  refine ⟨k.tasks.trans h.tasks, k.cursor.trans h.cursor, l ++ m, ?_, ?_, ?_⟩
  · exact World.log_trans log log'
  · rw [actions_append, act, act', List.append_nil]
  · rw [registrations_append, reg, reg', List.append_nil]

theorem Silent.undisturbed {w w' : SchWorld σ} (h : Silent w w') : Undisturbed w w' := by
  obtain ⟨l, log, act, reg⟩ := h.log
  exact ⟨Grows.of_eq h.tasks h.cursor, l, log, act, by simp [reg]⟩

theorem registers_append {s₁ s₂ s₃ : Sch} {l m : List (SchEvent × Sch)} (h : Grows s₁ s₂)
    (k : Grows s₂ s₃) (first : ∀ r ∈ registrations l, Registers s₁ s₂ r)
    (second : ∀ r ∈ registrations m, Registers s₂ s₃ r) :
    ∀ r ∈ registrations (l ++ m), Registers s₁ s₃ r := by
  intro r hr
  rw [registrations_append, List.mem_append] at hr
  rcases hr with hr | hr
  · obtain ⟨free, task⟩ := first r hr
    exact ⟨free, (k.kept r.id (by rw [task]; rfl)).trans task⟩
  · obtain ⟨free, task⟩ := second r hr
    exact ⟨h.free r.id free, task⟩

theorem Undisturbed.trans {w₁ w₂ w₃ : SchWorld σ} (h : Undisturbed w₁ w₂)
    (k : Undisturbed w₂ w₃) : Undisturbed w₁ w₃ := by
  obtain ⟨l, log, act, reg⟩ := h.log
  obtain ⟨m, log', act', reg'⟩ := k.log
  refine ⟨h.grows.trans k.grows, l ++ m, ?_, ?_, registers_append h.grows k.grows reg reg'⟩
  · exact World.log_trans log log'
  · rw [actions_append, act, act', List.append_nil]

theorem Silent.performs {act : Action} {w₁ w₂ w₃ : SchWorld σ} (h : Silent w₁ w₂)
    (k : Performs act w₂ w₃) : Performs act w₁ w₃ := by
  obtain ⟨l, log, none_, reg⟩ := h.log
  obtain ⟨m, snapshot, log', act', same, reg'⟩ := k.log
  have grows := Grows.of_eq h.tasks h.cursor
  refine ⟨grows.trans k.grows, l ++ m, snapshot, ?_, ?_, same.trans h.tasks,
    registers_append grows k.grows (by simp [reg]) reg'⟩
  · exact World.log_trans log log'
  · rw [actions_append, none_, act', List.nil_append]

theorem Performs.then {act : Action} {w₁ w₂ w₃ : SchWorld σ} (h : Performs act w₁ w₂)
    (k : Undisturbed w₂ w₃) : Performs act w₁ w₃ := by
  obtain ⟨l, snapshot, log, act', same, reg⟩ := h.log
  obtain ⟨m, log', none_, reg'⟩ := k.log
  refine ⟨h.grows.trans k.grows, l ++ m, snapshot, ?_, ?_, same,
    registers_append h.grows k.grows reg reg'⟩
  · exact World.log_trans log log'
  · rw [actions_append, act', none_, List.append_nil]

section Pieces

variable (cfg : Config) (port : Port σ)

theorem setEnv_silent (w : SchWorld σ) (env : σ) : Silent w (w.setEnv env) :=
  Silent.of_log rfl rfl rfl

theorem nowTicks_silent (w : SchWorld σ) : Silent w (nowTicks port w).2 :=
  (setEnv_silent w _).trans (emit_silent _ (.nowTicks (port.time w.env).1) rfl rfl)

theorem traceEmit_silent (event : SchTraceEvent) (taskId : Int) (timestamp : BitVec 32)
    (w : SchWorld σ) : Silent w (traceEmit port event taskId timestamp w) := by
  unfold traceEmit
  split_ifs
  · exact Silent.refl w
  · exact (setEnv_silent w _).trans (emit_silent _ (.trace event taskId timestamp) rfl rfl)

theorem traceNow_silent (event : SchTraceEvent) (taskId : Int) (w : SchWorld σ) :
    Silent w (traceNow cfg port event taskId w) := by
  unfold traceNow
  split_ifs
  · exact (nowTicks_silent port w).trans (traceEmit_silent port ..)
  · exact Silent.refl w

theorem modify_silent (w : SchWorld σ) (f : Sch → Sch) (tasks : (f w.state).tasks = w.state.tasks)
    (cursor : (f w.state).nextBackgroundIdx = w.state.nextBackgroundIdx) : Silent w (w.modify f) :=
  Silent.of_log tasks cursor rfl

theorem statsBegin_silent (id : Fin schMaxTasks) (w : SchWorld σ) :
    Silent w (statsBegin cfg port id w).2 := by
  unfold statsBegin
  split_ifs
  · refine (nowTicks_silent port w).trans ?_
    exact modify_silent _ (fun s => s.setStats id { s.stats id with lastStartTick := _ }) rfl rfl
  · exact Silent.refl w

theorem statsEnd_silent (id : Fin schMaxTasks) (execStart : BitVec 32) (w : SchWorld σ) :
    Silent w (statsEnd cfg port id execStart w) := by
  unfold statsEnd
  split_ifs
  · refine (nowTicks_silent port w).trans ?_
    refine Silent.trans ?_ (emit_silent _ _ rfl rfl)
    exact modify_silent _ (fun s => s.setStats id ((s.stats id).account _)) rfl rfl
  · exact Silent.refl w

theorem noteMiss_keeps (P : SchWorld σ → Prop) (now : BitVec 32) (i : Fin schMaxTasks)
    (w : SchWorld σ) (unnoted : P w)
    (count : ∀ v, P v → P (v.modify fun s => s.setStats i
      { s.stats i with missCount := (s.stats i).missCount + 1 }))
    (trace : ∀ v, P v → P (traceEmit port .taskMiss i now v)) : P (noteMiss cfg port now i w) := by
  unfold noteMiss
  dsimp only
  split_ifs
  · exact trace _ (count w unnoted)
  · exact trace w unnoted
  · exact count w unnoted
  · exact unnoted

theorem checkOverrun_keeps (P : SchWorld σ → Prop) (id : Fin schMaxTasks) (period : BitVec 32)
    (w : SchWorld σ) (read : P (nowTicks port w).2)
    (count : ∀ v, P v → P (v.modify fun s => s.setStats id
      { s.stats id with overrunCount := (s.stats id).overrunCount + 1 }))
    (trace : ∀ v timestamp, P v → P (traceEmit port .taskOverrun id timestamp v)) :
    P (checkOverrun cfg port id period w) := by
  unfold checkOverrun
  dsimp only
  by_cases late : period ≠ 0 ∧
      timeReached (nowTicks port w).1 ((nowTicks port w).2.state.tasks id).nextRelease = true
  · rw [if_pos late]
    split_ifs
    · exact trace _ _ (count _ read)
    · exact trace _ _ read
    · exact count _ read
    · exact read
  · rw [if_neg late]
    exact read

theorem markPeriodicReady_keeps (P : SchWorld σ → Prop) (now : BitVec 32) (w : SchWorld σ)
    (start : P w) (mark : ∀ v i, P v → P (markSlot cfg port now v i)) :
    P (markPeriodicReady cfg port now w) := by
  unfold markPeriodicReady
  induction List.finRange schMaxTasks generalizing w with
  | nil => exact start
  | cons i rest ih => exact ih _ (mark w i start)

theorem noteMiss_silent (now : BitVec 32) (i : Fin schMaxTasks) (w : SchWorld σ) :
    Silent w (noteMiss cfg port now i w) :=
  noteMiss_keeps cfg port (Silent w) now i w (Silent.refl w)
    (fun v quiet => quiet.trans (modify_silent v _ rfl rfl))
    fun _ quiet => quiet.trans (traceEmit_silent port ..)

theorem checkOverrun_silent (id : Fin schMaxTasks) (period : BitVec 32) (w : SchWorld σ) :
    Silent w (checkOverrun cfg port id period w) :=
  checkOverrun_keeps cfg port (Silent w) id period w (nowTicks_silent port w)
    (fun v quiet => quiet.trans (modify_silent v _ rfl rfl))
    fun _ _ quiet => quiet.trans (traceEmit_silent port ..)

theorem resetStats_silent (w : SchWorld σ) : Silent w (resetStats w) :=
  (modify_silent w (fun s => { s with stats := fun _ => statsClearSlot }) rfl rfl).trans
    (emit_silent _ .resetStats rfl rfl)

theorem setTraceHook_silent (hook userCtx : Address) (w : SchWorld σ) :
    Silent w (setTraceHook hook userCtx w) :=
  (modify_silent w (fun s => { s with traceHook := hook, traceUserCtx := userCtx }) rfl rfl).trans
    (emit_silent _ (.setTraceHook hook userCtx) rfl rfl)

theorem refused_silent (w : SchWorld σ) (request : TaskRequest) (error : Int) :
    Silent w (w.emit (.refused request error)) :=
  emit_silent w (.refused request error) rfl rfl

theorem register_tasks (s : Sch) (id : Fin schMaxTasks) (task : SchTask) :
    (s.register cfg id task).tasks = Function.update s.tasks id task := by
  unfold Sch.register
  split_ifs <;> rfl

theorem register_cursor (s : Sch) (id : Fin schMaxTasks) (task : SchTask) :
    (s.register cfg id task).nextBackgroundIdx = s.nextBackgroundIdx := by
  unfold Sch.register
  split_ifs <;> rfl

theorem register_taskCount (s : Sch) (id : Fin schMaxTasks) (task : SchTask) :
    (s.register cfg id task).taskCount = s.taskCount + 1 := by
  unfold Sch.register
  split_ifs <;> rfl

theorem register_stats_self (s : Sch) (id : Fin schMaxTasks) (task : SchTask) :
    (s.register cfg id task).stats id =
      if cfg.enableStats then statsClearSlot else s.stats id := by
  unfold Sch.register
  split_ifs <;> simp

theorem register_stats_of_ne (s : Sch) {id i : Fin schMaxTasks} (task : SchTask) (ne : i ≠ id) :
    (s.register cfg id task).stats i = s.stats i := by
  unfold Sch.register
  split_ifs <;> simp [ne]

theorem register_undisturbed (w : SchWorld σ) (r : Registration) (fn : r.request.fn ≠ 0)
    (free : (w.state.tasks r.id).inUse = false) :
    Undisturbed w ((w.modify fun s => s.register cfg r.id r.task).emit
      (.added r.id r.request r.time)) where
  grows := by
    refine ⟨fun i => ?_, register_cursor cfg w.state r.id r.task⟩
    simp only [World.emit_state, World.modify_state, register_tasks]
    by_cases same : i = r.id
    · subst same
      rw [Function.update_self]
      exact Or.inr ⟨free, rfl, rfl, rfl, fn⟩
    · rw [Function.update_of_ne same]
      exact Or.inl rfl
  log := by
    refine ⟨_, rfl, rfl, fun r' mem => ?_⟩
    obtain rfl : r' = r := by simpa [registrations] using mem
    refine ⟨free, ?_⟩
    simp only [World.emit_state, World.modify_state, register_tasks, Function.update_self]

/-- Why `sch_add_task` refuses. -/
def Refuses (s : Sch) (request : TaskRequest) : Prop :=
  request.fn = 0 ∨ schMaxTasks ≤ s.taskCount.toNat ∨ ∀ i, (s.tasks i).inUse = true

structure Chosen (s : Sch) (r : Registration) : Prop where
  fn : r.request.fn ≠ 0
  room : s.taskCount.toNat < schMaxTasks
  free : (s.tasks r.id).inUse = false
  lowest : ∀ i < r.id, (s.tasks i).inUse = true

theorem find_lowest {p : Fin schMaxTasks → Bool} {i : Fin schMaxTasks}
    (found : (List.finRange schMaxTasks).find? p = some i) :
    p i = true ∧ ∀ j < i, p j = false := by
  obtain ⟨holds, front, back, split, missed⟩ := List.find?_eq_some_iff_append.mp found
  refine ⟨holds, fun j before => ?_⟩
  have sorted := List.pairwise_lt_finRange schMaxTasks
  have listed := List.mem_finRange j
  rw [split] at sorted listed
  rcases List.mem_append.mp listed with earlier | later
  · simpa using missed j earlier
  · have behind := (List.pairwise_append.mp sorted).2.1
    rcases List.mem_cons.mp later with rfl | later
    · exact absurd before (lt_irrefl _)
    · exact absurd before (lt_asymm ((List.pairwise_cons.mp behind).1 j later))

theorem addTask_cases (request : TaskRequest) (w : SchWorld σ) :
    (∃ error, error < 0 ∧ Refuses w.state request ∧
      addTask cfg port request w = (error, w.emit (.refused request error))) ∨
    (∃ error, error < 0 ∧ Refuses w.state request ∧
      addTask cfg port request w = (error, (nowTicks port w).2.emit (.refused request error))) ∨
    ∃ r : Registration, r.request = request ∧ r.time = (port.time w.env).1 ∧ Chosen w.state r ∧
      addTask cfg port request w = ((r.id : Int), ((nowTicks port w).2.modify fun s =>
        s.register cfg r.id r.task).emit (.added r.id r.request r.time)) := by
  have limit : BitVec.ofNat 32 schMaxTasks ≤ w.state.taskCount ↔
      schMaxTasks ≤ w.state.taskCount.toNat := by
    rw [BitVec.le_def]
    rfl
  unfold addTask
  by_cases null : request.fn = 0
  · rw [if_pos null]
    exact Or.inl ⟨_, by decide, Or.inl null, rfl⟩
  · by_cases full : BitVec.ofNat 32 schMaxTasks ≤ w.state.taskCount
    · rw [if_neg null, if_pos full]
      exact Or.inl ⟨_, by decide, Or.inr (Or.inl (limit.mp full)), rfl⟩
    · rw [if_neg null, if_neg full]
      dsimp only
      split
      · rename_i missed
        have used : ∀ i, (w.state.tasks i).inUse = true := fun i => by
          have kept := List.find?_eq_none.mp missed i (List.mem_finRange i)
          rwa [Bool.not_eq_true, Bool.not_eq_false'] at kept
        exact Or.inr (Or.inl ⟨_, by decide, Or.inr (Or.inr used), rfl⟩)
      · rename_i i found
        obtain ⟨free, lowest⟩ := find_lowest found
        refine Or.inr (Or.inr ⟨⟨i, request, (port.time w.env).1⟩, rfl, rfl, ⟨null, ?_, ?_, ?_⟩,
          rfl⟩)
        · rwa [limit, not_le] at full
        · rwa [Bool.not_eq_true'] at free
        · intro j before
          have used := lowest j before
          rwa [Bool.not_eq_false'] at used

/-- What no callback can take away: `P` survives each of the calls that one can make. -/
structure Withstands (P : SchWorld σ → Prop) : Prop where
  setEnv : ∀ w env, P w → P (w.setEnv env)
  read : ∀ w time, P w → P (w.emit (.nowTicks time))
  refuse : ∀ w request error, Refuses w.state request → P w → P (w.emit (.refused request error))
  register : ∀ w r, Chosen w.state r → P w →
    P ((w.modify fun s => s.register cfg r.id r.task).emit (.added r.id r.request r.time))
  resetStats : ∀ w, P w → P (resetStats w)
  setTraceHook : ∀ w hook userCtx, P w → P (setTraceHook hook userCtx w)

namespace Withstands

variable {cfg} {P : SchWorld σ → Prop}

theorem nowTicks (h : Withstands cfg P) {w : SchWorld σ} (start : P w) :
    P (nowTicks port w).2 :=
  h.read _ _ (h.setEnv w _ start)

theorem addTask (h : Withstands cfg P) {w : SchWorld σ} (start : P w) (request : TaskRequest) :
    P (addTask cfg port request w).2 := by
  have read := h.nowTicks port start
  rcases addTask_cases cfg port request w with ⟨error, -, refuses, out⟩ |
    ⟨error, -, refuses, out⟩ | ⟨r, -, -, chosen, out⟩
  · rw [out]
    exact h.refuse w request error refuses start
  · rw [out]
    exact h.refuse _ request error refuses read
  · rw [out]
    exact h.register _ r chosen read

theorem exec (h : Withstands cfg P) (callback : Callback σ) {w : SchWorld σ} (start : P w) :
    P (callback.exec cfg port w) := by
  induction callback generalizing w with
  | ret env => exact h.setEnv w env start
  | addTask env request next ih => exact ih _ _ (h.addTask port (h.setEnv w env start) request)
  | enableTask env taskId enable next ih => exact ih _ (h.setEnv w env start)
  | resetStats env next ih => exact ih _ (h.resetStats _ (h.setEnv w env start))
  | getTaskStats env taskId next ih => exact ih _ _ (h.setEnv w env start)
  | setTraceHook env hook userCtx next ih =>
    exact ih _ (h.setTraceHook _ hook userCtx (h.setEnv w env start))

end Withstands

theorem undisturbed_withstands (w : SchWorld σ) : Withstands cfg (Undisturbed w) where
  setEnv v env h := h.trans (setEnv_silent v env).undisturbed
  read v time h := h.trans (emit_silent v (.nowTicks time) rfl rfl).undisturbed
  refuse v request error _ h := h.trans (refused_silent v request error).undisturbed
  register v r chosen h := h.trans (register_undisturbed cfg v r chosen.fn chosen.free)
  resetStats v h := h.trans (resetStats_silent v).undisturbed
  setTraceHook v hook userCtx h := h.trans (setTraceHook_silent hook userCtx v).undisturbed

theorem addTask_undisturbed (request : TaskRequest) (w : SchWorld σ) :
    Undisturbed w (addTask cfg port request w).2 :=
  (undisturbed_withstands cfg w).addTask port (Silent.refl w).undisturbed request

theorem exec_undisturbed (callback : Callback σ) (w : SchWorld σ) :
    Undisturbed w (callback.exec cfg port w) :=
  (undisturbed_withstands cfg w).exec port callback (Silent.refl w).undisturbed

def actionOf : Phase → Fin schMaxTasks → Address → Address → Action
  | .periodic => .periodic
  | .background => .background

theorem callTask_performs (phase : Phase) (id : Fin schMaxTasks) (fn ctx : Address)
    (w : SchWorld σ) : Performs (actionOf phase id fn ctx) w (callTask cfg port phase id fn ctx w) := by
  have called : Performs (actionOf phase id fn ctx) w (w.emit (.callback phase id fn ctx)) := by
    refine ⟨Grows.refl _, _, w.state, rfl, ?_, rfl, fun r hr => ?_⟩
    · cases phase <;> rfl
    · simp [registrations] at hr
  refine (called.then (exec_undisturbed cfg port (port.task fn ctx w.env) _)).then ?_
  exact (emit_silent _ (.returned phase id) rfl rfl).undisturbed

theorem executeBackground_performs (id : Fin schMaxTasks) (fn ctx : Address) (w : SchWorld σ) :
    Performs (.background id fn ctx) w (executeBackground cfg port id fn ctx w) := by
  refine ((traceNow_silent cfg port .taskStart id w).trans
    (statsBegin_silent cfg port id _)).performs ?_
  refine Performs.then (callTask_performs cfg port .background id fn ctx _) ?_
  exact ((statsEnd_silent cfg port id _ _).trans (traceNow_silent cfg port ..)).undisturbed

theorem runIdle_performs (w : SchWorld σ) : Performs .idle w (runIdle cfg port w) := by
  refine (traceNow_silent cfg port .idle schInvalidTaskId w).performs ?_
  refine ⟨Grows.refl _, _, _, rfl, rfl, rfl, fun r hr => ?_⟩
  simp [registrations] at hr

theorem executePeriodic_performs (now : BitVec 32) (selected : Fin schMaxTasks) (w : SchWorld σ) :
    Performs (.periodic selected (w.state.tasks selected).fn (w.state.tasks selected).ctx)
      (w.modify fun s => s.release now selected) (executePeriodic cfg port now selected w) := by
  refine ((statsBegin_silent cfg port selected _).trans
    (traceNow_silent cfg port .taskStart selected _)).performs ?_
  refine Performs.then (callTask_performs cfg port .periodic selected _ _ _) ?_
  exact (((statsEnd_silent cfg port selected _ _).trans (traceNow_silent cfg port ..)).trans
    (checkOverrun_silent cfg port ..)).undisturbed

end Pieces

end SchedulerLib.Scheduler
