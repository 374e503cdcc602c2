import SchedulerLib.Lib.Alike
import SchedulerLib.Scheduler.Accounting

/-!
Builds with and without statistics and tracing, side by side. What instrumentation does on
its own leads to a world that is scheduled alike, if reading the tick and tracing leave the
environment alike; everything else takes worlds scheduled alike to such worlds.
-/

namespace SchedulerLib.Scheduler

open Lib

def Sch.schedule (s : Sch) : (Fin schMaxTasks → SchTask) × BitVec 32 × BitVec 32 :=
  (s.tasks, s.taskCount, s.nextBackgroundIdx)

theorem schedule_eq {s s' : Sch} (tasks : s.tasks = s'.tasks) (taskCount : s.taskCount = s'.taskCount)
    (cursor : s.nextBackgroundIdx = s'.nextBackgroundIdx) : s.schedule = s'.schedule := by
  rw [Sch.schedule, Sch.schedule, tasks, taskCount, cursor]

variable {σ : Type}

/-- Callbacks that do the same in environments alike, and do not look at statistics. -/
inductive Callback.Alike (R : σ → σ → Prop) : Callback σ → Callback σ → Prop
  | ret {env env' : σ} (same : R env env') : Alike R (.ret env) (.ret env')
  | addTask {env env' : σ} {next next' : Int → σ → Callback σ} (request : TaskRequest)
    (same : R env env') (go_on : ∀ id f f', R f f' → Alike R (next id f) (next' id f')) :
    Alike R (.addTask env request next) (.addTask env' request next')
  | enableTask {env env' : σ} {next next' : σ → Callback σ} (taskId : BitVec 32) (enable : Bool)
    (same : R env env') (go_on : ∀ f f', R f f' → Alike R (next f) (next' f')) :
    Alike R (.enableTask env taskId enable next) (.enableTask env' taskId enable next')
  | resetStats {env env' : σ} {next next' : σ → Callback σ} (same : R env env')
    (go_on : ∀ f f', R f f' → Alike R (next f) (next' f')) :
    Alike R (.resetStats env next) (.resetStats env' next')
  | getTaskStats {env env' : σ} {next next' : Option SchTaskStats → σ → Callback σ}
    (taskId : BitVec 32) (same : R env env')
    (go_on : ∀ stats stats' f f', R f f' → Alike R (next stats f) (next' stats' f')) :
    Alike R (.getTaskStats env taskId next) (.getTaskStats env' taskId next')
  | setTraceHook {env env' : σ} {next next' : σ → Callback σ} (hook userCtx : Address)
    (same : R env env') (go_on : ∀ f f', R f f' → Alike R (next f) (next' f')) :
    Alike R (.setTraceHook env hook userCtx next) (.setTraceHook env' hook userCtx next')

/-- Environments alike show the same tick, and callbacks and the idle hook do the same in
them; reading the tick and tracing lead to an environment alike. -/
structure Port.Indifferent (port : Port σ) (R : σ → σ → Prop) : Prop where
  equiv : Equivalence R
  tick : ∀ env env', R env env' → (port.time env).1 = (port.time env').1
  read : ∀ env, R env (port.time env).2
  traced : ∀ hook event taskId timestamp userCtx env,
    R env (port.traceHook hook event taskId timestamp userCtx env)
  task : ∀ fn ctx env env', R env env' →
    Callback.Alike R (port.task fn ctx env) (port.task fn ctx env')
  idle : ∀ env env', R env env' → R (port.idle env) (port.idle env')

abbrev Sim (R : σ → σ → Prop) : SchWorld σ → SchWorld σ → Prop :=
  World.Alike R Sch.schedule Action.of

namespace Sim

variable {R : σ → σ → Prop} {w w' : SchWorld σ}

theorem tasks (h : Sim R w w') : w.state.tasks = w'.state.tasks := congrArg Prod.fst h.state

theorem taskCount (h : Sim R w w') : w.state.taskCount = w'.state.taskCount :=
  congrArg (fun x => x.2.1) h.state

theorem cursor (h : Sim R w w') : w.state.nextBackgroundIdx = w'.state.nextBackgroundIdx :=
  congrArg (fun x => x.2.2) h.state

end Sim

section Silent

variable {port : Port σ} {R : σ → σ → Prop} (indifferent : port.Indifferent R) (cfg : Config)
  (w : SchWorld σ)
include indifferent

theorem nowTicks_sim : Sim R w (nowTicks port w).2 :=
  (World.alike_setEnv w _ (indifferent.read w.env)).trans indifferent.equiv
    (World.alike_emit indifferent.equiv _ (SchEvent.nowTicks _) rfl)

theorem traceEmit_sim (event : SchTraceEvent) (taskId : Int) (timestamp : BitVec 32) :
    Sim R w (traceEmit port event taskId timestamp w) := by
  unfold traceEmit
  split_ifs
  · exact World.Alike.refl indifferent.equiv w
  · exact (World.alike_setEnv w _ (indifferent.traced ..)).trans indifferent.equiv
      (World.alike_emit indifferent.equiv _ (SchEvent.trace event taskId timestamp) rfl)

theorem traceNow_sim (event : SchTraceEvent) (taskId : Int) :
    Sim R w (traceNow cfg port event taskId w) := by
  unfold traceNow
  split_ifs
  · exact (nowTicks_sim indifferent w).trans indifferent.equiv (traceEmit_sim indifferent ..)
  · exact World.Alike.refl indifferent.equiv w

theorem setStats_sim (id : Fin schMaxTasks) (f : Sch → SchTaskStats) :
    Sim R w (w.modify fun s => s.setStats id (f s)) :=
  World.alike_modify indifferent.equiv w _ rfl

theorem statsBegin_sim (id : Fin schMaxTasks) : Sim R w (statsBegin cfg port id w).2 := by
  have started := (nowTicks_sim indifferent w).trans indifferent.equiv
    (setStats_sim indifferent (nowTicks port w).2 id fun s =>
      { s.stats id with lastStartTick := (nowTicks port w).1 })
  unfold statsBegin
  split_ifs
  · exact started
  · exact World.Alike.refl indifferent.equiv w

theorem statsEnd_sim (id : Fin schMaxTasks) (execStart : BitVec 32) :
    Sim R w (statsEnd cfg port id execStart w) := by
  have accounted := (nowTicks_sim indifferent w).trans indifferent.equiv
    (setStats_sim indifferent (nowTicks port w).2 id fun s =>
      (s.stats id).account (nowTicks port w).1)
  unfold statsEnd
  split_ifs
  · exact accounted.trans indifferent.equiv
      (World.alike_emit indifferent.equiv _ (SchEvent.completed id execStart _) rfl)
  · exact World.Alike.refl indifferent.equiv w

theorem noteMiss_sim (now : BitVec 32) (i : Fin schMaxTasks) :
    Sim R w (noteMiss cfg port now i w) :=
  noteMiss_keeps cfg port (Sim R w) now i w (World.Alike.refl indifferent.equiv w)
    (fun v same => World.Alike.trans indifferent.equiv same (setStats_sim indifferent v i _))
    fun _ same => World.Alike.trans indifferent.equiv same (traceEmit_sim indifferent ..)

theorem checkOverrun_sim (id : Fin schMaxTasks) (period : BitVec 32) :
    Sim R w (checkOverrun cfg port id period w) :=
  checkOverrun_keeps cfg port (Sim R w) id period w (nowTicks_sim indifferent w)
    (fun v same => World.Alike.trans indifferent.equiv same (setStats_sim indifferent v id _))
    fun _ _ same => World.Alike.trans indifferent.equiv same (traceEmit_sim indifferent ..)

end Silent

section Scans

variable {s s' : Sch}

theorem selectPendingTask_congr (tasks : s.tasks = s'.tasks) :
    selectPendingTask s = selectPendingTask s' := by
  have scan : selectSlot s = selectSlot s' := by
    funext best i
    rw [selectSlot, selectSlot, tasks]
  rw [selectPendingTask, selectPendingTask, scan]

theorem selectBackgroundTask_congr (same : s.schedule = s'.schedule) :
    (selectBackgroundTask s).1 = (selectBackgroundTask s').1 ∧
      (selectBackgroundTask s).2.schedule = (selectBackgroundTask s').2.schedule := by
  have tasks : s.tasks = s'.tasks := congrArg Prod.fst same
  have cursor : s.nextBackgroundIdx = s'.nextBackgroundIdx := congrArg (fun x => x.2.2) same
  have scan : backgroundSlot s = backgroundSlot s' := by
    funext offset
    rw [backgroundSlot, backgroundSlot, cursor]
  unfold selectBackgroundTask
  rw [tasks, scan]
  dsimp only
  split
  · exact ⟨rfl, same⟩
  · exact ⟨rfl, schedule_eq rfl (congrArg (fun x => x.2.1) same) rfl⟩

theorem setTask_schedule (same : s.schedule = s'.schedule) (id : Fin schMaxTasks)
    (f : SchTask → SchTask) :
    (s.setTask id (f (s.tasks id))).schedule = (s'.setTask id (f (s'.tasks id))).schedule := by
  have tasks : s.tasks = s'.tasks := congrArg Prod.fst same
  refine schedule_eq ?_ (congrArg (fun x => x.2.1) same) (congrArg (fun x => x.2.2) same)
  rw [Sch.setTask, Sch.setTask, tasks]

theorem register_schedule (cfg cfg' : Config) (same : s.schedule = s'.schedule)
    (id : Fin schMaxTasks) (task : SchTask) :
    (s.register cfg id task).schedule = (s'.register cfg' id task).schedule := by
  refine schedule_eq ?_ ?_ ?_
  · rw [register_tasks, register_tasks, show s.tasks = s'.tasks from congrArg Prod.fst same]
  · rw [register_taskCount, register_taskCount,
      show s.taskCount = s'.taskCount from congrArg (fun x => x.2.1) same]
  · rw [register_cursor, register_cursor]
    exact congrArg (fun x => x.2.2) same

end Scans

namespace Sim

variable {port : Port σ} {R : σ → σ → Prop} (indifferent : port.Indifferent R) (cfg cfg' : Config)
  {w w' : SchWorld σ}
include indifferent

theorem nowTicks (h : Sim R w w') : (Scheduler.nowTicks port w).1 = (Scheduler.nowTicks port w').1 ∧
    Sim R (Scheduler.nowTicks port w).2 (Scheduler.nowTicks port w').2 :=
  ⟨congrArg (BitVec.ofNat 32) (indifferent.tick _ _ h.env),
    h.between indifferent.equiv (nowTicks_sim indifferent w) (nowTicks_sim indifferent w')⟩

theorem addTask (h : Sim R w w') (request : TaskRequest) :
    (Scheduler.addTask cfg port request w).1 = (Scheduler.addTask cfg' port request w').1 ∧
      Sim R (Scheduler.addTask cfg port request w).2 (Scheduler.addTask cfg' port request w').2 := by
  obtain ⟨tick, read⟩ := h.nowTicks indifferent
  have time := indifferent.tick _ _ h.env
  unfold Scheduler.addTask
  dsimp only
  rw [← h.taskCount, ← time, ← tick, ← read.tasks]
  split_ifs
  · exact ⟨rfl, h.emit _⟩
  · exact ⟨rfl, h.emit _⟩
  · split
    · exact ⟨rfl, read.emit _⟩
    · refine ⟨rfl, World.Alike.emit (read.modify _ _ ?_) _⟩
      exact register_schedule cfg cfg' read.state _ _

theorem exec {callback callback' : Callback σ} (alike : Callback.Alike R callback callback')
    (h : Sim R w w') : Sim R (callback.exec cfg port w) (callback'.exec cfg' port w') := by
  induction alike generalizing w w' with
  | ret same => exact h.setEnv same
  | addTask request same go_on ih =>
    obtain ⟨id, added⟩ := Sim.addTask indifferent cfg cfg' (World.Alike.setEnv h same) request
    rw [Callback.exec, Callback.exec, ← id]
    exact ih _ _ _ added.env added
  | enableTask taskId enable same go_on ih =>
    exact ih _ _ same (World.Alike.setEnv h same)
  | resetStats same go_on ih =>
    refine ih _ _ same ?_
    exact World.Alike.emit (World.Alike.modify (World.Alike.setEnv h same) _ _ h.state) _
  | getTaskStats taskId same go_on ih =>
    exact ih _ _ _ _ same (World.Alike.setEnv h same)
  | setTraceHook hook userCtx same go_on ih =>
    refine ih _ _ same ?_
    exact World.Alike.emit (World.Alike.modify (World.Alike.setEnv h same) _ _ h.state) _

theorem callTask (h : Sim R w w') (phase : Phase) (id : Fin schMaxTasks) (fn ctx : Address) :
    Sim R (Scheduler.callTask cfg port phase id fn ctx w)
      (Scheduler.callTask cfg' port phase id fn ctx w') := by
  have called : Sim R (w.emit (.callback phase id fn ctx)) (w'.emit (.callback phase id fn ctx)) :=
    World.Alike.emit h _
  exact World.Alike.emit (exec indifferent cfg cfg' (indifferent.task fn ctx _ _ called.env) called) _

theorem markSlot (h : Sim R w w') (now : BitVec 32) (i : Fin schMaxTasks) :
    Sim R (Scheduler.markSlot cfg port now w i) (Scheduler.markSlot cfg' port now w' i) := by
  have noted := h.between indifferent.equiv (noteMiss_sim indifferent cfg w now i)
    (noteMiss_sim indifferent cfg' w' now i)
  unfold Scheduler.markSlot
  rw [← h.tasks]
  dsimp only
  split_ifs
  · exact h
  · exact noted.modify _ _ (setTask_schedule noted.state i fun task => { task with pending := true })
  · exact h

theorem markPeriodicReady (h : Sim R w w') (now : BitVec 32) :
    Sim R (Scheduler.markPeriodicReady cfg port now w)
      (Scheduler.markPeriodicReady cfg' port now w') := by
  unfold Scheduler.markPeriodicReady
  induction List.finRange schMaxTasks generalizing w w' with
  | nil => exact h
  | cons i rest ih => exact ih (h.markSlot indifferent cfg cfg' now i)

theorem executePeriodic (h : Sim R w w') (now : BitVec 32) (selected : Fin schMaxTasks) :
    Sim R (Scheduler.executePeriodic cfg port now selected w)
      (Scheduler.executePeriodic cfg' port now selected w') := by
  have equiv := indifferent.equiv
  have released : Sim R (w.modify fun s => s.release now selected)
      (w'.modify fun s => s.release now selected) :=
    h.modify _ _ (setTask_schedule h.state selected (released now))
  have begun := released.between equiv (statsBegin_sim indifferent cfg _ selected)
    (statsBegin_sim indifferent cfg' _ selected)
  have traced := begun.between equiv (traceNow_sim indifferent cfg _ .taskStart selected)
    (traceNow_sim indifferent cfg' _ .taskStart selected)
  have called := Sim.callTask indifferent cfg cfg' traced .periodic selected
    (w.state.tasks selected).fn (w.state.tasks selected).ctx
  unfold Scheduler.executePeriodic
  rw [← h.tasks]
  refine World.Alike.between equiv ?_ (checkOverrun_sim indifferent cfg _ selected _)
    (checkOverrun_sim indifferent cfg' _ selected _)
  refine World.Alike.between equiv ?_ (traceNow_sim indifferent cfg _ .taskEnd selected)
    (traceNow_sim indifferent cfg' _ .taskEnd selected)
  exact called.between equiv (statsEnd_sim indifferent cfg _ selected _)
    (statsEnd_sim indifferent cfg' _ selected _)

theorem runPeriodic (h : Sim R w w') (now : BitVec 32) (n : Nat) :
    Sim R (Scheduler.runPeriodic cfg port now n w) (Scheduler.runPeriodic cfg' port now n w') := by
  induction n generalizing w w' with
  | zero => exact h
  | succ n ih =>
    unfold Scheduler.runPeriodic
    rw [← selectPendingTask_congr h.tasks]
    cases selectPendingTask w.state with
    | none => exact h
    | some selected => exact ih (h.executePeriodic indifferent cfg cfg' now selected)

theorem runIdle (h : Sim R w w') :
    Sim R (Scheduler.runIdle cfg port w) (Scheduler.runIdle cfg' port w') := by
  have traced := h.between indifferent.equiv
    (traceNow_sim indifferent cfg w .idle schInvalidTaskId)
    (traceNow_sim indifferent cfg' w' .idle schInvalidTaskId)
  exact World.Alike.emit (World.Alike.setEnv traced (indifferent.idle _ _ traced.env)) _

theorem executeBackground (h : Sim R w w') (id : Fin schMaxTasks) (fn ctx : Address) :
    Sim R (Scheduler.executeBackground cfg port id fn ctx w)
      (Scheduler.executeBackground cfg' port id fn ctx w') := by
  have equiv := indifferent.equiv
  have traced := h.between equiv (traceNow_sim indifferent cfg _ .taskStart id)
    (traceNow_sim indifferent cfg' _ .taskStart id)
  have begun := traced.between equiv (statsBegin_sim indifferent cfg _ id)
    (statsBegin_sim indifferent cfg' _ id)
  have called := Sim.callTask indifferent cfg cfg' begun .background id fn ctx
  refine World.Alike.between equiv ?_ (traceNow_sim indifferent cfg _ .taskEnd id)
    (traceNow_sim indifferent cfg' _ .taskEnd id)
  exact called.between equiv (statsEnd_sim indifferent cfg _ id _)
    (statsEnd_sim indifferent cfg' _ id _)

theorem runBackground (h : Sim R w w') :
    Sim R (Scheduler.runBackground cfg port w) (Scheduler.runBackground cfg' port w') := by
  obtain ⟨found, same⟩ := selectBackgroundTask_congr h.state
  have selected : Sim R (w.setState (selectBackgroundTask w.state).2)
      (w'.setState (selectBackgroundTask w'.state).2) := ⟨h.env, same, h.seen⟩
  have tasks := selected.tasks
  have idle := selected.runIdle indifferent cfg cfg'
  unfold Scheduler.runBackground
  dsimp only
  rw [← found, ← tasks]
  cases (selectBackgroundTask w.state).1 with
  | none => exact idle
  | some id =>
    dsimp only
    split_ifs
    · exact idle
    · exact selected.executeBackground indifferent cfg cfg' id _ _

theorem run (h : Sim R w w') : Sim R (Scheduler.run cfg port w) (Scheduler.run cfg' port w') := by
  obtain ⟨now, read⟩ := h.nowTicks indifferent
  have marked := read.markPeriodicReady indifferent cfg cfg' (Scheduler.nowTicks port w).1
  have looped := marked.runPeriodic indifferent cfg cfg' (Scheduler.nowTicks port w).1 schMaxTasks
  unfold Scheduler.run
  dsimp only
  rw [← now]
  exact looped.runBackground indifferent cfg cfg'

theorem step (h : Sim R w w') (c : Call σ) :
    Sim R (Scheduler.step cfg port w c) (Scheduler.step cfg' port w' c) := by
  cases c with
  | elapse env => exact h.setEnv (indifferent.equiv.refl env)
  | addTask request => exact (Sim.addTask indifferent cfg cfg' h request).2
  | enableTask taskId enable => exact h
  | resetStats => exact World.Alike.emit (h.modify _ _ h.state) _
  | setTraceHook hook userCtx => exact World.Alike.emit (h.modify _ _ h.state) _
  | run => exact h.run indifferent cfg cfg'

end Sim

inductive Command (σ : Type) where
  | init
  | call (c : Call σ)

def obey (cfg : Config) (port : Port σ) (w : SchWorld σ) : Command σ → SchWorld σ
  | .init => w.setState Sch.init
  | .call c => step cfg port w c

def commanded (cfg : Config) (port : Port σ) (env : σ) (commands : List (Command σ)) :
    SchWorld σ :=
  commands.foldl (obey cfg port) (World.start Sch.init env)

theorem Sim.obey {port : Port σ} {R : σ → σ → Prop} (indifferent : port.Indifferent R)
    (cfg cfg' : Config) (commands : List (Command σ)) {w w' : SchWorld σ} (h : Sim R w w') :
    Sim R (commands.foldl (Scheduler.obey cfg port) w)
      (commands.foldl (Scheduler.obey cfg' port) w') := by
  induction commands generalizing w w' with
  | nil => exact h
  | cons command rest ih =>
    cases command with
    | init => exact ih ⟨h.env, rfl, h.seen⟩
    | call c => exact ih (h.step indifferent cfg cfg' c)

theorem actions_eq (w : SchWorld σ) :
    (actions w.log).map Prod.fst = w.events.filterMap Action.of := by
  rw [actions, List.map_filterMap, World.events, List.filterMap_map]
  congr 1
  funext x
  cases h : Action.of x.1 <;> simp [h]

/-- All builds call the same tasks and idle at the same points, and end with the same tasks,
count and cursor. -/
theorem builds_scheduled_alike (port : Port σ) (R : σ → σ → Prop) (indifferent : port.Indifferent R)
    (cfg cfg' : Config) (env : σ) (commands : List (Command σ)) :
    let w := commanded cfg port env commands
    let w' := commanded cfg' port env commands
    (actions w.log).map Prod.fst = (actions w'.log).map Prod.fst ∧
      w.state.tasks = w'.state.tasks ∧ w.state.taskCount = w'.state.taskCount ∧
      w.state.nextBackgroundIdx = w'.state.nextBackgroundIdx := by
  intro w w'
  have start : Sim R (World.start Sch.init env) (World.start Sch.init env) :=
    World.Alike.refl indifferent.equiv _
  have sim : Sim R w w' := start.obey indifferent cfg cfg' commands
  refine ⟨?_, sim.tasks, sim.taskCount, sim.cursor⟩
  rw [actions_eq, actions_eq]
  exact sim.seen

def countingPort : Port (Nat × Nat) where
  time env := (env.1, env.1, env.2 + 1)
  task _ _ env := .addTask env ⟨2, 0, 7, 0, 0⟩ fun _ env => .ret (env.1 + 3, env.2)
  traceHook _ _ _ _ _ env := (env.1, env.2 + 1)
  idle env := env

theorem countingPort_indifferent : countingPort.Indifferent fun env env' => env.1 = env'.1 where
  equiv := ⟨fun _ => rfl, Eq.symm, Eq.trans⟩
  tick _ _ same := same
  read _ := rfl
  traced _ _ _ _ _ _ := rfl
  task _ _ _ _ same := .addTask _ same fun _ _ _ same' => .ret (congrArg (· + 3) same')
  idle _ _ same := same

/-- A traced build with statistics and a bare one, which read the clock differently often. -/
theorem builds_scheduled_alike_counting :
    let commands := [.call (.setTraceHook 1 0), .call (.addTask ⟨1, 0, 10, 0, 0⟩), .call .run,
      .call .run, .init, .call (.addTask ⟨1, 0, 0, 0, 0⟩), .call .run]
    let w := commanded ⟨true, true⟩ countingPort (0, 0) commands
    let w' := commanded ⟨false, false⟩ countingPort (0, 0) commands
    (actions w.log).map Prod.fst = (actions w'.log).map Prod.fst ∧ w.env.2 ≠ w'.env.2 := by
  intro commands w w'
  exact ⟨(builds_scheduled_alike countingPort _ countingPort_indifferent ⟨true, true⟩
    ⟨false, false⟩ (0, 0) commands).1, by decide +kernel⟩

end SchedulerLib.Scheduler
