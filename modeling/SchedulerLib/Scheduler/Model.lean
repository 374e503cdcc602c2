import Mathlib.Data.Fin.Basic
import Mathlib.Logic.Function.Basic
import Mathlib.Data.List.FinRange
import SchedulerLib.Lib.World

/-!
`scheduler.c`. Everything outside the scheduler is the environment `σ`: the tick source,
the task callbacks, the trace hook and the idle hook of the port. The tick source yields
an unbounded time, of which the scheduler sees 32 bits. What a callback does to the
scheduler is spelled out as a tree of calls, each followed by how the callback goes on.
The optional parts of the build are switched by a `Config`. The functions of the source have
their names there after `sch_`; a selection is `none` for `SCH_INVALID_TASK_ID`.
-/

namespace SchedulerLib.Scheduler

open Lib

/-- A pointer to a function or to user data; 0 is NULL. -/
abbrev Address := Nat

abbrev schMaxTasks : Nat := 64

theorem schMaxTasks_pos : 0 < schMaxTasks := by decide

def schInvalidTaskId : Int := -1
def schErrInvalidArg : Int := -2
def schErrNoSpace : Int := -3

def schLowestPriority : BitVec 16 := 65535

structure Config where
  enableStats : Bool
  enableTrace : Bool
  deriving DecidableEq, Repr

@[ext] structure SchTask where
  fn : Address
  ctx : Address
  periodTicks : BitVec 32
  nextRelease : BitVec 32
  priority : BitVec 16
  enabled : Bool
  pending : Bool
  inUse : Bool
  deriving DecidableEq, Repr

structure SchTaskStats where
  runCount : BitVec 32
  missCount : BitVec 32
  overrunCount : BitVec 32
  lastStartTick : BitVec 32
  lastEndTick : BitVec 32
  lastExecTicks : BitVec 32
  maxExecTicks : BitVec 32
  totalExecTicks : BitVec 32
  deriving DecidableEq, Repr

structure Sch where
  tasks : Fin schMaxTasks → SchTask
  taskCount : BitVec 32
  nextBackgroundIdx : BitVec 32
  stats : Fin schMaxTasks → SchTaskStats
  traceHook : Address
  traceUserCtx : Address

inductive SchTraceEvent where
  | taskStart
  | taskEnd
  | taskMiss
  | taskOverrun
  | idle
  deriving DecidableEq, Repr

structure TaskRequest where
  fn : Address
  ctx : Address
  periodTicks : BitVec 32
  startDelayTicks : BitVec 32
  priority : BitVec 16
  deriving DecidableEq, Repr

inductive Phase where
  | periodic
  | background
  deriving DecidableEq, Repr

inductive SchEvent where
  | nowTicks (time : Nat)
  | added (id : Fin schMaxTasks) (request : TaskRequest) (time : Nat)
  | refused (request : TaskRequest) (error : Int)
  | resetStats
  | setTraceHook (hook userCtx : Address)
  | callback (phase : Phase) (id : Fin schMaxTasks) (fn ctx : Address)
  | returned (phase : Phase) (id : Fin schMaxTasks)
  | completed (id : Fin schMaxTasks) (execStart execEnd : BitVec 32)
  | trace (event : SchTraceEvent) (taskId : Int) (timestamp : BitVec 32)
  | idle
  deriving DecidableEq, Repr

/-- What a task callback does: it changes the environment as it likes and calls any of the
scheduler's functions except `sch_init` and `sch_run`. -/
inductive Callback (σ : Type) where
  | ret (env : σ)
  | addTask (env : σ) (request : TaskRequest) (next : Int → σ → Callback σ)
  | enableTask (env : σ) (taskId : BitVec 32) (enable : Bool) (next : σ → Callback σ)
  | resetStats (env : σ) (next : σ → Callback σ)
  | getTaskStats (env : σ) (taskId : BitVec 32) (next : Option SchTaskStats → σ → Callback σ)
  | setTraceHook (env : σ) (hook userCtx : Address) (next : σ → Callback σ)

/-- `time` reads the clock, `task` is the function behind a task pointer with its context,
and `traceHook` the function behind a hook pointer. -/
structure Port (σ : Type) where
  time : σ → Nat × σ
  task : Address → Address → σ → Callback σ
  traceHook : Address → SchTraceEvent → Int → BitVec 32 → Address → σ → σ
  idle : σ → σ

abbrev SchWorld (σ : Type) := World Sch SchEvent σ

def timeReached (now target : BitVec 32) : Bool := decide (0 ≤ (now - target).toInt)

def advanceNextRelease (now nextRelease period : BitVec 32) : BitVec 32 :=
  if period = 0 then nextRelease
  else
    let lateness := now - nextRelease
    if lateness.toInt < 0 then nextRelease
    else
      let releasesToSkip := lateness / period + 1
      nextRelease + releasesToSkip * period

def statsClearSlot : SchTaskStats := ⟨0, 0, 0, 0, 0, 0, 0, 0⟩

def emptySlot : SchTask := ⟨0, 0, 0, 0, schLowestPriority, false, false, false⟩

def Sch.init : Sch where
  tasks := fun _ => emptySlot
  taskCount := 0
  nextBackgroundIdx := 0
  stats := fun _ => statsClearSlot
  traceHook := 0
  traceUserCtx := 0

def Sch.setTask (s : Sch) (id : Fin schMaxTasks) (task : SchTask) : Sch :=
  { s with tasks := Function.update s.tasks id task }

def Sch.setStats (s : Sch) (id : Fin schMaxTasks) (stats : SchTaskStats) : Sch :=
  { s with stats := Function.update s.stats id stats }

@[simp] theorem Sch.setTask_self (s : Sch) (id : Fin schMaxTasks) (task : SchTask) :
    (s.setTask id task).tasks id = task := by
  simp [setTask]

@[simp] theorem Sch.setTask_of_ne (s : Sch) {id i : Fin schMaxTasks} (task : SchTask)
    (ne : i ≠ id) : (s.setTask id task).tasks i = s.tasks i := by
  simp [setTask, ne]

@[simp] theorem Sch.setTask_stats (s : Sch) (id : Fin schMaxTasks) (task : SchTask) :
    (s.setTask id task).stats = s.stats := rfl

@[simp] theorem Sch.setStats_self (s : Sch) (id : Fin schMaxTasks) (stats : SchTaskStats) :
    (s.setStats id stats).stats id = stats := by
  simp [setStats]

@[simp] theorem Sch.setStats_of_ne (s : Sch) {id i : Fin schMaxTasks} (stats : SchTaskStats)
    (ne : i ≠ id) : (s.setStats id stats).stats i = s.stats i := by
  simp [setStats, ne]

@[simp] theorem Sch.setStats_tasks (s : Sch) (id : Fin schMaxTasks) (stats : SchTaskStats) :
    (s.setStats id stats).tasks = s.tasks := rfl

variable {σ : Type} (cfg : Config) (port : Port σ)

def nowTicks (w : SchWorld σ) : BitVec 32 × SchWorld σ :=
  let r := port.time w.env
  (BitVec.ofNat 32 r.1, (w.setEnv r.2).emit (.nowTicks r.1))

def traceEmit (event : SchTraceEvent) (taskId : Int) (timestamp : BitVec 32) (w : SchWorld σ) :
    SchWorld σ :=
  if w.state.traceHook = 0 then w
  else
    (w.setEnv (port.traceHook w.state.traceHook event taskId timestamp w.state.traceUserCtx
      w.env)).emit (.trace event taskId timestamp)

def traceNow (event : SchTraceEvent) (taskId : Int) (w : SchWorld σ) : SchWorld σ :=
  if cfg.enableTrace then
    let r := nowTicks port w
    traceEmit port event taskId r.1 r.2
  else w

def Sch.register (cfg : Config) (s : Sch) (id : Fin schMaxTasks) (task : SchTask) : Sch :=
  let s := s.setTask id task
  let s := if cfg.enableStats then s.setStats id statsClearSlot else s
  { s with taskCount := s.taskCount + 1 }

def addTask (request : TaskRequest) (w : SchWorld σ) : Int × SchWorld σ :=
  if request.fn = 0 then (schErrInvalidArg, w.emit (.refused request schErrInvalidArg))
  else if BitVec.ofNat 32 schMaxTasks ≤ w.state.taskCount then
    (schErrNoSpace, w.emit (.refused request schErrNoSpace))
  else
    let time := (port.time w.env).1
    let r := nowTicks port w
    match (List.finRange schMaxTasks).find? fun i => !(r.2.state.tasks i).inUse with
    | none => (schErrNoSpace, r.2.emit (.refused request schErrNoSpace))
    | some i =>
      let task : SchTask :=
        { fn := request.fn
          ctx := request.ctx
          periodTicks := request.periodTicks
          nextRelease := r.1 + request.startDelayTicks
          priority := request.priority
          enabled := true
          pending := false
          inUse := true }
      let w := r.2.modify fun s => Sch.register cfg s i task
      ((i : Int), w.emit (.added i request time))

/-- `sch_enable_task`, which does nothing by design. -/
def enableTask (_taskId : BitVec 32) (_enable : Bool) (w : SchWorld σ) : SchWorld σ := w

def resetStats (w : SchWorld σ) : SchWorld σ :=
  (w.modify fun s => { s with stats := fun _ => statsClearSlot }).emit .resetStats

def getTaskStats (s : Sch) (taskId : BitVec 32) : Option SchTaskStats :=
  if h : taskId.toNat < schMaxTasks then
    if (s.tasks ⟨taskId.toNat, h⟩).inUse then some (s.stats ⟨taskId.toNat, h⟩) else none
  else none

def setTraceHook (hook userCtx : Address) (w : SchWorld σ) : SchWorld σ :=
  (w.modify fun s => { s with traceHook := hook, traceUserCtx := userCtx }).emit
    (.setTraceHook hook userCtx)

def Callback.exec : Callback σ → SchWorld σ → SchWorld σ
  | .ret env, w => w.setEnv env
  | .addTask env request next, w =>
    let r := Scheduler.addTask cfg port request (w.setEnv env)
    (next r.1 r.2.env).exec r.2
  | .enableTask env taskId enable next, w =>
    let w := Scheduler.enableTask taskId enable (w.setEnv env)
    (next w.env).exec w
  | .resetStats env next, w =>
    let w := Scheduler.resetStats (w.setEnv env)
    (next w.env).exec w
  | .getTaskStats env taskId next, w =>
    (next (Scheduler.getTaskStats w.state taskId) env).exec (w.setEnv env)
  | .setTraceHook env hook userCtx next, w =>
    let w := Scheduler.setTraceHook hook userCtx (w.setEnv env)
    (next w.env).exec w

/-- What a release that finds its task still pending leaves in stats and trace. -/
def noteMiss (now : BitVec 32) (i : Fin schMaxTasks) (w : SchWorld σ) : SchWorld σ :=
  let pending := (w.state.tasks i).pending
  let w := if cfg.enableStats && pending then
    w.modify fun s => s.setStats i { s.stats i with missCount := (s.stats i).missCount + 1 }
    else w
  if cfg.enableTrace && pending then traceEmit port .taskMiss i now w else w

/-- One iteration of the loop in `sch_mark_periodic_ready`. -/
def markSlot (now : BitVec 32) (w : SchWorld σ) (i : Fin schMaxTasks) : SchWorld σ :=
  let task := w.state.tasks i
  if !task.inUse || !task.enabled || decide (task.periodTicks = 0) then w
  else if timeReached now task.nextRelease then
    (noteMiss cfg port now i w).modify fun s => s.setTask i { s.tasks i with pending := true }
  else w

def markPeriodicReady (now : BitVec 32) (w : SchWorld σ) : SchWorld σ :=
  (List.finRange schMaxTasks).foldl (markSlot cfg port now) w

/-- One iteration of the loop in `sch_select_pending_task`. -/
def selectSlot (s : Sch) (best : Option (Fin schMaxTasks) × BitVec 16) (i : Fin schMaxTasks) :
    Option (Fin schMaxTasks) × BitVec 16 :=
  let task := s.tasks i
  if !task.inUse || !task.enabled || !task.pending || decide (task.periodTicks = 0) then best
  else match best.1 with
    | none => (some i, task.priority)
    | some selected =>
      if task.priority < best.2 ∨ task.priority = best.2 ∧ i < selected then
        (some i, task.priority)
      else best

def selectPendingTask (s : Sch) : Option (Fin schMaxTasks) :=
  ((List.finRange schMaxTasks).foldl (selectSlot s) (none, schLowestPriority)).1

def backgroundSlot (s : Sch) (offset : Nat) : Fin schMaxTasks :=
  Fin.ofNat schMaxTasks ((s.nextBackgroundIdx + BitVec.ofNat 32 offset) %
    BitVec.ofNat 32 schMaxTasks).toNat

def selectBackgroundTask (s : Sch) : Option (Fin schMaxTasks) × Sch :=
  let found := (List.range schMaxTasks).find? fun offset =>
    let task := s.tasks (backgroundSlot s offset)
    task.inUse && task.enabled && decide (task.periodTicks = 0)
  match found with
  | none => (none, s)
  | some offset =>
    let idx := backgroundSlot s offset
    (some idx, { s with
      nextBackgroundIdx := (BitVec.ofNat 32 idx + 1) % BitVec.ofNat 32 schMaxTasks })

def statsBegin (id : Fin schMaxTasks) (w : SchWorld σ) : BitVec 32 × SchWorld σ :=
  if cfg.enableStats then
    let r := nowTicks port w
    (r.1, r.2.modify fun s => s.setStats id { s.stats id with lastStartTick := r.1 })
  else (0, w)

/-- The accounting after a callback, from the start tick that the slot holds by then. -/
def SchTaskStats.account (stats : SchTaskStats) (execEnd : BitVec 32) : SchTaskStats :=
  let execTicks := execEnd - stats.lastStartTick
  { stats with
    runCount := stats.runCount + 1
    lastEndTick := execEnd
    lastExecTicks := execTicks
    totalExecTicks := stats.totalExecTicks + execTicks
    maxExecTicks := if stats.maxExecTicks < execTicks then execTicks else stats.maxExecTicks }

/-- The stats code after a callback; `execStart` is for the log only. -/
def statsEnd (id : Fin schMaxTasks) (execStart : BitVec 32) (w : SchWorld σ) : SchWorld σ :=
  if cfg.enableStats then
    let r := nowTicks port w
    (r.2.modify fun s => s.setStats id ((s.stats id).account r.1)).emit
      (.completed id execStart r.1)
  else w

def callTask (phase : Phase) (id : Fin schMaxTasks) (fn ctx : Address) (w : SchWorld σ) :
    SchWorld σ :=
  let w := w.emit (.callback phase id fn ctx)
  ((port.task fn ctx w.env).exec cfg port w).emit (.returned phase id)

def checkOverrun (id : Fin schMaxTasks) (period : BitVec 32) (w : SchWorld σ) : SchWorld σ :=
  let r := nowTicks port w
  if period ≠ 0 ∧ timeReached r.1 (r.2.state.tasks id).nextRelease then
    let w := if cfg.enableStats then
      r.2.modify fun s =>
        s.setStats id { s.stats id with overrunCount := (s.stats id).overrunCount + 1 }
      else r.2
    if cfg.enableTrace then traceEmit port .taskOverrun id r.1 w else w
  else r.2

def Sch.release (s : Sch) (now : BitVec 32) (id : Fin schMaxTasks) : Sch :=
  s.setTask id { s.tasks id with
    pending := false
    nextRelease := advanceNextRelease now (s.tasks id).nextRelease (s.tasks id).periodTicks }

/-- One iteration of the periodic loop of `sch_run`, for the selected task. -/
def executePeriodic (now : BitVec 32) (selected : Fin schMaxTasks) (w : SchWorld σ) :
    SchWorld σ :=
  let task := w.state.tasks selected
  let w := w.modify fun s => s.release now selected
  let started := statsBegin cfg port selected w
  let w := traceNow cfg port .taskStart selected started.2
  let w := callTask cfg port .periodic selected task.fn task.ctx w
  let w := statsEnd cfg port selected started.1 w
  let w := traceNow cfg port .taskEnd selected w
  checkOverrun cfg port selected task.periodTicks w

def runPeriodic (now : BitVec 32) : Nat → SchWorld σ → SchWorld σ
  | 0, w => w
  | n + 1, w =>
    match selectPendingTask w.state with
    | none => w
    | some selected => runPeriodic now n (executePeriodic cfg port now selected w)

def runIdle (w : SchWorld σ) : SchWorld σ :=
  let w := traceNow cfg port .idle schInvalidTaskId w
  (w.setEnv (port.idle w.env)).emit .idle

/-- One background callback; tracing and stats start in the other order than above. -/
def executeBackground (id : Fin schMaxTasks) (fn ctx : Address) (w : SchWorld σ) : SchWorld σ :=
  let w := traceNow cfg port .taskStart id w
  let started := statsBegin cfg port id w
  let w := callTask cfg port .background id fn ctx started.2
  let w := statsEnd cfg port id started.1 w
  traceNow cfg port .taskEnd id w

def runBackground (w : SchWorld σ) : SchWorld σ :=
  let selected := selectBackgroundTask w.state
  let w := w.setState selected.2
  match selected.1 with
  | none => runIdle cfg port w
  | some id =>
    let task := w.state.tasks id
    if task.fn = 0 then runIdle cfg port w
    else executeBackground cfg port id task.fn task.ctx w

def run (w : SchWorld σ) : SchWorld σ :=
  let r := nowTicks port w
  let w := markPeriodicReady cfg port r.1 r.2
  runBackground cfg port (runPeriodic cfg port r.1 schMaxTasks w)

/-- The calls of a history. `elapse` is whatever the rest of the system does in between. -/
inductive Call (σ : Type) where
  | elapse (env : σ)
  | addTask (request : TaskRequest)
  | enableTask (taskId : BitVec 32) (enable : Bool)
  | resetStats
  | setTraceHook (hook userCtx : Address)
  | run

def step (w : SchWorld σ) : Call σ → SchWorld σ
  | .elapse env => w.setEnv env
  | .addTask request => (addTask cfg port request w).2
  | .enableTask taskId enable => enableTask taskId enable w
  | .resetStats => resetStats w
  | .setTraceHook hook userCtx => setTraceHook hook userCtx w
  | .run => run cfg port w

end SchedulerLib.Scheduler
