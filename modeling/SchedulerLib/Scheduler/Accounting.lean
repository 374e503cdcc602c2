import Mathlib.Tactic.Ring
import SchedulerLib.Scheduler.ReadySet

/-!
What the statistics of a task hold, as a function of the events so far. An execution is
charged from the start tick that its slot holds when the callback returns. With tracing, the
periodic part has read another tick since; and a `sch_reset_stats` made by the callback has
cleared the slot, so that the whole end tick is charged.
-/

namespace SchedulerLib.Scheduler

open Lib

/-- The ticks read, the latest first; and of the callback that began last its phase, the ticks
read before it, whether the statistics were reset since, and the tick read right after it. -/
structure Stopwatch where
  ticks : List (BitVec 32)
  phase : Phase
  begun : List (BitVec 32)
  reset : Bool
  returned : Bool
  ended : BitVec 32

namespace Stopwatch

def zero : Stopwatch := ⟨[], .background, [], false, false, 0⟩

def read (watch : Stopwatch) (tick : BitVec 32) : Stopwatch :=
  { watch with
    ticks := tick :: watch.ticks
    returned := false
    ended := if watch.returned then tick else watch.ended }

def step (watch : Stopwatch) : SchEvent → Stopwatch
  | .nowTicks time => watch.read (BitVec.ofNat 32 time)
  | .callback phase _ _ _ =>
    { watch with phase := phase, begun := watch.ticks, reset := false, returned := false }
  | .resetStats => { watch with reset := true }
  | .returned _ _ => { watch with returned := true }
  | _ => watch

def start (watch : Stopwatch) : BitVec 32 := watch.begun.headD 0

/-- The tick read right after the callback minus the tick read right before it. -/
def elapsed (watch : Stopwatch) : BitVec 32 := watch.ended - watch.start

/-- The tick read for the statistics; in the periodic part the trace reads the clock after it. -/
def stored (trace : Bool) (watch : Stopwatch) : BitVec 32 :=
  if trace = true ∧ watch.phase = .periodic then watch.begun.tail.headD 0 else watch.start

def left (trace : Bool) (watch : Stopwatch) : BitVec 32 :=
  if watch.reset then 0 else watch.stored trace

def charge (trace : Bool) (watch : Stopwatch) : BitVec 32 := watch.ended - watch.left trace

end Stopwatch

def stopwatch (events : List SchEvent) : Stopwatch := events.foldl Stopwatch.step Stopwatch.zero

theorem stopwatch_concat (events : List SchEvent) (e : SchEvent) :
    stopwatch (events ++ [e]) = (stopwatch events).step e := by
  rw [stopwatch, List.foldl_append]
  rfl

section Tally

variable (measure : Stopwatch → BitVec 32) (id : Fin schMaxTasks)

def tallyStep (watch : Stopwatch) (taken : List (BitVec 32)) : SchEvent → List (BitVec 32)
  | .resetStats => []
  | .completed i _ _ => if i = id then taken ++ [measure watch] else taken
  | _ => taken

/-- What `measure` gives for the executions completed since the last `sch_reset_stats`. -/
def tally (events : List SchEvent) : List (BitVec 32) :=
  (events.foldl (fun acc e => (acc.1.step e, tallyStep measure id acc.1 acc.2 e))
    (Stopwatch.zero, [])).2

theorem tally_concat (events : List SchEvent) (e : SchEvent) :
    tally measure id (events ++ [e]) =
      tallyStep measure id (stopwatch events) (tally measure id events) e := by
  have watch : ∀ acc : Stopwatch × List (BitVec 32),
      (events.foldl (fun acc e => (acc.1.step e, tallyStep measure id acc.1 acc.2 e)) acc).1 =
        events.foldl Stopwatch.step acc.1 := by
    induction events with
    | nil => exact fun acc => rfl
    | cons x rest ih => exact fun acc => ih _
  rw [tally, List.foldl_append, List.foldl_cons, List.foldl_nil]
  dsimp only
  rw [watch (Stopwatch.zero, [])]
  rfl

end Tally

def charged (trace : Bool) (id : Fin schMaxTasks) (events : List SchEvent) : List (BitVec 32) :=
  tally (Stopwatch.charge trace) id events

theorem charged_concat (trace : Bool) (id : Fin schMaxTasks) (events : List SchEvent)
    (e : SchEvent) : charged trace id (events ++ [e]) =
      tallyStep (Stopwatch.charge trace) id (stopwatch events) (charged trace id events) e :=
  tally_concat (Stopwatch.charge trace) id events e

structure Accounted (charges : List (BitVec 32)) (stats : SchTaskStats) : Prop where
  runCount : stats.runCount = BitVec.ofNat 32 charges.length
  total : stats.totalExecTicks = BitVec.ofNat 32 (charges.map BitVec.toNat).sum
  longest : stats.maxExecTicks.toNat = (charges.map BitVec.toNat).foldl max 0
  last : stats.lastExecTicks = charges.getLastD 0

theorem accounted_clear : Accounted [] statsClearSlot := ⟨rfl, rfl, rfl, rfl⟩

theorem Accounted.account {charges : List (BitVec 32)} {stats : SchTaskStats}
    (h : Accounted charges stats) (execEnd : BitVec 32) :
    Accounted (charges ++ [execEnd - stats.lastStartTick]) (stats.account execEnd) where
  runCount := by
    rw [SchTaskStats.account, List.length_append, List.length_singleton, BitVec.ofNat_add,
      ← h.runCount]
    rfl
  total := by
    rw [SchTaskStats.account, List.map_append, List.sum_append, List.map_singleton,
      List.sum_singleton, BitVec.ofNat_add, ← h.total, BitVec.ofNat_toNat, BitVec.setWidth_eq]
  longest := by
    rw [SchTaskStats.account, List.map_append, List.foldl_append, ← h.longest]
    simp only [List.map_singleton, List.foldl_cons, List.foldl_nil]
    split_ifs with longer
    · rw [BitVec.lt_def] at longer
      omega
    · rw [BitVec.lt_def] at longer
      omega
  last := by
    rw [SchTaskStats.account, List.getLastD_concat]

/-- Every slot's statistics come of its charges, and an unused slot has none. -/
structure Accounts (trace : Bool) (events : List SchEvent) (s : Sch) : Prop where
  stats : ∀ i, Accounted (charged trace i events) (s.stats i)
  unused : ∀ i, (s.tasks i).inUse = false → charged trace i events = []

structure Keeps (s s' : Sch) : Prop where
  inUse : ∀ i, (s'.tasks i).inUse = (s.tasks i).inUse
  stats : ∀ i charges, Accounted charges (s.stats i) → Accounted charges (s'.stats i)

theorem Accounts.keeps {trace : Bool} {events : List SchEvent} {s s' : Sch}
    (h : Accounts trace events s) (keeps : Keeps s s') : Accounts trace events s' where
  stats i := keeps.stats i _ (h.stats i)
  unused i free := h.unused i ((keeps.inUse i).symm.trans free)

theorem keeps_of_eq {s s' : Sch} (tasks : s'.tasks = s.tasks) (stats : s'.stats = s.stats) :
    Keeps s s' :=
  ⟨fun i => by rw [tasks], fun i charges h => by rwa [stats]⟩

theorem keeps_setStats (s : Sch) (id : Fin schMaxTasks) (stats : SchTaskStats)
    (same : ∀ charges, Accounted charges (s.stats id) → Accounted charges stats) :
    Keeps s (s.setStats id stats) where
  inUse i := rfl
  stats i charges h := by
    by_cases here : i = id
    · subst here
      rw [Sch.setStats_self]
      exact same charges h
    · rwa [Sch.setStats_of_ne s stats here]

theorem keeps_setTask (s : Sch) (id : Fin schMaxTasks) (task : SchTask)
    (inUse : task.inUse = (s.tasks id).inUse) : Keeps s (s.setTask id task) where
  inUse i := by
    by_cases here : i = id
    · subst here
      rw [Sch.setTask_self]
      exact inUse
    · rw [Sch.setTask_of_ne s task here]
  stats i charges h := h

variable {σ : Type}

def Accountable (trace : Bool) (w : SchWorld σ) : Prop := World.Throughout (Accounts trace) w

variable {trace : Bool}

theorem Accountable.modify {w : SchWorld σ} (h : Accountable trace w) (f : Sch → Sch)
    (keeps : Keeps w.state (f w.state)) : Accountable trace (w.modify f) :=
  World.Throughout.setState h _ (h.now.keeps keeps)

theorem Accountable.setEnv {w : SchWorld σ} (h : Accountable trace w) (env : σ) :
    Accountable trace (w.setEnv env) :=
  World.Throughout.setEnv h env

theorem Accountable.emit {w : SchWorld σ} (h : Accountable trace w) (e : SchEvent)
    (free : ∀ measure id watch taken, tallyStep measure id watch taken e = taken) :
    Accountable trace (w.emit e) := by
  refine World.Throughout.emit h e ⟨fun i => ?_, fun i unused => ?_⟩
  · rw [charged_concat, free]
    exact h.now.stats i
  · rw [charged_concat, free]
    exact h.now.unused i unused

/-- Slot `id` executes, with the start tick that the log says is left in it. -/
structure Executing (trace : Bool) (id : Fin schMaxTasks) (w : SchWorld σ) : Prop where
  accounts : Accountable trace w
  inUse : (w.state.tasks id).inUse = true
  start : (w.state.stats id).lastStartTick = (stopwatch w.events).left trace

theorem Executing.setEnv {id : Fin schMaxTasks} {w : SchWorld σ} (h : Executing trace id w)
    (env : σ) : Executing trace id (w.setEnv env) :=
  ⟨h.accounts.setEnv env, h.inUse, h.start⟩

theorem Executing.emit {id : Fin schMaxTasks} {w : SchWorld σ} (h : Executing trace id w)
    (e : SchEvent) (free : ∀ measure id watch taken, tallyStep measure id watch taken e = taken)
    (quiet : ∀ watch : Stopwatch, (watch.step e).left trace = watch.left trace) :
    Executing trace id (w.emit e) where
  accounts := h.accounts.emit e free
  inUse := h.inUse
  start := by
    rw [World.emit_events, stopwatch_concat, quiet]
    exact h.start

section Pieces

variable (port : Port σ) {w : SchWorld σ} {id : Fin schMaxTasks}

theorem nowTicks_accounts (h : Accountable trace w) : Accountable trace (nowTicks port w).2 :=
  (h.setEnv _).emit (.nowTicks _) fun _ _ _ _ => rfl

theorem traceEmit_accounts (h : Accountable trace w) (event : SchTraceEvent) (taskId : Int)
    (timestamp : BitVec 32) : Accountable trace (traceEmit port event taskId timestamp w) := by
  unfold traceEmit
  split_ifs
  · exact h
  · exact (h.setEnv _).emit (.trace event taskId timestamp) fun _ _ _ _ => rfl

theorem traceEmit_state (event : SchTraceEvent) (taskId : Int) (timestamp : BitVec 32) :
    (traceEmit port event taskId timestamp w).state = w.state := by
  unfold traceEmit
  split_ifs <;> rfl

theorem traceNow_accounts (cfg : Config) (h : Accountable trace w) (event : SchTraceEvent)
    (taskId : Int) : Accountable trace (traceNow cfg port event taskId w) := by
  unfold traceNow
  split_ifs
  · exact traceEmit_accounts port (nowTicks_accounts port h) ..
  · exact h

theorem traceNow_state (cfg : Config) (event : SchTraceEvent) (taskId : Int) :
    (traceNow cfg port event taskId w).state = w.state := by
  unfold traceNow
  split_ifs
  · exact traceEmit_state port ..
  · rfl

theorem setStats_accounts (h : Accountable trace w) (id : Fin schMaxTasks)
    (f : SchTaskStats → SchTaskStats)
    (same : ∀ charges stats, Accounted charges stats → Accounted charges (f stats)) :
    Accountable trace (w.modify fun s => s.setStats id (f (s.stats id))) :=
  h.modify _ (keeps_setStats w.state id _ fun charges => same charges _)

theorem noteMiss_accounts (cfg : Config) (h : Accountable trace w) (now : BitVec 32)
    (i : Fin schMaxTasks) : Accountable trace (noteMiss cfg port now i w) :=
  noteMiss_keeps cfg port (Accountable trace) now i w h
    (fun _ old => setStats_accounts old i
      (fun stats => { stats with missCount := stats.missCount + 1 })
      fun _ _ books => ⟨books.runCount, books.total, books.longest, books.last⟩)
    fun _ old => traceEmit_accounts port old ..

theorem markSlot_accounts (cfg : Config) (h : Accountable trace w) (now : BitVec 32)
    (i : Fin schMaxTasks) : Accountable trace (markSlot cfg port now w i) := by
  unfold markSlot
  dsimp only
  split_ifs
  · exact h
  · exact (noteMiss_accounts port cfg h now i).modify _ (keeps_setTask _ i _ rfl)
  · exact h

theorem markPeriodicReady_accounts (cfg : Config) (h : Accountable trace w) (now : BitVec 32) :
    Accountable trace (markPeriodicReady cfg port now w) :=
  markPeriodicReady_keeps cfg port (Accountable trace) now w h fun _ i old =>
    markSlot_accounts port cfg old now i

theorem checkOverrun_accounts (cfg : Config) (h : Accountable trace w) (id : Fin schMaxTasks)
    (period : BitVec 32) : Accountable trace (checkOverrun cfg port id period w) :=
  checkOverrun_keeps cfg port (Accountable trace) id period w (nowTicks_accounts port h)
    (fun _ old => setStats_accounts old id
      (fun stats => { stats with overrunCount := stats.overrunCount + 1 })
      fun _ _ books => ⟨books.runCount, books.total, books.longest, books.last⟩)
    fun _ _ old => traceEmit_accounts port old ..

theorem statsBegin_accounts (cfg : Config) (h : Accountable trace w) (id : Fin schMaxTasks) :
    Accountable trace (statsBegin cfg port id w).2 := by
  unfold statsBegin
  split_ifs
  · exact setStats_accounts (nowTicks_accounts port h) id
      (fun stats => { stats with lastStartTick := _ })
      fun _ _ old => ⟨old.runCount, old.total, old.longest, old.last⟩
  · exact h

theorem runIdle_accounts (cfg : Config) (h : Accountable trace w) :
    Accountable trace (runIdle cfg port w) :=
  ((traceNow_accounts port cfg h ..).setEnv _).emit .idle fun _ _ _ _ => rfl

theorem resetStats_accounts (h : Accountable trace w) : Accountable trace (resetStats w) := by
  refine World.Throughout.record h _ _ ⟨fun i => ?_, fun i _ => ?_⟩
  · rw [charged_concat]
    exact accounted_clear
  · rw [charged_concat]
    rfl

theorem setTraceHook_accounts (h : Accountable trace w) (hook userCtx : Address) :
    Accountable trace (setTraceHook hook userCtx w) :=
  (h.modify _ (keeps_of_eq rfl rfl)).emit (.setTraceHook hook userCtx) fun _ _ _ _ => rfl

theorem register_accounts (cfg : Config) (h : Accountable trace w) (r : Registration)
    (free : (w.state.tasks r.id).inUse = false) :
    Accountable trace ((w.modify fun s => s.register cfg r.id r.task).emit
      (.added r.id r.request r.time)) := by
  have none_charged := h.now.unused r.id free
  refine World.Throughout.record h _ _ ⟨fun i => ?_, fun i unused => ?_⟩
  · rw [charged_concat]
    change Accounted (charged trace i w.events) _
    by_cases here : i = r.id
    · rw [here, register_stats_self, none_charged]
      split_ifs
      · exact accounted_clear
      · exact none_charged ▸ h.now.stats r.id
    · rw [register_stats_of_ne cfg _ _ here]
      exact h.now.stats i
  · rw [charged_concat]
    change charged trace i w.events = []
    rw [register_tasks] at unused
    by_cases here : i = r.id
    · rw [here]
      exact none_charged
    · rw [Function.update_of_ne here] at unused
      exact h.now.unused i unused

theorem accountable_withstands (cfg : Config) : Withstands cfg (Accountable (σ := σ) trace) where
  setEnv _ env h := h.setEnv env
  read _ time h := h.emit (.nowTicks time) fun _ _ _ _ => rfl
  refuse _ request error _ h := h.emit (.refused request error) fun _ _ _ _ => rfl
  register _ r chosen h := register_accounts cfg h r chosen.free
  resetStats _ h := resetStats_accounts h
  setTraceHook _ hook userCtx h := setTraceHook_accounts h hook userCtx

section Callback

theorem Executing.nowTicks (h : Executing trace id w) :
    Executing trace id (nowTicks port w).2 :=
  (h.setEnv _).emit (.nowTicks _) (fun _ _ _ _ => rfl) fun _ => rfl

theorem Executing.register (cfg : Config) (h : Executing trace id w) (r : Registration)
    (chosen : Chosen w.state r) :
    Executing trace id ((w.modify fun s => s.register cfg r.id r.task).emit
      (.added r.id r.request r.time)) := by
  have other : id ≠ r.id := by
    rintro rfl
    have free := chosen.free
    rw [h.inUse] at free
    cases free
  refine ⟨register_accounts cfg h.accounts r chosen.free, ?_, ?_⟩
  · rw [World.emit_state, World.modify_state, register_tasks, Function.update_of_ne other]
    exact h.inUse
  · rw [World.emit_state, World.modify_state, register_stats_of_ne cfg _ _ other,
      World.emit_events, stopwatch_concat]
    exact h.start

theorem Executing.resetStats (h : Executing trace id w) :
    Executing trace id (resetStats w) := by
  refine ⟨resetStats_accounts h.accounts, h.inUse, ?_⟩
  rw [Scheduler.resetStats, World.emit_events, stopwatch_concat]
  rfl

theorem Executing.setTraceHook (h : Executing trace id w) (hook userCtx : Address) :
    Executing trace id (setTraceHook hook userCtx w) := by
  refine ⟨setTraceHook_accounts h.accounts hook userCtx, h.inUse, ?_⟩
  rw [Scheduler.setTraceHook, World.emit_events, stopwatch_concat]
  exact h.start

theorem executing_withstands (cfg : Config) : Withstands cfg (Executing (σ := σ) trace id) where
  setEnv _ env h := h.setEnv env
  read _ time h := h.emit (.nowTicks time) (fun _ _ _ _ => rfl) fun _ => rfl
  refuse _ request error _ h :=
    h.emit (.refused request error) (fun _ _ _ _ => rfl) fun _ => rfl
  register _ r chosen h := h.register cfg r chosen
  resetStats _ h := h.resetStats
  setTraceHook _ hook userCtx h := h.setTraceHook hook userCtx

theorem callTask_executing (cfg : Config) (h : Accountable trace w)
    (inUse : (w.state.tasks id).inUse = true) (phase : Phase) (fn ctx : Address)
    (start : (w.state.stats id).lastStartTick =
      ((stopwatch w.events).step (.callback phase id fn ctx)).left trace) :
    Executing trace id (callTask cfg port phase id fn ctx w) := by
  have called : Executing trace id (w.emit (.callback phase id fn ctx)) := by
    refine ⟨h.emit (.callback phase id fn ctx) fun _ _ _ _ => rfl, inUse, ?_⟩
    rw [World.emit_events, stopwatch_concat]
    exact start
  exact ((executing_withstands cfg).exec port _ called).emit (.returned phase id)
    (fun _ _ _ _ => rfl) fun _ => rfl

theorem callTask_returned (cfg : Config) (phase : Phase) (fn ctx : Address) :
    (stopwatch (callTask cfg port phase id fn ctx w).events).returned = true := by
  unfold callTask
  dsimp only
  rw [World.emit_events, stopwatch_concat]
  rfl

end Callback

section Execution

variable (trace)

theorem nowTicks_stopwatch : stopwatch (nowTicks port w).2.events =
    (stopwatch w.events).read (nowTicks port w).1 := by
  unfold nowTicks
  dsimp only
  rw [World.emit_events, stopwatch_concat]
  rfl

theorem traceEmit_stopwatch (event : SchTraceEvent) (taskId : Int) (timestamp : BitVec 32) :
    stopwatch (traceEmit port event taskId timestamp w).events = stopwatch w.events := by
  unfold traceEmit
  split_ifs
  · rfl
  · rw [World.emit_events, stopwatch_concat]
    rfl

theorem statsBegin_start : ((statsBegin ⟨true, trace⟩ port id w).2.state.stats id).lastStartTick =
    (statsBegin ⟨true, trace⟩ port id w).1 := by
  simp [statsBegin]

variable (id) in
theorem statsBegin_ticks : (stopwatch (statsBegin ⟨true, trace⟩ port id w).2.events).ticks =
    (statsBegin ⟨true, trace⟩ port id w).1 :: (stopwatch w.events).ticks := by
  have read := congrArg Stopwatch.ticks (nowTicks_stopwatch (w := w) port)
  unfold statsBegin
  exact read

/-- The periodic part reads the clock for the statistics first, and then for the trace. -/
theorem periodic_start (event : SchTraceEvent) (taskId : Int) (fn ctx : Address) :
    let v := traceNow ⟨true, trace⟩ port event taskId (statsBegin ⟨true, trace⟩ port id w).2
    (v.state.stats id).lastStartTick =
      ((stopwatch v.events).step (.callback .periodic id fn ctx)).left trace := by
  intro v
  have ticks := statsBegin_ticks trace port id (w := w)
  rw [traceNow_state, statsBegin_start]
  cases trace with
  | false =>
    change _ = (stopwatch (statsBegin ⟨true, false⟩ port id w).2.events).ticks.headD 0
    rw [ticks]
    rfl
  | true =>
    have traced : (stopwatch v.events).ticks.tail =
        (stopwatch (statsBegin ⟨true, true⟩ port id w).2.events).ticks := by
      change (stopwatch (traceEmit port event taskId _ (nowTicks port _).2).events).ticks.tail = _
      rw [traceEmit_stopwatch, nowTicks_stopwatch]
      rfl
    change _ = (stopwatch v.events).ticks.tail.headD 0
    rw [traced, ticks]
    rfl

/-- The background part reads it for the statistics last. -/
theorem background_start (fn ctx : Address) :
    let v := (statsBegin ⟨true, trace⟩ port id w).2
    (v.state.stats id).lastStartTick =
      ((stopwatch v.events).step (.callback .background id fn ctx)).left trace := by
  intro v
  have apart : ¬ (trace = true ∧ Phase.background = .periodic) := fun both => by cases both.2
  change _ = if trace = true ∧ Phase.background = .periodic then _
    else (stopwatch v.events).ticks.headD 0
  rw [if_neg apart, statsBegin_ticks, statsBegin_start]
  rfl

theorem statsEnd_accounts (execStart : BitVec 32) (h : Executing trace id w)
    (returned : (stopwatch w.events).returned = true) :
    Accountable trace (statsEnd ⟨true, trace⟩ port id execStart w) := by
  have read := h.nowTicks port
  have ended : (stopwatch (nowTicks port w).2.events).ended = (nowTicks port w).1 := by
    rw [nowTicks_stopwatch, Stopwatch.read, returned]
    rfl
  unfold statsEnd
  rw [if_pos rfl]
  refine World.Throughout.record read.accounts _ _ ⟨fun i => ?_, fun i unused => ?_⟩
  · rw [charged_concat]
    by_cases here : i = id
    · subst here
      have account := (read.accounts.now.stats i).account (nowTicks port w).1
      rw [read.start] at account
      simpa [tallyStep, Stopwatch.charge, ended] using account
    · rw [Sch.setStats_of_ne _ _ here]
      simpa [tallyStep, Ne.symm here] using read.accounts.now.stats i
  · have here : i ≠ id := by
      rintro rfl
      rw [Sch.setStats_tasks, read.inUse] at unused
      cases unused
    rw [charged_concat]
    simpa [tallyStep, Ne.symm here] using read.accounts.now.unused i unused

theorem executePeriodic_accounts (h : Accountable trace w) (now : BitVec 32)
    (inUse : (w.state.tasks id).inUse = true) :
    Accountable trace (executePeriodic ⟨true, trace⟩ port now id w) := by
  have released := h.modify (fun s => s.release now id) (keeps_setTask _ id _ rfl)
  have started := statsBegin_accounts port ⟨true, trace⟩ released id
  have table := (statsBegin_silent ⟨true, trace⟩ port id (w.modify fun s => s.release now id)).tasks
  have begun := traceNow_accounts port ⟨true, trace⟩ started .taskStart id
  have executing := callTask_executing port ⟨true, trace⟩ begun (by
      rw [traceNow_state, table, World.modify_state, release_inUse]
      exact inUse) .periodic (w.state.tasks id).fn (w.state.tasks id).ctx
    (periodic_start trace port .taskStart id _ _)
  have ended := statsEnd_accounts trace port
    (statsBegin ⟨true, trace⟩ port id (w.modify fun s => s.release now id)).1 executing
    (callTask_returned port ..)
  exact checkOverrun_accounts port _ (traceNow_accounts port _ ended ..) id _

theorem runPeriodic_accounts (h : Accountable trace w) (now : BitVec 32) (n : Nat) :
    Accountable trace (runPeriodic ⟨true, trace⟩ port now n w) :=
  runPeriodic_keeps ⟨true, trace⟩ port (Accountable trace) now n w h fun _ _ pending old =>
    executePeriodic_accounts trace port old now pending.inUse

theorem executeBackground_accounts (h : Accountable trace w) (inUse : (w.state.tasks id).inUse = true)
    (fn ctx : Address) : Accountable trace (executeBackground ⟨true, trace⟩ port id fn ctx w) := by
  have traced := traceNow_accounts port ⟨true, trace⟩ h .taskStart id
  have started := statsBegin_accounts port ⟨true, trace⟩ traced id
  have table := (statsBegin_silent ⟨true, trace⟩ port id
    (traceNow ⟨true, trace⟩ port .taskStart id w)).tasks
  have executing := callTask_executing port ⟨true, trace⟩ started (by
      rw [table, traceNow_state]
      exact inUse) .background fn ctx (background_start trace port fn ctx)
  exact traceNow_accounts port _
    (statsEnd_accounts trace port _ executing (callTask_returned port ..)) ..

theorem runBackground_accounts (h : Accountable trace w) :
    Accountable trace (runBackground ⟨true, trace⟩ port w) := by
  have selected : Accountable trace (w.setState (selectBackgroundTask w.state).2) :=
    h.modify (fun s => (selectBackgroundTask s).2)
      (keeps_of_eq (selectBackgroundTask_tasks w.state) (selectBackgroundTask_stats w.state))
  refine runBackground_keeps ⟨true, trace⟩ port (Accountable trace) (Accountable trace) w selected
    (fun v old => runIdle_accounts port _ old) fun v i background old => ?_
  exact executeBackground_accounts trace port old background.inUse _ _

theorem run_accounts (h : Accountable trace w) : Accountable trace (run ⟨true, trace⟩ port w) := by
  have marked := markPeriodicReady_accounts port ⟨true, trace⟩ (nowTicks_accounts port h)
    (nowTicks port w).1
  unfold run
  exact runBackground_accounts trace port
    (runPeriodic_accounts trace port marked (nowTicks port w).1 schMaxTasks)

theorem step_accounts (h : Accountable trace w) (c : Call σ) :
    Accountable trace (step ⟨true, trace⟩ port w c) := by
  cases c with
  | elapse env => exact h.setEnv env
  | addTask request => exact (accountable_withstands ⟨true, trace⟩).addTask port h request
  | enableTask taskId enable => exact h
  | resetStats => exact resetStats_accounts h
  | setTraceHook hook userCtx => exact setTraceHook_accounts h hook userCtx
  | run =>
    rw [step]
    exact run_accounts trace port h

theorem history_accounts (env : σ) (calls : List (Call σ)) :
    Accountable trace (history ⟨true, trace⟩ port env calls) :=
  History.invariant (step ⟨true, trace⟩ port) (Accountable trace)
    (fun _ c h => step_accounts trace port h c) _
    (World.throughout_start Sch.init env ⟨fun _ => accounted_clear, fun _ _ => rfl⟩) calls

end Execution

end Pieces

end SchedulerLib.Scheduler
