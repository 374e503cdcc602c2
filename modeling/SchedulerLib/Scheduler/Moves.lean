import Mathlib.Logic.Relation
import SchedulerLib.Scheduler.ReadySet

/-!
The scheduler as a machine of small moves, so that an invariant of all that ever happens is
checked move by move. A history is a path of moves. The miss branch of the marking is not
among them: marking begins with no task pending and comes by each slot once.
-/

namespace SchedulerLib.Scheduler

open Lib Relation

def lastState (log : List (SchEvent × Sch)) : Sch := (log.getLast?.map Prod.snd).getD Sch.init

variable {σ : Type}

/-- Nothing has changed since the last entry. -/
def Logged (w : SchWorld σ) : Prop := w.state = lastState w.log

theorem logged_emit (w : SchWorld σ) (e : SchEvent) : Logged (w.emit e) := by
  simp [Logged, lastState]

theorem Logged.setEnv {w : SchWorld σ} (h : Logged w) (env : σ) : Logged (w.setEnv env) := h

def SchEvent.plain : SchEvent → Bool
  | .nowTicks _ => true
  | .returned _ _ => true
  | .trace _ _ _ => true
  | .idle => true
  | _ => false

def SchEvent.completedId : SchEvent → Option (Fin schMaxTasks)
  | .completed i _ _ => some i
  | _ => none

def completedIds (log : List (SchEvent × Sch)) : List (Fin schMaxTasks) :=
  log.filterMap fun x => x.1.completedId

@[simp] theorem completedIds_append (l m : List (SchEvent × Sch)) :
    completedIds (l ++ m) = completedIds l ++ completedIds m := by
  simp [completedIds]

inductive Move (cfg : Config) : SchWorld σ → SchWorld σ → Prop
  | setEnv (w : SchWorld σ) (env : σ) : Move cfg w (w.setEnv env)
  | note (w : SchWorld σ) (e : SchEvent) (plain : e.plain = true) : Move cfg w (w.emit e)
  | refuse (w : SchWorld σ) (request : TaskRequest) (error : Int) (logged : Logged w)
    (refuses : Refuses w.state request) : Move cfg w (w.emit (.refused request error))
  | register (w : SchWorld σ) (r : Registration) (logged : Logged w)
    (chosen : Chosen w.state r) :
    Move cfg w ((w.modify fun s => s.register cfg r.id r.task).emit (.added r.id r.request r.time))
  | resetStats (w : SchWorld σ) : Move cfg w (Scheduler.resetStats w)
  | setTraceHook (w : SchWorld σ) (hook userCtx : Address) :
    Move cfg w (Scheduler.setTraceHook hook userCtx w)
  | mark (w : SchWorld σ) (now : BitVec 32) (i : Fin schMaxTasks)
    (ready : ReadyAt now (w.state.tasks i)) (quiet : (w.state.tasks i).pending = false) :
    Move cfg w (w.modify fun s => s.setTask i { s.tasks i with pending := true })
  | release (w : SchWorld σ) (now : BitVec 32) (i : Fin schMaxTasks)
    (pending : Pending w.state i) : Move cfg w (w.modify fun s => s.release now i)
  | tally (w : SchWorld σ) (i : Fin schMaxTasks) (stats : SchTaskStats)
    (runCount : stats.runCount = (w.state.stats i).runCount)
    (missCount : stats.missCount = (w.state.stats i).missCount) :
    Move cfg w (w.modify fun s => s.setStats i stats)
  | call (w : SchWorld σ) (phase : Phase) (i : Fin schMaxTasks) (fn ctx : Address)
    (used : (w.state.tasks i).inUse = true) (own : (w.state.tasks i).fn = fn) :
    Move cfg w (w.emit (.callback phase i fn ctx))
  | complete (w : SchWorld σ) (i : Fin schMaxTasks) (execStart execEnd : BitVec 32) :
    Move cfg w ((w.modify fun s => s.setStats i ((s.stats i).account execEnd)).emit
      (.completed i execStart execEnd))
  | select (w : SchWorld σ) : Move cfg w (w.setState (selectBackgroundTask w.state).2)

abbrev Path (cfg : Config) : SchWorld σ → SchWorld σ → Prop := ReflTransGen (Move cfg)

theorem Path.invariant {cfg : Config} {Inv : SchWorld σ → Prop}
    (keep : ∀ w w', Move cfg w w' → Inv w → Inv w') {w w' : SchWorld σ} (path : Path cfg w w')
    (start : Inv w) : Inv w' := by
  induction path with
  | refl => exact start
  | tail _ move ih => exact keep _ _ move ih

/-- The executions of `ids` are accounted on the way. -/
def Completes (ids : List (Fin schMaxTasks)) (w w' : SchWorld σ) : Prop :=
  ∃ l, w'.log = w.log ++ l ∧ completedIds l = ids

theorem completes_of_log {w w' : SchWorld σ} (log : w'.log = w.log) : Completes [] w w' :=
  ⟨[], by rw [log, List.append_nil], rfl⟩

theorem completes_emit (w : SchWorld σ) (e : SchEvent) :
    Completes e.completedId.toList w (w.emit e) := by
  refine ⟨[(e, w.state)], rfl, ?_⟩
  cases h : e.completedId <;> simp [completedIds, h]

theorem Completes.trans {ids ids' : List (Fin schMaxTasks)} {w₁ w₂ w₃ : SchWorld σ}
    (h : Completes ids w₁ w₂) (k : Completes ids' w₂ w₃) : Completes (ids ++ ids') w₁ w₃ := by
  obtain ⟨l, log, done⟩ := h
  obtain ⟨m, log', done'⟩ := k
  exact ⟨l ++ m, World.log_trans log log', by rw [completedIds_append, done, done']⟩

/-- A path on which the executions of `ids` are accounted. -/
structure Trail (cfg : Config) (ids : List (Fin schMaxTasks)) (w w' : SchWorld σ) : Prop where
  path : Path cfg w w'
  completes : Completes ids w w'

namespace Trail

variable {cfg : Config} {ids ids' : List (Fin schMaxTasks)} {w w' w₁ w₂ w₃ : SchWorld σ}

theorem refl (w : SchWorld σ) : Trail cfg [] w w := ⟨ReflTransGen.refl, completes_of_log rfl⟩

theorem trans (h : Trail cfg ids w₁ w₂) (k : Trail cfg ids' w₂ w₃) :
    Trail cfg (ids ++ ids') w₁ w₃ :=
  ⟨h.path.trans k.path, h.completes.trans k.completes⟩

theorem unseen (move : Move cfg w w') (log : w'.log = w.log) : Trail cfg [] w w' :=
  ⟨ReflTransGen.single move, completes_of_log log⟩

theorem entry {v : SchWorld σ} (e : SchEvent) (move : Move cfg w (v.emit e))
    (log : v.log = w.log) : Trail cfg e.completedId.toList w (v.emit e) :=
  ⟨ReflTransGen.single move, (completes_of_log log).trans (completes_emit v e)⟩

end Trail

theorem Trail.then {cfg : Config} {ids : List (Fin schMaxTasks)} {w₁ w₂ w₃ : SchWorld σ}
    (h : Trail cfg ids w₁ w₂) (k : Trail cfg [] w₂ w₃) : Trail cfg ids w₁ w₃ := by
  have both := h.trans k
  rwa [List.append_nil] at both

variable (cfg : Config) (port : Port σ)

section Pieces

theorem setEnv_trail (w : SchWorld σ) (env : σ) : Trail cfg [] w (w.setEnv env) :=
  Trail.unseen (.setEnv w env) rfl

theorem nowTicks_trail (w : SchWorld σ) : Trail cfg [] w (nowTicks port w).2 :=
  (setEnv_trail cfg w _).trans (Trail.entry (.nowTicks _) (.note _ (.nowTicks _) rfl) rfl)

theorem traceEmit_trail (event : SchTraceEvent) (taskId : Int) (timestamp : BitVec 32)
    (w : SchWorld σ) : Trail cfg [] w (traceEmit port event taskId timestamp w) := by
  unfold traceEmit
  split_ifs
  · exact Trail.refl w
  · exact (setEnv_trail cfg w _).trans
      (Trail.entry _ (.note _ (.trace event taskId timestamp) rfl) rfl)

theorem traceNow_trail (event : SchTraceEvent) (taskId : Int) (w : SchWorld σ) :
    Trail cfg [] w (traceNow cfg port event taskId w) := by
  unfold traceNow
  split_ifs
  · exact (nowTicks_trail cfg port w).trans (traceEmit_trail cfg port ..)
  · exact Trail.refl w

theorem nowTicks_logged (w : SchWorld σ) : Logged (nowTicks port w).2 := logged_emit _ _

theorem traceEmit_logged {w : SchWorld σ} (h : Logged w) (event : SchTraceEvent) (taskId : Int)
    (timestamp : BitVec 32) : Logged (traceEmit port event taskId timestamp w) := by
  unfold traceEmit
  split_ifs
  · exact h
  · exact logged_emit _ _

theorem traceNow_logged {w : SchWorld σ} (h : Logged w) (event : SchTraceEvent) (taskId : Int) :
    Logged (traceNow cfg port event taskId w) := by
  unfold traceNow
  split_ifs
  · exact traceEmit_logged port (nowTicks_logged port w) ..
  · exact h

theorem resetStats_trail (w : SchWorld σ) : Trail cfg [] w (resetStats w) :=
  Trail.entry .resetStats (.resetStats w) rfl

theorem setTraceHook_trail (hook userCtx : Address) (w : SchWorld σ) :
    Trail cfg [] w (setTraceHook hook userCtx w) :=
  Trail.entry (.setTraceHook hook userCtx) (.setTraceHook w hook userCtx) rfl

theorem trail_withstands (w : SchWorld σ) :
    Withstands cfg fun v => Trail cfg [] w v ∧ Logged v where
  setEnv v env h := ⟨h.1.trans (setEnv_trail cfg v env), h.2.setEnv env⟩
  read v time h := ⟨h.1.trans (Trail.entry (.nowTicks time) (.note v _ rfl) rfl), logged_emit _ _⟩
  refuse v request error refuses h :=
    ⟨h.1.trans (Trail.entry _ (.refuse v request error h.2 refuses) rfl), logged_emit _ _⟩
  register v r chosen h :=
    ⟨h.1.trans (Trail.entry _ (.register v r h.2 chosen) rfl), logged_emit _ _⟩
  resetStats v h := ⟨h.1.trans (resetStats_trail cfg v), logged_emit _ _⟩
  setTraceHook v hook userCtx h :=
    ⟨h.1.trans (setTraceHook_trail cfg hook userCtx v), logged_emit _ _⟩

theorem addTask_trail {w : SchWorld σ} (h : Logged w) (request : TaskRequest) :
    Trail cfg [] w (addTask cfg port request w).2 ∧ Logged (addTask cfg port request w).2 :=
  (trail_withstands cfg w).addTask port ⟨Trail.refl w, h⟩ request

theorem exec_trail (callback : Callback σ) {w : SchWorld σ} (h : Logged w) :
    Trail cfg [] w (callback.exec cfg port w) ∧ Logged (callback.exec cfg port w) :=
  (trail_withstands cfg w).exec port callback ⟨Trail.refl w, h⟩

theorem callTask_trail (phase : Phase) (i : Fin schMaxTasks) (fn ctx : Address) (w : SchWorld σ)
    (used : (w.state.tasks i).inUse = true) (own : (w.state.tasks i).fn = fn) :
    Trail cfg [] w (callTask cfg port phase i fn ctx w) := by
  have called : Trail cfg [] w (w.emit (.callback phase i fn ctx)) :=
    Trail.entry _ (.call w phase i fn ctx used own) rfl
  obtain ⟨executed, -⟩ := exec_trail cfg port (port.task fn ctx w.env)
    (logged_emit w (.callback phase i fn ctx))
  exact (called.trans executed).trans (Trail.entry _ (.note _ (.returned phase i) rfl) rfl)

theorem statsBegin_trail (i : Fin schMaxTasks) (w : SchWorld σ) :
    Trail cfg [] w (statsBegin cfg port i w).2 := by
  unfold statsBegin
  split_ifs
  · exact (nowTicks_trail cfg port w).trans (Trail.unseen (.tally _ i _ rfl rfl) rfl)
  · exact Trail.refl w

theorem statsEnd_trail (i : Fin schMaxTasks) (execStart : BitVec 32) (w : SchWorld σ) :
    Trail cfg (if cfg.enableStats then [i] else []) w (statsEnd cfg port i execStart w) := by
  unfold statsEnd
  split_ifs
  · exact (nowTicks_trail cfg port w).trans
      (Trail.entry (.completed i execStart _) (.complete _ i execStart _) rfl)
  · exact Trail.refl w

theorem statsEnd_logged {w : SchWorld σ} (h : Logged w) (i : Fin schMaxTasks)
    (execStart : BitVec 32) : Logged (statsEnd cfg port i execStart w) := by
  unfold statsEnd
  split_ifs
  · exact logged_emit _ _
  · exact h

theorem checkOverrun_trail (i : Fin schMaxTasks) (period : BitVec 32) (w : SchWorld σ) :
    Trail cfg [] w (checkOverrun cfg port i period w) :=
  checkOverrun_keeps cfg port (Trail cfg [] w) i period w (nowTicks_trail cfg port w)
    (fun v before => before.then (Trail.unseen (.tally v i _ rfl rfl) rfl))
    fun _ _ before => before.then (traceEmit_trail cfg port ..)

end Pieces

section Mark

theorem noteMiss_of_quiet (now : BitVec 32) (i : Fin schMaxTasks) (w : SchWorld σ)
    (quiet : (w.state.tasks i).pending = false) : noteMiss cfg port now i w = w := by
  simp [noteMiss, quiet]

theorem markSlot_trail (now : BitVec 32) (w : SchWorld σ) (i : Fin schMaxTasks)
    (quiet : (w.state.tasks i).pending = false) :
    Trail cfg [] w (markSlot cfg port now w i) := by
  unfold markSlot
  rw [noteMiss_of_quiet cfg port now i w quiet]
  dsimp only
  split_ifs with skipped reached
  · exact Trail.refl w
  · simp only [Bool.or_eq_true, Bool.not_eq_true', decide_eq_true_eq, not_or, Bool.not_eq_false]
      at skipped
    exact Trail.unseen (.mark w now i ⟨skipped.1.1, skipped.2, reached⟩ quiet) rfl
  · exact Trail.refl w

theorem markSlots_trail (now : BitVec 32) (w : SchWorld σ)
    (quiet : ∀ i, (w.state.tasks i).pending = false) (seen : List (Fin schMaxTasks))
    (once : seen.Nodup) : Trail cfg [] w (seen.foldl (markSlot cfg port now) w) := by
  induction seen using List.reverseRecOn with
  | nil => exact Trail.refl w
  | append_singleton seen i ih =>
    obtain ⟨nodup, -, apart⟩ := List.nodup_append.mp once
    have new : i ∉ seen := fun mem => apart i mem i List.mem_cons_self rfl
    rw [List.foldl_append, List.foldl_cons, List.foldl_nil]
    have untouched := congrFun (markSlots_marks cfg port now w seen).tasks i
    rw [if_neg new] at untouched
    refine (ih nodup).trans (markSlot_trail cfg port now _ i ?_)
    rw [untouched]
    exact quiet i

theorem markPeriodicReady_trail (now : BitVec 32) (w : SchWorld σ)
    (quiet : ∀ i, (w.state.tasks i).pending = false) :
    Trail cfg [] w (markPeriodicReady cfg port now w) :=
  markSlots_trail cfg port now w quiet _ (List.nodup_finRange schMaxTasks)

end Mark

section Runs

theorem executePeriodic_trail (now : BitVec 32) (selected : Fin schMaxTasks) (w : SchWorld σ)
    (pending : Pending w.state selected) :
    Trail cfg (if cfg.enableStats then [selected] else []) w
      (executePeriodic cfg port now selected w) := by
  have released : Trail cfg [] w (w.modify fun s => s.release now selected) :=
    Trail.unseen (.release w now selected pending) rfl
  have begun := released.trans (statsBegin_trail cfg port selected _)
  have traced := begun.trans (traceNow_trail cfg port .taskStart selected _)
  have table : (traceNow cfg port .taskStart selected
      (statsBegin cfg port selected (w.modify fun s => s.release now selected)).2).state.tasks
        selected = Scheduler.released now (w.state.tasks selected) := by
    rw [(traceNow_silent cfg port ..).tasks, (statsBegin_silent cfg port ..).tasks,
      World.modify_state, release_tasks, Function.update_self]
  have called := traced.trans (callTask_trail cfg port .periodic selected
    (w.state.tasks selected).fn (w.state.tasks selected).ctx _ (by rw [table]; exact pending.inUse)
    (by rw [table]; rfl))
  have ended := called.trans (statsEnd_trail cfg port selected
    (statsBegin cfg port selected (w.modify fun s => s.release now selected)).1 _)
  exact (ended.then (traceNow_trail cfg port .taskEnd selected _)).then
    (checkOverrun_trail cfg port selected (w.state.tasks selected).periodTicks _)

theorem runPeriodic_path (now : BitVec 32) (n : Nat) (w : SchWorld σ) :
    Path cfg w (runPeriodic cfg port now n w) :=
  runPeriodic_keeps cfg port (Path cfg w) now n w ReflTransGen.refl fun v i pending path =>
    path.trans (executePeriodic_trail cfg port now i v pending).path

theorem runIdle_trail (w : SchWorld σ) : Trail cfg [] w (runIdle cfg port w) :=
  ((traceNow_trail cfg port .idle schInvalidTaskId w).trans (setEnv_trail cfg _ _)).trans
    (Trail.entry .idle (.note _ .idle rfl) rfl)

theorem executeBackground_trail (i : Fin schMaxTasks) (fn ctx : Address) (w : SchWorld σ)
    (used : (w.state.tasks i).inUse = true) (own : (w.state.tasks i).fn = fn) :
    Trail cfg (if cfg.enableStats then [i] else []) w
      (executeBackground cfg port i fn ctx w) := by
  have traced := traceNow_trail cfg port .taskStart i w
  have begun := traced.trans (statsBegin_trail cfg port i _)
  have table : (statsBegin cfg port i (traceNow cfg port .taskStart i w)).2.state.tasks =
      w.state.tasks := by
    rw [(statsBegin_silent cfg port ..).tasks, (traceNow_silent cfg port ..).tasks]
  have called := begun.trans (callTask_trail cfg port .background i fn ctx _
    (by rw [table]; exact used) (by rw [table]; exact own))
  have ended := called.trans (statsEnd_trail cfg port i
    (statsBegin cfg port i (traceNow cfg port .taskStart i w)).1 _)
  exact ended.then (traceNow_trail cfg port .taskEnd i _)

theorem executeBackground_logged (i : Fin schMaxTasks) (fn ctx : Address) (w : SchWorld σ) :
    Logged (executeBackground cfg port i fn ctx w) :=
  traceNow_logged cfg port (statsEnd_logged cfg port (logged_emit _ _) i _) _ _

theorem select_trail (w : SchWorld σ) :
    Trail cfg [] w (w.setState (selectBackgroundTask w.state).2) :=
  Trail.unseen (.select w) rfl

theorem runBackground_path (w : SchWorld σ) :
    Path cfg w (runBackground cfg port w) ∧ Logged (runBackground cfg port w) := by
  refine runBackground_keeps cfg port (Path cfg w) (fun v => Path cfg w v ∧ Logged v) w
    (select_trail cfg w).path (fun v path => ?_) fun v i background path => ?_
  · exact ⟨path.trans (runIdle_trail cfg port v).path, logged_emit _ _⟩
  · exact ⟨path.trans (executeBackground_trail cfg port i _ _ v background.inUse rfl).path,
      executeBackground_logged cfg port ..⟩

theorem run_path (w : SchWorld σ) (settled : Settled w.state) :
    Path cfg w (run cfg port w) ∧ Logged (run cfg port w) := by
  have read := nowTicks_trail cfg port w
  have marked := read.trans (markPeriodicReady_trail cfg port (nowTicks port w).1 _
    settled.pending)
  have looped := marked.path.trans (runPeriodic_path cfg port (nowTicks port w).1 schMaxTasks _)
  obtain ⟨path, logged⟩ := runBackground_path cfg port (afterLoop cfg port w)
  rw [run_eq]
  exact ⟨looped.trans path, logged⟩

theorem step_trail {w : SchWorld σ} (h : Logged w) (c : Call σ) (other : c ≠ .run) :
    Trail cfg [] w (step cfg port w c) ∧ Logged (step cfg port w c) := by
  cases c with
  | elapse env => exact ⟨setEnv_trail cfg w env, h.setEnv env⟩
  | addTask request => exact addTask_trail cfg port h request
  | enableTask taskId enable => exact ⟨Trail.refl w, h⟩
  | resetStats => exact ⟨resetStats_trail cfg w, logged_emit _ _⟩
  | setTraceHook hook userCtx => exact ⟨setTraceHook_trail cfg hook userCtx w, logged_emit _ _⟩
  | run => exact absurd rfl other

theorem step_path (w : SchWorld σ) (c : Call σ) (settled : Settled w.state) (h : Logged w) :
    Path cfg w (step cfg port w c) ∧ Logged (step cfg port w c) := by
  by_cases isRun : c = .run
  · subst isRun
    exact run_path cfg port w settled
  · obtain ⟨trail, logged⟩ := step_trail cfg port h c isRun
    exact ⟨trail.path, logged⟩

theorem history_path (env : σ) (calls : List (Call σ)) :
    Path cfg (World.start Sch.init env) (history cfg port env calls) ∧
      Logged (history cfg port env calls) := by
  have run : Settled (history cfg port env calls).state ∧
      Path cfg (World.start Sch.init env) (history cfg port env calls) ∧
      Logged (history cfg port env calls) :=
    History.invariant (step cfg port)
      (fun w => Settled w.state ∧ Path cfg (World.start Sch.init env) w ∧ Logged w)
      (fun w c ⟨settled, path, logged⟩ => by
        obtain ⟨path', logged'⟩ := step_path cfg port w c settled logged
        exact ⟨step_settled cfg port w c settled, path.trans path', logged'⟩)
      _ ⟨init_settled, ReflTransGen.refl, rfl⟩ calls
  exact run.2

/-- What holds at the start and is kept by every move holds of every history. -/
theorem history_invariant (Inv : SchWorld σ → Prop)
    (keep : ∀ w w', Move cfg w w' → Inv w → Inv w') (env : σ)
    (start : Inv (World.start Sch.init env)) (calls : List (Call σ)) :
    Inv (history cfg port env calls) :=
  (history_path cfg port env calls).1.invariant keep start

end Runs

end SchedulerLib.Scheduler
