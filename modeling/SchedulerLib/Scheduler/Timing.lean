import Mathlib.Algebra.BigOperators.Group.Finset.Basic
import Mathlib.Algebra.Order.BigOperators.Group.Finset
import Mathlib.Data.Finset.Lattice.Fold
import Mathlib.Order.Lattice.Nat
import SchedulerLib.Lib.Elapse
import SchedulerLib.Scheduler.AtomicAdd
import SchedulerLib.Scheduler.Overruns

/-!
How long a run takes, from bounds on everything that the scheduler calls: the clock, the
trace hook, the idle hook and the callbacks. A bound covers the scheduler's own code up to
the next such call. A run executes each ready task once and then one background task, so it
takes no longer than the load of its table; and a task is over as soon as the tasks before
it in the order of priority and slot and then itself have been executed.
-/

namespace SchedulerLib.Scheduler

open Lib

structure Costs where
  read : Nat
  hook : Nat
  idle : Nat
  callback : Address → Address → Nat

variable {σ : Type}

abbrev Takes (clock : σ → Nat) (d : Nat) (w w' : SchWorld σ) : Prop :=
  Elapses clock SchEvent.reading d w w'

/-- The port keeps its bounds. `sch_port_now_ticks` gives the time at which it is called. -/
structure Timed (cfg : Config) (port : Port σ) (clock : σ → Nat) (costs : Costs) : Prop where
  now : ∀ env, (port.time env).1 = clock env
  read : ∀ env, clock env ≤ clock (port.time env).2 ∧
    clock (port.time env).2 ≤ clock env + costs.read
  hook : ∀ hook event taskId timestamp userCtx env,
    clock env ≤ clock (port.traceHook hook event taskId timestamp userCtx env) ∧
      clock (port.traceHook hook event taskId timestamp userCtx env) ≤ clock env + costs.hook
  idle : ∀ env, clock env ≤ clock (port.idle env) ∧ clock (port.idle env) ≤ clock env + costs.idle
  callback : ∀ fn ctx w, Takes clock (costs.callback fn ctx) w
    ((port.task fn ctx w.env).exec cfg port w)

namespace Costs

variable (costs : Costs) (cfg : Config)

def stats : Nat := if cfg.enableStats then costs.read else 0

def trace : Nat := if cfg.enableTrace then costs.read + costs.hook else 0

def check : Nat := costs.read + if cfg.enableTrace then costs.hook else 0

def periodic (task : SchTask) : Nat :=
  costs.stats cfg + costs.trace cfg + costs.callback task.fn task.ctx + costs.stats cfg +
    costs.trace cfg + costs.check cfg

def background (task : SchTask) : Nat :=
  costs.trace cfg + costs.stats cfg + costs.callback task.fn task.ctx + costs.stats cfg +
    costs.trace cfg

def idling : Nat := costs.trace cfg + costs.idle

/-- What a slot adds to the periodic loop if its task is ready. -/
def periodicShare (task : SchTask) : Nat :=
  if task.inUse = true ∧ task.periodTicks ≠ 0 then costs.periodic cfg task else 0

def backgroundShare (task : SchTask) : Nat :=
  if task.inUse = true ∧ task.periodTicks = 0 then costs.background cfg task else 0

def rest (s : Sch) : Nat :=
  max (costs.idling cfg) (Finset.univ.sup fun i => costs.backgroundShare cfg (s.tasks i))

/-- The longest run on a table: all periodic tasks are ready. -/
def load (s : Sch) : Nat :=
  costs.read + ∑ i, costs.periodicShare cfg (s.tasks i) + costs.rest cfg s

def Ahead (s : Sch) (id i : Fin schMaxTasks) : Prop := i = id ∨ Before s i id

instance (s : Sch) (id i : Fin schMaxTasks) : Decidable (Ahead s id i) :=
  inferInstanceAs (Decidable (i = id ∨ ((s.tasks i).priority < (s.tasks id).priority ∨
    (s.tasks i).priority = (s.tasks id).priority ∧ i < id)))

/-- The longest way from the entry of a run to the end of slot `id`. -/
def response (s : Sch) (id : Fin schMaxTasks) : Nat :=
  costs.read + ∑ i, if Ahead s id i then costs.periodicShare cfg (s.tasks i) else 0

end Costs

section Table

variable (costs : Costs) (cfg : Config) {s s' : Sch}

theorem release_keepsTasks (s : Sch) (now : BitVec 32) (i : Fin schMaxTasks) :
    KeepsTasks s (s.release now i) := by
  intro j used
  rw [release_inUse]
  refine ⟨used, ?_⟩
  exact setTask_same SchTask.identity s i (released now (s.tasks i)) rfl j

theorem Move.keepsTasks {w w' : SchWorld σ} (move : Move cfg w w') :
    KeepsTasks w.state w'.state := by
  cases move with
  | setEnv env => exact KeepsTasks.refl _
  | note e plain => exact KeepsTasks.refl _
  | refuse request error logged refuses => exact KeepsTasks.refl _
  | register r logged chosen => exact register_keepsTasks cfg chosen
  | resetStats => exact (retains_of_eq rfl rfl rfl).keepsTasks
  | setTraceHook hook userCtx => exact (retains_of_eq rfl rfl rfl).keepsTasks
  | mark now i ready quiet =>
    exact (retains_setTask w.state i { w.state.tasks i with pending := true } rfl rfl rfl
      fun _ => ⟨ready.inUse, ready.periodic⟩).keepsTasks
  | release now i pending => exact release_keepsTasks w.state now i
  | tally i stats runCount missCount => exact (retains_of_eq rfl rfl rfl).keepsTasks
  | call phase i fn ctx used own => exact KeepsTasks.refl _
  | complete i execStart execEnd => exact (retains_of_eq rfl rfl rfl).keepsTasks
  | select => exact (select_retains w.state).keepsTasks

theorem Path.keepsTasks {w w' : SchWorld σ} (path : Path cfg w w') :
    KeepsTasks w.state w'.state := by
  have keep : ∀ u v : SchWorld σ, Move cfg u v → KeepsTasks w.state u.state →
      KeepsTasks w.state v.state := fun _ _ move kept => kept.trans _ _ _ move.keepsTasks
  exact path.invariant keep (KeepsTasks.refl _)

theorem Costs.periodicShare_mono (h : KeepsTasks s s') (i : Fin schMaxTasks) :
    costs.periodicShare cfg (s.tasks i) ≤ costs.periodicShare cfg (s'.tasks i) := by
  unfold periodicShare
  by_cases used : (s.tasks i).inUse = true
  · obtain ⟨used', same⟩ := h i used
    have fn := congrArg Prod.fst same
    have ctx := congrArg (fun x => x.2.1) same
    have period := SchTask.identity_periodTicks same
    dsimp only [SchTask.identity] at fn ctx
    unfold periodic
    rw [used, used', fn, ctx, period]
  · rw [if_neg fun both => used both.1]
    exact Nat.zero_le _

theorem Costs.backgroundShare_mono (h : KeepsTasks s s') (i : Fin schMaxTasks) :
    costs.backgroundShare cfg (s.tasks i) ≤ costs.backgroundShare cfg (s'.tasks i) := by
  unfold backgroundShare
  by_cases used : (s.tasks i).inUse = true
  · obtain ⟨used', same⟩ := h i used
    have fn := congrArg Prod.fst same
    have ctx := congrArg (fun x => x.2.1) same
    have period := SchTask.identity_periodTicks same
    dsimp only [SchTask.identity] at fn ctx
    unfold background
    rw [used, used', fn, ctx, period]
  · rw [if_neg fun both => used both.1]
    exact Nat.zero_le _

theorem Costs.rest_mono (h : KeepsTasks s s') : costs.rest cfg s ≤ costs.rest cfg s' :=
  max_le_max (le_refl _) (Finset.sup_mono_fun fun i _ => costs.backgroundShare_mono cfg h i)

theorem Costs.load_mono (h : KeepsTasks s s') : costs.load cfg s ≤ costs.load cfg s' := by
  have shares := Finset.sum_le_sum fun i (_ : i ∈ Finset.univ) => costs.periodicShare_mono cfg h i
  have rest := costs.rest_mono cfg h
  unfold load
  omega

theorem KeepsTasks.ahead_iff (h : KeepsTasks s s') {id i : Fin schMaxTasks}
    (used : (s.tasks id).inUse = true) (here : (s.tasks i).inUse = true) :
    Costs.Ahead s' id i ↔ Costs.Ahead s id i := by
  have priority := congrArg (fun x => x.2.2.2) (h i here).2
  have own := congrArg (fun x => x.2.2.2) (h id used).2
  dsimp only [SchTask.identity] at priority own
  rw [Costs.Ahead, Costs.Ahead, Before, Before, priority, own]

theorem Costs.response_mono (h : KeepsTasks s s') (id : Fin schMaxTasks)
    (used : (s.tasks id).inUse = true) : costs.response cfg s id ≤ costs.response cfg s' id := by
  refine Nat.add_le_add_left (Finset.sum_le_sum fun i _ => ?_) _
  by_cases ahead : Ahead s id i
  · rw [if_pos ahead]
    by_cases here : (s.tasks i).inUse = true
    · rw [if_pos ((h.ahead_iff used here).mpr ahead)]
      exact costs.periodicShare_mono cfg h i
    · have unused : costs.periodicShare cfg (s.tasks i) = 0 := if_neg fun both => here both.1
      rw [unused]
      exact Nat.zero_le _
  · rw [if_neg ahead]
    exact Nat.zero_le _

end Table

section Mark

variable (cfg : Config) (port : Port σ)

theorem markSlot_unseen (now : BitVec 32) (w : SchWorld σ) (i : Fin schMaxTasks)
    (quiet : (w.state.tasks i).pending = false) :
    (markSlot cfg port now w i).env = w.env ∧ (markSlot cfg port now w i).log = w.log := by
  unfold markSlot
  rw [noteMiss_of_quiet cfg port now i w quiet]
  dsimp only
  split_ifs <;> exact ⟨rfl, rfl⟩

theorem markSlots_unseen (now : BitVec 32) (w : SchWorld σ)
    (quiet : ∀ i, (w.state.tasks i).pending = false) (seen : List (Fin schMaxTasks))
    (once : seen.Nodup) : (seen.foldl (markSlot cfg port now) w).env = w.env ∧
      (seen.foldl (markSlot cfg port now) w).log = w.log := by
  induction seen using List.reverseRecOn with
  | nil => exact ⟨rfl, rfl⟩
  | append_singleton seen i ih =>
    obtain ⟨nodup, -, apart⟩ := List.nodup_append.mp once
    have new : i ∉ seen := fun mem => apart i mem i List.mem_cons_self rfl
    have untouched := congrFun (markSlots_marks cfg port now w seen).tasks i
    rw [if_neg new] at untouched
    obtain ⟨env, log⟩ := markSlot_unseen cfg port now (seen.foldl (markSlot cfg port now) w) i (by
      rw [untouched]
      exact quiet i)
    rw [List.foldl_append, List.foldl_cons, List.foldl_nil]
    exact ⟨env.trans (ih nodup).1, log.trans (ih nodup).2⟩

theorem markPeriodicReady_takes (clock : σ → Nat) (now : BitVec 32) (w : SchWorld σ)
    (quiet : ∀ i, (w.state.tasks i).pending = false) :
    Takes clock 0 w (markPeriodicReady cfg port now w) := by
  obtain ⟨env, log⟩ := markSlots_unseen cfg port now w quiet _ (List.nodup_finRange schMaxTasks)
  exact Elapses.of_same env log

end Mark

section Pieces

variable {cfg : Config} {port : Port σ} {clock : σ → Nat} {costs : Costs}

namespace Timed

theorem nowTicks (timed : Timed cfg port clock costs) (w : SchWorld σ) :
    Takes clock costs.read w (nowTicks port w).2 := by
  obtain ⟨forward, bounded⟩ := timed.read w.env
  refine ⟨forward, bounded, _, rfl, fun t mem => ?_⟩
  obtain rfl : t = (port.time w.env).1 := by simpa [SchEvent.reading] using mem
  rw [timed.now]
  exact ⟨le_refl _, forward⟩

theorem traceEmit (timed : Timed cfg port clock costs) (event : SchTraceEvent) (taskId : Int)
    (timestamp : BitVec 32) (w : SchWorld σ) :
    Takes clock costs.hook w (traceEmit port event taskId timestamp w) := by
  unfold Scheduler.traceEmit
  split_ifs
  · exact (Elapses.refl w).mono (Nat.zero_le _)
  · obtain ⟨forward, bounded⟩ := timed.hook w.state.traceHook event taskId timestamp
      w.state.traceUserCtx w.env
    have unread : Takes clock 0 w w := Elapses.refl w
    have traced := unread.setEnv _ forward bounded
    rw [Nat.zero_add] at traced
    exact traced.emit (.trace event taskId timestamp) rfl

theorem traceNow (timed : Timed cfg port clock costs) (event : SchTraceEvent) (taskId : Int)
    (w : SchWorld σ) : Takes clock (costs.trace cfg) w (traceNow cfg port event taskId w) := by
  unfold Scheduler.traceNow Costs.trace
  split_ifs
  · exact (timed.nowTicks w).trans (timed.traceEmit ..)
  · exact Elapses.refl w

theorem statsBegin (timed : Timed cfg port clock costs) (id : Fin schMaxTasks) (w : SchWorld σ) :
    Takes clock (costs.stats cfg) w (statsBegin cfg port id w).2 := by
  unfold Scheduler.statsBegin Costs.stats
  split_ifs
  · exact (timed.nowTicks w).unseen rfl rfl
  · exact Elapses.refl w

theorem statsEnd (timed : Timed cfg port clock costs) (id : Fin schMaxTasks)
    (execStart : BitVec 32) (w : SchWorld σ) :
    Takes clock (costs.stats cfg) w (statsEnd cfg port id execStart w) := by
  unfold Scheduler.statsEnd Costs.stats
  split_ifs
  · refine Elapses.emit ?_ (SchEvent.completed id execStart _) rfl
    exact (timed.nowTicks w).unseen rfl rfl
  · exact Elapses.refl w

theorem callTask (timed : Timed cfg port clock costs) (phase : Phase) (id : Fin schMaxTasks)
    (fn ctx : Address) (w : SchWorld σ) :
    Takes clock (costs.callback fn ctx) w (callTask cfg port phase id fn ctx w) := by
  have called := ((Elapses.refl w).emit (.callback phase id fn ctx) rfl).trans
    (timed.callback fn ctx (w.emit (.callback phase id fn ctx)))
  rw [Nat.zero_add] at called
  exact called.emit (.returned phase id) rfl

theorem checkOverrun (timed : Timed cfg port clock costs) (id : Fin schMaxTasks)
    (period : BitVec 32) (w : SchWorld σ) :
    Takes clock (costs.check cfg) w (checkOverrun cfg port id period w) := by
  have read := timed.nowTicks w
  have counted : Takes clock costs.read w (if cfg.enableStats then
      (Scheduler.nowTicks port w).2.modify fun s => s.setStats id
        { s.stats id with overrunCount := (s.stats id).overrunCount + 1 }
      else (Scheduler.nowTicks port w).2) := by
    split_ifs
    · exact read.unseen rfl rfl
    · exact read
  unfold Scheduler.checkOverrun Costs.check
  dsimp only
  by_cases late : period ≠ 0 ∧ timeReached (Scheduler.nowTicks port w).1
      ((Scheduler.nowTicks port w).2.state.tasks id).nextRelease = true
  · rw [if_pos late]
    generalize (if cfg.enableStats then _ else _ : SchWorld σ) = v at counted ⊢
    split_ifs
    · exact counted.trans (timed.traceEmit ..)
    · exact counted
  · rw [if_neg late]
    exact read.mono (Nat.le_add_right _ _)

theorem executePeriodic (timed : Timed cfg port clock costs) (now : BitVec 32)
    (selected : Fin schMaxTasks) (w : SchWorld σ) :
    Takes clock (costs.periodic cfg (w.state.tasks selected)) w
      (executePeriodic cfg port now selected w) := by
  have released : Takes clock 0 w (w.modify fun s => s.release now selected) :=
    (Elapses.refl w).unseen rfl rfl
  have begun := (released.trans (timed.statsBegin selected _)).trans
    (timed.traceNow .taskStart selected _)
  have called := begun.trans (timed.callTask .periodic selected (w.state.tasks selected).fn
    (w.state.tasks selected).ctx _)
  have ended := (called.trans (timed.statsEnd selected (Scheduler.statsBegin cfg port selected
    (w.modify fun s => s.release now selected)).1 _)).trans (timed.traceNow .taskEnd selected _)
  rw [Nat.zero_add] at ended
  exact ended.trans (timed.checkOverrun selected (w.state.tasks selected).periodTicks _)

theorem runIdle (timed : Timed cfg port clock costs) (w : SchWorld σ) :
    Takes clock (costs.idling cfg) w (runIdle cfg port w) := by
  have traced := timed.traceNow .idle schInvalidTaskId w
  unfold Scheduler.runIdle
  dsimp only
  generalize Scheduler.traceNow _ _ _ _ _ = v at traced ⊢
  obtain ⟨forward, bounded⟩ := timed.idle v.env
  exact (traced.setEnv _ forward bounded).emit .idle rfl

theorem executeBackground (timed : Timed cfg port clock costs) (id : Fin schMaxTasks)
    (w : SchWorld σ) :
    Takes clock (costs.background cfg (w.state.tasks id)) w
      (executeBackground cfg port id (w.state.tasks id).fn (w.state.tasks id).ctx w) := by
  have begun := (timed.traceNow .taskStart id w).trans (timed.statsBegin id _)
  have called := begun.trans (timed.callTask .background id (w.state.tasks id).fn
    (w.state.tasks id).ctx _)
  exact (called.trans (timed.statsEnd id _ _)).trans (timed.traceNow .taskEnd id _)

end Timed

end Pieces

section Runs

variable {cfg : Config} {port : Port σ} {clock : σ → Nat} {costs : Costs}

def Costs.pendingIn (costs : Costs) (cfg : Config) (s : Sch) (ids : Finset (Fin schMaxTasks)) : Nat :=
  ∑ i ∈ ids.filter fun i => Pending s i, costs.periodic cfg (s.tasks i)

theorem Costs.pendingIn_after {now : BitVec 32} {s s' : Sch} {selected : Fin schMaxTasks}
    (pending : Pending s selected) (grows : Grows (s.release now selected) s')
    (ids : Finset (Fin schMaxTasks)) (mem : selected ∈ ids) :
    costs.pendingIn cfg s ids =
      costs.periodic cfg (s.tasks selected) + costs.pendingIn cfg s' ids := by
  have after := pending_after pending.inUse grows
  have split : ids.filter (fun i => Pending s i) =
      insert selected (ids.filter fun i => Pending s' i) := by
    ext i
    rw [Finset.mem_insert, Finset.mem_filter, Finset.mem_filter, after]
    by_cases same : i = selected
    · subst same
      simp [mem, pending]
    · simp [same]
  have once : selected ∉ ids.filter fun i => Pending s' i := fun still =>
    ((after selected).mp (Finset.mem_filter.mp still).2).2 rfl
  have kept : ∀ i ∈ ids.filter fun i => Pending s' i, s'.tasks i = s.tasks i := by
    intro i still
    obtain ⟨others, apart⟩ := (after i).mp (Finset.mem_filter.mp still).2
    have task : (s.release now selected).tasks i = s.tasks i := by
      rw [release_tasks, Function.update_of_ne apart]
    rw [grows.kept i (by rw [task]; exact others.inUse), task]
  unfold pendingIn
  rw [split, Finset.sum_insert once]
  exact congrArg _ (Finset.sum_congr rfl fun i still => by rw [kept i still])

theorem Timed.runPeriodic (timed : Timed cfg port clock costs) (now : BitVec 32) (n : Nat)
    (w : SchWorld σ) :
    Takes clock (costs.pendingIn cfg w.state Finset.univ) w (runPeriodic cfg port now n w) := by
  induction n generalizing w with
  | zero => exact (Elapses.refl w).mono (Nat.zero_le _)
  | succ n ih =>
    unfold Scheduler.runPeriodic
    cases found : selectPendingTask w.state with
    | none => exact (Elapses.refl w).mono (Nat.zero_le _)
    | some selected =>
      have pending := (selectPendingTask_some found).1
      have grows := (executePeriodic_performs cfg port now selected w).grows
      rw [Costs.pendingIn_after pending grows Finset.univ (Finset.mem_univ selected)]
      exact (timed.executePeriodic now selected w).trans (ih _)

theorem Timed.runBackground (timed : Timed cfg port clock costs) (w : SchWorld σ) :
    Takes clock (costs.rest cfg w.state) w (runBackground cfg port w) := by
  have idle : ∀ v : SchWorld σ, Takes clock 0 w v →
      Takes clock (costs.rest cfg w.state) w (Scheduler.runIdle cfg port v) := by
    intro v unseen
    have idled := unseen.trans (timed.runIdle v)
    rw [Nat.zero_add] at idled
    exact idled.mono (le_max_left _ _)
  refine runBackground_keeps cfg port
    (fun v => Takes clock 0 w v ∧ v.state.tasks = w.state.tasks)
    (Takes clock (costs.rest cfg w.state) w) w ?_ (fun v selected => idle v selected.1)
    fun v i background selected => ?_
  · exact ⟨Elapses.of_same rfl rfl, selectBackgroundTask_tasks w.state⟩
  · obtain ⟨unseen, tasks⟩ := selected
    have executed := unseen.trans (timed.executeBackground i v)
    rw [Nat.zero_add] at executed
    refine executed.mono (le_max_of_le_right ?_)
    rw [tasks] at background ⊢
    have share : costs.backgroundShare cfg (w.state.tasks i) =
        costs.background cfg (w.state.tasks i) :=
      if_pos ⟨background.inUse, background.background⟩
    rw [← share]
    exact Finset.le_sup (f := fun i => costs.backgroundShare cfg (w.state.tasks i))
      (Finset.mem_univ i)

theorem Costs.pendingIn_le (costs : Costs) (cfg : Config) (s : Sch)
    (ids : Finset (Fin schMaxTasks)) :
    costs.pendingIn cfg s ids ≤ ∑ i ∈ ids, costs.periodicShare cfg (s.tasks i) := by
  unfold pendingIn
  rw [Finset.sum_filter]
  refine Finset.sum_le_sum fun i _ => ?_
  split_ifs with pending
  · have share : costs.periodicShare cfg (s.tasks i) = costs.periodic cfg (s.tasks i) :=
      if_pos ⟨pending.inUse, pending.periodic⟩
    rw [share]
  · exact Nat.zero_le _

theorem Timed.entered (timed : Timed cfg port clock costs) (w : SchWorld σ)
    (settled : Settled w.state) :
    Takes clock costs.read w
      (markPeriodicReady cfg port (Scheduler.nowTicks port w).1 (Scheduler.nowTicks port w).2) :=
  (timed.nowTicks w).trans (markPeriodicReady_takes cfg port clock _ _ settled.pending)

theorem Timed.run (timed : Timed cfg port clock costs) (w : SchWorld σ)
    (settled : Settled w.state) :
    Takes clock (costs.load cfg (Scheduler.run cfg port w).state) w (Scheduler.run cfg port w) := by
  have entered := timed.entered w settled
  have looped := timed.runPeriodic (Scheduler.nowTicks port w).1 schMaxTasks
    (markPeriodicReady cfg port (Scheduler.nowTicks port w).1 (Scheduler.nowTicks port w).2)
  have path := runPeriodic_path cfg port (Scheduler.nowTicks port w).1 schMaxTasks
    (markPeriodicReady cfg port (Scheduler.nowTicks port w).1 (Scheduler.nowTicks port w).2)
  have path' := (runBackground_path cfg port (afterLoop cfg port w)).1
  have last := timed.runBackground (afterLoop cfg port w)
  rw [run_eq]
  refine ((entered.trans looped).trans last).mono ?_
  have pending := costs.pendingIn_le cfg (markPeriodicReady cfg port (Scheduler.nowTicks port w).1
    (Scheduler.nowTicks port w).2).state Finset.univ
  have shares := Finset.sum_le_sum fun i (_ : i ∈ Finset.univ) =>
    costs.periodicShare_mono cfg (Path.keepsTasks cfg (path.trans path')) i
  have rest := costs.rest_mono cfg (Path.keepsTasks cfg path')
  unfold Costs.load
  omega

def ReadsClock (n : Nat) (w w' : SchWorld σ) : Prop :=
  ∃ l, w'.log = w.log ++ l ∧ (readings (l.map Prod.fst)).length = n

theorem ReadsClock.trans {m n : Nat} {w₁ w₂ w₃ : SchWorld σ} (h : ReadsClock m w₁ w₂)
    (k : ReadsClock n w₂ w₃) : ReadsClock (m + n) w₁ w₃ := by
  obtain ⟨l, log, read⟩ := h
  obtain ⟨l', log', read'⟩ := k
  refine ⟨l ++ l', World.log_trans log log', ?_⟩
  rw [List.map_append, readings, List.filterMap_append, List.length_append]
  exact congrArg₂ _ read read'

theorem readsClock_of_log {w w' : SchWorld σ} (log : w'.log = w.log) : ReadsClock 0 w w' :=
  ⟨[], by rw [log, List.append_nil], rfl⟩

theorem ReadsClock.emit {n : Nat} {w w' : SchWorld σ} (h : ReadsClock n w w') (e : SchEvent)
    (untimed : e.reading = none) : ReadsClock n w (w'.emit e) := by
  obtain ⟨l, log, read⟩ := h
  refine ⟨l ++ [(e, w'.state)], World.log_trans log rfl, ?_⟩
  rw [List.map_append, readings, List.filterMap_append]
  simpa [untimed, readings] using read

theorem nowTicks_readsClock (port : Port σ) (w : SchWorld σ) : ReadsClock 1 w (nowTicks port w).2 :=
  ⟨_, rfl, rfl⟩

theorem traceEmit_readsClock (port : Port σ) (event : SchTraceEvent) (taskId : Int)
    (timestamp : BitVec 32) (w : SchWorld σ) :
    ReadsClock 0 w (traceEmit port event taskId timestamp w) := by
  unfold traceEmit
  split_ifs
  · exact readsClock_of_log rfl
  · exact ⟨_, rfl, rfl⟩

theorem traceNow_readsClock (cfg : Config) (port : Port σ) (event : SchTraceEvent) (taskId : Int)
    (w : SchWorld σ) :
    ReadsClock (if cfg.enableTrace then 1 else 0) w (traceNow cfg port event taskId w) := by
  unfold traceNow
  split_ifs
  · exact (nowTicks_readsClock port w).trans (traceEmit_readsClock port ..)
  · exact readsClock_of_log rfl

theorem statsEnd_readsClock (cfg : Config) (port : Port σ) (id : Fin schMaxTasks)
    (execStart : BitVec 32) (w : SchWorld σ) :
    ReadsClock (if cfg.enableStats then 1 else 0) w (statsEnd cfg port id execStart w) := by
  unfold statsEnd
  split_ifs
  · refine ReadsClock.emit ?_ (.completed id execStart _) rfl
    exact (nowTicks_readsClock port w).trans (readsClock_of_log rfl)
  · exact readsClock_of_log rfl

theorem checkOverrun_readsClock (cfg : Config) (port : Port σ) (id : Fin schMaxTasks)
    (period : BitVec 32) (w : SchWorld σ) :
    ReadsClock 1 w (checkOverrun cfg port id period w) := by
  refine checkOverrun_keeps cfg port (ReadsClock 1 w) id period w (nowTicks_readsClock port w)
    (fun v read => ?_) fun v timestamp read => ?_
  · exact read.trans (readsClock_of_log rfl)
  · exact read.trans (traceEmit_readsClock port ..)

/-- The readings between the return of a callback and the one of the overrun check. -/
def checkIndex (cfg : Config) : Nat :=
  (if cfg.enableStats then 1 else 0) + if cfg.enableTrace then 1 else 0

def checkedAt (cfg : Config) (id : Fin schMaxTasks) (events : List SchEvent) : Option Nat :=
  (readings (events.dropWhile fun e => e ≠ .returned .periodic id))[checkIndex cfg]?

/-- Slot `id` is executed and checked, no later than `d` after the beginning. -/
def Responds (cfg : Config) (clock : σ → Nat) (id : Fin schMaxTasks) (d : Nat)
    (w w' : SchWorld σ) : Prop :=
  ∃ l, w'.log = w.log ++ l ∧ ∃ c, checkedAt cfg id (l.map Prod.fst) = some c ∧
    clock w.env ≤ c ∧ c ≤ clock w.env + d

namespace Responds

variable {id : Fin schMaxTasks} {d d' : Nat} {w₁ w₂ w₃ : SchWorld σ}

theorem mono (h : Responds cfg clock id d w₁ w₂) (le : d ≤ d') : Responds cfg clock id d' w₁ w₂ := by
  obtain ⟨l, log, c, checked, after, before⟩ := h
  exact ⟨l, log, c, checked, after, before.trans (Nat.add_le_add_left le _)⟩

theorem before (k : Responds cfg clock id d' w₂ w₃) (takes : Takes clock d w₁ w₂)
    (passes : Passes id w₁ w₂) : Responds cfg clock id (d + d') w₁ w₃ := by
  obtain ⟨l, log, apart, -⟩ := passes.log
  obtain ⟨m, log', c, checked, after, before⟩ := k
  have forward := takes.forward
  have bounded := takes.bounded
  refine ⟨l ++ m, World.log_trans log log', c, ?_, by omega, by omega⟩
  have others : ∀ e ∈ l.map Prod.fst, e ≠ .returned .periodic id := List.forall_mem_map.mpr apart
  rw [← checked, checkedAt, checkedAt, List.map_append,
    List.dropWhile_append_of_pos fun e mem => by simpa using others e mem]

theorem after (h : Responds cfg clock id d w₁ w₂) (grown : ∃ m, w₃.log = w₂.log ++ m) :
    Responds cfg clock id d w₁ w₃ := by
  obtain ⟨l, log, c, checked, bounds⟩ := h
  obtain ⟨m, log'⟩ := grown
  refine ⟨l ++ m, World.log_trans log log', c, ?_, bounds⟩
  rw [checkedAt] at checked ⊢
  obtain ⟨inside, -⟩ := List.getElem?_eq_some_iff.mp checked
  have returned : ((l.map Prod.fst).dropWhile fun e => e ≠ .returned .periodic id).isEmpty ≠ true := by
    rw [Ne, List.isEmpty_iff]
    intro empty
    rw [empty] at inside
    exact absurd inside (Nat.not_lt_zero _)
  rw [List.map_append, List.dropWhile_append, if_neg returned, readings, List.filterMap_append]
  exact (List.getElem?_append_left inside).trans checked

end Responds

theorem Timed.executes (timed : Timed cfg port clock costs) (now : BitVec 32)
    (id : Fin schMaxTasks) (w : SchWorld σ) (pending : Pending w.state id) :
    Responds cfg clock id (costs.periodic cfg (w.state.tasks id)) w
      (Scheduler.executePeriodic cfg port now id w) := by
  have takes := timed.executePeriodic now id w
  have used : ((w.modify fun s => s.release now id).state.tasks id).inUse = true := by
    rw [World.modify_state, release_inUse]
    exact pending.inUse
  have begun := ((Passes.refl _ used).statsBegin cfg port id).traceNow cfg port .taskStart id
  have called := begun.called cfg port .periodic id (w.state.tasks id).fn (w.state.tasks id).ctx
    (port.task (w.state.tasks id).fn (w.state.tasks id).ctx
      (Scheduler.traceNow cfg port .taskStart id
        (Scheduler.statsBegin cfg port id (w.modify fun s => s.release now id)).2).env)
  unfold Scheduler.executePeriodic at takes ⊢
  dsimp only at takes ⊢
  rw [Scheduler.callTask] at takes ⊢
  dsimp only [World.emit_env] at takes ⊢
  generalize (Scheduler.statsBegin cfg port id (w.modify fun s => s.release now id)).1 = execStart
    at takes ⊢
  generalize Callback.exec _ _ _ _ = u at called takes ⊢
  have read := ((statsEnd_readsClock cfg port id execStart
    (u.emit (.returned .periodic id))).trans (traceNow_readsClock cfg port .taskEnd id _)).trans
      (checkOverrun_readsClock cfg port id (w.state.tasks id).periodTicks _)
  generalize Scheduler.checkOverrun _ _ _ _ _ = w' at takes read ⊢
  obtain ⟨l, log, apart, -⟩ := called.log
  obtain ⟨m, log', length⟩ := read
  have grown : w'.log = w.log ++ (l ++ (.returned .periodic id, u.state) :: m) := by
    rw [log', World.emit_log, log, World.modify_log]
    simp only [List.append_assoc, List.cons_append, List.nil_append]
  have inside : checkIndex cfg < (readings (m.map Prod.fst)).length := by
    rw [length, checkIndex]
    exact Nat.lt_succ_self _
  have checked : checkedAt cfg id ((l ++ (.returned .periodic id, u.state) :: m).map Prod.fst) =
      some ((readings (m.map Prod.fst))[checkIndex cfg]) := by
    have others : ∀ e ∈ l.map Prod.fst, e ≠ .returned .periodic id := List.forall_mem_map.mpr apart
    rw [checkedAt, List.map_append,
      List.dropWhile_append_of_pos fun e mem => by simpa using others e mem, List.map_cons,
      List.dropWhile_cons_of_neg (by simp), readings, List.filterMap_cons_none rfl]
    exact List.getElem?_eq_getElem inside
  refine ⟨_, grown, _, checked, takes.times grown ?_⟩
  rw [List.map_append, List.filterMap_append, List.map_cons, List.filterMap_cons_none rfl]
  exact List.mem_append_right _ (List.getElem_mem inside)

/-- A pending slot is over once the slots in `ids` have been executed, if these are all that
the selection can put before it. -/
theorem Timed.responds (timed : Timed cfg port clock costs) (now : BitVec 32) (n : Nat)
    (ids : Finset (Fin schMaxTasks)) {id : Fin schMaxTasks} {w : SchWorld σ}
    (pending : Pending w.state id) (enough : pendingCount w.state ≤ n) (own : id ∈ ids)
    (ahead : ∀ i, Pending w.state i → Before w.state i id → i ∈ ids) :
    Responds cfg clock id (costs.pendingIn cfg w.state ids) w
      (Scheduler.runPeriodic cfg port now n w) := by
  induction n generalizing w with
  | zero =>
    have fewer : pendingCount (w.state.release now id) < pendingCount w.state :=
      pendingCount_after pending (Grows.refl _)
    omega
  | succ n ih =>
    unfold Scheduler.runPeriodic
    cases found : selectPendingTask w.state with
    | none => exact absurd pending (selectPendingTask_none found id)
    | some selected =>
      obtain ⟨first, least⟩ := selectPendingTask_some found
      have grows := (executePeriodic_performs cfg port now selected w).grows
      have takes := timed.executePeriodic now selected w
      by_cases same : selected = id
      · subst same
        rw [Costs.pendingIn_after pending grows ids own]
        refine ((timed.executes now selected w pending).after ?_).mono (Nat.le_add_right _ _)
        obtain ⟨l, log, -⟩ := (timed.runPeriodic now n
          (Scheduler.executePeriodic cfg port now selected w)).log
        exact ⟨l, log⟩
      · have after := pending_after first.inUse grows
        have kept : ∀ i, Pending w.state i → i ≠ selected →
            (Scheduler.executePeriodic cfg port now selected w).state.tasks i =
              w.state.tasks i := by
          intro i others apart
          have task : (w.state.release now selected).tasks i = w.state.tasks i := by
            rw [release_tasks, Function.update_of_ne apart]
          exact (grows.kept i (by rw [World.modify_state, task]; exact others.inUse)).trans task
        have mem := ahead selected first (least id pending (Ne.symm same))
        have fewer := pendingCount_after first grows
        rw [Costs.pendingIn_after first grows ids mem]
        refine (ih ((after id).mpr ⟨pending, Ne.symm same⟩) (by omega) fun i still before => ?_).before
          takes ((Passes.refl w pending.inUse).executePeriodic cfg port now selected same)
        obtain ⟨others, apart⟩ := (after i).mp still
        rw [Before, kept i others apart, kept id pending (Ne.symm same)] at before
        exact ahead i others before

/-- A ready slot is over within its response time, counted from the entry of the run. -/
theorem Timed.run_responds (timed : Timed cfg port clock costs) (w : SchWorld σ)
    (settled : Settled w.state) (id : Fin schMaxTasks)
    (ready : ReadyAt (BitVec.ofNat 32 (entryTime port w)) (w.state.tasks id)) :
    Responds cfg clock id (costs.response cfg w.state id) w (Scheduler.run cfg port w) := by
  have takes := timed.entered w settled
  have passes := ((Passes.refl w ready.inUse).nowTicks port).markPeriodicReady cfg port
    (Scheduler.nowTicks port w).1
  have table : ∀ i, (markPeriodicReady cfg port (Scheduler.nowTicks port w).1
      (Scheduler.nowTicks port w).2).state.tasks i =
        marked (Scheduler.nowTicks port w).1 (w.state.tasks i) :=
    congrFun (markPeriodicReady_marks cfg port (Scheduler.nowTicks port w).1
      (Scheduler.nowTicks port w).2).tasks
  have pending := (pending_marked_iff settled table id).mpr ready
  rw [run_eq]
  unfold afterLoop
  generalize markPeriodicReady _ _ _ _ = v at takes passes table pending ⊢
  have priority : ∀ i, (v.state.tasks i).priority = (w.state.tasks i).priority := fun i => by
    rw [table, marked_eq]
  have share : ∀ i, costs.periodicShare cfg (v.state.tasks i) =
      costs.periodicShare cfg (w.state.tasks i) := fun i => by
    rw [table, marked_eq]
    rfl
  let ids := Finset.univ.filter fun i => Costs.Ahead w.state id i
  have looped := timed.responds (Scheduler.nowTicks port w).1 schMaxTasks ids pending
    (pendingCount_le _) (Finset.mem_filter.mpr ⟨Finset.mem_univ id, Or.inl rfl⟩)
    fun i _ before => Finset.mem_filter.mpr ⟨Finset.mem_univ i, Or.inr (by
      rwa [Before, priority, priority] at before)⟩
  have bound := costs.pendingIn_le cfg v.state ids
  simp only [share] at bound
  have response : costs.response cfg w.state id =
      costs.read + ∑ i ∈ ids, costs.periodicShare cfg (w.state.tasks i) := by
    rw [Costs.response, Finset.sum_filter]
  refine ((looped.before takes passes).mono ?_).after ?_
  · rw [response]
    exact Nat.add_le_add_left bound _
  · obtain ⟨l, log, -⟩ := (timed.runBackground (Scheduler.runPeriodic cfg port
      (Scheduler.nowTicks port w).1 schMaxTasks v)).log
    exact ⟨l, log⟩

end Runs

end SchedulerLib.Scheduler
