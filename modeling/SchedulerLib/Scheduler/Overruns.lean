import SchedulerLib.Scheduler.HandOver
import SchedulerLib.Scheduler.Misses
import SchedulerLib.Scheduler.TaskTable

/-!
Counted overruns against the release grid. A run counts an overrun of a task where the tick
read after its callback has come to the release that was computed from the entry tick. That
is a comparison by sign of two wrapped times; it is right as long as the callback is over
within half the range after the entry.
-/

namespace SchedulerLib.Scheduler

open Lib ReleaseGrid

theorem setStats_overrunCount (s : Sch) (i id : Fin schMaxTasks) (stats : SchTaskStats)
    (same : i = id → stats.overrunCount = (s.stats i).overrunCount) :
    ((s.setStats i stats).stats id).overrunCount = (s.stats id).overrunCount := by
  by_cases here : id = i
  · rw [← here, Sch.setStats_self, same here.symm, here]
  · rw [Sch.setStats_of_ne s stats here]

variable {σ : Type}

/-- Slot `id` is in use and is not executed: no callback of it returns, its next release
stays, and so do its overruns unless the statistics are reset. -/
structure Passes (id : Fin schMaxTasks) (w w' : SchWorld σ) : Prop where
  inUse : (w'.state.tasks id).inUse = true
  nextRelease : (w'.state.tasks id).nextRelease = (w.state.tasks id).nextRelease
  log : ∃ l, w'.log = w.log ++ l ∧ (∀ x ∈ l, x.1 ≠ .returned .periodic id) ∧
    ((∀ x ∈ l, x.1 ≠ .resetStats) →
      (w'.state.stats id).overrunCount = (w.state.stats id).overrunCount)

namespace Passes

variable {id : Fin schMaxTasks} {w₀ w : SchWorld σ}

theorem refl (w : SchWorld σ) (used : (w.state.tasks id).inUse = true) : Passes id w w :=
  ⟨used, rfl, [], (List.append_nil _).symm, by simp, fun _ => rfl⟩

theorem setEnv (h : Passes id w₀ w) (env : σ) : Passes id w₀ (w.setEnv env) :=
  ⟨h.inUse, h.nextRelease, h.log⟩

theorem emit (h : Passes id w₀ w) (e : SchEvent) (other : e ≠ .returned .periodic id) :
    Passes id w₀ (w.emit e) := by
  obtain ⟨l, log, apart, count⟩ := h.log
  refine ⟨h.inUse, h.nextRelease, l ++ [(e, w.state)], ?_, fun x mem => ?_, fun unreset => ?_⟩
  · rw [World.emit_log, log, List.append_assoc]
  · rcases List.mem_append.mp mem with old | new
    · exact apart x old
    · rw [List.mem_singleton.mp new]
      exact other
  · exact count fun x mem => unreset x (List.mem_append_left _ mem)

theorem setState (h : Passes id w₀ w) (s : Sch)
    (inUse : (s.tasks id).inUse = (w.state.tasks id).inUse)
    (nextRelease : (s.tasks id).nextRelease = (w.state.tasks id).nextRelease)
    (count : (s.stats id).overrunCount = (w.state.stats id).overrunCount) :
    Passes id w₀ (w.setState s) := by
  obtain ⟨l, log, apart, kept⟩ := h.log
  exact ⟨inUse.trans h.inUse, nextRelease.trans h.nextRelease, l, log, apart,
    fun unreset => count.trans (kept unreset)⟩

theorem setStats (h : Passes id w₀ w) (i : Fin schMaxTasks) (stats : SchTaskStats)
    (same : i = id → stats.overrunCount = (w.state.stats i).overrunCount) :
    Passes id w₀ (w.modify fun s => s.setStats i stats) :=
  h.setState _ rfl rfl (setStats_overrunCount w.state i id stats same)

theorem reset (h : Passes id w₀ w) : Passes id w₀ (resetStats w) := by
  obtain ⟨l, log, apart, -⟩ := h.log
  refine ⟨h.inUse, h.nextRelease, l ++ [(.resetStats, (resetStats w).state)], ?_, fun x mem => ?_,
    fun unreset => ?_⟩
  · rw [← List.append_assoc, ← log]
    rfl
  · rcases List.mem_append.mp mem with old | new
    · exact apart x old
    · rw [List.mem_singleton.mp new]
      exact SchEvent.noConfusion
  · exact absurd rfl (unreset _ (List.mem_append_right _ List.mem_cons_self))

theorem register (h : Passes id w₀ w) (cfg : Config) (r : Registration)
    (chosen : Chosen w.state r) :
    Passes id w₀ ((w.modify fun s => s.register cfg r.id r.task).emit
      (.added r.id r.request r.time)) := by
  have other : id ≠ r.id := by
    rintro rfl
    have free := chosen.free
    rw [h.inUse] at free
    cases free
  have task : (w.state.register cfg r.id r.task).tasks id = w.state.tasks id := by
    rw [register_tasks, Function.update_of_ne other]
  refine Passes.emit (h.setState _ ?_ ?_ ?_) _ SchEvent.noConfusion
  · rw [task]
  · rw [task]
  · rw [register_stats_of_ne cfg _ _ other]

theorem withstands (cfg : Config) : Withstands cfg (Passes id w₀) where
  setEnv _ env h := h.setEnv env
  read _ time h := h.emit (.nowTicks time) SchEvent.noConfusion
  refuse _ request error _ h := h.emit (.refused request error) SchEvent.noConfusion
  register _ r chosen h := h.register cfg r chosen
  resetStats _ h := h.reset
  setTraceHook v hook userCtx h :=
    (h.setState { v.state with traceHook := hook, traceUserCtx := userCtx } rfl rfl rfl).emit
      (.setTraceHook hook userCtx) SchEvent.noConfusion

section Pieces

variable (cfg : Config) (port : Port σ)

theorem nowTicks (h : Passes id w₀ w) : Passes id w₀ (nowTicks port w).2 :=
  (withstands ⟨true, true⟩).nowTicks port h

theorem traceEmit (h : Passes id w₀ w) (event : SchTraceEvent) (taskId : Int)
    (timestamp : BitVec 32) : Passes id w₀ (traceEmit port event taskId timestamp w) := by
  unfold Scheduler.traceEmit
  split_ifs
  · exact h
  · exact (h.setEnv _).emit (.trace event taskId timestamp) SchEvent.noConfusion

theorem traceNow (h : Passes id w₀ w) (event : SchTraceEvent) (taskId : Int) :
    Passes id w₀ (traceNow cfg port event taskId w) := by
  unfold Scheduler.traceNow
  split_ifs
  · exact (h.nowTicks port).traceEmit port ..
  · exact h

theorem markSlot (h : Passes id w₀ w) (now : BitVec 32) (i : Fin schMaxTasks) :
    Passes id w₀ (markSlot cfg port now w i) := by
  have noted : Passes id w₀ (noteMiss cfg port now i w) :=
    noteMiss_keeps cfg port (Passes id w₀) now i w h (fun v old => old.setStats i _ fun _ => rfl)
      fun _ old => old.traceEmit port ..
  unfold Scheduler.markSlot
  dsimp only
  split_ifs
  · exact h
  · generalize noteMiss cfg port now i w = v at noted ⊢
    refine noted.setState (v.state.setTask i { v.state.tasks i with pending := true }) ?_ ?_ rfl
    · exact setTask_same SchTask.inUse v.state i { v.state.tasks i with pending := true } rfl id
    · exact setTask_same SchTask.nextRelease v.state i { v.state.tasks i with pending := true } rfl id
  · exact h

theorem markPeriodicReady (h : Passes id w₀ w) (now : BitVec 32) :
    Passes id w₀ (markPeriodicReady cfg port now w) :=
  markPeriodicReady_keeps cfg port (Passes id w₀) now w h fun _ i old => old.markSlot cfg port now i

theorem statsBegin (h : Passes id w₀ w) (i : Fin schMaxTasks) :
    Passes id w₀ (statsBegin cfg port i w).2 := by
  unfold Scheduler.statsBegin
  split_ifs
  · exact (h.nowTicks port).setStats i _ fun _ => rfl
  · exact h

theorem statsEnd (h : Passes id w₀ w) (i : Fin schMaxTasks) (execStart : BitVec 32) :
    Passes id w₀ (statsEnd cfg port i execStart w) := by
  unfold Scheduler.statsEnd
  split_ifs
  · refine Passes.emit (Passes.setStats (h.nowTicks port) i
      (((Scheduler.nowTicks port w).2.state.stats i).account (Scheduler.nowTicks port w).1)
      fun _ => rfl) (.completed i execStart _) SchEvent.noConfusion
  · exact h

theorem called (h : Passes id w₀ w) (phase : Phase) (i : Fin schMaxTasks) (fn ctx : Address)
    (callback : Callback σ) :
    Passes id w₀ (callback.exec cfg port (w.emit (.callback phase i fn ctx))) :=
  (withstands cfg).exec port callback (h.emit (.callback phase i fn ctx) SchEvent.noConfusion)

theorem callTask (h : Passes id w₀ w) (phase : Phase) (i : Fin schMaxTasks) (fn ctx : Address)
    (other : phase = .periodic → i ≠ id) : Passes id w₀ (callTask cfg port phase i fn ctx w) := by
  refine (h.called cfg port phase i fn ctx _).emit (.returned phase i) fun same => ?_
  obtain ⟨rfl, rfl⟩ := SchEvent.returned.inj same
  exact other rfl rfl

theorem executePeriodic (h : Passes id w₀ w) (now : BitVec 32) (i : Fin schMaxTasks)
    (other : i ≠ id) : Passes id w₀ (executePeriodic cfg port now i w) := by
  have released : Passes id w₀ (w.modify fun s => s.release now i) := by
    have task : (w.state.release now i).tasks id = w.state.tasks id := by
      rw [release_tasks, Function.update_of_ne other.symm]
    exact h.setState _ (by rw [task]) (by rw [task]) rfl
  have begun := (released.statsBegin cfg port i).traceNow cfg port .taskStart i
  have called := begun.callTask cfg port .periodic i (w.state.tasks i).fn (w.state.tasks i).ctx
    fun _ => other
  have ended := (called.statsEnd cfg port i
    (Scheduler.statsBegin cfg port i (w.modify fun s => s.release now i)).1).traceNow cfg port
    .taskEnd i
  exact checkOverrun_keeps cfg port (Passes id w₀) i _ _ (ended.nowTicks port)
    (fun v old => old.setStats i _ fun same => absurd same other)
    fun _ _ old => old.traceEmit port ..

theorem runIdle (h : Passes id w₀ w) : Passes id w₀ (runIdle cfg port w) :=
  ((h.traceNow cfg port ..).setEnv _).emit .idle SchEvent.noConfusion

theorem executeBackground (h : Passes id w₀ w) (i : Fin schMaxTasks) (fn ctx : Address) :
    Passes id w₀ (executeBackground cfg port i fn ctx w) := by
  have begun := (h.traceNow cfg port .taskStart i).statsBegin cfg port i
  have called := begun.callTask cfg port .background i fn ctx fun same => Phase.noConfusion same
  exact (called.statsEnd cfg port i _).traceNow cfg port .taskEnd i

theorem runBackground (h : Passes id w₀ w) : Passes id w₀ (runBackground cfg port w) := by
  have tasks := selectBackgroundTask_tasks w.state
  have selected : Passes id w₀ (w.setState (selectBackgroundTask w.state).2) := by
    refine h.setState _ (by rw [tasks]) (by rw [tasks]) ?_
    rw [selectBackgroundTask_stats]
  exact runBackground_keeps cfg port (Passes id w₀) (Passes id w₀) w selected
    (fun _ old => old.runIdle cfg port) fun _ _ _ old => old.executeBackground cfg port ..

end Pieces

end Passes

/-- The true time read to find out whether the callback of slot `id` has overrun. The
statistics and the trace read the clock before that. -/
def finishedAt (trace : Bool) (id : Fin schMaxTasks) (events : List SchEvent) : Option Nat :=
  (readings (events.dropWhile fun e => e ≠ .returned .periodic id))[if trace then 2 else 1]?

structure Reads (times : List Nat) (w w' : SchWorld σ) : Prop where
  tasks : w'.state.tasks = w.state.tasks
  count : ∀ i, (w'.state.stats i).overrunCount = (w.state.stats i).overrunCount
  log : ∃ l, w'.log = w.log ++ l ∧ readings (l.map Prod.fst) = times

theorem Reads.trans {times times' : List Nat} {w₁ w₂ w₃ : SchWorld σ} (h : Reads times w₁ w₂)
    (k : Reads times' w₂ w₃) : Reads (times ++ times') w₁ w₃ := by
  obtain ⟨l, log, read⟩ := h.log
  obtain ⟨m, log', read'⟩ := k.log
  refine ⟨k.tasks.trans h.tasks, fun i => (k.count i).trans (h.count i), l ++ m, ?_, ?_⟩
  · exact World.log_trans log log'
  · rw [List.map_append, readings, List.filterMap_append]
    exact congrArg₂ _ read read'

section Reads

variable (trace : Bool) (port : Port σ) (w : SchWorld σ)

theorem nowTicks_reads : Reads [(port.time w.env).1] w (nowTicks port w).2 :=
  ⟨rfl, fun _ => rfl, _, rfl, rfl⟩

theorem traceEmit_reads (event : SchTraceEvent) (taskId : Int) (timestamp : BitVec 32) :
    Reads [] w (traceEmit port event taskId timestamp w) := by
  unfold traceEmit
  split_ifs
  · exact ⟨rfl, fun _ => rfl, [], (List.append_nil _).symm, rfl⟩
  · exact ⟨rfl, fun _ => rfl, _, rfl, rfl⟩

theorem traceNow_reads (event : SchTraceEvent) (taskId : Int) :
    ∃ times, times.length = (if trace then 1 else 0) ∧
      Reads times w (traceNow ⟨true, trace⟩ port event taskId w) := by
  unfold traceNow
  cases trace with
  | true => exact ⟨_, rfl, (nowTicks_reads port w).trans (traceEmit_reads port _ ..)⟩
  | false => exact ⟨[], rfl, rfl, fun _ => rfl, [], (List.append_nil _).symm, rfl⟩

theorem statsEnd_reads (id : Fin schMaxTasks) (execStart : BitVec 32) :
    ∃ time, Reads [time] w (statsEnd ⟨true, trace⟩ port id execStart w) := by
  refine ⟨(port.time w.env).1, rfl, fun i => ?_, [(.nowTicks (port.time w.env).1, w.state),
    (.completed id execStart (nowTicks port w).1, _)], List.append_assoc _ [_] [_], rfl⟩
  exact setStats_overrunCount w.state id i ((w.state.stats id).account (nowTicks port w).1)
    fun _ => rfl

theorem checkOverrun_count (id : Fin schMaxTasks) (period : BitVec 32) (positive : period ≠ 0) :
    let w' := checkOverrun ⟨true, trace⟩ port id period w
    (w'.state.stats id).overrunCount = (w.state.stats id).overrunCount +
        (if timeReached (BitVec.ofNat 32 (port.time w.env).1) (w.state.tasks id).nextRelease
          then 1 else 0) ∧
      ∃ l, w'.log = w.log ++ l ∧ readings (l.map Prod.fst) = [(port.time w.env).1] := by
  intro w'
  have read := nowTicks_reads port w
  by_cases late : timeReached (BitVec.ofNat 32 (port.time w.env).1)
      (w.state.tasks id).nextRelease = true
  · have counted : w' = if trace then traceEmit port .taskOverrun id (nowTicks port w).1
        ((nowTicks port w).2.modify fun s =>
          s.setStats id { s.stats id with overrunCount := (s.stats id).overrunCount + 1 })
        else (nowTicks port w).2.modify fun s =>
          s.setStats id { s.stats id with overrunCount := (s.stats id).overrunCount + 1 } :=
      if_pos ⟨positive, late⟩
    rw [if_pos late, counted]
    cases trace with
    | true =>
      have traced := traceEmit_reads port ((nowTicks port w).2.modify fun s =>
        s.setStats id { s.stats id with overrunCount := (s.stats id).overrunCount + 1 })
        .taskOverrun id (nowTicks port w).1
      obtain ⟨l, log, none_read⟩ := traced.log
      refine ⟨(traced.count id).trans ?_, (.nowTicks (port.time w.env).1, w.state) :: l, ?_, ?_⟩
      · exact congrArg SchTaskStats.overrunCount (Sch.setStats_self ..)
      · exact log.trans (List.append_assoc _ [_] l)
      · exact congrArg _ none_read
    | false =>
      exact ⟨congrArg SchTaskStats.overrunCount (Sch.setStats_self ..), read.log⟩
  · have quiet : w' = (nowTicks port w).2 := if_neg fun both => late both.2
    rw [if_neg late, quiet]
    exact ⟨(BitVec.add_zero _).symm, read.log⟩

end Reads

structure Checks (trace : Bool) (id : Fin schMaxTasks) (c : Nat) (w w' : SchWorld σ) : Prop where
  inUse : (w'.state.tasks id).inUse = true
  log : ∃ l, w'.log = w.log ++ l ∧ finishedAt trace id (l.map Prod.fst) = some c ∧
    ((∀ x ∈ l, x.1 ≠ .resetStats) → (w'.state.stats id).overrunCount =
      (w.state.stats id).overrunCount +
        if timeReached (BitVec.ofNat 32 c) (w'.state.tasks id).nextRelease then 1 else 0)

section Checks

variable {trace : Bool} {id : Fin schMaxTasks} {c : Nat} {w₁ w₂ w₃ : SchWorld σ}

theorem finishedAt_of_passed {before : List SchEvent}
    (apart : ∀ e ∈ before, e ≠ .returned .periodic id) (after : List SchEvent) :
    finishedAt trace id (before ++ after) = finishedAt trace id after := by
  rw [finishedAt, finishedAt, List.dropWhile_append_of_pos fun e mem => by simpa using apart e mem]

theorem finishedAt_append {events : List SchEvent} (h : finishedAt trace id events = some c)
    (after : List SchEvent) : finishedAt trace id (events ++ after) = some c := by
  rw [finishedAt] at h ⊢
  obtain ⟨inside, -⟩ := List.getElem?_eq_some_iff.mp h
  have returned : (events.dropWhile fun e => e ≠ .returned .periodic id).isEmpty ≠ true := by
    rw [Ne, List.isEmpty_iff]
    intro empty
    rw [empty] at inside
    exact absurd inside (Nat.not_lt_zero _)
  rw [List.dropWhile_append, if_neg returned, readings, List.filterMap_append]
  exact (List.getElem?_append_left inside).trans h

theorem Passes.checks (h : Passes id w₁ w₂) (k : Checks trace id c w₂ w₃) :
    Checks trace id c w₁ w₃ := by
  obtain ⟨l, log, apart, kept⟩ := h.log
  obtain ⟨m, log', finished, counted⟩ := k.log
  refine ⟨k.inUse, l ++ m, ?_, ?_, fun unreset => ?_⟩
  · exact World.log_trans log log'
  · rw [List.map_append, finishedAt_of_passed]
    · exact finished
    · exact List.forall_mem_map.mpr apart
  · rw [counted fun x mem => unreset x (List.mem_append_right _ mem),
      kept fun x mem => unreset x (List.mem_append_left _ mem)]

theorem Checks.passes (h : Checks trace id c w₁ w₂) (k : Passes id w₂ w₃) :
    Checks trace id c w₁ w₃ := by
  obtain ⟨l, log, finished, counted⟩ := h.log
  obtain ⟨m, log', -, kept⟩ := k.log
  refine ⟨k.inUse, l ++ m, ?_, ?_, fun unreset => ?_⟩
  · exact World.log_trans log log'
  · rw [List.map_append]
    exact finishedAt_append finished _
  · rw [kept fun x mem => unreset x (List.mem_append_right _ mem),
      counted fun x mem => unreset x (List.mem_append_left _ mem), k.nextRelease]

end Checks

section Runs

variable (trace : Bool) (port : Port σ) {id : Fin schMaxTasks} {w w₀ : SchWorld σ}

theorem executePeriodic_checks (now : BitVec 32) (pending : Pending w.state id) :
    ∃ c, Checks trace id c w (executePeriodic ⟨true, trace⟩ port now id w) := by
  have used : ((w.modify fun s => s.release now id).state.tasks id).inUse = true := by
    rw [World.modify_state, release_inUse]
    exact pending.inUse
  have begun := ((Passes.refl _ used).statsBegin ⟨true, trace⟩ port id).traceNow ⟨true, trace⟩ port
    .taskStart id
  have called := begun.called ⟨true, trace⟩ port .periodic id (w.state.tasks id).fn
    (w.state.tasks id).ctx (port.task (w.state.tasks id).fn (w.state.tasks id).ctx
      (traceNow ⟨true, trace⟩ port .taskStart id
        (statsBegin ⟨true, trace⟩ port id (w.modify fun s => s.release now id)).2).env)
  unfold executePeriodic
  dsimp only
  rw [callTask]
  dsimp only [World.emit_env]
  generalize (statsBegin ⟨true, trace⟩ port id (w.modify fun s => s.release now id)).1 = execStart
  generalize Callback.exec _ _ _ _ = u at called ⊢
  obtain ⟨time, ended⟩ := statsEnd_reads trace port (u.emit (.returned .periodic id)) id execStart
  obtain ⟨times, length, traced⟩ := traceNow_reads trace port
    (statsEnd ⟨true, trace⟩ port id execStart (u.emit (.returned .periodic id))) .taskEnd id
  have read := ended.trans traced
  generalize traceNow _ _ _ _ _ = v at read ⊢
  obtain ⟨counted, m, log', last⟩ := checkOverrun_count trace port v id
    (w.state.tasks id).periodTicks pending.periodic
  have tasks := (checkOverrun_silent ⟨true, trace⟩ port id (w.state.tasks id).periodTicks v).tasks
  obtain ⟨l, log, apart, kept⟩ := called.log
  obtain ⟨k, log'', between⟩ := read.log
  generalize checkOverrun _ _ _ _ _ = w' at counted log' tasks ⊢
  have grown : w'.log = w.log ++ (l ++ (.returned .periodic id, u.state) :: (k ++ m)) := by
    rw [log', log'', World.emit_log, log, World.modify_log]
    simp only [List.append_assoc, List.cons_append, List.nil_append]
  refine ⟨(port.time v.env).1, ?_, _, grown, ?_, fun unreset => ?_⟩
  · rw [tasks, read.tasks]
    exact called.inUse
  · rw [List.map_append, finishedAt_of_passed (List.forall_mem_map.mpr apart), finishedAt,
      List.map_cons, List.dropWhile_cons_of_neg (by simp), readings,
      List.filterMap_cons_none rfl, List.map_append, List.filterMap_append]
    rw [readings] at between last
    rw [between, last]
    cases trace <;> simp [length]
  · rw [counted, read.count, World.emit_state, tasks,
      kept fun x mem => unreset x (List.mem_append_left _ mem)]
    rfl

theorem runPeriodic_passes (now : BitVec 32) (n : Nat) (h : Passes id w₀ w)
    (quiet : ¬ Pending w.state id) :
    Passes id w₀ (runPeriodic ⟨true, trace⟩ port now n w) := by
  refine (runPeriodic_keeps ⟨true, trace⟩ port (fun v => Passes id w₀ v ∧ ¬ Pending v.state id) now
    n w ⟨h, quiet⟩ fun v i pending ⟨old, quiet⟩ => ?_).1
  have other : i ≠ id := by
    rintro rfl
    exact quiet pending
  have after := pending_after pending.inUse
    (executePeriodic_performs ⟨true, trace⟩ port now i v).grows id
  exact ⟨old.executePeriodic ⟨true, trace⟩ port now i other, fun still => quiet (after.mp still).1⟩

theorem runPeriodic_checks (now : BitVec 32) (n : Nat) (pending : Pending w.state id)
    (enough : pendingCount w.state ≤ n) :
    ∃ c, Checks trace id c w (runPeriodic ⟨true, trace⟩ port now n w) := by
  induction n generalizing w with
  | zero =>
    have fewer : pendingCount (w.state.release now id) < pendingCount w.state :=
      pendingCount_after pending (Grows.refl _)
    omega
  | succ n ih =>
    unfold runPeriodic
    cases found : selectPendingTask w.state with
    | none => exact absurd pending (selectPendingTask_none found id)
    | some selected =>
      have first := (selectPendingTask_some found).1
      have grows := (executePeriodic_performs ⟨true, trace⟩ port now selected w).grows
      have after := pending_after first.inUse grows id
      by_cases own : selected = id
      · subst own
        obtain ⟨c, checked⟩ := executePeriodic_checks trace port now pending
        exact ⟨c, checked.passes (runPeriodic_passes trace port now n
          (Passes.refl _ checked.inUse) fun still => (after.mp still).2 rfl)⟩
      · have fewer := pendingCount_after first grows
        obtain ⟨c, checked⟩ := ih (after.mpr ⟨pending, Ne.symm own⟩) (by omega)
        exact ⟨c, ((Passes.refl w pending.inUse).executePeriodic ⟨true, trace⟩ port now selected
          own).checks checked⟩

theorem run_marks (settled : Settled w.state) (used : (w.state.tasks id).inUse = true) :
    let marked := markPeriodicReady ⟨true, trace⟩ port (nowTicks port w).1 (nowTicks port w).2
    Passes id w marked ∧
      (Pending marked.state id ↔ ReadyAt (BitVec.ofNat 32 (entryTime port w)) (w.state.tasks id)) :=
  ⟨((Passes.refl w used).nowTicks port).markPeriodicReady ⟨true, trace⟩ port _,
    pending_marked_iff settled (congrFun (markPeriodicReady_marks ⟨true, trace⟩ port
      (nowTicks port w).1 (nowTicks port w).2).tasks) id⟩

theorem run_passes (settled : Settled w.state) (used : (w.state.tasks id).inUse = true)
    (quiet : ¬ ReadyAt (BitVec.ofNat 32 (entryTime port w)) (w.state.tasks id)) :
    Passes id w (run ⟨true, trace⟩ port w) := by
  obtain ⟨passes, ready⟩ := run_marks trace port settled used
  exact (runPeriodic_passes trace port (nowTicks port w).1 schMaxTasks passes
    (mt ready.mp quiet)).runBackground ⟨true, trace⟩ port

theorem run_checks (settled : Settled w.state)
    (ready : ReadyAt (BitVec.ofNat 32 (entryTime port w)) (w.state.tasks id)) :
    ∃ c, Checks trace id c w (run ⟨true, trace⟩ port w) := by
  obtain ⟨passes, pending⟩ := run_marks trace port settled ready.inUse
  obtain ⟨c, checked⟩ := runPeriodic_checks trace port (nowTicks port w).1 schMaxTasks
    (pending.mpr ready) (pendingCount_le _)
  refine ⟨c, (passes.checks checked).passes ?_⟩
  exact (Passes.refl _ checked.inUse).runBackground ⟨true, trace⟩ port

end Runs

section Exact

variable (trace : Bool) (port : Port σ) (r : Registration)

def Overruns (w w' : SchWorld σ) : Prop :=
  executions r.id w w' = [r.action] ∧ ∃ c next,
    finishedAt trace r.id (World.eventsSince w w') = some c ∧
    IsLeast {x | entryTime port w < x ∧ ∃ m, point r.first r.period m = x} next ∧ next ≤ c

/-- The callback is over within half the range after the entry of the run. -/
def InTime (w w' : SchWorld σ) : Prop :=
  ∀ c, finishedAt trace r.id (World.eventsSince w w') = some c →
    entryTime port w ≤ c ∧ c < entryTime port w + 2 ^ 31

structure CountsOverruns (w w' : SchWorld σ) : Prop where
  finishes : executions r.id w w' = [r.action] →
    ∃ c, finishedAt trace r.id (World.eventsSince w w') = some c
  counts : Unreset w w' → InTime trace port r w w' → Overruns trace port r w w' →
    (w'.state.stats r.id).overrunCount = (w.state.stats r.id).overrunCount + 1
  spares : Unreset w w' → InTime trace port r w w' → ¬ Overruns trace port r w w' →
    (w'.state.stats r.id).overrunCount = (w.state.stats r.id).overrunCount

variable {trace port r} {seen : Option Nat} {w w' : SchWorld σ}

theorem Passes.countsOverruns (h : Passes r.id w w')
    (skipped : executions r.id w w' = []) : CountsOverruns trace port r w w' := by
  have idle : executions r.id w w' ≠ [r.action] := by
    rw [skipped]
    exact (List.cons_ne_nil _ _).symm
  refine ⟨fun executed => absurd executed idle, fun _ _ overruns => absurd overruns.1 idle,
    fun unreset _ _ => ?_⟩
  obtain ⟨l, log, -, kept⟩ := h.log
  rw [Unreset, World.since_of_log _ _ l log] at unreset
  exact kept unreset

theorem Checks.countsOverruns {c : Nat} (h : Checks trace r.id c w w')
    (limits : r.InRange) (started : r.time ≤ entryTime port w)
    (executed : executions r.id w w' = [r.action])
    (next : (w'.state.tasks r.id).nextRelease =
      BitVec.ofNat 32 (nextAfter r.first r.period (entryTime port w))) :
    CountsOverruns trace port r w w' := by
  obtain ⟨l, log, finished, counted⟩ := h.log
  rw [← World.eventsSince_of_log w w' l log] at finished
  have least := isLeast_nextAfter r.first r.period limits.positive (entryTime port w)
  have exact_check (unreset : Unreset w w') (inTime : InTime trace port r w w') :
      (w'.state.stats r.id).overrunCount = (w.state.stats r.id).overrunCount +
        if nextAfter r.first r.period (entryTime port w) ≤ c then 1 else 0 := by
    obtain ⟨after, near⟩ := inTime c finished
    have above := nextAfter_gt r.first r.period limits.positive (entryTime port w)
    have below := nextAfter_le r.first r.period (entryTime port w)
    have first : r.first = r.time + r.delay := rfl
    have period := limits.period
    have delay := limits.delay
    have reached := timeReached_ofNat c (nextAfter r.first r.period (entryTime port w))
      (by omega) (by omega)
    rw [Unreset, World.since_of_log _ _ l log] at unreset
    simp only [counted unreset, next, reached]
  refine ⟨fun _ => ⟨c, finished⟩, fun unreset inTime overruns => ?_,
    fun unreset inTime spared => ?_⟩
  · obtain ⟨-, c', next', finished', least', late⟩ := overruns
    obtain rfl : c = c' := Option.some.inj (finished.symm.trans finished')
    obtain rfl := least.unique least'
    rw [exact_check unreset inTime, if_pos late]
  · have early : ¬ nextAfter r.first r.period (entryTime port w) ≤ c := fun late =>
      spared ⟨executed, c, _, finished, least, late⟩
    rw [exact_check unreset inTime, if_neg early]
    exact BitVec.add_zero _

theorem Scheduled.countsOverruns (settled : Settled w.state) (h : Scheduled r seen w.state)
    (limits : r.InRange) (order : r.time ≤ seen.getD r.time)
    (after : seen.getD r.time ≤ entryTime port w)
    (near : entryTime port w < seen.getD r.time + 2 ^ 31) :
    CountsOverruns trace port r w (Scheduler.run ⟨true, trace⟩ port w) := by
  obtain ⟨-, decides⟩ := Scheduled.run ⟨true, trace⟩ port settled h limits order after near
  have used : (w.state.tasks r.id).inUse = true := by
    rw [h]
    rfl
  obtain ⟨ids, cycles⟩ := run_cycles ⟨true, trace⟩ port w settled
  have taken := cycles.executions_eq r.id
  by_cases ready : ReadyAt (BitVec.ofNat 32 (entryTime port w)) (w.state.tasks r.id)
  · obtain ⟨c, checked⟩ := run_checks trace port settled ready
    have own : periodicAction w.state r.id = r.action := by
      rw [periodicAction, h]
      rfl
    rw [if_pos ((cycles.members r.id).mpr ready), own] at taken
    have next := decides.next
    dsimp only at next
    exact checked.countsOverruns limits (order.trans after) taken next
  · rw [if_neg fun mem => ready ((cycles.members r.id).mp mem)] at taken
    exact (run_passes trace port settled used ready).countsOverruns taken

theorem Scheduled.all_countOverruns (settled : Settled w.state) (h : Scheduled r seen w.state)
    (limits : r.InRange) (order : r.time ≤ seen.getD r.time) (calls : List (Call σ))
    (spaced : Spaced (seen.getD r.time) (entryTimes port (runs ⟨true, trace⟩ port w calls))) :
    ∀ u ∈ runs ⟨true, trace⟩ port w calls, CountsOverruns trace port r u.1 u.2 := by
  induction calls generalizing w seen with
  | nil => exact fun u mem => by cases mem
  | cons c rest ih =>
    by_cases isRun : c = .run
    · subst isRun
      obtain ⟨⟨after, near⟩, spaced'⟩ := List.isChain_cons_cons.mp spaced
      obtain ⟨scheduled, -⟩ := Scheduled.run ⟨true, trace⟩ port settled h limits order after near
      refine List.forall_mem_cons.mpr ⟨?_, ih (step_settled ⟨true, trace⟩ port w .run settled)
        scheduled (order.trans after) spaced'⟩
      dsimp only
      exact h.countsOverruns settled limits order after near
    · rw [runs_cons_of_ne ⟨true, trace⟩ port w c rest isRun] at spaced ⊢
      exact ih (step_settled ⟨true, trace⟩ port w c settled)
        (h.grows (step_undisturbed ⟨true, trace⟩ port w c isRun).grows) order spaced

end Exact

/-- Run by run, whatever made the callback late: the count goes up just if the run executes the
task and is over with it when the next release has come. -/
theorem overruns_exact (trace : Bool) (port : Port σ) (env : σ) (before : List (Call σ))
    (c : Call σ) (r : Registration)
    (added : r ∈ registrationsIn ⟨true, trace⟩ port (history ⟨true, trace⟩ port env before) c)
    (positive : 0 < r.period) (period : r.period ≤ 2 ^ 31) (delay : r.delay ≤ 2 ^ 31)
    (later : List (Call σ))
    (spaced : Spaced r.time (entryTimes port
      (runs ⟨true, trace⟩ port (history ⟨true, trace⟩ port env (before ++ [c])) later))) :
    ∀ u ∈ runs ⟨true, trace⟩ port (history ⟨true, trace⟩ port env (before ++ [c])) later,
      CountsOverruns trace port r u.1 u.2 := by
  have task := (registered_registers ⟨true, trace⟩ port _ (history_settled ⟨true, trace⟩ port env
    before) c r added).2
  rw [← history_concat] at task
  exact (Registration.task_scheduled task).all_countOverruns
    (history_settled ⟨true, trace⟩ port env _) ⟨positive, period, delay⟩ (le_refl _) later spaced

/-- The counter wraps while the callback runs, from 5 ticks before to 10 ticks after; the next
release is 5 ticks after the wrap. -/
theorem overruns_exact_wrap :
    let w := history ⟨true, false⟩ slowPort (2 ^ 32 - 5) [.addTask ⟨1, 0, 10, 0, 0⟩]
    ((run ⟨true, false⟩ slowPort w).state.stats 0).overrunCount =
      (w.state.stats 0).overrunCount + 1 := by
  intro w
  have counts := overruns_exact false slowPort (2 ^ 32 - 5) [] (.addTask ⟨1, 0, 10, 0, 0⟩)
    ⟨0, ⟨1, 0, 10, 0, 0⟩, 2 ^ 32 - 5⟩ (by decide) (by decide) (by decide) (by decide) [.run] (by
      refine List.IsChain.cons_cons ⟨?_, ?_⟩ (List.IsChain.singleton _) <;> decide)
    (w, run ⟨true, false⟩ slowPort w) (List.mem_singleton.mpr rfl)
  have finished : finishedAt false 0 (World.eventsSince w (run ⟨true, false⟩ slowPort w)) =
      some (2 ^ 32 + 10) := by decide +kernel
  dsimp only at counts
  have counted := counts.counts (by decide +kernel) (fun c finished' => by
      obtain rfl := Option.some.inj (finished.symm.trans finished')
      decide +kernel)
    ⟨by decide +kernel, _, _, finished, isLeast_nextAfter _ _ (by decide) _, by decide +kernel⟩
  dsimp only at counted
  exact counted

end SchedulerLib.Scheduler
