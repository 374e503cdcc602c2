import SchedulerLib.Scheduler.CatchUp

/-!
What is due when a run hands over to a background task or to the idle hook. The ready set
is the one of the tick sampled at entry, and all of it has been executed by then. What
becomes due while the callbacks run, or is registered by them, waits for the next run.
-/

namespace SchedulerLib.Scheduler

open Lib

def latestTick (events : List SchEvent) : BitVec 32 :=
  History.latest (fun e => match e with
    | .nowTicks time => some (BitVec.ofNat 32 time)
    | _ => none) 0 events

/-- The calls of a run that are for the time when no periodic task is ready. -/
def SchEvent.handsOver : SchEvent → Bool
  | .callback .background _ _ _ => true
  | .idle => true
  | _ => false

theorem advanceNextRelease_ahead {now next period : BitVec 32} (positive : period ≠ 0)
    (limit : period.toNat ≤ 2 ^ 31) (reached : timeReached now next = true) :
    timeReached now (advanceNextRelease now next period) = false := by
  have loop := (while_of_reached positive limit reached _).mpr rfl
  rw [← Bool.not_eq_true]
  exact loop.stopped

theorem not_ready_of_released {now : BitVec 32} {task : SchTask} (ready : ReadyAt now task)
    (limit : task.periodTicks.toNat ≤ 2 ^ 31) : ¬ ReadyAt now (released now task) := by
  intro again
  have ahead := advanceNextRelease_ahead ready.periodic limit ready.reached
  have reached := again.reached
  rw [released, ahead] at reached
  cases reached

variable {σ : Type} (cfg : Config) (port : Port σ)

theorem Loops.not_ready {now : BitVec 32} {ids : List (Fin schMaxTasks)} {w w' : SchWorld σ}
    (h : Loops now ids w w') (i : Fin schMaxTasks) (used : (w.state.tasks i).inUse = true)
    (limit : (w.state.tasks i).periodTicks.toNat ≤ 2 ^ 31 ∨ ¬ ReadyAt now (w.state.tasks i)) :
    ¬ ReadyAt now (w'.state.tasks i) := by
  by_cases mem : i ∈ ids
  · have ready := (h.members i).mp mem
    rw [h.executed i mem]
    exact not_ready_of_released ready (limit.resolve_right (not_not_intro ready))
  · rw [slot_kept (h.others i mem) used]
    exact fun ready => mem ((h.members i).mpr ready)

theorem Action.of_handsOver {e : SchEvent} (gives : e.handsOver = true) :
    ∃ act, Action.of e = some act ∧ ∀ s i, act ≠ periodicAction s i := by
  cases e with
  | callback phase id fn ctx =>
    cases phase with
    | periodic => cases gives
    | background => exact ⟨_, rfl, fun _ _ => Action.noConfusion⟩
  | idle => exact ⟨_, rfl, fun _ _ => Action.noConfusion⟩
  | _ => cases gives

theorem handsOver_tasks {w : SchWorld σ} (settled : Settled w.state)
    {before after : List (SchEvent × Sch)} {e : SchEvent} {s : Sch}
    (split : World.since w (run cfg port w) = before ++ (e, s) :: after)
    (gives : e.handsOver = true) : s.tasks = (afterLoop cfg port w).state.tasks := by
  obtain ⟨ids, loops⟩ := afterLoop_loops cfg port w settled
  obtain ⟨l, log, periodic, -⟩ := loops.log
  obtain ⟨m, last, snapshot, log', act, same, -, -⟩ :=
    (runBackground_handsOver cfg port _ (loops.settled settled)).log
  rw [run_eq, World.since_of_log _ _ (l ++ m) (World.log_trans log log')] at split
  obtain ⟨action, of, other⟩ := Action.of_handsOver gives
  have taken : (action, s) ∈ actions (l ++ m) := by
    rw [split, actions]
    exact List.mem_filterMap.mpr ⟨(e, s), by simp, by rw [of]; rfl⟩
  rw [actions_append, act, List.mem_append, List.mem_singleton] at taken
  rcases taken with loop | last
  · have listed := List.mem_map_of_mem (f := Prod.fst) loop
    rw [periodic, List.mem_map] at listed
    obtain ⟨i, -, equal⟩ := listed
    exact absurd equal.symm (other _ _)
  · rw [(Prod.mk.inj last).2, same]

/-- Whenever a run starts a background callback or idles, no periodic task that was in use
when the run began is ready at the tick sampled then. A period beyond half the range is out
of reach of the comparison once its task has been released. -/
theorem hand_over_not_ready (env : σ) (calls : List (Call σ))
    (before after : List (SchEvent × Sch)) (e : SchEvent) (s : Sch) :
    let w := history cfg port env calls
    let now := BitVec.ofNat 32 (entryTime port w)
    World.since w (run cfg port w) = before ++ (e, s) :: after → e.handsOver = true →
    ∀ i, (w.state.tasks i).inUse = true →
      ((w.state.tasks i).periodTicks.toNat ≤ 2 ^ 31 ∨ ¬ ReadyAt now (w.state.tasks i)) →
      ¬ ReadyAt now (s.tasks i) := by
  intro w now split gives i used limit
  have settled : Settled w.state := history_settled cfg port env calls
  obtain ⟨ids, loops⟩ := afterLoop_loops cfg port w settled
  have tasks := handsOver_tasks cfg port settled split gives
  rw [tasks]
  exact loops.not_ready i used limit

def slowPort : Port Nat where
  time now := (now, now)
  task _ _ now := .ret (now + 15)
  traceHook _ _ _ _ _ now := now
  idle now := now

def slowTask : SchWorld Nat := history ⟨true, true⟩ slowPort 0 [.addTask ⟨1, 0, 10, 0, 0⟩]

theorem slowTask_idles : ∃ before s,
    World.since slowTask (run ⟨true, true⟩ slowPort slowTask) = before ++ [(.idle, s)] ∧
      latestTick (before.map Prod.fst) = 15 ∧ (s.tasks 0).inUse = true ∧
      (s.tasks 0).periodTicks = 10 ∧ (s.tasks 0).nextRelease = 10 := by
  have last : (World.since slowTask (run ⟨true, true⟩ slowPort slowTask)).getLast?.map
      (fun x => (x.1, (x.2.tasks 0).inUse, (x.2.tasks 0).periodTicks, (x.2.tasks 0).nextRelease)) =
        some (.idle, true, 10, 10) := by decide +kernel
  have latest : latestTick ((World.since slowTask
      (run ⟨true, true⟩ slowPort slowTask)).dropLast.map Prod.fst) = 15 := by decide +kernel
  simp only [Option.map_eq_some_iff, Prod.mk.injEq] at last
  obtain ⟨⟨e, s⟩, found, rfl, used, period, next⟩ := last
  obtain ⟨before, split⟩ := List.getLast?_eq_some_iff.mp found
  rw [split, List.dropLast_concat] at latest
  exact ⟨before, s, split, latest, used, period, next⟩

theorem hand_over_not_ready_slow : ∃ before s,
    World.since slowTask (run ⟨true, true⟩ slowPort slowTask) = before ++ [(.idle, s)] ∧
      ¬ ReadyAt 0 (s.tasks 0) := by
  obtain ⟨before, s, split, -⟩ := slowTask_idles
  exact ⟨before, s, split, hand_over_not_ready ⟨true, true⟩ slowPort 0 _ before [] .idle s split rfl
    0 (by decide +kernel) (Or.inl (by decide +kernel))⟩

theorem hand_over_late : ∃ before s,
    World.since slowTask (run ⟨true, true⟩ slowPort slowTask) = before ++ [(.idle, s)] ∧
      latestTick (before.map Prod.fst) = 15 ∧ ReadyAt 15 (s.tasks 0) := by
  obtain ⟨before, s, split, latest, used, period, next⟩ := slowTask_idles
  refine ⟨before, s, split, latest, used, ?_, ?_⟩
  · rw [period]
    decide
  · rw [next]
    decide

end SchedulerLib.Scheduler
