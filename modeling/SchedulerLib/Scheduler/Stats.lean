import SchedulerLib.Scheduler.Accounting

/-!
The statistics against the execution history. `durations` is what the executions of a task
took by the readings of the clock around its callback. The scheduler charges other ticks
where a callback resets the statistics after a start at a tick other than 0, and, with tracing,
where the clock moves between the two readings before a periodic callback; and it loses count
at 2^32 executions.
-/

namespace SchedulerLib.Scheduler

open Lib

def durations (id : Fin schMaxTasks) (events : List SchEvent) : List (BitVec 32) :=
  tally Stopwatch.elapsed id events

structure StatsMatch (events : List SchEvent) (s : Sch) : Prop where
  lastExecTicks : ∀ before i execStart execEnd,
    events = before ++ [.completed i execStart execEnd] →
    (s.stats i).lastExecTicks = (stopwatch before).elapsed
  runCount : ∀ i, (s.stats i).runCount.toNat = (durations i events).length
  totalExecTicks : ∀ i,
    (s.stats i).totalExecTicks.toNat = ((durations i events).map BitVec.toNat).sum % 2 ^ 32
  maxExecTicks : ∀ i,
    (s.stats i).maxExecTicks.toNat = ((durations i events).map BitVec.toNat).foldl max 0

/-- After a reset the callback has begun at tick 0; else, if the clock was read for the trace
too, that reading is the one before it. -/
def Stopwatch.Steady (trace : Bool) (watch : Stopwatch) : Prop :=
  (watch.reset = true → watch.start = 0) ∧
    (watch.reset = false → trace = true → watch.phase = .periodic →
      watch.begun.tail.headD 0 = watch.start)

theorem Stopwatch.left_eq_start_iff (trace : Bool) (watch : Stopwatch) :
    watch.left trace = watch.start ↔ watch.Steady trace := by
  unfold Stopwatch.left Stopwatch.Steady
  cases reset : watch.reset with
  | true =>
    rw [if_pos rfl, eq_comm]
    exact ⟨fun start => ⟨fun _ => start, fun on => by cases on⟩, fun steady => steady.1 rfl⟩
  | false =>
    rw [if_neg Bool.false_ne_true, Stopwatch.stored]
    split_ifs with traced
    · exact ⟨fun same => ⟨fun on => (by cases on), fun _ _ _ => same⟩,
        fun steady => steady.2 rfl traced.1 traced.2⟩
    · exact iff_of_true rfl ⟨fun on => (by cases on),
        fun _ on periodic => absurd ⟨on, periodic⟩ traced⟩

theorem Stopwatch.charge_eq_elapsed_iff (trace : Bool) (watch : Stopwatch) :
    watch.charge trace = watch.elapsed ↔ watch.Steady trace := by
  rw [← Stopwatch.left_eq_start_iff, Stopwatch.charge, Stopwatch.elapsed]
  constructor
  · intro same
    bv_omega
  · intro same
    rw [same]

structure Measurable (trace : Bool) (events : List SchEvent) : Prop where
  starts : ∀ before i execStart execEnd, before ++ [.completed i execStart execEnd] <+: events →
    (stopwatch before).Steady trace
  counts : ∀ before, before <+: events → ∀ i, (durations i before).length < 2 ^ 32

variable {trace : Bool}

theorem Measurable.earlier {events before : List SchEvent} (h : Measurable trace events)
    (prior : before <+: events) : Measurable trace before where
  starts done i execStart execEnd inside :=
    h.starts done i execStart execEnd (inside.trans prior)
  counts done inside := h.counts done (inside.trans prior)

theorem Measurable.charged_eq {events : List SchEvent} (h : Measurable trace events)
    (id : Fin schMaxTasks) : charged trace id events = durations id events := by
  induction events using List.reverseRecOn with
  | nil => rfl
  | append_singleton before e ih =>
    rw [charged_concat, durations, tally_concat, ih (h.earlier (List.prefix_append before [e]))]
    cases e with
    | completed i execStart execEnd =>
      have steady := h.starts before i execStart execEnd List.prefix_rfl
      rw [tallyStep, tallyStep, (Stopwatch.charge_eq_elapsed_iff trace _).mpr steady, durations]
    | _ => rfl

theorem Accounts.statsMatch {events : List SchEvent} {s : Sch} (h : Accounts trace events s)
    (measurable : Measurable trace events) : StatsMatch events s where
  lastExecTicks before i execStart execEnd last := by
    rw [(h.stats i).last, measurable.charged_eq, last, durations, tally_concat]
    simp [tallyStep]
  runCount i := by
    rw [(h.stats i).runCount, measurable.charged_eq, BitVec.toNat_ofNat,
      Nat.mod_eq_of_lt (measurable.counts events List.prefix_rfl i)]
  totalExecTicks i := by
    rw [(h.stats i).total, measurable.charged_eq, BitVec.toNat_ofNat]
  maxExecTicks i := by
    rw [(h.stats i).longest, measurable.charged_eq]

theorem StatsMatch.steady {before : List SchEvent} {i : Fin schMaxTasks}
    {execStart execEnd : BitVec 32} {s : Sch}
    (h : StatsMatch (before ++ [.completed i execStart execEnd]) s)
    (accounts : Accounts trace (before ++ [.completed i execStart execEnd]) s) :
    (stopwatch before).Steady trace := by
  have charge := (accounts.stats i).last
  rw [h.lastExecTicks before i execStart execEnd rfl, charged_concat] at charge
  simp only [tallyStep, if_true, List.getLastD_concat] at charge
  exact (Stopwatch.charge_eq_elapsed_iff trace _).mp charge.symm

variable {σ : Type}

/-- The statistics equal the execution history at every moment of a history exactly if its
events are measurable. -/
theorem stats_match_iff (trace : Bool) (port : Port σ) (env : σ) (calls : List (Call σ)) :
    let w := history ⟨true, trace⟩ port env calls
    World.Throughout StatsMatch w ↔ Measurable trace w.events := by
  intro w
  have accounts : World.Throughout (Accounts trace) w := history_accounts trace port env calls
  constructor
  · intro always
    refine ⟨fun before i execStart execEnd logged => ?_, fun before earlier i => ?_⟩
    · obtain ⟨s, both⟩ := (always.and accounts).at_event before _ logged
      exact both.1.steady both.2
    · rcases List.eq_nil_or_concat before with rfl | ⟨before, e, rfl⟩
      · exact Nat.two_pow_pos 32
      · rw [List.concat_eq_append] at earlier ⊢
        obtain ⟨s, now⟩ := always.at_event before e earlier
        rw [← now.runCount i]
        exact (s.stats i).runCount.isLt
  · intro measurable
    exact accounts.imp fun events s earlier now => now.statsMatch (measurable.earlier earlier)

def resettingPort : Port Nat where
  time now := (now, now)
  task _ _ now := .resetStats now fun now => .ret (now + 5)
  traceHook _ _ _ _ _ now := now
  idle now := now

/-- The task runs from tick 100 to tick 105, and 105 ticks are charged. -/
theorem stats_mismatch_reset :
    let w := history ⟨true, false⟩ resettingPort 100 [.addTask ⟨1, 0, 10, 0, 0⟩, .run]
    SchEvent.completed 0 100 105 ∈ w.events ∧ durations 0 w.events = [5] ∧
      (w.state.stats 0).lastExecTicks = 105 ∧ (w.state.stats 0).totalExecTicks = 105 ∧
      (w.state.stats 0).maxExecTicks = 105 ∧ ¬ World.Throughout StatsMatch w := by
  intro w
  have logged : SchEvent.completed 0 100 105 ∈ w.events := by decide +kernel
  have taken : durations 0 w.events = [5] := by decide +kernel
  have total : (w.state.stats 0).totalExecTicks = 105 := by decide +kernel
  refine ⟨logged, taken, by decide +kernel, total, by decide +kernel, fun always => ?_⟩
  have claimed := always.now.totalExecTicks 0
  rw [taken, total] at claimed
  exact absurd claimed (by decide)

def tickingPort : Port Nat where
  time now := (now + 1, now + 1)
  task _ _ now := .ret (now + 5)
  traceHook _ _ _ _ _ now := now
  idle now := now

/-- With tracing, the tick charged to a periodic task is read one reading before its start. -/
example :
    let w := history ⟨true, true⟩ tickingPort 99 [.addTask ⟨1, 0, 10, 0, 0⟩, .run]
    durations 0 w.events = [6] ∧ (w.state.stats 0).lastExecTicks = 7 := by
  decide +kernel

end SchedulerLib.Scheduler
