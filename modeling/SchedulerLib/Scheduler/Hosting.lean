import SchedulerLib.Lib.History
import SchedulerLib.Scheduler.Schedulability

/-!
Components outside of the scheduler that one of its tasks runs. The view of such a component
changes in the callback of that task, by one marked call of its own history, and elsewhere
by unmarked ones: interrupts, or other tasks that use it. What the scheduler does then leads
to a history of the component with a marked call for each callback in the log.
-/

namespace SchedulerLib.Scheduler

open Lib History ReleaseGrid

variable {σ : Type}

/-- `P` is about what lies outside, and survives all that a run calls there. -/
structure Outside (cfg : Config) (port : Port σ) (P : SchWorld σ → Prop) : Prop where
  setState : ∀ w s, P w → P (w.setState s)
  read : ∀ w, P w → P (nowTicks port w).2
  trace : ∀ w event taskId timestamp, P w → P (traceEmit port event taskId timestamp w)
  completed : ∀ w id execStart execEnd, P w → P (w.emit (.completed id execStart execEnd))
  call : ∀ w phase id fn ctx, P w → P (callTask cfg port phase id fn ctx w)
  idle : ∀ w, P w → P ((w.setEnv (port.idle w.env)).emit .idle)

namespace Outside

variable {cfg : Config} {port : Port σ} {P : SchWorld σ → Prop} {w : SchWorld σ}

theorem traceNow (h : Outside cfg port P) (start : P w) (event : SchTraceEvent) (taskId : Int) :
    P (traceNow cfg port event taskId w) := by
  unfold Scheduler.traceNow
  split_ifs
  · exact h.trace _ _ _ _ (h.read w start)
  · exact start

theorem statsBegin (h : Outside cfg port P) (start : P w) (id : Fin schMaxTasks) :
    P (statsBegin cfg port id w).2 := by
  unfold Scheduler.statsBegin
  split_ifs
  · exact h.setState _ _ (h.read w start)
  · exact start

theorem statsEnd (h : Outside cfg port P) (start : P w) (id : Fin schMaxTasks)
    (execStart : BitVec 32) : P (statsEnd cfg port id execStart w) := by
  unfold Scheduler.statsEnd
  split_ifs
  · exact h.completed _ id execStart _ (h.setState _ _ (h.read w start))
  · exact start

theorem markSlot (h : Outside cfg port P) (now : BitVec 32) (w : SchWorld σ)
    (i : Fin schMaxTasks) (start : P w) : P (markSlot cfg port now w i) := by
  have noted : P (noteMiss cfg port now i w) :=
    noteMiss_keeps cfg port P now i w start (fun v before => h.setState v _ before)
      fun v before => h.trace v _ _ _ before
  unfold Scheduler.markSlot
  dsimp only
  split_ifs
  · exact start
  · exact h.setState _ _ noted
  · exact start

theorem executePeriodic (h : Outside cfg port P) (now : BitVec 32) (selected : Fin schMaxTasks)
    (w : SchWorld σ) (start : P w) : P (executePeriodic cfg port now selected w) := by
  have released : P (w.modify fun s => s.release now selected) := h.setState w _ start
  have begun := h.traceNow (h.statsBegin released selected) .taskStart selected
  have called := h.call _ .periodic selected (w.state.tasks selected).fn
    (w.state.tasks selected).ctx begun
  have ended := h.traceNow (h.statsEnd called selected (Scheduler.statsBegin cfg port selected
    (w.modify fun s => s.release now selected)).1) .taskEnd selected
  exact checkOverrun_keeps cfg port P selected (w.state.tasks selected).periodTicks _
    (h.read _ ended) (fun v before => h.setState v _ before)
    fun v timestamp before => h.trace v _ _ timestamp before

theorem runIdle (h : Outside cfg port P) (start : P w) : P (runIdle cfg port w) :=
  h.idle _ (h.traceNow start .idle schInvalidTaskId)

theorem executeBackground (h : Outside cfg port P) (id : Fin schMaxTasks) (fn ctx : Address)
    (start : P w) : P (executeBackground cfg port id fn ctx w) := by
  have begun := h.statsBegin (h.traceNow start .taskStart id) id
  have called := h.call _ .background id fn ctx begun
  exact h.traceNow (h.statsEnd called id _) .taskEnd id

theorem run (h : Outside cfg port P) (start : P w) : P (run cfg port w) := by
  have marked : P (markPeriodicReady cfg port (nowTicks port w).1 (nowTicks port w).2) :=
    markPeriodicReady_keeps cfg port P _ _ (h.read w start) fun v i => h.markSlot _ v i
  have looped : P (afterLoop cfg port w) :=
    runPeriodic_keeps cfg port P _ schMaxTasks _ marked fun v i _ => h.executePeriodic _ i v
  exact runBackground_keeps cfg port P P (afterLoop cfg port w) (h.setState _ _ looped)
    (fun _ before => h.runIdle before) fun _ i _ before => h.executeBackground i _ _ before

end Outside

def Action.isCallOf (fn ctx : Address) : Action → Bool
  | .periodic _ f c | .background _ f c => f == fn && c == ctx
  | .idle => false

def callsOf (fn ctx : Address) (log : List (SchEvent × Sch)) : Nat :=
  (actions log).countP fun x => x.1.isCallOf fn ctx

theorem callsOf_append (fn ctx : Address) (l m : List (SchEvent × Sch)) :
    callsOf fn ctx (l ++ m) = callsOf fn ctx l + callsOf fn ctx m := by
  rw [callsOf, actions_append, List.countP_append]
  rfl

section Releases

variable {cfg : Config} {port : Port σ} {r : Registration}

theorem runs_append (w : SchWorld σ) (early late : List (Call σ)) :
    runs cfg port w (early ++ late) =
      runs cfg port w early ++ runs cfg port (early.foldl (step cfg port) w) late := by
  induction early generalizing w with
  | nil => rfl
  | cons c rest ih =>
    by_cases isRun : c = .run
    · subst isRun
      simp only [List.cons_append, runs, List.foldl_cons, step, ih]
    · rw [List.cons_append, runs_cons_of_ne cfg port w c _ isRun,
        runs_cons_of_ne cfg port w c _ isRun, ih, List.foldl_cons]

theorem calls_of_executions {w w' : SchWorld σ} {l : List (SchEvent × Sch)}
    (log : w'.log = w.log ++ l) (executed : executions r.id w w' = [r.action]) :
    0 < callsOf r.request.fn r.request.ctx l := by
  have mem : r.action ∈ (actions l).map Prod.fst := by
    have once : r.action ∈ executions r.id w w' := by simp [executed]
    rw [executions, actionsSince, World.since_of_log _ _ l log] at once
    exact List.mem_of_mem_filter once
  obtain ⟨x, called, same⟩ := List.mem_map.mp mem
  refine List.countP_pos_iff.mpr ⟨x, called, ?_⟩
  rw [same]
  simp [Registration.action, Action.isCallOf]

theorem calls_of_answers {wait response : Nat} {numbers : List (Option Nat)} {w : SchWorld σ}
    {calls : List (Call σ)} (settled : Settled w.state)
    (h : List.Forall₂ (Answers cfg port r wait response) numbers (runs cfg port w calls)) :
    ∃ l, (calls.foldl (step cfg port) w).log = w.log ++ l ∧
      numbers.reduceOption.length ≤ callsOf r.request.fn r.request.ctx l := by
  induction calls generalizing w numbers with
  | nil =>
    cases h
    exact ⟨[], (List.append_nil _).symm, Nat.zero_le _⟩
  | cons c rest ih =>
    have settled' := step_settled cfg port w c settled
    obtain ⟨l, log⟩ := step_log cfg port w c settled
    rw [List.foldl_cons]
    by_cases isRun : c = .run
    · subst isRun
      rw [runs] at h
      rw [step] at settled' log ⊢
      cases h with
      | @cons number _ numbers _ answers others =>
        obtain ⟨m, log', later⟩ := ih settled' others
        refine ⟨l ++ m, World.log_trans log log', ?_⟩
        rw [callsOf_append]
        cases number with
        | none =>
          rw [List.reduceOption_cons_of_none]
          omega
        | some n =>
          rw [Answers] at answers
          have executed := answers.executed
          dsimp only at executed
          have called := calls_of_executions log executed
          rw [List.reduceOption_cons_of_some, List.length_cons]
          omega
    · rw [runs_cons_of_ne cfg port w c rest isRun] at h
      obtain ⟨m, log', later⟩ := ih settled' h
      refine ⟨l ++ m, World.log_trans log log', ?_⟩
      rw [callsOf_append]
      omega

theorem calls_since {wait response : Nat} {w : SchWorld σ} {early late : List (Call σ)}
    (settled : Settled w.state) (positive : 0 < r.period)
    (paced : Paced r.first wait none (entryTimes port (runs cfg port w (early ++ late))))
    (short : wait < r.period)
    (answers : List.Forall₂ (Answers cfg port r wait response)
      (newPoints r.first r.period none (entryTimes port (runs cfg port w (early ++ late))))
      (runs cfg port w (early ++ late)))
    {start count : Nat} (entered : ∀ t ∈ entryTimes port (runs cfg port w early), t ≤ start)
    (near : r.first ≤ start + r.period)
    (later : ∃ t ∈ (entryTimes port (runs cfg port w (early ++ late))).getLast?,
      start + count * r.period ≤ t) :
    ∃ l, ((early ++ late).foldl (step cfg port) w).log =
        (early.foldl (step cfg port) w).log ++ l ∧
      count ≤ callsOf r.request.fn r.request.ctx l := by
  obtain ⟨t, last, late_enough⟩ := later
  have numbers := (paced.in_order positive short.le).2
  rw [Option.or_none, Option.mem_def.mp last, passedBy, passedBy, Nat.sub_zero,
    ← List.range_eq_range'] at numbers
  generalize newPoints r.first r.period none _ = all at answers numbers
  rw [runs_append] at answers
  have front := List.forall₂_take_append _ _ _ answers
  have back := List.forall₂_drop_append _ _ _ answers
  have settled' : Settled (early.foldl (step cfg port) w).state :=
    History.invariant (step cfg port) (fun w => Settled w.state)
      (fun w c => step_settled cfg port w c) w settled early
  obtain ⟨l, log, called⟩ := calls_of_answers settled' back
  rw [← List.foldl_append] at log
  refine ⟨l, log, le_trans ?_ called⟩
  generalize (runs cfg port w early).length = n at front called ⊢
  have split : (all.take n).reduceOption ++ (all.drop n).reduceOption =
      List.range (passed r.first r.period t) := by
    rw [← List.reduceOption_append, List.take_append_drop, numbers]
  -- the runs up to the first moment serve no release after it
  have few : (all.take n).reduceOption.length ≤ passed r.first r.period start := by
    by_contra more
    have listed : passed r.first r.period start ∈ (all.take n).reduceOption := by
      have first := congrArg (List.take (all.take n).reduceOption.length) split
      have total := congrArg List.length split
      rw [List.length_append, List.length_range] at total
      rw [List.take_left, List.take_range] at first
      rw [first, List.mem_range]
      omega
    obtain ⟨u, mem, serves⟩ := run_of_answers front listed
    have early_enough := entered _ (List.mem_map_of_mem mem)
    have before := (point_le_iff r.first r.period positive start _).mp
      (serves.released.trans early_enough)
    exact absurd before (lt_irrefl _)
  have total := congrArg List.length split
  rw [List.length_append, List.length_range] at total
  have brings := passed_add_le r.first r.period positive near count
  have grown := passed_mono r.first r.period late_enough
  omega

end Releases

variable {V C : Type}

/-- The port as it touches a component with the steps `step`: the task `fn` with `ctx` makes
one marked call, and everything else makes none. -/
structure Hosts (cfg : Config) (port : Port σ) (step : V → C → V) (mark : C → Bool) (view : σ → V)
    (fn ctx : Address) : Prop where
  read : ∀ env, Reaches step mark 0 (view env) (view (port.time env).2)
  hook : ∀ hook event taskId timestamp userCtx env, Reaches step mark 0 (view env)
    (view (port.traceHook hook event taskId timestamp userCtx env))
  idle : ∀ env, Reaches step mark 0 (view env) (view (port.idle env))
  own : ∀ w : SchWorld σ, Reaches step mark 1 (view w.env)
    (view ((port.task fn ctx w.env).exec cfg port w).env)
  others : ∀ fn' ctx' (w : SchWorld σ), ¬ (fn' = fn ∧ ctx' = ctx) →
    Reaches step mark 0 (view w.env) (view ((port.task fn' ctx' w.env).exec cfg port w).env)

def Hosted (step : V → C → V) (mark : C → Bool) (view : σ → V) (fn ctx : Address)
    (w₀ w : SchWorld σ) : Prop :=
  ∃ l, w.log = w₀.log ++ l ∧
    Reaches step mark (callsOf fn ctx l) (view w₀.env) (view w.env)

section Hosted

variable {cfg : Config} {port : Port σ} {step : V → C → V} {mark : C → Bool} {view : σ → V}
  {fn ctx : Address} {w₀ w w' : SchWorld σ}

theorem Hosted.refl (w : SchWorld σ) : Hosted step mark view fn ctx w w :=
  ⟨[], (List.append_nil _).symm, Reaches.refl _⟩

theorem Hosted.further (h : Hosted step mark view fn ctx w₀ w) {l : List (SchEvent × Sch)}
    (log : w'.log = w.log ++ l)
    (reaches : Reaches step mark (callsOf fn ctx l) (view w.env) (view w'.env)) :
    Hosted step mark view fn ctx w₀ w' := by
  obtain ⟨l₀, log₀, reaches₀⟩ := h
  refine ⟨l₀ ++ l, World.log_trans log₀ log, ?_⟩
  rw [callsOf_append]
  exact reaches₀.trans reaches

theorem Hosted.silent (h : Hosted step mark view fn ctx w₀ w)
    (log : ∃ l, w'.log = w.log ++ l ∧ actions l = [])
    (reaches : Reaches step mark 0 (view w.env) (view w'.env)) :
    Hosted step mark view fn ctx w₀ w' := by
  obtain ⟨l, log, none_called⟩ := log
  refine h.further log ?_
  rw [callsOf, none_called]
  exact reaches

theorem Hosts.callTask (h : Hosts cfg port step mark view fn ctx) (phase : Phase)
    (id : Fin schMaxTasks) (fn' ctx' : Address) (w : SchWorld σ)
    (before : Hosted step mark view fn ctx w₀ w) :
    Hosted step mark view fn ctx w₀ (callTask cfg port phase id fn' ctx' w) := by
  obtain ⟨l, snapshot, log, act, -⟩ := (callTask_performs cfg port phase id fn' ctx' w).log
  have calls : callsOf fn ctx l = if fn' = fn ∧ ctx' = ctx then 1 else 0 := by
    rw [callsOf, act]
    cases phase <;> simp [actionOf, Action.isCallOf, List.countP_cons]
  refine before.further log ?_
  rw [calls]
  split_ifs with own
  · obtain ⟨rfl, rfl⟩ := own
    exact h.own (w.emit (.callback phase id fn' ctx'))
  · exact h.others fn' ctx' (w.emit (.callback phase id fn' ctx')) own

theorem Hosts.outside (h : Hosts cfg port step mark view fn ctx) (w₀ : SchWorld σ) :
    Outside cfg port (Hosted step mark view fn ctx w₀) where
  setState w s before :=
    before.silent ⟨[], (List.append_nil _).symm, rfl⟩ (Reaches.refl _)
  read w before := by
    obtain ⟨l, log, act, -⟩ := (nowTicks_silent port w).log
    exact before.silent ⟨l, log, act⟩ (h.read w.env)
  trace w event taskId timestamp before := by
    obtain ⟨l, log, act, -⟩ := (traceEmit_silent port event taskId timestamp w).log
    refine before.silent ⟨l, log, act⟩ ?_
    unfold traceEmit
    split_ifs
    · exact Reaches.refl _
    · exact h.hook _ event taskId timestamp _ w.env
  completed w id execStart execEnd before := before.silent ⟨_, rfl, rfl⟩ (Reaches.refl _)
  call w phase id fn' ctx' before := h.callTask phase id fn' ctx' w before
  idle w before := by
    refine before.further (l := [(.idle, w.state)]) rfl ?_
    exact h.idle w.env

def Tended (cfg : Config) (port : Port σ) (step : V → C → V) (mark : C → Bool) (view : σ → V)
    (w : SchWorld σ) : List (Call σ) → Prop
  | [] => True
  | c :: rest => (∀ env, c = .elapse env → Reaches step mark 0 (view w.env) (view env)) ∧
      Tended cfg port step mark view (Scheduler.step cfg port w c) rest

theorem tended_of_no_elapse {calls : List (Call σ)} (none_elapses : ∀ env, .elapse env ∉ calls) :
    Tended cfg port step mark view w calls := by
  induction calls generalizing w with
  | nil => trivial
  | cons c rest ih =>
    refine ⟨fun env same => ?_, ih fun env mem => none_elapses env (List.mem_cons_of_mem c mem)⟩
    subst same
    exact absurd List.mem_cons_self (none_elapses env)

theorem Tended.split {calls later : List (Call σ)}
    (h : Tended cfg port step mark view w (calls ++ later)) :
    Tended cfg port step mark view w calls ∧
      Tended cfg port step mark view (calls.foldl (Scheduler.step cfg port) w) later := by
  induction calls generalizing w with
  | nil => exact ⟨trivial, h⟩
  | cons c rest ih =>
    obtain ⟨first, further⟩ := ih h.2
    exact ⟨⟨h.1, first⟩, further⟩

theorem Hosts.addTask (h : Hosts cfg port step mark view fn ctx) (request : TaskRequest)
    (before : Hosted step mark view fn ctx w₀ w) :
    Hosted step mark view fn ctx w₀ (addTask cfg port request w).2 := by
  obtain ⟨l, log, act, -⟩ := (addTask_undisturbed cfg port request w).log
  refine before.silent ⟨l, log, act⟩ ?_
  rcases addTask_cases cfg port request w with ⟨error, -, -, out⟩ | ⟨error, -, -, out⟩ |
    ⟨r, -, -, -, out⟩
  · rw [out]
    exact Reaches.refl _
  · rw [out]
    exact h.read w.env
  · rw [out]
    exact h.read w.env

theorem Hosts.stepped (h : Hosts cfg port step mark view fn ctx) (c : Call σ)
    (tended : ∀ env, c = .elapse env → Reaches step mark 0 (view w.env) (view env))
    (before : Hosted step mark view fn ctx w₀ w) :
    Hosted step mark view fn ctx w₀ (Scheduler.step cfg port w c) := by
  cases c with
  | elapse env => exact before.silent ⟨[], (List.append_nil _).symm, rfl⟩ (tended env rfl)
  | addTask request => exact h.addTask request before
  | enableTask taskId enable => exact before
  | resetStats =>
    obtain ⟨l, log, act, -⟩ := (resetStats_silent w).log
    exact before.silent ⟨l, log, act⟩ (Reaches.refl _)
  | setTraceHook hook userCtx =>
    obtain ⟨l, log, act, -⟩ := (setTraceHook_silent hook userCtx w).log
    exact before.silent ⟨l, log, act⟩ (Reaches.refl _)
  | run =>
    rw [Scheduler.step]
    exact (h.outside w₀).run before

theorem Hosts.calls (h : Hosts cfg port step mark view fn ctx) (calls : List (Call σ))
    (tended : Tended cfg port step mark view w calls)
    (before : Hosted step mark view fn ctx w₀ w) :
    Hosted step mark view fn ctx w₀ (calls.foldl (Scheduler.step cfg port) w) := by
  induction calls generalizing w with
  | nil => exact before
  | cons c rest ih => exact ih tended.2 (h.stepped c tended.1 before)

theorem Hosts.between (h : Hosts cfg port step mark view fn ctx) {env : σ}
    {before later : List (Call σ)}
    (tended : Tended cfg port step mark view (World.start Sch.init env) (before ++ later)) :
    ∃ n, Reaches step mark n (view (history cfg port env before).env)
      (view (history cfg port env (before ++ later)).env) := by
  obtain ⟨_, _, reaches⟩ := h.calls later tended.split.2 (Hosted.refl _)
  rw [← List.foldl_append] at reaches
  exact ⟨_, reaches⟩

theorem Hosts.from_start (h : Hosts cfg port step mark view fn ctx) {env : σ}
    {calls : List (Call σ)}
    (tended : Tended cfg port step mark view (World.start Sch.init env) calls) :
    ∃ n, Reaches step mark n (view env) (view (history cfg port env calls).env) := by
  obtain ⟨_, _, reaches⟩ := h.calls calls tended (Hosted.refl _)
  exact ⟨_, reaches⟩

end Hosted

section KeepsUp

variable {cfg : Config} {port : Port σ} {clock : σ → Nat} {costs : Costs} {env : σ}
  {before later early late : List (Call σ)} {c : Call σ} {r : Registration} {gap wait : Nat}

/-- The call `c` registers the task `r`, and in the calls `later` the task keeps up with its
releases: the program comes back to `sch_run` within `gap`, and the period is longer than a run
and the way back. -/
structure KeepsUp (cfg : Config) (port : Port σ) (costs : Costs) (clock : σ → Nat) (env : σ)
    (before : List (Call σ)) (c : Call σ) (later : List (Call σ)) (r : Registration)
    (gap wait : Nat) : Prop where
  added : r ∈ registrationsIn cfg port (history cfg port env before) c
  limits : r.InRange
  returns : Returns port clock gap (runs cfg port (history cfg port env (before ++ [c])) later)
  begins : Begins port r wait (runs cfg port (history cfg port env (before ++ [c])) later)
  fits : costs.load cfg (history cfg port env (before ++ c :: later)).state + gap ≤ wait
  short : wait < r.period

theorem KeepsUp.earlier
    (h : KeepsUp cfg port costs clock env before c (early ++ late) r gap wait) :
    KeepsUp cfg port costs clock env before c early r gap wait where
  added := h.added
  limits := h.limits
  returns := by
    have returns := h.returns
    unfold Returns at returns
    rw [runs_append] at returns
    exact returns.left_of_append
  begins u first := by
    refine h.begins u ?_
    rw [runs_append, List.head?_append, Option.mem_def.mp first]
    rfl
  fits := by
    have kept := history_keepsTasks cfg port env (before ++ c :: early) late
    rw [List.append_assoc, List.cons_append] at kept
    have less := costs.load_mono cfg kept
    have fits := h.fits
    omega
  short := h.short

theorem KeepsUp.paced (h : KeepsUp cfg port costs clock env before c later r gap wait)
    (timed : Timed cfg port clock costs) : Paced r.first wait none
      (entryTimes port (runs cfg port (history cfg port env (before ++ [c])) later)) := by
  refine timed.paced env (before ++ [c]) later h.returns h.begins ?_
  rw [List.append_assoc, List.singleton_append]
  exact h.fits

theorem KeepsUp.entered (h : KeepsUp cfg port costs clock env before c later r gap wait)
    (timed : Timed cfg port clock costs) :
    ∀ t ∈ entryTimes port (runs cfg port (history cfg port env (before ++ [c])) later),
      r.time ≤ t := by
  have paced := h.paced timed
  have begins := h.begins
  generalize runs cfg port _ later = us at paced begins
  cases us with
  | nil => exact fun t mem => by cases mem
  | cons u rest =>
    have first := (begins u rfl).1
    intro t mem
    rcases List.mem_cons.mp mem with rfl | after
    · exact first
    · exact first.trans (paced.2.2.ge t after)

/-- The runs of a piece of the history are entered within `width` ticks. -/
def Within (port : Port σ) (width : Nat) (us : List (SchWorld σ × SchWorld σ)) : Prop :=
  ∀ t ∈ entryTimes port us, ∀ u ∈ entryTimes port us, u ≤ t + width

def lastEntry (port : Port σ) (r : Registration) (us : List (SchWorld σ × SchWorld σ)) : Nat :=
  (entryTimes port us).getLast?.getD r.time

theorem entryTimes_append (port : Port σ) (us vs : List (SchWorld σ × SchWorld σ)) :
    entryTimes port (us ++ vs) = entryTimes port us ++ entryTimes port vs :=
  List.map_append

theorem runs_singleton (cfg : Config) (port : Port σ) (w : SchWorld σ) (x : Call σ) :
    x = .run ∧ entryTimes port (runs cfg port w [x]) = [entryTime port w] ∨
      entryTimes port (runs cfg port w [x]) = [] := by
  cases x with
  | run => exact .inl ⟨rfl, rfl⟩
  | _ => exact .inr rfl

variable {x : Call σ} {rest : List (Call σ)}

theorem KeepsUp.le_lastEntry (h : KeepsUp cfg port costs clock env before c later r gap wait)
    (timed : Timed cfg port clock costs) :
    let us := runs cfg port (history cfg port env (before ++ [c])) later
    r.time ≤ lastEntry port r us ∧ ∀ t ∈ entryTimes port us, t ≤ lastEntry port r us := by
  intro us
  unfold lastEntry
  cases last : (entryTimes port us).getLast? with
  | none =>
    refine ⟨le_rfl, fun t mem => ?_⟩
    rw [List.getLast?_eq_none_iff.mp last] at mem
    cases mem
  | some l =>
    exact ⟨h.entered timed l (List.mem_of_getLast? last),
      fun t mem => (h.paced timed).le_last t mem l last⟩

theorem KeepsUp.lastEntry_le
    (h : KeepsUp cfg port costs clock env before c (early ++ x :: rest) r gap wait)
    (timed : Timed cfg port clock costs) :
    let w := history cfg port env (before ++ [c])
    ∀ t ∈ entryTimes port (runs cfg port (early.foldl (Scheduler.step cfg port) w) (x :: rest)),
      lastEntry port r (runs cfg port w (early ++ [x])) ≤ t := by
  intro w t mem
  have split : early ++ x :: rest = early ++ [x] ++ rest := by simp
  have entered := h.entered timed
  have paced := h.paced timed
  rw [split, runs_append, entryTimes_append] at entered paced
  have after := paced.append.2
  rw [← List.singleton_append, runs_append, entryTimes_append, ← List.foldl_append] at mem
  unfold lastEntry
  rcases List.mem_append.mp mem with first | later
  · rcases runs_singleton cfg port (early.foldl (Scheduler.step cfg port) w) x with
      ⟨-, single⟩ | none_entered
    · rw [single, List.mem_singleton] at first
      rw [runs_append, entryTimes_append, single, List.getLast?_concat, Option.getD_some, first]
    · rw [none_entered] at first
      cases first
  · cases last : (entryTimes port (runs cfg port w (early ++ [x]))).getLast? with
    | none => exact entered t (List.mem_append_right _ later)
    | some l =>
      rw [last] at after
      exact after.ge t later

/-- From the call `x` on, the runs of `n` periods are entered within these and a wait, or the
history ends before. -/
theorem KeepsUp.window
    (h : KeepsUp cfg port costs clock env before c (early ++ x :: rest) r gap wait)
    (timed : Timed cfg port clock costs) (prompt : r.delay ≤ r.period) {n : Nat} (some_runs : 0 < n) :
    let w := history cfg port env (before ++ [c])
    let start := lastEntry port r (runs cfg port w (early ++ [x]))
    ∃ near far, rest = near ++ far ∧ Within port (n * r.period + wait)
        (runs cfg port (early.foldl (Scheduler.step cfg port) w) (x :: near)) ∧
      (far = [] ∨ ∃ t ∈ (entryTimes port (runs cfg port w (early ++ x :: near))).getLast?,
        start + n * r.period ≤ t) := by
  intro w start
  have forward : r.time ≤ start := by
    have split : early ++ x :: rest = early ++ [x] ++ rest := by simp
    rw [split] at h
    exact (h.earlier.le_lastEntry timed).1
  have busy : 0 < n * r.period := Nat.mul_pos some_runs h.limits.positive
  have first : r.first ≤ start + n * r.period := by
    have once := Nat.le_mul_of_pos_left r.period some_runs
    have offset : r.first = r.time + r.delay := rfl
    omega
  -- an upper bound on the entries is enough
  have within (near far : List (Call σ)) (split : rest = near ++ far)
      (bound : ∀ t ∈ entryTimes port (runs cfg port w (early ++ x :: near)),
        t ≤ start + n * r.period + wait) : Within port (n * r.period + wait)
        (runs cfg port (early.foldl (Scheduler.step cfg port) w) (x :: near)) := by
    intro t mem u mem'
    have piece := h
    rw [split, ← List.cons_append, ← List.append_assoc] at piece
    have low : start ≤ t := piece.earlier.lastEntry_le timed t mem
    have high := bound u (by
      rw [runs_append, entryTimes_append]
      exact List.mem_append_right _ mem')
    omega
  let reached (near : List (Call σ)) : Prop :=
    ∃ t ∈ (entryTimes port (runs cfg port w (early ++ x :: near))).getLast?,
      start + n * r.period ≤ t
  have unreached (near far : List (Call σ)) (split : rest = near ++ far) (no : ¬ reached near) :
      ∀ t ∈ entryTimes port (runs cfg port w (early ++ x :: near)), t < start + n * r.period := by
    intro t mem
    have piece := h
    rw [split, ← List.cons_append, ← List.append_assoc] at piece
    cases last : (entryTimes port (runs cfg port w (early ++ x :: near))).getLast? with
    | none =>
      rw [List.getLast?_eq_none_iff.mp last] at mem
      cases mem
    | some l =>
      have below := (piece.earlier.paced timed).le_last t mem l last
      by_contra more
      exact no ⟨l, last, by omega⟩
  by_cases ended : reached rest
  · have open_yet : ¬ reached [] := by
      rintro ⟨t, last, late⟩
      have split : early ++ x :: rest = early ++ [x] ++ rest := by simp
      rw [split] at h
      have below : t ≤ start := (h.earlier.le_lastEntry timed).2 t (List.mem_of_getLast? last)
      omega
    obtain ⟨near, y, far, split, no, yes⟩ := exists_crossing reached open_yet ended
    refine ⟨near ++ [y], far, by rw [split]; simp, ?_, .inr yes⟩
    refine within (near ++ [y]) far (by rw [split]; simp) fun t mem => ?_
    have early_enough := unreached near (y :: far) split no
    have piece := h
    have regroup : early ++ x :: rest = early ++ x :: near ++ ([y] ++ far) := by
      rw [split]
      simp
    rw [regroup, ← List.append_assoc] at piece
    have paced := piece.earlier.paced timed
    rw [← List.cons_append, ← List.append_assoc, runs_append, entryTimes_append] at mem
    rw [runs_append, entryTimes_append] at paced
    rcases List.mem_append.mp mem with before_last | last
    · have below := early_enough t before_last
      omega
    · rcases runs_singleton cfg port ((early ++ x :: near).foldl (Scheduler.step cfg port) w) y with
        ⟨-, single⟩ | none_entered
      · have goes_on := paced.append.2
        rw [single] at last goes_on
        rw [List.mem_singleton] at last
        rw [Option.or_none] at goes_on
        cases latest : (entryTimes port (runs cfg port w (early ++ x :: near))).getLast? with
        | none =>
          have begins := goes_on.1 latest
          omega
        | some l =>
          have near_enough := (goes_on.2.1 l latest).2
          have below := early_enough l (List.mem_of_getLast? latest)
          omega
      · rw [none_entered] at last
        cases last
  · refine ⟨rest, [], (List.append_nil _).symm, ?_, .inl rfl⟩
    refine within rest [] (List.append_nil _).symm fun t mem => ?_
    have below := unreached rest [] (List.append_nil _).symm ended t mem
    omega

end KeepsUp

section AchievesInTime

variable {cfg : Config} {port : Port σ} {step : V → C → V} {mark : C → Bool} {view : σ → V}
  {fn ctx : Address} {clock : σ → Nat} {costs : Costs}

/-- What the component achieves with `count` marked calls, `Q count`, it achieves as a task that
keeps up with its releases when `count` periods are over. -/
def AchievesInTime (cfg : Config) (port : Port σ) (costs : Costs) (clock : σ → Nat)
    (step : V → C → V) (mark : C → Bool) (view : σ → V) (fn ctx : Address)
    (Q : Nat → V → V → Prop) (env : σ) : Prop :=
  ∀ (before : List (Call σ)) (c : Call σ) (early late : List (Call σ)) (r : Registration)
      (gap wait start count : Nat), r.request.fn = fn → r.request.ctx = ctx →
    KeepsUp cfg port costs clock env before c (early ++ late) r gap wait →
    Tended cfg port step mark view (World.start Sch.init env) (before ++ c :: (early ++ late)) →
    let w := history cfg port env (before ++ [c])
    (∀ t ∈ entryTimes port (runs cfg port w early), t ≤ start) → r.first ≤ start + r.period →
    (∃ t ∈ (entryTimes port (runs cfg port w (early ++ late))).getLast?,
      start + count * r.period ≤ t) →
    Q count (view (history cfg port env (before ++ c :: early)).env)
      (view (history cfg port env (before ++ c :: (early ++ late))).env)

theorem Hosts.achieves_in_time (hosts : Hosts cfg port step mark view fn ctx)
    (timed : Timed cfg port clock costs) {Q : Nat → V → V → Prop} {env : σ}
    (fewer : ∀ m n v v', m ≤ n → Q n v v' → Q m v v')
    (achieves : Achieves step mark (view env) Q) :
    AchievesInTime cfg port costs clock step mark view fn ctx Q env := by
  intro before c early late r gap wait begin count own with_ctx keeps tended w entered near later
  subst own with_ctx
  have all : ∀ calls, before ++ c :: calls = before ++ [c] ++ calls := fun calls => by
    rw [List.append_assoc, List.singleton_append]
  obtain ⟨paced, answers⟩ := timed.answers env before c keeps.added keeps.limits (early ++ late)
    keeps.returns keeps.begins keeps.fits keeps.short
  obtain ⟨l, log, called⟩ := calls_since (history_settled cfg port env (before ++ [c]))
    keeps.limits.positive paced keeps.short answers entered near later
  rw [← history_append, ← history_append, ← all, ← all] at log
  have split : before ++ c :: (early ++ late) = before ++ c :: early ++ late := by simp
  rw [split] at tended
  obtain ⟨before_mid, after_mid⟩ := tended.split
  obtain ⟨_, _, arrives⟩ := hosts.calls (before ++ c :: early) before_mid (Hosted.refl _)
  obtain ⟨l', log', further⟩ := hosts.calls late after_mid (Hosted.refl _)
  rw [← List.foldl_append, ← split] at log' further
  obtain rfl : l = l' := List.append_cancel_left (log.symm.trans log')
  exact fewer _ _ _ _ called (achieves _ _ _ arrives _ further)

end AchievesInTime

end SchedulerLib.Scheduler
