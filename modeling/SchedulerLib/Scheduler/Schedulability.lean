import SchedulerLib.Scheduler.Timing

/-!
The scheduler as a cyclic executive. If the load of the table and the way back to `sch_run`
fit below the period of a task, the runs come often enough for it: each of its releases is
served by a run of its own, entered before the load is over and done with it within its
response time after that. If the response fits below the period as well, the statistics of
the task show just the releases.
-/

namespace SchedulerLib.Scheduler

open Lib ReleaseGrid

variable {σ : Type}

section Histories

variable (cfg : Config) (port : Port σ)

theorem runs_history (env : σ) (before later : List (Call σ)) :
    ∀ u ∈ runs cfg port (history cfg port env before) later, ∃ front back,
      later = front ++ .run :: back ∧ u.1 = history cfg port env (before ++ front) ∧
        u.2 = history cfg port env (before ++ front ++ [.run]) := by
  induction later generalizing before with
  | nil => simp [runs]
  | cons c rest ih =>
    have further : ∀ u ∈ runs cfg port (history cfg port env (before ++ [c])) rest,
        ∃ front back, c :: rest = front ++ .run :: back ∧
          u.1 = history cfg port env (before ++ front) ∧
            u.2 = history cfg port env (before ++ front ++ [.run]) := by
      intro u mem
      obtain ⟨front, back, split, first, second⟩ := ih (before ++ [c]) u mem
      refine ⟨c :: front, back, by rw [split, List.cons_append], ?_, ?_⟩
      · rw [first, List.append_assoc, List.singleton_append]
      · rw [second, List.append_assoc before, List.singleton_append]
    intro u mem
    by_cases isRun : c = .run
    · subst isRun
      rw [runs, List.mem_cons] at mem
      rw [history_concat, step] at further
      rcases mem with same | mem
      · subst same
        refine ⟨[], rest, rfl, by rw [List.append_nil], ?_⟩
        rw [List.append_nil, history_concat, step]
      · exact further u mem
    · rw [runs_cons_of_ne cfg port _ c rest isRun] at mem
      rw [history_concat] at further
      exact further u mem

theorem history_keepsTasks (env : σ) (before later : List (Call σ)) :
    KeepsTasks (history cfg port env before).state
      (history cfg port env (before ++ later)).state := by
  induction later using List.reverseRecOn with
  | nil =>
    rw [List.append_nil]
    exact KeepsTasks.refl _
  | append_singleton later c ih =>
    rw [← List.append_assoc, history_concat]
    have path := (step_path cfg port _ c (history_settled cfg port env (before ++ later))
      (history_path cfg port env (before ++ later)).2).1
    exact ih.trans _ _ _ (Path.keepsTasks cfg path)

end Histories

section Ticks

/-- The environment is the true time. Reading it and each hook take one tick, and a callback
takes as many as its context says. -/
def tickPort : Port Nat where
  time now := (now, now + 1)
  task _ ctx now := .ret (now + ctx)
  traceHook _ _ _ _ _ now := now + 1
  idle now := now + 1

def tickCosts : Costs := ⟨1, 1, 1, fun _ ctx => ctx⟩

theorem tickPort_timed (cfg : Config) : Timed cfg tickPort (fun now => now) tickCosts where
  now _ := rfl
  read now := ⟨Nat.le_succ now, le_refl _⟩
  hook _ _ _ _ _ now := ⟨Nat.le_succ now, le_refl _⟩
  idle now := ⟨Nat.le_succ now, le_refl _⟩
  callback _ ctx w := by
    have unread : Takes (fun now => now) 0 w w := Elapses.refl w
    have acted := unread.setEnv (w.env + ctx) (Nat.le_add_right _ _) (le_refl _)
    rwa [Nat.zero_add] at acted

def tickLoop : List (Call Nat) := [.run, .elapse 50, .run, .elapse 104, .run]

end Ticks

section Served

variable {cfg : Config} {port : Port σ} {clock : σ → Nat} {costs : Costs} {r : Registration}

/-- The calls come back to `sch_run` within `gap` after each run. -/
def Returns (port : Port σ) (clock : σ → Nat) (gap : Nat) (us : List (SchWorld σ × SchWorld σ)) :
    Prop :=
  us.IsChain fun u v => clock u.2.env ≤ entryTime port v.1 ∧
    entryTime port v.1 ≤ clock u.2.env + gap

structure ServesRelease (cfg : Config) (port : Port σ) (r : Registration) (wait response m : Nat)
    (u : SchWorld σ × SchWorld σ) : Prop where
  executed : executions r.id u.1 u.2 = [r.action]
  released : point r.first r.period m ≤ entryTime port u.1
  prompt : entryTime port u.1 < point r.first r.period m + wait
  finished : ∃ c, checkedAt cfg r.id (World.eventsSince u.1 u.2) = some c ∧
    entryTime port u.1 ≤ c ∧ c ≤ entryTime port u.1 + response

/-- The run serves the release of this number, or none and leaves the task alone. -/
def Answers (cfg : Config) (port : Port σ) (r : Registration) (wait response : Nat) :
    Option Nat → SchWorld σ × SchWorld σ → Prop
  | some m, u => ServesRelease cfg port r wait response m u
  | none, u => executions r.id u.1 u.2 = []

theorem Follows.answers {seen : Option Nat} {us : List (SchWorld σ × SchWorld σ)}
    {wait response : Nat} (h : Follows port r seen us) (positive : 0 < r.period)
    (paced : Paced r.first wait seen (entryTimes port us))
    (finishes : ∀ u ∈ us, executions r.id u.1 u.2 = [r.action] →
      ∃ c, checkedAt cfg r.id (World.eventsSince u.1 u.2) = some c ∧
        entryTime port u.1 ≤ c ∧ c ≤ entryTime port u.1 + response) :
    List.Forall₂ (Answers cfg port r wait response)
      (newPoints r.first r.period seen (entryTimes port us)) us := by
  induction us generalizing seen with
  | nil => exact List.Forall₂.nil
  | cons u rest ih =>
    obtain ⟨decides, follows⟩ := h
    have released := exists_new_point_iff r.first r.period positive seen (entryTime port u.1)
    refine List.Forall₂.cons ?_ (ih follows paced.2.2 fun v mem =>
      finishes v (List.mem_cons_of_mem u mem))
    cases new : newPoint r.first r.period seen (entryTime port u.1) with
    | none =>
      unfold newPoint at new
      split_ifs at new with more
      exact decides.skips (mt released.mp more)
    | some m =>
      obtain ⟨passed, prompt⟩ := paced.prompt positive new
      have more : passedBy r.first r.period seen < ReleaseGrid.passed r.first r.period
          (entryTime port u.1) := by
        unfold newPoint at new
        split_ifs at new with more
        exact more
      have executed := decides.executes (released.mpr more)
      exact ⟨executed, passed, prompt, finishes u List.mem_cons_self executed⟩

theorem Returns.paced {us : List (SchWorld σ × SchWorld σ)} {gap load wait : Nat}
    {seen : Option Nat} (h : Returns port clock gap us)
    (now : ∀ env, (port.time env).1 = clock env) (takes : ∀ u ∈ us, Takes clock load u.1 u.2)
    (fits : load + gap ≤ wait)
    (begins : seen = none → ∀ u ∈ us.head?, entryTime port u.1 < r.first + wait)
    (goes_on : ∀ s, seen = some s → ∀ u ∈ us.head?, s ≤ entryTime port u.1 ∧
      entryTime port u.1 ≤ s + wait) : Paced r.first wait seen (entryTimes port us) := by
  induction us generalizing seen with
  | nil => exact trivial
  | cons u rest ih =>
    refine ⟨fun absent => begins absent u rfl, fun s present => goes_on s present u rfl, ?_⟩
    refine ih (List.IsChain.tail h) (fun v mem => takes v (List.mem_cons_of_mem u mem))
      (fun absent => by cases absent) fun s present v first => ?_
    obtain rfl := Option.some.inj present
    cases rest with
    | nil => cases first
    | cons x rest =>
      obtain rfl := Option.some.inj first
      obtain ⟨back, near⟩ := (List.isChain_cons_cons.mp h).1
      have forward := (takes u List.mem_cons_self).forward
      have bounded := (takes u List.mem_cons_self).bounded
      have entered := now u.1.env
      dsimp only [entryTime] at back near ⊢
      omega

theorem serves_of_answers {numbers : List (Option Nat)} {us : List (SchWorld σ × SchWorld σ)}
    {wait response : Nat} (h : List.Forall₂ (Answers cfg port r wait response) numbers us) :
    ∀ u ∈ us, executions r.id u.1 u.2 = [r.action] →
      ∃ m, ServesRelease cfg port r wait response m u := by
  induction h with
  | nil => exact fun u mem => by cases mem
  | @cons number u numbers us answers rest ih =>
    intro v mem executed
    rcases List.mem_cons.mp mem with rfl | later
    · cases number with
      | none =>
        rw [Answers] at answers
        rw [answers] at executed
        cases executed
      | some m => exact ⟨m, answers⟩
    · exact ih v later executed

theorem run_of_answers {numbers : List (Option Nat)} {us : List (SchWorld σ × SchWorld σ)}
    {wait response m : Nat} (h : List.Forall₂ (Answers cfg port r wait response) numbers us)
    (mem : m ∈ numbers.reduceOption) : ∃ u ∈ us, ServesRelease cfg port r wait response m u := by
  induction h with
  | nil => cases mem
  | @cons number u numbers us answers _ ih =>
    have elsewhere : m ∈ numbers.reduceOption →
        ∃ v ∈ u :: us, ServesRelease cfg port r wait response m v := fun later => by
      obtain ⟨v, listed, serves⟩ := ih later
      exact ⟨v, List.mem_cons_of_mem u listed, serves⟩
    cases number with
    | none =>
      rw [List.reduceOption_cons_of_none] at mem
      exact elsewhere mem
    | some n =>
      rw [List.reduceOption_cons_of_some, List.mem_cons] at mem
      rcases mem with rfl | later
      · exact ⟨u, List.mem_cons_self, answers⟩
      · exact elsewhere later

theorem Paced.spaced {wait : Nat} {times : List Nat} {s : Nat}
    (h : Paced r.first wait (some s) times) (short : wait < 2 ^ 31) : Spaced s times := by
  induction times generalizing s with
  | nil => exact List.IsChain.singleton s
  | cons t rest ih =>
    obtain ⟨after, near⟩ := h.2.1 s rfl
    exact List.IsChain.cons_cons ⟨after, by omega⟩ (ih h.2.2)

def Begins (port : Port σ) (r : Registration) (wait : Nat) (us : List (SchWorld σ × SchWorld σ)) :
    Prop :=
  ∀ u ∈ us.head?, r.time ≤ entryTime port u.1 ∧ entryTime port u.1 < r.time + 2 ^ 31 ∧
    entryTime port u.1 < r.first + wait

theorem Begins.spaced {us : List (SchWorld σ × SchWorld σ)} {wait : Nat}
    (h : Begins port r wait us) (paced : Paced r.first wait none (entryTimes port us))
    (short : wait < 2 ^ 31) : Spaced r.time (entryTimes port us) := by
  cases us with
  | nil => exact List.IsChain.singleton _
  | cons u rest =>
    obtain ⟨after, near, -⟩ := h u rfl
    exact List.IsChain.cons_cons ⟨after, near⟩ (Paced.spaced paced.2.2 short)

theorem Timed.runs_take (timed : Timed cfg port clock costs) (env : σ)
    (before later : List (Call σ)) :
    ∀ u ∈ runs cfg port (history cfg port env before) later,
      Takes clock (costs.load cfg (history cfg port env (before ++ later)).state) u.1 u.2 := by
  intro u mem
  obtain ⟨front, back, rfl, first, second⟩ := runs_history cfg port env before later u mem
  have takes := timed.run u.1 (by rw [first]; exact history_settled cfg port env _)
  have run : u.2 = Scheduler.run cfg port u.1 := by
    rw [second, first, history_concat, step]
  have kept := history_keepsTasks cfg port env (before ++ front ++ [.run]) back
  rw [← second, List.append_assoc, List.append_assoc, List.singleton_append] at kept
  rw [← run] at takes
  exact takes.mono (costs.load_mono cfg kept)

theorem Timed.runs_finish (timed : Timed cfg port clock costs) (env : σ)
    (before later : List (Call σ)) (r : Registration) :
    ∀ u ∈ runs cfg port (history cfg port env before) later,
      executions r.id u.1 u.2 = [r.action] →
        ∃ c, checkedAt cfg r.id (World.eventsSince u.1 u.2) = some c ∧
          entryTime port u.1 ≤ c ∧ c ≤ entryTime port u.1 +
            costs.response cfg (history cfg port env (before ++ later)).state r.id := by
  intro u mem executed
  obtain ⟨front, back, rfl, first, second⟩ := runs_history cfg port env before later u mem
  have settled : Settled u.1.state := by
    rw [first]
    exact history_settled cfg port env _
  have run : u.2 = Scheduler.run cfg port u.1 := by
    rw [second, first, history_concat, step]
  have kept := history_keepsTasks cfg port env (before ++ front) (.run :: back)
  rw [← first, List.append_assoc] at kept
  obtain ⟨ids, cycles⟩ := run_cycles cfg port u.1 settled
  have ready : ReadyAt (BitVec.ofNat 32 (entryTime port u.1)) (u.1.state.tasks r.id) := by
    refine (cycles.members r.id).mp ?_
    by_contra out
    rw [run, cycles.executions_eq, if_neg out] at executed
    cases executed
  obtain ⟨l, log, c, checked, after, bounded⟩ := timed.run_responds u.1 settled r.id ready
  have grown := costs.response_mono cfg kept r.id ready.inUse
  rw [← run] at log
  refine ⟨c, by rw [World.eventsSince_of_log _ _ l log, checked], ?_, ?_⟩
  · rw [entryTime, timed.now]
    exact after
  · rw [entryTime, timed.now]
    omega

theorem Timed.paced (timed : Timed cfg port clock costs) (env : σ) (before : List (Call σ))
    (later : List (Call σ)) {gap wait : Nat}
    (returns : Returns port clock gap (runs cfg port (history cfg port env before) later))
    (begins : Begins port r wait (runs cfg port (history cfg port env before) later))
    (fits : costs.load cfg (history cfg port env (before ++ later)).state + gap ≤ wait) :
    Paced r.first wait none
      (entryTimes port (runs cfg port (history cfg port env before) later)) :=
  returns.paced timed.now (timed.runs_take env before later) fits (fun _ u first => (begins u first).2.2)
    fun s absent => by cases absent

/-- A task whose period is longer than the load and the way back has its runs in time, and each
serves the release that is new to it. -/
theorem Timed.answers (timed : Timed cfg port clock costs) (env : σ) (before : List (Call σ))
    (c : Call σ) (added : r ∈ registrationsIn cfg port (history cfg port env before) c)
    (limits : r.InRange) (later : List (Call σ)) {gap wait : Nat}
    (returns : Returns port clock gap (runs cfg port (history cfg port env (before ++ [c])) later))
    (begins : Begins port r wait (runs cfg port (history cfg port env (before ++ [c])) later))
    (fits : costs.load cfg (history cfg port env (before ++ c :: later)).state + gap ≤ wait)
    (short : wait < r.period) :
    let us := runs cfg port (history cfg port env (before ++ [c])) later
    Paced r.first wait none (entryTimes port us) ∧ List.Forall₂
      (Answers cfg port r wait
        (costs.response cfg (history cfg port env (before ++ c :: later)).state r.id))
      (newPoints r.first r.period none (entryTimes port us)) us := by
  intro us
  have all : before ++ [c] ++ later = before ++ c :: later := by
    rw [List.append_assoc, List.singleton_append]
  have finishes := timed.runs_finish env (before ++ [c]) later r
  have paced := timed.paced env (before ++ [c]) later returns begins (by rwa [all])
  rw [all] at finishes
  have period := limits.period
  have follows := registered_follows cfg port env before c r added limits later
    (begins.spaced paced (by omega))
  exact ⟨paced, follows.answers limits.positive paced finishes⟩

/-- Each release of the task up to the last entry is served, by a run of its own, entered
before `wait` is over and done with the task within its response time, and the releases are
served in their order. -/
theorem releases_served (timed : Timed cfg port clock costs) (env : σ) (before : List (Call σ))
    (c : Call σ) (r : Registration)
    (added : r ∈ registrationsIn cfg port (history cfg port env before) c)
    (positive : 0 < r.period) (period : r.period ≤ 2 ^ 31) (delay : r.delay ≤ 2 ^ 31)
    (later : List (Call σ)) (gap wait : Nat) :
    let us := runs cfg port (history cfg port env (before ++ [c])) later
    let s := (history cfg port env (before ++ c :: later)).state
    Returns port clock gap us → Begins port r wait us →
    costs.load cfg s + gap ≤ wait → wait < r.period →
    ∃ numbers, List.Forall₂ (Answers cfg port r wait (costs.response cfg s r.id)) numbers us ∧
      numbers.reduceOption =
        List.range (passedBy r.first r.period (entryTimes port us).getLast?) := by
  intro us s returns begins fits short
  obtain ⟨paced, answers⟩ := timed.answers env before c added ⟨positive, period, delay⟩ later
    returns begins fits short
  refine ⟨_, answers, ?_⟩
  have numbers := (paced.in_order positive short.le).2
  rw [Option.or_none] at numbers
  rw [numbers, passedBy, Nat.sub_zero, List.range_eq_range']

theorem releases_served_twice :
    let us := runs ⟨true, true⟩ tickPort (history ⟨true, true⟩ tickPort 0
      ([.addTask ⟨2, 3, 40, 0, 0⟩] ++ [.addTask ⟨1, 2, 100, 0, 1⟩])) tickLoop
    let r : Registration := ⟨1, ⟨1, 2, 100, 0, 1⟩, 1⟩
    ∃ numbers, List.Forall₂ (Answers ⟨true, true⟩ tickPort r 76 22) numbers us ∧
      numbers.reduceOption = [0, 1] := by
  intro us r
  have served := releases_served (tickPort_timed ⟨true, true⟩) 0 [.addTask ⟨2, 3, 40, 0, 0⟩]
    (.addTask ⟨1, 2, 100, 0, 1⟩) r (by decide +kernel) (by decide) (by decide) (by decide)
    tickLoop 50 76 (by unfold Returns; decide +kernel) (by unfold Begins; decide +kernel)
    (by decide +kernel) (by decide)
  have response : tickCosts.response ⟨true, true⟩ (history ⟨true, true⟩ tickPort 0
      ([.addTask ⟨2, 3, 40, 0, 0⟩] ++ .addTask ⟨1, 2, 100, 0, 1⟩ :: tickLoop)).state 1 = 22 := by
    decide +kernel
  have last : passedBy r.first r.period (entryTimes tickPort us).getLast? = 2 := by decide +kernel
  obtain ⟨numbers, answers, all⟩ := served
  rw [response] at answers
  exact ⟨numbers, answers, by rw [all, last]; rfl⟩

end Served

section Counts

variable {trace : Bool} {port : Port σ} {clock : σ → Nat} {costs : Costs} {r : Registration}

theorem finishedAt_eq (trace : Bool) (id : Fin schMaxTasks) (events : List SchEvent) :
    finishedAt trace id events = checkedAt ⟨true, trace⟩ id events := by
  cases trace <;> rfl

theorem finishedAt_mem {id : Fin schMaxTasks} {events : List SchEvent} {c : Nat}
    (finished : finishedAt trace id events = some c) : c ∈ readings events := by
  have read := List.mem_of_getElem? finished
  exact ((List.dropWhile_sublist _).filterMap _).subset read

theorem Timed.inTime {cfg : Config} {w w' : SchWorld σ} {d : Nat}
    (timed : Timed cfg port clock costs) (takes : Takes clock d w w') (short : d < 2 ^ 31) :
    InTime trace port r w w' := by
  intro c finished
  obtain ⟨l, log, -⟩ := takes.log
  rw [World.eventsSince_of_log _ _ l log] at finished
  obtain ⟨after, bounded⟩ := takes.times log (finishedAt_mem finished)
  rw [entryTime, timed.now]
  omega

theorem step_passes {id : Fin schMaxTasks} (cfg : Config) (port : Port σ) (w : SchWorld σ)
    (c : Call σ) (other : c ≠ .run) (used : (w.state.tasks id).inUse = true) :
    Passes id w (step cfg port w c) := by
  have start : Passes id w w := Passes.refl w used
  cases c with
  | elapse env => exact start.setEnv env
  | addTask request => exact (Passes.withstands cfg).addTask port start request
  | enableTask taskId enable => exact start
  | resetStats => exact start.reset
  | setTraceHook hook userCtx => exact (Passes.withstands cfg).setTraceHook w hook userCtx start
  | run => exact absurd rfl other

theorem overruns_spared (w : SchWorld σ) (calls : List (Call σ)) (settled : Settled w.state)
    (logged : Logged w) (used : (w.state.tasks r.id).inUse = true)
    (unreset : Unreset w (calls.foldl (step ⟨true, trace⟩ port) w))
    (counts : ∀ u ∈ runs ⟨true, trace⟩ port w calls, CountsOverruns trace port r u.1 u.2)
    (inTime : ∀ u ∈ runs ⟨true, trace⟩ port w calls, InTime trace port r u.1 u.2)
    (spared : ∀ u ∈ runs ⟨true, trace⟩ port w calls, ¬ Overruns trace port r u.1 u.2) :
    ∀ u ∈ runs ⟨true, trace⟩ port w calls,
      (u.2.state.stats r.id).overrunCount = (w.state.stats r.id).overrunCount := by
  induction calls generalizing w with
  | nil => exact fun u mem => by cases mem
  | cons c rest ih =>
    rw [List.foldl_cons] at unreset
    have path := step_path ⟨true, trace⟩ port w c settled logged
    have settled' := step_settled ⟨true, trace⟩ port w c settled
    have used' := (Path.keepsTasks ⟨true, trace⟩ path.1 r.id used).1
    obtain ⟨unreset, unreset'⟩ := unreset.split (step_balanced trace port w c settled logged)
      (steps_balanced trace port _ rest settled' path.2)
    by_cases isRun : c = .run
    · subst isRun
      rw [runs, List.forall_mem_cons] at counts inTime spared ⊢
      simp only [step] at path settled' used' unreset unreset'
      obtain ⟨first, counts⟩ := counts
      obtain ⟨first_inTime, inTime⟩ := inTime
      obtain ⟨first_spared, spared⟩ := spared
      dsimp only at first first_inTime first_spared
      have kept := first.spares unreset first_inTime first_spared
      constructor
      · dsimp only
        exact kept
      · intro u mem
        exact (ih _ settled' path.2 used' unreset' counts inTime spared u mem).trans kept
    · rw [runs_cons_of_ne ⟨true, trace⟩ port w c rest isRun] at counts inTime spared ⊢
      obtain ⟨l, log, -, kept⟩ := (step_passes ⟨true, trace⟩ port w c isRun used).log
      rw [Unreset, World.since_of_log _ _ l log] at unreset
      intro u mem
      exact (ih _ settled' path.2 used' unreset' counts inTime spared u mem).trans (kept unreset)

theorem Paced.sparse {wait : Nat} {seen : Option Nat} {times : List Nat}
    (h : Paced r.first wait seen times) (positive : 0 < r.period) (short : wait ≤ r.period) :
    Sparse r seen times := by
  induction times generalizing seen with
  | nil => exact trivial
  | cons t rest ih =>
    exact ⟨(new_points_subsingleton_iff r.first r.period positive seen t).mpr
      (h.few positive short).2, ih h.2.2⟩

/-- If the response fits below the period too, the statistics of the task are exact after every
run: its executions are the releases that have passed, none was missed and no overrun was
counted. -/
theorem releases_counted (timed : Timed ⟨true, trace⟩ port clock costs) (env : σ)
    (before : List (Call σ)) (c : Call σ) (r : Registration)
    (added : r ∈ registrationsIn ⟨true, trace⟩ port (history ⟨true, trace⟩ port env before) c)
    (positive : 0 < r.period) (period : r.period ≤ 2 ^ 31) (delay : r.delay ≤ 2 ^ 31)
    (later : List (Call σ)) (gap wait : Nat) :
    let w := history ⟨true, trace⟩ port env (before ++ [c])
    let us := runs ⟨true, trace⟩ port w later
    let s := (history ⟨true, trace⟩ port env (before ++ c :: later)).state
    Unreset (history ⟨true, trace⟩ port env before)
      (history ⟨true, trace⟩ port env (before ++ c :: later)) →
    Returns port clock gap us → Begins port r wait us →
    costs.load ⟨true, trace⟩ s + gap ≤ wait → wait < r.period →
    wait + costs.response ⟨true, trace⟩ s r.id ≤ r.period →
    ∀ u ∈ us, (u.2.state.stats r.id).runCount =
        BitVec.ofNat 32 (passed r.first r.period (entryTime port u.1)) ∧
      (u.2.state.stats r.id).missCount = 0 ∧
      (u.2.state.stats r.id).overrunCount = (w.state.stats r.id).overrunCount := by
  intro w us s unreset returns begins fits short timely
  have limits : r.InRange := ⟨positive, period, delay⟩
  have all : before ++ [c] ++ later = before ++ c :: later := by
    rw [List.append_assoc, List.singleton_append]
  have finishes := timed.runs_finish env (before ++ [c]) later r
  have same : s = (history ⟨true, trace⟩ port env (before ++ [c] ++ later)).state := by rw [all]
  rw [same] at fits
  have paced := timed.paced env (before ++ [c]) later returns begins fits
  rw [all] at finishes
  have spaced := begins.spaced paced (by omega)
  have settled := history_settled ⟨true, trace⟩ port env (before ++ [c])
  have logged := (history_path ⟨true, trace⟩ port env (before ++ [c])).2
  have path := (history_path ⟨true, trace⟩ port env before).2
  have balanced := step_balanced trace port _ c (history_settled ⟨true, trace⟩ port env before) path
  have balanced' := steps_balanced trace port _ later settled logged
  rw [← history_concat] at balanced
  rw [← history_append ⟨true, trace⟩ port env (before ++ [c]) later, all] at balanced'
  obtain ⟨unreset, unreset'⟩ := unreset.split balanced balanced'
  rw [← all, history_append ⟨true, trace⟩ port env (before ++ [c]) later] at unreset'
  have task := (registered_registers ⟨true, trace⟩ port _ (history_settled ⟨true, trace⟩ port env
    before) c r added).2
  rw [← history_concat] at task
  have scheduled := Registration.task_scheduled task
  have counted := counted_of_registered trace port env before c limits added unreset
  have accounted := (counted.accounted_iff trace port limits later spaced
    unreset').mpr (Paced.sparse paced positive short.le)
  have counts := scheduled.all_countOverruns settled limits (le_refl _) later spaced
  have follows := registered_follows ⟨true, trace⟩ port env before c r added limits later spaced
  have inTime : ∀ u ∈ us, InTime trace port r u.1 u.2 := fun u mem =>
    timed.inTime (timed.runs_take env _ later u mem) (by omega)
  have spared : ∀ u ∈ us, ¬ Overruns trace port r u.1 u.2 := by
    intro u mem overruns
    obtain ⟨executed, c', next, finished, least, late⟩ := overruns
    obtain ⟨m, serves⟩ : ∃ m, ServesRelease ⟨true, trace⟩ port r wait
        (costs.response ⟨true, trace⟩ s r.id) m u :=
      serves_of_answers (follows.answers positive paced finishes) u mem executed
    obtain ⟨c'', checked, -, bounded⟩ := serves.finished
    rw [finishedAt_eq, checked] at finished
    obtain rfl := Option.some.inj finished
    -- the release after the one served is a period later
    obtain ⟨after, n, rfl⟩ := least.1
    have further : m < n :=
      (point_lt_iff r.first r.period positive m n).mp (serves.released.trans_lt after)
    have apart := point_mono r.first r.period further
    have released := serves.released
    have prompt := serves.prompt
    have period_later : point r.first r.period m.succ = point r.first r.period m + r.period := by
      unfold point
      rw [Nat.succ_mul, Nat.add_assoc]
    omega
  have kept := overruns_spared w later settled logged (by rw [task]; rfl) unreset' counts inTime
    spared
  intro u mem
  obtain ⟨front, back, -, -, second⟩ := runs_history ⟨true, trace⟩ port env (before ++ [c]) later u
    mem
  have unmissed : (u.2.state.stats r.id).missCount = 0 := by
    rw [second]
    exact history_unmissed ⟨true, trace⟩ port env _ r.id
  have exact_count := (releasesAccounted_iff port positive u).mp (accounted u mem)
  rw [unmissed] at exact_count
  exact ⟨(BitVec.add_zero _).symm.trans exact_count, unmissed, kept u mem⟩

theorem releases_counted_twice :
    let us := runs ⟨true, true⟩ tickPort (history ⟨true, true⟩ tickPort 0
      ([.addTask ⟨2, 3, 40, 0, 0⟩] ++ [.addTask ⟨1, 2, 100, 0, 1⟩])) tickLoop
    ∀ u ∈ us, (u.2.state.stats 1).runCount = BitVec.ofNat 32 (passed 1 100 (entryTime tickPort u.1)) ∧
      (u.2.state.stats 1).missCount = 0 ∧ (u.2.state.stats 1).overrunCount = 0 := by
  intro us u mem
  have timed : Timed ⟨true, true⟩ tickPort (fun now => now) tickCosts := tickPort_timed _
  have counted := releases_counted timed 0
    [.addTask ⟨2, 3, 40, 0, 0⟩] (.addTask ⟨1, 2, 100, 0, 1⟩) ⟨1, ⟨1, 2, 100, 0, 1⟩, 1⟩
    (by decide +kernel) (by decide) (by decide) (by decide) tickLoop 50 76 (by decide +kernel)
    (by unfold Returns; decide +kernel) (by unfold Begins; decide +kernel) (by decide +kernel)
    (by decide) (by decide +kernel) u mem
  have unspoilt : ((history ⟨true, true⟩ tickPort 0 ([.addTask ⟨2, 3, 40, 0, 0⟩] ++
      [.addTask ⟨1, 2, 100, 0, 1⟩])).state.stats 1).overrunCount = 0 := by decide +kernel
  rw [unspoilt] at counted
  exact counted

end Counts

end SchedulerLib.Scheduler
