import SchedulerLib.Lib.HalfRange
import SchedulerLib.Lib.ReleaseGrid
import SchedulerLib.Scheduler.ReadySet

/-!
The release times of one periodic task over a history. On the true time line the releases
are the points of a grid; the scheduler keeps the due point modulo 2^32 and compares it by
sign. With period, delay and the distance between runs within half the range, each run
decides as a timer on the true time line would.
-/

namespace SchedulerLib.Scheduler

open Lib ReleaseGrid

section Ticks

theorem timeReached_ofNat (now target : Nat) (ahead : target ≤ now + 2 ^ 31)
    (behind : now < target + 2 ^ 31) :
    timeReached (BitVec.ofNat 32 now) (BitVec.ofNat 32 target) = true ↔ target ≤ now := by
  rw [timeReached, decide_eq_true_iff]
  exact HalfRange.reached_iff (w := 31) now target ahead behind

theorem timeReached_of_far (now target : Nat) (far : now + 2 ^ 31 < target)
    (near : target < now + 2 ^ 32) :
    timeReached (BitVec.ofNat 32 now) (BitVec.ofNat 32 target) = true := by
  rw [timeReached, decide_eq_true_iff]
  exact HalfRange.reached_of_far (w := 31) now target far near

theorem advanceNextRelease_ofNat (now target : Nat) (period : BitVec 32) (positive : period ≠ 0)
    (late : target ≤ now) (near : now < target + 2 ^ 31) :
    advanceNextRelease (BitVec.ofNat 32 now) (BitVec.ofNat 32 target) period =
      BitVec.ofNat 32 (target + ((now - target) / period.toNat + 1) * period.toNat) := by
  have lateness := HalfRange.toNat_sub_of_le (w := 31) now target late near
  have forward : ¬ (BitVec.ofNat 32 now - BitVec.ofNat 32 target).toInt < 0 := by
    rw [not_lt]
    exact (HalfRange.reached_iff (w := 31) now target (by omega) near).mpr late
  have skipped : (BitVec.ofNat 32 now - BitVec.ofNat 32 target) / period =
      BitVec.ofNat 32 ((now - target) / period.toNat) := by
    apply BitVec.eq_of_toNat_eq
    have small : (now - target) / period.toNat < 2 ^ 32 :=
      (Nat.div_le_self _ _).trans_lt (by omega)
    rw [BitVec.toNat_udiv, lateness, BitVec.toNat_ofNat, Nat.mod_eq_of_lt small]
  unfold advanceNextRelease
  dsimp only
  rw [if_neg positive, if_neg forward, skipped, HalfRange.ofNat_add_mul (w := 31),
    BitVec.ofNat_toNat, BitVec.setWidth_eq, BitVec.ofNat_add]
  rfl

end Ticks

def Registration.period (r : Registration) : Nat := r.request.periodTicks.toNat

def Registration.delay (r : Registration) : Nat := r.request.startDelayTicks.toNat

def Registration.first (r : Registration) : Nat := r.time + r.delay

def Registration.action (r : Registration) : Action :=
  .periodic r.id r.request.fn r.request.ctx

def Action.isPeriodicOf (id : Fin schMaxTasks) : Action → Bool
  | .periodic i _ _ => i == id
  | _ => false

variable {σ : Type} (cfg : Config) (port : Port σ)

def executions (id : Fin schMaxTasks) (w w' : SchWorld σ) : List Action :=
  ((actionsSince w w').map Prod.fst).filter (Action.isPeriodicOf id)

def runs (w : SchWorld σ) : List (Call σ) → List (SchWorld σ × SchWorld σ)
  | [] => []
  | .run :: rest => (w, run cfg port w) :: runs (run cfg port w) rest
  | c :: rest => runs (step cfg port w c) rest

def entryTimes (us : List (SchWorld σ × SchWorld σ)) : List Nat :=
  us.map fun u => entryTime port u.1

/-- Times in order, each less than half the range after the one before. -/
def Spaced (start : Nat) (times : List Nat) : Prop :=
  List.IsChain (fun s t => s ≤ t ∧ t < s + 2 ^ 31) (start :: times)

theorem runs_cons_of_ne (w : SchWorld σ) (c : Call σ) (rest : List (Call σ)) (other : c ≠ .run) :
    runs cfg port w (c :: rest) = runs cfg port (step cfg port w c) rest := by
  cases c with
  | run => exact absurd rfl other
  | _ => rfl

theorem filter_periodicAction (s : Sch) (id : Fin schMaxTasks) (ids : List (Fin schMaxTasks))
    (nodup : ids.Nodup) :
    (ids.map (periodicAction s)).filter (Action.isPeriodicOf id) =
      if id ∈ ids then [periodicAction s id] else [] := by
  have same : Action.isPeriodicOf id ∘ periodicAction s = fun i => i == id := rfl
  rw [List.filter_map, same, List.filter_beq]
  split_ifs with mem
  · rw [List.count_eq_one_of_mem nodup mem]
    rfl
  · rw [List.count_eq_zero_of_not_mem mem]
    rfl

theorem LastAction.not_periodic {s : Sch} {act : Action} (h : LastAction s act)
    (id : Fin schMaxTasks) : act.isPeriodicOf id = false := by
  cases h <;> rfl

theorem Cycles.executions_eq {now : BitVec 32} {ids : List (Fin schMaxTasks)}
    {w w' : SchWorld σ} (h : Cycles now ids w w') (id : Fin schMaxTasks) :
    executions id w w' = if id ∈ ids then [periodicAction w.state id] else [] := by
  have nodup : ids.Nodup := h.sorted.imp Before.ne
  obtain ⟨l, periodic, last, snapshot, log, act, same, kind, -⟩ := h.log
  rw [executions, actionsSince, World.since_of_log _ _ l log, act, List.map_append,
    List.filter_append, same, filter_periodicAction w.state id ids nodup]
  simp [kind.not_periodic id]

section Slot

variable {r : Registration} {seen : Option Nat}

/-- The slot of `r` waits for the point that is due after `seen`. -/
def Scheduled (r : Registration) (seen : Option Nat) (s : Sch) : Prop :=
  s.tasks r.id = { r.task with nextRelease := BitVec.ofNat 32 (due r.first r.period seen) }

def Released (r : Registration) (seen : Option Nat) (t : Nat) : Prop :=
  ∃ m, point r.first r.period m ≤ t ∧ ∀ s, seen = some s → s < point r.first r.period m

/-- What a run is to do for `r` if the entry before it was at `seen`. -/
structure Decides (r : Registration) (seen : Option Nat) (u : SchWorld σ × SchWorld σ) :
    Prop where
  executes : Released r seen (entryTime port u.1) → executions r.id u.1 u.2 = [r.action]
  skips : ¬ Released r seen (entryTime port u.1) → executions r.id u.1 u.2 = []
  next : (u.2.state.tasks r.id).nextRelease =
    BitVec.ofNat 32 (nextAfter r.first r.period (entryTime port u.1))

def Follows (r : Registration) : Option Nat → List (SchWorld σ × SchWorld σ) → Prop
  | _, [] => True
  | seen, u :: rest => Decides port r seen u ∧ Follows r (some (entryTime port u.1)) rest

/-- Period and delay that the sign comparison can handle. -/
structure Registration.InRange (r : Registration) : Prop where
  positive : 0 < r.period
  period : r.period ≤ 2 ^ 31
  delay : r.delay ≤ 2 ^ 31

theorem Registration.task_scheduled {s : Sch} (h : s.tasks r.id = r.task) :
    Scheduled r none s := by
  rw [Scheduled, h, due, Registration.first, BitVec.ofNat_add, Registration.delay,
    BitVec.ofNat_toNat, BitVec.setWidth_eq]
  rfl

theorem Scheduled.grows {s s' : Sch} (h : Scheduled r seen s) (grows : Grows s s') :
    Scheduled r seen s' := by
  have used : (s.tasks r.id).inUse = true := by
    rw [h]
    rfl
  exact (grows.kept r.id used).trans h

theorem Registration.periodTicks_ne (r : Registration) (positive : 0 < r.period) :
    r.request.periodTicks ≠ 0 := by
  intro zero
  rw [Registration.period, zero] at positive
  cases positive

theorem Registration.InRange.periodTicks_ne (limits : r.InRange) : r.request.periodTicks ≠ 0 :=
  r.periodTicks_ne limits.positive

theorem run_slot {w : SchWorld σ} {next : BitVec 32} (settled : Settled w.state)
    (h : w.state.tasks r.id = { r.task with nextRelease := next })
    (periodic : r.request.periodTicks ≠ 0) :
    let now := BitVec.ofNat 32 (entryTime port w)
    (timeReached now next = true → executions r.id w (run cfg port w) = [r.action] ∧
      (run cfg port w).state.tasks r.id =
        { r.task with nextRelease := advanceNextRelease now next r.request.periodTicks }) ∧
    (timeReached now next ≠ true → executions r.id w (run cfg port w) = [] ∧
      (run cfg port w).state.tasks r.id = { r.task with nextRelease := next }) := by
  intro now
  obtain ⟨ids, cycles⟩ := run_cycles cfg port w settled
  have mem_iff : r.id ∈ ids ↔ timeReached now next = true := by
    rw [cycles.members, h]
    exact ⟨fun ready => ready.reached, fun reached => ⟨rfl, periodic, reached⟩⟩
  constructor
  · intro reached
    have mem := mem_iff.mpr reached
    rw [cycles.executions_eq, if_pos mem, cycles.executed r.id mem, periodicAction, released, h]
    exact ⟨rfl, rfl⟩
  · intro ahead
    have out := mt mem_iff.mp ahead
    rw [cycles.executions_eq, if_neg out]
    exact ⟨rfl, (slot_kept (cycles.others r.id out) (by rw [h]; rfl)).trans h⟩

/-- No time is more than half the range before the point that is due. -/
def Near (r : Registration) : Option Nat → List Nat → Prop
  | _, [] => True
  | seen, t :: rest => due r.first r.period seen ≤ t + 2 ^ 31 ∧ Near r (some t) rest

theorem due_behind (positive : 0 < r.period) {t : Nat} (near : t < seen.getD r.time + 2 ^ 31) :
    t < due r.first r.period seen + 2 ^ 31 := by
  have first : r.first = r.time + r.delay := rfl
  cases seen with
  | none =>
    rw [Option.getD_none] at near
    rw [due]
    omega
  | some s =>
    rw [Option.getD_some] at near
    have above := nextAfter_gt r.first r.period positive s
    rw [due]
    omega

theorem Registration.InRange.due_le (limits : r.InRange) (order : r.time ≤ seen.getD r.time)
    {t : Nat} (after : seen.getD r.time ≤ t) : due r.first r.period seen ≤ t + 2 ^ 31 := by
  have first : r.first = r.time + r.delay := rfl
  have delay := limits.delay
  have period := limits.period
  cases seen with
  | none =>
    rw [Option.getD_none] at after
    rw [due]
    omega
  | some s =>
    rw [Option.getD_some] at order after
    have below := nextAfter_le r.first r.period s
    rw [due]
    omega

theorem Registration.InRange.near (limits : r.InRange) (seen : Option Nat)
    (order : r.time ≤ seen.getD r.time) (times : List Nat) (spaced : Spaced (seen.getD r.time) times) :
    Near r seen times := by
  induction times generalizing seen with
  | nil => exact trivial
  | cons t rest ih =>
    obtain ⟨⟨after, -⟩, spaced'⟩ := List.isChain_cons_cons.mp spaced
    exact ⟨limits.due_le order after, ih (some t) (order.trans after) spaced'⟩

theorem Scheduled.run_near {w : SchWorld σ} (settled : Settled w.state)
    (h : Scheduled r seen w.state) (positive : 0 < r.period)
    (after : ∀ s, seen = some s → s ≤ entryTime port w)
    (ahead : due r.first r.period seen ≤ entryTime port w + 2 ^ 31)
    (behind : entryTime port w < due r.first r.period seen + 2 ^ 31) :
    Scheduled r (some (entryTime port w)) (run cfg port w).state ∧
      Decides port r seen (w, run cfg port w) := by
  have reached_iff := timeReached_ofNat (entryTime port w) _ ahead behind
  have released_iff := exists_point_iff_due_le r.first r.period positive seen (entryTime port w)
  have periodic : r.request.periodTicks ≠ 0 := r.periodTicks_ne positive
  obtain ⟨taken, left⟩ := run_slot cfg port settled h periodic
  generalize Scheduler.run cfg port w = w' at taken left ⊢
  by_cases late : due r.first r.period seen ≤ entryTime port w
  · obtain ⟨executed, task⟩ := taken (reached_iff.mpr late)
    have scheduled : Scheduled r (some (entryTime port w)) w'.state := by
      rw [advanceNextRelease_ofNat _ _ _ periodic late behind,
        show r.request.periodTicks.toNat = r.period from rfl,
        catchUp_due r.first r.period positive seen _ late] at task
      exact task
    refine ⟨scheduled, fun _ => executed, fun quiet => absurd (released_iff.mpr late) quiet, ?_⟩
    rw [scheduled]
    rfl
  · obtain ⟨skipped, task⟩ := left (mt reached_iff.mp late)
    have stays := due_of_ahead r.first r.period positive seen _ after (not_le.mp late)
    have scheduled : Scheduled r (some (entryTime port w)) w'.state := by
      rw [Scheduled, due, stays]
      exact task
    refine ⟨scheduled, fun released => absurd (released_iff.mp released) late, fun _ => skipped, ?_⟩
    rw [scheduled]
    rfl

theorem Scheduled.run {w : SchWorld σ} (settled : Settled w.state)
    (h : Scheduled r seen w.state) (limits : r.InRange) (order : r.time ≤ seen.getD r.time)
    (after : seen.getD r.time ≤ entryTime port w)
    (near : entryTime port w < seen.getD r.time + 2 ^ 31) :
    Scheduled r (some (entryTime port w)) (run cfg port w).state ∧
      Decides port r seen (w, run cfg port w) :=
  h.run_near cfg port settled limits.positive (by rintro s rfl; exact after)
    (limits.due_le order after) (due_behind limits.positive near)

theorem Scheduled.follows {w : SchWorld σ} (settled : Settled w.state)
    (h : Scheduled r seen w.state) (positive : 0 < r.period) (calls : List (Call σ))
    (spaced : Spaced (seen.getD r.time) (entryTimes port (runs cfg port w calls)))
    (near : Near r seen (entryTimes port (runs cfg port w calls))) :
    Follows port r seen (runs cfg port w calls) := by
  induction calls generalizing w seen with
  | nil => exact trivial
  | cons c rest ih =>
    by_cases isRun : c = .run
    · subst isRun
      obtain ⟨⟨after, close⟩, spaced'⟩ := List.isChain_cons_cons.mp spaced
      obtain ⟨ahead, near'⟩ := near
      obtain ⟨scheduled, decides⟩ := h.run_near cfg port settled positive
        (by rintro s rfl; exact after) ahead (due_behind positive close)
      exact ⟨decides, ih (step_settled cfg port w .run settled) scheduled spaced' near'⟩
    · rw [runs_cons_of_ne cfg port w c rest isRun] at spaced near ⊢
      exact ih (step_settled cfg port w c settled)
        (h.grows (step_undisturbed cfg port w c isRun).grows) spaced near

theorem Follows.decides {earlier rest : List (SchWorld σ × SchWorld σ)}
    {u : SchWorld σ × SchWorld σ} (h : Follows port r seen (earlier ++ u :: rest)) :
    Decides port r ((entryTimes port earlier).getLast?.or seen) u := by
  induction earlier generalizing seen with
  | nil => exact h.1
  | cons v earlier ih =>
    have later := ih h.2
    rw [entryTimes, List.map_cons, List.getLast?_cons, ← entryTimes]
    cases last : (entryTimes port earlier).getLast? with
    | none =>
      rw [last] at later
      exact later
    | some x =>
      rw [last] at later
      exact later

end Slot

/-- What the call `c` registers: as `sch_add_task` itself, or as a run whose callbacks
call it. -/
def registrationsIn (w : SchWorld σ) (c : Call σ) : List Registration :=
  registrations (World.since w (step cfg port w c))

theorem registered_registers (w : SchWorld σ) (settled : Settled w.state) (c : Call σ)
    (r : Registration) (added : r ∈ registrationsIn cfg port w c) :
    Registers w.state (step cfg port w c).state r := by
  rw [registrationsIn] at added
  by_cases isRun : c = .run
  · obtain ⟨ids, cycles⟩ := run_cycles cfg port w settled
    obtain ⟨l, -, -, -, log, -, -, -, registers⟩ := cycles.log
    rw [isRun, step] at added ⊢
    rw [World.since_of_log _ _ l log] at added
    exact registers r added
  · obtain ⟨l, log, -, registers⟩ := (step_undisturbed cfg port w c isRun).log
    rw [World.since_of_log _ _ l log] at added
    exact registers r added

theorem history_append (env : σ) (before later : List (Call σ)) :
    history cfg port env (before ++ later) =
      later.foldl (step cfg port) (history cfg port env before) := by
  rw [history, List.foldl_append]
  rfl

theorem history_concat (env : σ) (before : List (Call σ)) (c : Call σ) :
    history cfg port env (before ++ [c]) = step cfg port (history cfg port env before) c :=
  history_append cfg port env before [c]

theorem registered_scheduled (env : σ) (before : List (Call σ)) (c : Call σ) (r : Registration)
    (added : r ∈ registrationsIn cfg port (history cfg port env before) c) :
    Scheduled r none (history cfg port env (before ++ [c])).state := by
  have task := (registered_registers cfg port _ (history_settled cfg port env before) c r added).2
  rw [← history_concat] at task
  exact Registration.task_scheduled task

theorem registered_follows (env : σ) (before : List (Call σ)) (c : Call σ) (r : Registration)
    (added : r ∈ registrationsIn cfg port (history cfg port env before) c) (limits : r.InRange)
    (later : List (Call σ))
    (spaced : Spaced r.time
      (entryTimes port (runs cfg port (history cfg port env (before ++ [c])) later))) :
    Follows port r none (runs cfg port (history cfg port env (before ++ [c])) later) :=
  (registered_scheduled cfg port env before c r added).follows cfg port
    (history_settled cfg port env _) limits.positive later spaced
    (limits.near none (le_refl _) _ spaced)

/-- Each run executes the task once if a release has passed since the run before it, and
else not at all, and leaves the next release after its entry time behind. -/
theorem run_cadence (env : σ) (before : List (Call σ)) (c : Call σ) (r : Registration)
    (added : r ∈ registrationsIn cfg port (history cfg port env before) c)
    (positive : 0 < r.period) (period : r.period ≤ 2 ^ 31) (delay : r.delay ≤ 2 ^ 31)
    (later : List (Call σ))
    (spaced : Spaced r.time
      (entryTimes port (runs cfg port (history cfg port env (before ++ [c])) later))) :
    ∀ earlier u rest,
      runs cfg port (history cfg port env (before ++ [c])) later = earlier ++ u :: rest →
      let t := entryTime port u.1
      let previous := (entryTimes port earlier).getLast?
      (Released r previous t → executions r.id u.1 u.2 = [r.action]) ∧
      (¬ Released r previous t → executions r.id u.1 u.2 = []) ∧
      ∃ next, IsLeast {x | t < x ∧ ∃ m, point r.first r.period m = x} next ∧
        (u.2.state.tasks r.id).nextRelease = BitVec.ofNat 32 next := by
  intro earlier u rest split t previous
  have follows := registered_follows cfg port env before c r added ⟨positive, period, delay⟩
    later spaced
  rw [split] at follows
  have decides := follows.decides
  rw [Option.or_none] at decides
  exact ⟨decides.executes, decides.skips, _, isLeast_nextAfter r.first r.period positive t,
    decides.next⟩

def clockPort : Port Nat where
  time now := (now, now)
  task _ _ now := .ret now
  traceHook _ _ _ _ _ now := now
  idle now := now

theorem run_cadence_wrap :
    let cfg : Config := ⟨true, true⟩
    let w := history cfg clockPort (2 ^ 32 - 50)
      [.addTask ⟨1, 0, 1000, 100, 0⟩, .elapse (2 ^ 32 + 60)]
    executions 0 w (run cfg clockPort w) = [.periodic 0 1 0] := by
  intro cfg w
  obtain ⟨executes, -, -⟩ := run_cadence cfg clockPort (2 ^ 32 - 50) []
    (.addTask ⟨1, 0, 1000, 100, 0⟩) ⟨0, ⟨1, 0, 1000, 100, 0⟩, 2 ^ 32 - 50⟩ (by decide) (by decide)
    (by decide) (by decide) [.elapse (2 ^ 32 + 60), .run] (by
      refine List.IsChain.cons_cons ⟨?_, ?_⟩ (List.IsChain.singleton _) <;> decide)
    [] (w, run cfg clockPort w) [] rfl
  have executed := executes ⟨0, by decide, fun s none_seen => by cases none_seen⟩
  simp only [Registration.action] at executed
  exact executed

end SchedulerLib.Scheduler
