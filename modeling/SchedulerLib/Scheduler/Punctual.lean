import SchedulerLib.Scheduler.Cadence

/-!
Neither early nor twice in one interval of its grid: what a periodic task may expect, and
for which periods and delays it gets it. `sch_add_task` takes any 32-bit period and delay;
past half the range the sign test reads a release far ahead as one that has passed.
-/

namespace SchedulerLib.Scheduler

open Lib ReleaseGrid

def InInterval (r : Registration) (m t : Nat) : Prop :=
  point r.first r.period m ≤ t ∧ t < point r.first r.period (m + 1)

section Punctual

variable {σ : Type} (port : Port σ)

structure Punctual (r : Registration) (us : List (SchWorld σ × SchWorld σ)) : Prop where
  not_early : ∀ u ∈ us, entryTime port u.1 < r.first → executions r.id u.1 u.2 = []
  not_repeated : us.Pairwise fun u v => ∀ m, InInterval r m (entryTime port u.1) →
    InInterval r m (entryTime port v.1) →
    executions r.id u.1 u.2 = [] ∨ executions r.id v.1 v.2 = []

variable {port} {r : Registration} {us : List (SchWorld σ × SchWorld σ)}

theorem Follows.not_early {seen : Option Nat} (h : Follows port r seen us) :
    ∀ u ∈ us, entryTime port u.1 < r.first → executions r.id u.1 u.2 = [] := by
  induction us generalizing seen with
  | nil => simp
  | cons v rest ih =>
    intro u mem early
    rcases List.mem_cons.mp mem with rfl | later
    · refine h.1.skips fun released => ?_
      obtain ⟨m, le, -⟩ := released
      have base : r.first ≤ point r.first r.period m := Nat.le_add_right _ _
      omega
    · exact ih h.2 u later early

theorem Follows.waits {s : Nat} (h : Follows port r (some s) us)
    (spaced : Spaced s (entryTimes port us)) (u : SchWorld σ × SchWorld σ) (mem : u ∈ us)
    (none_due : ∀ m, s < point r.first r.period m → entryTime port u.1 < point r.first r.period m) :
    executions r.id u.1 u.2 = [] := by
  induction us generalizing s with
  | nil => simp at mem
  | cons v rest ih =>
    obtain ⟨⟨order, -⟩, spaced'⟩ := List.isChain_cons_cons.mp spaced
    rcases List.mem_cons.mp mem with rfl | later
    · refine h.1.skips fun released => ?_
      obtain ⟨m, le, after⟩ := released
      have ahead := none_due m (after s rfl)
      omega
    · exact ih h.2 spaced' later fun m after => none_due m (order.trans_lt after)

theorem not_punctual_of_twice {u u' v v' : SchWorld σ} (m : Nat)
    (inside : InInterval r m (entryTime port u)) (inside' : InInterval r m (entryTime port v))
    (first : executions r.id u u' = [r.action]) (second : executions r.id v v' = [r.action]) :
    ¬ Punctual port r ((u, u') :: (v, v') :: us) := by
  intro punctual
  have once := (List.pairwise_cons.mp punctual.not_repeated).1 (v, v') (List.mem_cons_self ..) m
    inside inside'
  rw [first, second] at once
  simp at once

theorem Follows.punctual {seen : Option Nat} {start : Nat} (h : Follows port r seen us)
    (positive : 0 < r.period) (spaced : Spaced start (entryTimes port us)) :
    Punctual port r us where
  not_early := h.not_early
  not_repeated := by
    induction us generalizing seen start with
    | nil => exact List.Pairwise.nil
    | cons u rest ih =>
      obtain ⟨-, spaced'⟩ := List.isChain_cons_cons.mp spaced
      refine List.Pairwise.cons (fun v mem m inside inside' => Or.inr ?_) (ih h.2 spaced')
      refine h.2.waits spaced' v mem fun n after => ?_
      -- the next point after an entry in the interval of `m` is not before its end
      have next : m < n :=
        (point_lt_iff r.first r.period positive m n).mp (inside.1.trans_lt after)
      exact inside'.2.trans_le (point_mono r.first r.period next)

end Punctual

section History

variable {σ : Type} (cfg : Config) (port : Port σ) {r : Registration} {seen : Option Nat}
  {w : SchWorld σ}

theorem Scheduled.executes_of_far (settled : Settled w.state) (h : Scheduled r seen w.state)
    (positive : 0 < r.period) (order : r.time ≤ seen.getD r.time)
    (after : seen.getD r.time ≤ entryTime port w)
    (far : entryTime port w + 2 ^ 31 < due r.first r.period seen) :
    executions r.id w (Scheduler.run cfg port w) = [r.action] := by
  have first : r.first = r.time + r.delay := rfl
  have delay : r.delay < 2 ^ 32 := r.request.startDelayTicks.isLt
  have period : r.period < 2 ^ 32 := r.request.periodTicks.isLt
  have wrapped : due r.first r.period seen < entryTime port w + 2 ^ 32 := by
    cases seen with
    | none =>
      rw [Option.getD_none] at after
      rw [due]
      omega
    | some s =>
      rw [Option.getD_some] at order after
      have below := nextAfter_le r.first r.period s
      rw [due]
      omega
  exact ((run_slot cfg port settled h (r.periodTicks_ne positive)).1
    (timeReached_of_far _ _ far wrapped)).1

theorem early_or_inside {s t : Nat} (positive : 0 < r.period) (order : s ≤ t)
    (ahead : t < nextAfter r.first r.period s) :
    t < r.first ∨ ∃ m, InInterval r m s ∧ InInterval r m t := by
  have interval : ∀ x, r.first ≤ x → ∃ m, InInterval r m x := fun x late => by
    obtain ⟨k, next⟩ := nextAfter_point r.first r.period x
    have above := nextAfter_gt r.first r.period positive x
    cases k with
    | zero =>
      rw [next, point] at above
      omega
    | succ m =>
      refine ⟨m, ?_, next ▸ above⟩
      by_contra beyond
      have least := nextAfter_le_point r.first r.period positive x m (not_le.mp beyond)
      have grows : point r.first r.period m < point r.first r.period (m + 1) :=
        (point_lt_iff r.first r.period positive m (m + 1)).mpr (Nat.lt_succ_self m)
      omega
  rcases Nat.lt_or_ge s r.first with early | late
  · left
    rwa [nextAfter, if_pos early] at ahead
  · right
    obtain ⟨m, inside⟩ := interval s late
    have least := nextAfter_le_point r.first r.period positive s (m + 1) inside.2
    exact ⟨m, inside, inside.1.trans order, ahead.trans_le least⟩

def Used (port : Port σ) (r : Registration) (seen : Option Nat)
    (us : List (SchWorld σ × SchWorld σ)) : Prop :=
  ∀ s, seen = some s → ∀ m, InInterval r m s → ∀ u ∈ us, InInterval r m (entryTime port u.1) →
    executions r.id u.1 u.2 = []

/-- A run that does not execute the task early or twice is not too far ahead of the due point. -/
theorem Scheduled.due_near (settled : Settled w.state) (h : Scheduled r seen w.state)
    (positive : 0 < r.period) (order : r.time ≤ seen.getD r.time)
    (after : seen.getD r.time ≤ entryTime port w)
    (early : entryTime port w < r.first → executions r.id w (Scheduler.run cfg port w) = [])
    (used : Used port r seen [(w, Scheduler.run cfg port w)]) :
    due r.first r.period seen ≤ entryTime port w + 2 ^ 31 := by
  by_contra far
  have executed := h.executes_of_far cfg port settled positive order after (not_le.mp far)
  have ahead : entryTime port w < due r.first r.period seen := by omega
  have idle : executions r.id w (Scheduler.run cfg port w) = [] := by
    cases seen with
    | none => exact early ahead
    | some s =>
      rcases early_or_inside (r := r) positive after ahead with before | ⟨m, inside, inside'⟩
      · exact early before
      · have again := used s rfl m inside _ List.mem_cons_self
        dsimp only at again
        exact again inside'
  rw [executed] at idle
  cases idle

theorem Decides.used {u : SchWorld σ × SchWorld σ} {us : List (SchWorld σ × SchWorld σ)}
    (h : Decides port r seen u) (after : seen.getD r.time ≤ entryTime port u.1)
    (used : Used port r seen (u :: us))
    (once : ∀ v ∈ us, ∀ m, InInterval r m (entryTime port u.1) →
      InInterval r m (entryTime port v.1) →
      executions r.id u.1 u.2 = [] ∨ executions r.id v.1 v.2 = []) :
    Used port r (some (entryTime port u.1)) us := by
  rintro t same m inside v mem inside'
  obtain rfl : entryTime port u.1 = t := Option.some.inj same
  by_cases released : Released r seen (entryTime port u.1)
  · have executed := h.executes released
    exact (once v mem m inside inside').resolve_left (by rw [executed]; simp)
  · -- no release since the entry before: it lies in the same interval
    cases seen with
    | none => exact absurd ⟨m, inside.1, fun s none_seen => by cases none_seen⟩ released
    | some s =>
      have before : InInterval r m s := by
        refine ⟨?_, lt_of_le_of_lt after inside.2⟩
        by_contra later
        exact released ⟨m, inside.1, fun s' same => Option.some.inj same ▸ not_le.mp later⟩
      exact used s rfl m before v (List.mem_cons_of_mem _ mem) inside'

theorem Scheduled.near_of_punctual (settled : Settled w.state) (h : Scheduled r seen w.state)
    (positive : 0 < r.period) (order : r.time ≤ seen.getD r.time) (calls : List (Call σ))
    (spaced : Spaced (seen.getD r.time) (entryTimes port (runs cfg port w calls)))
    (punctual : Punctual port r (runs cfg port w calls))
    (used : Used port r seen (runs cfg port w calls)) :
    Near r seen (entryTimes port (runs cfg port w calls)) := by
  induction calls generalizing w seen with
  | nil => exact trivial
  | cons c rest ih =>
    by_cases isRun : c = .run
    · subst isRun
      obtain ⟨⟨after, close⟩, spaced'⟩ := List.isChain_cons_cons.mp spaced
      change seen.getD r.time ≤ entryTime port w at after
      obtain ⟨once, repeated⟩ := List.pairwise_cons.mp punctual.not_repeated
      have here : (w, Scheduler.run cfg port w) ∈ runs cfg port w (.run :: rest) :=
        List.mem_cons_self
      have early := punctual.not_early _ here
      dsimp only at early
      have near := h.due_near cfg port settled positive order after early
        fun s same m inside u mem inside' =>
          used s same m inside u (List.mem_singleton.mp mem ▸ here) inside'
      obtain ⟨scheduled, decides⟩ := h.run_near cfg port settled positive
        (by rintro s rfl; exact after) near (due_behind positive close)
      exact ⟨near, ih (step_settled cfg port w .run settled) scheduled (order.trans after) spaced'
        ⟨fun u mem => punctual.not_early u (List.mem_cons_of_mem _ mem), repeated⟩
        (decides.used port after used once)⟩
    · rw [runs_cons_of_ne cfg port w c rest isRun] at spaced punctual used ⊢
      exact ih (step_settled cfg port w c settled)
        (h.grows (step_undisturbed cfg port w c isRun).grows) order spaced punctual used

/-- A task is punctual in a history exactly if no run is entered more than half the range before
the release that the task waits for. -/
theorem punctual_iff_near (env : σ) (before : List (Call σ)) (c : Call σ) (r : Registration)
    (added : r ∈ registrationsIn cfg port (history cfg port env before) c) (positive : 0 < r.period)
    (later : List (Call σ))
    (spaced : Spaced r.time
      (entryTimes port (runs cfg port (history cfg port env (before ++ [c])) later))) :
    let us := runs cfg port (history cfg port env (before ++ [c])) later
    Punctual port r us ↔ Near r none (entryTimes port us) := by
  intro us
  have settled := history_settled cfg port env (before ++ [c])
  have scheduled := registered_scheduled cfg port env before c r added
  constructor
  · intro punctual
    exact scheduled.near_of_punctual cfg port settled positive (le_refl _) later spaced punctual
      fun s none_seen => by cases none_seen
  · intro near
    exact (scheduled.follows cfg port settled positive later spaced near).punctual positive spaced

end History

/-- No registration with period `p` and delay `d` at time `a` is ever served early or twice
in one interval, in any system and history with runs less than half the range apart. -/
def AlwaysPunctual (cfg : Config) (a : Nat) (p d : BitVec 32) : Prop :=
  ∀ (σ : Type) (port : Port σ) (env : σ) (before : List (Call σ)) (c : Call σ)
    (r : Registration) (later : List (Call σ)),
    r ∈ registrationsIn cfg port (history cfg port env before) c → r.time = a →
    r.request.periodTicks = p → r.request.startDelayTicks = d →
    let us := runs cfg port (history cfg port env (before ++ [c])) later
    Spaced a (entryTimes port us) → Punctual port r us

section Far

variable (cfg : Config) (a : Nat) (p d : BitVec 32)

def loneTask : Registration := ⟨⟨0, schMaxTasks_pos⟩, ⟨1, 0, p, d, 0⟩, a⟩

def loneWorld : SchWorld Nat := history cfg clockPort a [.addTask (loneTask a p d).request]

theorem loneTask_registered :
    loneTask a p d ∈ registrationsIn cfg clockPort (history cfg clockPort a [])
      (.addTask (loneTask a p d).request) := by
  have found : (List.finRange schMaxTasks).find? (fun i => !(Sch.init.tasks i).inUse) = some 0 := by
    decide
  have added : (addTask cfg clockPort (loneTask a p d).request (World.start Sch.init a)).2.log =
      [(.nowTicks a, Sch.init), (.added 0 (loneTask a p d).request a,
        Sch.init.register cfg 0 (loneTask a p d).task)] := by
    unfold addTask
    rw [if_neg (by simp [loneTask]), if_neg (by rw [World.start_state]; decide)]
    dsimp only [nowTicks, clockPort, World.emit_state, World.setEnv_state, World.start_state]
    rw [found]
    rfl
  rw [registrationsIn, history, List.foldl_nil, step, World.since, added]
  exact List.mem_singleton_self _

theorem loneWorld_settled : Settled (loneWorld cfg a p d).state :=
  history_settled cfg clockPort a _

theorem loneWorld_scheduled : Scheduled (loneTask a p d) none (loneWorld cfg a p d).state :=
  Registration.task_scheduled (registered_registers cfg clockPort _
    (history_settled cfg clockPort a []) _ _ (loneTask_registered cfg a p d)).2

def runsAt (times : List Nat) : List (Call Nat) := times.flatMap fun t => [.elapse t, .run]

theorem runs_runsAt_cons (w : SchWorld Nat) (t : Nat) (times : List Nat) :
    runs cfg clockPort w (runsAt (t :: times)) = (w.setEnv t, run cfg clockPort (w.setEnv t)) ::
      runs cfg clockPort (run cfg clockPort (w.setEnv t)) (runsAt times) := rfl

theorem entryTimes_runsAt (w : SchWorld Nat) (times : List Nat) :
    entryTimes clockPort (runs cfg clockPort w (runsAt times)) = times := by
  induction times generalizing w with
  | nil => rfl
  | cons t times ih =>
    rw [runs_runsAt_cons, entryTimes, List.map_cons, ← entryTimes, ih]
    rfl

theorem Punctual.tail {r : Registration} {u : SchWorld Nat × SchWorld Nat}
    {us : List (SchWorld Nat × SchWorld Nat)} (h : Punctual clockPort r (u :: us)) :
    Punctual clockPort r us :=
  ⟨fun v mem => h.not_early v (List.mem_cons_of_mem u mem), (List.pairwise_cons.mp h.not_repeated).2⟩

@[simp] theorem entryTime_setEnv (w : SchWorld Nat) (t : Nat) :
    entryTime clockPort (w.setEnv t) = t := rfl

theorem not_punctual_of_long_period (w : SchWorld Nat) (r : Registration)
    (settled : Settled w.state) (h : Scheduled r none w.state) (long : 2 ^ 31 < r.period) :
    ¬ Punctual clockPort r (runs cfg clockPort w (runsAt [r.first, r.first])) := by
  rw [runs_runsAt_cons, runs_runsAt_cons]
  intro punctual
  have small : r.period < 2 ^ 32 := r.request.periodTicks.isLt
  have periodic : r.request.periodTicks ≠ 0 := by
    intro zero
    rw [Registration.period, zero] at long
    cases long
  have first_reached : timeReached (BitVec.ofNat 32 r.first) (BitVec.ofNat 32 r.first) = true :=
    (timeReached_ofNat _ _ (by omega) (by omega)).mpr (le_refl _)
  obtain ⟨executed, task⟩ := (run_slot cfg clockPort (w := w.setEnv r.first) settled h
    periodic).1 first_reached
  have next : advanceNextRelease (BitVec.ofNat 32 r.first) (BitVec.ofNat 32 r.first)
      r.request.periodTicks = BitVec.ofNat 32 (r.first + r.period) := by
    rw [advanceNextRelease_ofNat _ _ _ periodic (le_refl _) (by omega), Nat.sub_self, Nat.zero_div,
      Nat.zero_add, Nat.one_mul]
    rfl
  have settled' := run_settled cfg clockPort (w.setEnv r.first) settled
  generalize run cfg clockPort (w.setEnv r.first) = w₁ at executed task settled' punctual
  have again_reached : timeReached (BitVec.ofNat 32 r.first)
      (BitVec.ofNat 32 (r.first + r.period)) = true :=
    timeReached_of_far _ _ (by omega) (by omega)
  rw [entryTime_setEnv, show due r.first r.period none = r.first from rfl, next] at task
  obtain ⟨executed', -⟩ := (run_slot cfg clockPort
    (w := w₁.setEnv r.first) settled' task periodic).1 again_reached
  have inside : InInterval r 0 r.first := by
    simp only [InInterval, point]
    omega
  exact not_punctual_of_twice 0 inside inside executed executed' punctual

theorem not_punctual_of_long_delay (long : 2 ^ 31 < d.toNat) (periodic : p ≠ 0) :
    ¬ Punctual clockPort (loneTask a p d)
      (runs cfg clockPort (loneWorld cfg a p d) (runsAt [a])) := by
  intro punctual
  have small : d.toNat < 2 ^ 32 := d.isLt
  have first : (loneTask a p d).first = a + d.toNat := rfl
  have reached : timeReached (BitVec.ofNat 32 a) (BitVec.ofNat 32 (loneTask a p d).first) = true :=
    timeReached_of_far _ _ (by omega) (by omega)
  obtain ⟨executed, -⟩ := (run_slot cfg clockPort (w := (loneWorld cfg a p d).setEnv a)
    (loneWorld_settled cfg a p d) (loneWorld_scheduled cfg a p d) periodic).1 reached
  rw [runs_runsAt_cons] at punctual
  have idle := punctual.not_early _ (List.mem_cons_self ..) (by
    rw [entryTime_setEnv]
    omega)
  simp only [executed] at idle
  simp at idle

theorem loneWorld_run_scheduled (t : Nat) (periodic : p ≠ 0) (before : t < (loneTask a p d).first)
    (near : (loneTask a p d).first ≤ t + 2 ^ 31) :
    Scheduled (loneTask a p d) none
      (run cfg clockPort ((loneWorld cfg a p d).setEnv t)).state := by
  have ahead : timeReached (BitVec.ofNat 32 t) (BitVec.ofNat 32 (loneTask a p d).first) ≠ true := by
    rw [Ne, timeReached_ofNat t _ near (by omega)]
    omega
  exact ((run_slot cfg clockPort (w := (loneWorld cfg a p d).setEnv t)
    (loneWorld_settled cfg a p d) (loneWorld_scheduled cfg a p d) periodic).2 ahead).2

theorem AlwaysPunctual.lone (h : AlwaysPunctual cfg a p d) (times : List Nat)
    (spaced : Spaced a times) :
    Punctual clockPort (loneTask a p d)
      (runs cfg clockPort (loneWorld cfg a p d) (runsAt times)) := by
  refine h Nat clockPort a [] _ (loneTask a p d) (runsAt times) (loneTask_registered cfg a p d)
    rfl rfl rfl ?_
  rw [entryTimes_runsAt]
  exact spaced

end Far

/-- A task is punctual, whatever the history, exactly if its period and its delay are within
half the range. -/
theorem punctual_iff (cfg : Config) (a : Nat) (p d : BitVec 32) (periodic : p ≠ 0) :
    AlwaysPunctual cfg a p d ↔ p.toNat ≤ 2 ^ 31 ∧ d.toNat ≤ 2 ^ 31 := by
  constructor
  · intro always
    have delay : d.toNat ≤ 2 ^ 31 := by
      by_contra long
      exact not_punctual_of_long_delay cfg a p d (not_le.mp long) periodic
        (always.lone cfg a p d [a] (List.IsChain.cons_cons (by omega) (.singleton _)))
    refine ⟨?_, delay⟩
    by_contra long
    have first : (loneTask a p d).first = a + d.toNat := rfl
    rcases Nat.lt_or_ge d.toNat (2 ^ 31) with near | far
    · refine not_punctual_of_long_period cfg _ (loneTask a p d) (loneWorld_settled cfg a p d)
        (loneWorld_scheduled cfg a p d) (not_le.mp long) (always.lone cfg a p d _ ?_)
      exact .cons_cons (by omega) (.cons_cons (by omega) (.singleton _))
    · -- exactly half the range away: one run in between keeps the runs close enough
      have waiting := loneWorld_run_scheduled cfg a p d (a + 1) periodic (by omega) (by omega)
      have settled := run_settled cfg clockPort ((loneWorld cfg a p d).setEnv (a + 1))
        (loneWorld_settled cfg a p d)
      refine not_punctual_of_long_period cfg _ (loneTask a p d) settled waiting (not_le.mp long)
        (always.lone cfg a p d [a + 1, _, _] ?_).tail
      exact .cons_cons (by omega) (.cons_cons (by omega) (.cons_cons (by omega) (.singleton _)))
  · rintro ⟨period, delay⟩ σ port env before c r later added rfl rfl rfl us spaced
    have positive : 0 < r.period := by
      rw [Registration.period, Nat.pos_iff_ne_zero]
      exact fun zero => periodic (BitVec.eq_of_toNat_eq zero)
    have limits : r.InRange := ⟨positive, period, delay⟩
    exact (punctual_iff_near cfg port env before c r added positive later spaced).mpr
      (limits.near none (le_refl _) _ spaced)

theorem punctual_iff_half_range_delay : AlwaysPunctual ⟨true, true⟩ 0 1000 2147483648 :=
  (punctual_iff ⟨true, true⟩ 0 1000 2147483648 (by decide)).mpr ⟨by decide, by decide⟩

/-- An hour in microseconds: the runs at 0 and 1 both execute the task. -/
theorem not_punctual_hour :
    let cfg : Config := ⟨true, true⟩
    let r := loneTask 0 3600000000 0
    let w := (loneWorld cfg 0 3600000000 0).setEnv 0
    let w' := (run cfg clockPort w).setEnv 1
    executions r.id w (run cfg clockPort w) = [r.action] ∧
      executions r.id w' (run cfg clockPort w') = [r.action] ∧
      InInterval r 0 0 ∧ InInterval r 0 1 ∧ ¬ AlwaysPunctual cfg 0 3600000000 0 := by
  intro cfg r w w'
  have first : executions r.id w (run cfg clockPort w) = [r.action] := by decide +kernel
  have second : executions r.id w' (run cfg clockPort w') = [r.action] := by decide +kernel
  have inside : InInterval r 0 0 ∧ InInterval r 0 1 :=
    ⟨⟨by decide, by decide⟩, ⟨by decide, by decide⟩⟩
  refine ⟨first, second, inside.1, inside.2, fun always => ?_⟩
  have punctual := always.lone cfg 0 3600000000 0 [0, 1]
    (.cons_cons (by decide) (.cons_cons (by decide) (.singleton _)))
  rw [runs_runsAt_cons, runs_runsAt_cons] at punctual
  exact not_punctual_of_twice 0 inside.1 inside.2 first second punctual

end SchedulerLib.Scheduler
