import SchedulerLib.Scheduler.Accounting
import SchedulerLib.Scheduler.Completions
import SchedulerLib.Scheduler.Moves

/-!
Counted releases against elapsed ones. Misses are counted where a release finds its task
still pending, which never happens; releases are skipped where the next one is advanced,
and nothing is counted there. So a run adds one to the counts for any number of releases
that have passed, and the counts are right as long as that number is at most one.
-/

namespace SchedulerLib.Scheduler

open Lib ReleaseGrid

def Unmissed (s : Sch) : Prop := ∀ i, (s.stats i).missCount = 0

theorem Unmissed.setStats {s : Sch} (h : Unmissed s) (id : Fin schMaxTasks) (stats : SchTaskStats)
    (same : stats.missCount = (s.stats id).missCount) : Unmissed (s.setStats id stats) := by
  intro i
  by_cases here : i = id
  · rw [here, Sch.setStats_self, same]
    exact h id
  · rw [Sch.setStats_of_ne s stats here]
    exact h i

theorem Unmissed.register {s : Sch} (h : Unmissed s) (cfg : Config) (id : Fin schMaxTasks)
    (task : SchTask) : Unmissed (s.register cfg id task) := by
  intro i
  by_cases here : i = id
  · rw [here, register_stats_self]
    split_ifs
    · rfl
    · exact h id
  · rw [register_stats_of_ne cfg s task here]
    exact h i

variable {σ : Type}

theorem Move.unmissed {cfg : Config} (w w' : SchWorld σ) (move : Move cfg w w')
    (h : Unmissed w.state) : Unmissed w'.state := by
  cases move with
  | setEnv env => exact h
  | note e plain => exact h
  | refuse request error logged refuses => exact h
  | register r logged chosen => exact h.register cfg r.id r.task
  | resetStats => exact fun _ => rfl
  | setTraceHook hook userCtx => exact h
  | mark now i ready quiet => exact h
  | release now i pending => exact h
  | tally i stats runCount missCount => exact h.setStats i stats missCount
  | call phase i fn ctx used own => exact h
  | complete i execStart execEnd => exact h.setStats i _ rfl
  | select =>
    intro i
    rw [World.setState_state, selectBackgroundTask_stats]
    exact h i

/-- The miss counters stay at zero, whatever happens. -/
theorem history_unmissed (cfg : Config) (port : Port σ) (env : σ) (calls : List (Call σ)) :
    Unmissed (history cfg port env calls).state :=
  history_invariant cfg port (fun w => Unmissed w.state) Move.unmissed env (fun _ => rfl) calls

section Charges

def Unreset (w w' : SchWorld σ) : Prop := ∀ x ∈ World.since w w', x.1 ≠ .resetStats

instance (w w' : SchWorld σ) : Decidable (Unreset w w') :=
  inferInstanceAs (Decidable (∀ x ∈ World.since w w', x.1 ≠ .resetStats))

theorem charged_append (trace : Bool) (id : Fin schMaxTasks) (events : List SchEvent)
    (l : List (SchEvent × Sch)) (unreset : ∀ x ∈ l, x.1 ≠ .resetStats) :
    (charged trace id (events ++ l.map Prod.fst)).length =
      (charged trace id events).length + (completedIds l).count id := by
  induction l using List.reverseRecOn with
  | nil => simp [completedIds]
  | append_singleton l x ih =>
    have before := ih fun y mem => unreset y (List.mem_append_left _ mem)
    have kept := unreset x (List.mem_append_right _ List.mem_cons_self)
    obtain ⟨e, s⟩ := x
    rw [List.map_append, ← List.append_assoc, List.map_singleton, charged_concat,
      completedIds_append, List.count_append, ← Nat.add_assoc, ← before]
    cases e with
    | resetStats => exact absurd rfl kept
    | completed i execStart execEnd =>
      by_cases here : i = id <;> simp [tallyStep, completedIds, SchEvent.completedId, here]
    | _ => rfl

theorem Balanced.charged {w w' : SchWorld σ} (h : Balanced w w') (unreset : Unreset w w')
    (trace : Bool) (id : Fin schMaxTasks) : (Scheduler.charged trace id w'.events).length =
      (Scheduler.charged trace id w.events).length + completions id w w' := by
  obtain ⟨l, log, -⟩ := h
  rw [Unreset, World.since_of_log _ _ l log] at unreset
  rw [World.events, log, List.map_append, charged_append trace id _ l unreset, completions,
    World.since_of_log _ _ l log]
  rfl

theorem Unreset.split {w₁ w₂ w₃ : SchWorld σ} (h : Unreset w₁ w₃) (k : Balanced w₁ w₂)
    (k' : Balanced w₂ w₃) : Unreset w₁ w₂ ∧ Unreset w₂ w₃ := by
  obtain ⟨l, log, -⟩ := k
  obtain ⟨m, log', -⟩ := k'
  rw [Unreset, World.since_append log log'] at h
  exact ⟨fun x mem => h x (List.mem_append_left _ mem),
    fun x mem => h x (List.mem_append_right _ mem)⟩

theorem steps_balanced (trace : Bool) (port : Port σ) (w : SchWorld σ) (calls : List (Call σ))
    (settled : Settled w.state) (h : Logged w) :
    Balanced w (calls.foldl (step ⟨true, trace⟩ port) w) := by
  induction calls generalizing w with
  | nil => exact balanced_of_log rfl
  | cons c rest ih =>
    exact (step_balanced trace port w c settled h).trans (ih _
      (step_settled ⟨true, trace⟩ port w c settled)
      (step_path ⟨true, trace⟩ port w c settled h).2)

end Charges

variable (trace : Bool) (port : Port σ) {r : Registration} {seen : Option Nat}

/-- The releases that have passed by the run `u` are on the counts of the task. -/
def ReleasesAccounted (r : Registration) (u : SchWorld σ × SchWorld σ) : Prop :=
  (u.2.state.stats r.id).runCount + (u.2.state.stats r.id).missCount =
    BitVec.ofNat 32 {m | point r.first r.period m ≤ entryTime port u.1}.ncard

theorem releasesAccounted_iff (positive : 0 < r.period) (u : SchWorld σ × SchWorld σ) :
    ReleasesAccounted port r u ↔ (u.2.state.stats r.id).runCount + (u.2.state.stats r.id).missCount =
      BitVec.ofNat 32 (passed r.first r.period (entryTime port u.1)) := by
  rw [ReleasesAccounted, ncard_point_le r.first r.period positive]

def Sparse (r : Registration) : Option Nat → List Nat → Prop
  | _, [] => True
  | seen, t :: rest =>
    {m | point r.first r.period m ≤ t ∧
      ∀ s, seen = some s → s < point r.first r.period m}.Subsingleton ∧ Sparse r (some t) rest

structure Counted (trace : Bool) (r : Registration) (seen : Option Nat) (w : SchWorld σ) :
    Prop where
  settled : Settled w.state
  logged : Logged w
  accounts : Accountable trace w
  unmissed : Unmissed w.state
  scheduled : Scheduled r seen w.state
  order : r.time ≤ seen.getD r.time
  counted : (charged trace r.id w.events).length = passedBy r.first r.period seen

section Runs

variable {w : SchWorld σ}

theorem Counted.step (h : Counted trace r seen w) (c : Call σ) (other : c ≠ .run)
    (unreset : Unreset w (step ⟨true, trace⟩ port w c)) :
    Counted trace r seen (step ⟨true, trace⟩ port w c) where
  settled := step_settled ⟨true, trace⟩ port w c h.settled
  logged := (step_path ⟨true, trace⟩ port w c h.settled h.logged).2
  accounts := step_accounts trace port h.accounts c
  unmissed := (step_path ⟨true, trace⟩ port w c h.settled h.logged).1.invariant Move.unmissed
    h.unmissed
  scheduled := h.scheduled.grows (step_undisturbed ⟨true, trace⟩ port w c other).grows
  order := h.order
  counted := by
    have balanced := step_balanced trace port w c h.settled h.logged
    rw [balanced.charged unreset, h.counted, completions_of_undisturbed balanced
      (step_undisturbed ⟨true, trace⟩ port w c other), Nat.add_zero]

theorem passed_near (limits : r.InRange) (order : r.time ≤ seen.getD r.time) {t : Nat}
    (after : seen.getD r.time ≤ t) (near : t < seen.getD r.time + 2 ^ 31) :
    passedBy r.first r.period seen ≤ passed r.first r.period t ∧
      passed r.first r.period t < passedBy r.first r.period seen + 2 ^ 32 := by
  have first : r.time ≤ r.first := Nat.le_add_right _ _
  have period := limits.positive
  cases seen with
  | none =>
    rw [Option.getD_none] at after near
    have grown := passed_le_add r.first r.period period r.time (t - r.time)
    have started : passed r.first r.period r.time ≤ 1 := by
      unfold passed
      split_ifs
      · exact Nat.zero_le _
      · rw [Nat.sub_eq_zero_of_le first, Nat.zero_div]
    rw [Nat.add_sub_of_le after] at grown
    rw [passedBy]
    omega
  | some s =>
    rw [Option.getD_some] at after near
    have grown := passed_le_add r.first r.period period s (t - s)
    rw [Nat.add_sub_of_le after] at grown
    exact ⟨passed_mono r.first r.period after, by rw [passedBy]; omega⟩

theorem Counted.charged_run (h : Counted trace r seen w) (limits : r.InRange)
    (after : seen.getD r.time ≤ entryTime port w)
    (near : entryTime port w < seen.getD r.time + 2 ^ 31)
    (unreset : Unreset w (run ⟨true, trace⟩ port w)) :
    (charged trace r.id (run ⟨true, trace⟩ port w).events).length =
      if passedBy r.first r.period seen < passed r.first r.period (entryTime port w) then
        passedBy r.first r.period seen + 1 else passedBy r.first r.period seen := by
  obtain ⟨scheduled, decides⟩ :=
    Scheduled.run ⟨true, trace⟩ port h.settled h.scheduled limits h.order after near
  have released := exists_new_point_iff r.first r.period limits.positive seen (entryTime port w)
  have balanced := run_balanced trace port w h.settled
  have executed := run_completions trace port w h.settled r.id (by
    rw [scheduled]
    exact limits.periodTicks_ne)
  rw [balanced.charged unreset, h.counted, executed]
  split_ifs with more
  · rw [decides.executes (released.mpr more)]
    rfl
  · rw [decides.skips (mt released.mp more)]
    rfl

theorem Counted.run (h : Counted trace r seen w) (limits : r.InRange)
    (after : seen.getD r.time ≤ entryTime port w)
    (near : entryTime port w < seen.getD r.time + 2 ^ 31)
    (unreset : Unreset w (run ⟨true, trace⟩ port w)) :
    (ReleasesAccounted port r (w, run ⟨true, trace⟩ port w) ↔
      passed r.first r.period (entryTime port w) ≤ passedBy r.first r.period seen + 1) ∧
    (passed r.first r.period (entryTime port w) ≤ passedBy r.first r.period seen + 1 →
      Counted trace r (some (entryTime port w)) (run ⟨true, trace⟩ port w)) := by
  obtain ⟨grown, bound⟩ := passed_near limits h.order after near
  have count := h.charged_run trace port limits after near unreset
  obtain ⟨scheduled, -⟩ :=
    Scheduled.run ⟨true, trace⟩ port h.settled h.scheduled limits h.order after near
  have path := step_path ⟨true, trace⟩ port w .run h.settled h.logged
  have accounts : Accountable trace (Scheduler.run ⟨true, trace⟩ port w) :=
    run_accounts trace port h.accounts
  have unmissed : Unmissed (Scheduler.run ⟨true, trace⟩ port w).state :=
    path.1.invariant Move.unmissed h.unmissed
  have no_more : ∀ count : BitVec 32, count + 0 = count := BitVec.add_zero
  constructor
  · rw [releasesAccounted_iff port limits.positive, unmissed r.id, no_more,
      (accounts.now.stats r.id).runCount, count, ← BitVec.toNat_inj, BitVec.toNat_ofNat,
      BitVec.toNat_ofNat]
    dsimp only
    split_ifs <;> omega
  · intro few
    refine ⟨run_settled ⟨true, trace⟩ port w h.settled, path.2, accounts, unmissed, scheduled,
      h.order.trans after, ?_⟩
    rw [count, passedBy]
    split_ifs <;> omega

theorem Counted.accounted_iff (h : Counted trace r seen w) (limits : r.InRange) (calls : List (Call σ))
    (spaced : Spaced (seen.getD r.time) (entryTimes port (runs ⟨true, trace⟩ port w calls)))
    (unreset : Unreset w (calls.foldl (Scheduler.step ⟨true, trace⟩ port) w)) :
    (∀ u ∈ runs ⟨true, trace⟩ port w calls, ReleasesAccounted port r u) ↔
      Sparse r seen (entryTimes port (runs ⟨true, trace⟩ port w calls)) := by
  induction calls generalizing w seen with
  | nil => exact iff_of_true (fun u mem => by cases mem) trivial
  | cons c rest ih =>
    rw [List.foldl_cons] at unreset
    have path := step_path ⟨true, trace⟩ port w c h.settled h.logged
    obtain ⟨unreset, unreset'⟩ := unreset.split
      (step_balanced trace port w c h.settled h.logged) (steps_balanced trace port _ rest
        (step_settled ⟨true, trace⟩ port w c h.settled) path.2)
    by_cases isRun : c = .run
    · subst isRun
      rw [Scheduler.step] at unreset unreset'
      obtain ⟨⟨after, near⟩, spaced'⟩ := List.isChain_cons_cons.mp spaced
      obtain ⟨exact_run, goes_on⟩ := h.run trace port limits after near unreset
      have single := new_points_subsingleton_iff r.first r.period limits.positive seen
        (entryTime port w)
      rw [runs, List.forall_mem_cons, exact_run, entryTimes, List.map_cons, Sparse, single]
      exact and_congr_right fun few => ih (goes_on few) spaced' unreset'
    · rw [runs_cons_of_ne ⟨true, trace⟩ port w c rest isRun] at spaced ⊢
      exact ih (h.step trace port c isRun unreset) spaced unreset'

end Runs

theorem counted_of_registered (env : σ) (before : List (Call σ)) (c : Call σ) (limits : r.InRange)
    (added : r ∈ registrationsIn ⟨true, trace⟩ port (history ⟨true, trace⟩ port env before) c)
    (unreset : Unreset (history ⟨true, trace⟩ port env before)
      (history ⟨true, trace⟩ port env (before ++ [c]))) :
    Counted trace r none (history ⟨true, trace⟩ port env (before ++ [c])) := by
  have settled := history_settled ⟨true, trace⟩ port env before
  have balanced := step_balanced trace port (history ⟨true, trace⟩ port env before) c settled
    (history_path ⟨true, trace⟩ port env before).2
  obtain ⟨free, task⟩ := registered_registers ⟨true, trace⟩ port _ settled c r added
  have unused := (history_accounts trace port env before).now.unused r.id free
  have none_done : completions r.id (history ⟨true, trace⟩ port env before)
      (step ⟨true, trace⟩ port (history ⟨true, trace⟩ port env before) c) = 0 := by
    by_cases isRun : c = .run
    · subst isRun
      obtain ⟨ids, cycles⟩ := run_cycles ⟨true, trace⟩ port _ settled
      have out : r.id ∉ ids := fun mem => by
        have used := ((cycles.members r.id).mp mem).inUse
        rw [free] at used
        cases used
      rw [step] at task ⊢
      rw [run_completions trace port _ settled r.id (by rw [task]; exact limits.periodTicks_ne),
        cycles.executions_eq, if_neg out]
      rfl
    · exact completions_of_undisturbed balanced (step_undisturbed ⟨true, trace⟩ port _ c isRun) r.id
  refine ⟨history_settled ⟨true, trace⟩ port env _, (history_path ⟨true, trace⟩ port env _).2,
    history_accounts trace port env _, history_unmissed ⟨true, trace⟩ port env _, ?_, le_refl _, ?_⟩
  · rw [history_concat]
    exact Registration.task_scheduled task
  · rw [history_concat] at unreset ⊢
    rw [balanced.charged unreset, unused, none_done]
    rfl

/-- The counts of a task are right after every run exactly if no run is behind by two releases
or more, from its registration on. -/
theorem releases_accounted_iff (env : σ) (before : List (Call σ)) (c : Call σ) (r : Registration)
    (added : r ∈ registrationsIn ⟨true, trace⟩ port (history ⟨true, trace⟩ port env before) c)
    (positive : 0 < r.period) (period : r.period ≤ 2 ^ 31) (delay : r.delay ≤ 2 ^ 31)
    (later : List (Call σ))
    (spaced : Spaced r.time (entryTimes port
      (runs ⟨true, trace⟩ port (history ⟨true, trace⟩ port env (before ++ [c])) later)))
    (unreset : Unreset (history ⟨true, trace⟩ port env before)
      (history ⟨true, trace⟩ port env (before ++ c :: later))) :
    let us := runs ⟨true, trace⟩ port (history ⟨true, trace⟩ port env (before ++ [c])) later
    (∀ u ∈ us, ReleasesAccounted port r u) ↔ Sparse r none (entryTimes port us) := by
  intro us
  have settled := history_settled ⟨true, trace⟩ port env before
  have logged := (history_path ⟨true, trace⟩ port env before).2
  have path := step_path ⟨true, trace⟩ port _ c settled logged
  rw [history_append, List.foldl_cons] at unreset
  obtain ⟨unreset, unreset'⟩ := unreset.split (step_balanced trace port _ c settled logged)
    (steps_balanced trace port _ later (step_settled ⟨true, trace⟩ port _ c settled) path.2)
  have limits : r.InRange := ⟨positive, period, delay⟩
  have counted := counted_of_registered trace port env before c limits added (by
    rw [history_concat]
    exact unreset)
  refine counted.accounted_iff trace port limits later spaced ?_
  rw [history_concat]
  exact unreset'

theorem releases_accounted_twice :
    let us := runs ⟨true, false⟩ clockPort
      (history ⟨true, false⟩ clockPort 0 [.addTask ⟨1, 0, 10, 0, 0⟩]) [.run, .elapse 10, .run]
    ∀ u ∈ us, ReleasesAccounted clockPort ⟨0, ⟨1, 0, 10, 0, 0⟩, 0⟩ u := by
  intro us
  have counts := releases_accounted_iff false clockPort 0 [] (.addTask ⟨1, 0, 10, 0, 0⟩)
    ⟨0, ⟨1, 0, 10, 0, 0⟩, 0⟩ (by decide +kernel) (by decide) (by decide) (by decide)
    [.run, .elapse 10, .run] (by
      refine List.IsChain.cons_cons ⟨?_, ?_⟩ (List.IsChain.cons_cons ⟨?_, ?_⟩
        (List.IsChain.singleton _)) <;> decide +kernel) (by decide +kernel)
  refine counts.mpr ⟨?_, ?_, trivial⟩
  · exact (new_points_subsingleton_iff 0 10 (by decide) none 0).mpr (by decide)
  · exact (new_points_subsingleton_iff 0 10 (by decide) (some 0) 10).mpr (by decide)

/-- At the second run, entered at 25, the releases at 10 and 20 have passed; one execution is
counted, and no miss, and the next release is advanced by two periods. -/
theorem releases_lost :
    let w := history ⟨true, false⟩ clockPort 0 [.addTask ⟨1, 0, 10, 0, 0⟩, .run, .elapse 25]
    let w' := run ⟨true, false⟩ clockPort w
    (w.state.tasks 0).nextRelease = 10 ∧ (w'.state.tasks 0).nextRelease = 30 ∧
      (w'.state.stats 0).missCount = (w.state.stats 0).missCount ∧
      (w'.state.stats 0).runCount + (w'.state.stats 0).missCount = 2 ∧
      {m | point 0 10 m ≤ entryTime clockPort w}.ncard = 3 ∧
      ¬ ReleasesAccounted clockPort ⟨0, ⟨1, 0, 10, 0, 0⟩, 0⟩ (w, w') := by
  intro w w'
  refine ⟨by decide +kernel, by decide +kernel, by decide +kernel, by decide +kernel, ?_, ?_⟩
  · rw [ncard_point_le 0 10 (by decide)]
    decide +kernel
  · rw [releasesAccounted_iff clockPort (by decide)]
    decide +kernel

end SchedulerLib.Scheduler
