import SchedulerLib.Lib.Bag
import SchedulerLib.Scheduler.AtomicAdd
import SchedulerLib.Scheduler.Cadence

/-!
Runs without regard to slots. The tasks in use form a bag; a run executes the ready ones in
order of their priorities and moves their releases on, wherever they are stored. If the
priorities are distinct there is only one such order. So two systems with the same tasks
execute the same callbacks, in whatever order the tasks were registered.
-/

namespace SchedulerLib.Scheduler

open Lib

/-- The tasks in use, whatever their slots. -/
def Sch.bag (s : Sch) : Multiset SchTask := Bag.contents SchTask.inUse s.tasks

def advanced (now : BitVec 32) (task : SchTask) : SchTask :=
  if ReadyAt now task then released now task else task

theorem advanced_periodTicks (now : BitVec 32) (task : SchTask) :
    (advanced now task).periodTicks = task.periodTicks := by
  unfold advanced
  split_ifs <;> rfl

theorem advanced_priority (now : BitVec 32) (task : SchTask) :
    (advanced now task).priority = task.priority := by
  unfold advanced
  split_ifs <;> rfl

theorem advanced_inUse (now : BitVec 32) (task : SchTask) :
    (advanced now task).inUse = task.inUse := by
  unfold advanced
  split_ifs <;> rfl

/-- What a run is to do with a bag of tasks. -/
structure Serves (now : BitVec 32) (tasks : Multiset SchTask) (served : List SchTask)
    (tasks' : Multiset SchTask) : Prop where
  ready : (served : Multiset SchTask) = tasks.filter (ReadyAt now)
  sorted : served.Pairwise fun t u => t.priority.toNat ≤ u.priority.toNat
  advances : tasks' = tasks.map (advanced now)

def Distinct (tasks : Multiset SchTask) : Prop :=
  ((tasks.filter fun task => task.periodTicks ≠ 0).map fun task => task.priority.toNat).Nodup

section Serves

variable {now : BitVec 32} {tasks tasks₁ tasks₂ : Multiset SchTask} {served served' : List SchTask}

theorem Serves.distinct (h : Serves now tasks served tasks₁) (distinct : Distinct tasks) :
    Distinct tasks₁ := by
  rw [Distinct, h.advances, Multiset.filter_map, Multiset.map_map]
  simp only [Function.comp_def, advanced_periodTicks, advanced_priority]
  exact distinct

theorem Serves.unique (h : Serves now tasks served tasks₁) (k : Serves now tasks served' tasks₂)
    (distinct : Distinct tasks) : served = served' ∧ tasks₁ = tasks₂ := by
  refine ⟨Bag.eq_of_sorted (fun task => task.priority.toNat) (h.ready.trans k.ready.symm) ?_
    h.sorted k.sorted, h.advances.trans k.advances.symm⟩
  have part : tasks.filter (ReadyAt now) ≤ tasks.filter fun task => task.periodTicks ≠ 0 :=
    Multiset.monotone_filter_right tasks fun task ready => ready.periodic
  have apart := Multiset.nodup_of_le (Multiset.map_le_map part) distinct
  rwa [← h.ready, Multiset.map_coe, Multiset.coe_nodup] at apart

end Serves

inductive Rounds : Multiset SchTask → List (BitVec 32) → List (List SchTask) → Prop
  | nil (tasks : Multiset SchTask) : Rounds tasks [] []
  | cons {now : BitVec 32} {tasks tasks' : Multiset SchTask} {served : List SchTask}
    {ticks : List (BitVec 32)} {more : List (List SchTask)}
    (first : Serves now tasks served tasks') (rest : Rounds tasks' ticks more) :
    Rounds tasks (now :: ticks) (served :: more)

theorem Rounds.unique {tasks : Multiset SchTask} {ticks : List (BitVec 32)}
    {rounds rounds' : List (List SchTask)} (h : Rounds tasks ticks rounds)
    (k : Rounds tasks ticks rounds') (distinct : Distinct tasks) : rounds = rounds' := by
  induction h generalizing rounds' with
  | nil tasks =>
    cases k
    rfl
  | cons first rest ih =>
    cases k with
    | cons first' rest' =>
      obtain ⟨same, rfl⟩ := first.unique first' distinct
      rw [same, ih rest' (first.distinct distinct)]

def Action.periodicCall : Action → Option (Address × Address)
  | .periodic _ fn ctx => some (fn, ctx)
  | _ => none

def SchTask.call (task : SchTask) : Address × Address := (task.fn, task.ctx)

theorem LastAction.periodicCall_eq {s : Sch} {act : Action} (h : LastAction s act) :
    act.periodicCall = none := by
  cases h <;> rfl

variable {σ : Type}

def periodicCalls (u : SchWorld σ × SchWorld σ) : List (Address × Address) :=
  ((actionsSince u.1 u.2).map Prod.fst).filterMap Action.periodicCall

section Runs

variable {now : BitVec 32} {ids : List (Fin schMaxTasks)} {w w' : SchWorld σ}

theorem Cycles.periodicCalls_eq (h : Cycles now ids w w') :
    periodicCalls (w, w') = (ids.map w.state.tasks).map SchTask.call := by
  obtain ⟨l, periodic, last, snapshot, log, act, same, kind, -⟩ := h.log
  have called : Action.periodicCall ∘ periodicAction w.state =
      some ∘ SchTask.call ∘ w.state.tasks := rfl
  rw [periodicCalls, actionsSince, World.since_of_log _ _ l log, act, List.map_append, same,
    List.filterMap_append, List.map_singleton, List.filterMap_cons_none kind.periodicCall_eq,
    List.filterMap_map, called, List.filterMap_eq_map, List.map_map]
  simp

theorem Cycles.serves (h : Cycles now ids w w')
    (unfilled : ∀ i, (w'.state.tasks i).inUse = (w.state.tasks i).inUse) :
    Serves now w.state.bag (ids.map w.state.tasks) w'.state.bag where
  ready := Bag.contents_filter SchTask.inUse w.state.tasks (ReadyAt now) ids
    (h.sorted.imp Before.ne) fun i =>
      ⟨fun mem => ⟨(h.members i).mp mem, ((h.members i).mp mem).inUse⟩,
        fun ready => (h.members i).mpr ready.1⟩
  sorted := by
    refine List.pairwise_map.mpr (h.sorted.imp fun {i j} before => ?_)
    rw [before_iff] at before
    omega
  advances := by
    have table : w'.state.tasks = fun i => advanced now (w.state.tasks i) := by
      funext i
      by_cases mem : i ∈ ids
      · rw [h.executed i mem, advanced, if_pos ((h.members i).mp mem)]
      · rw [advanced, if_neg fun ready => mem ((h.members i).mpr ready)]
        exact slot_unfilled (h.others i mem) (unfilled i)
    rw [Sch.bag, table, Bag.contents_map SchTask.inUse _ _ (advanced_inUse now)]
    rfl

end Runs

theorem registered_events (w : SchWorld σ) : registered w.events = registrations w.log := by
  rw [registered, World.events, List.filterMap_map, registrations]
  refine List.filterMap_congr fun x _ => ?_
  obtain ⟨e, s⟩ := x
  cases e <;> rfl

theorem Represents.inUse_iff {events : List SchEvent} {s : Sch} (h : Represents events s)
    (i : Fin schMaxTasks) : (s.tasks i).inUse = true ↔ i.val < (registered events).length := by
  have count := congrArg List.length h.ids
  rw [List.length_map, List.length_range] at count
  rw [h.inUse, count]

variable (cfg : Config) (port : Port σ)

theorem history_represents (env : σ) (calls : List (Call σ)) :
    Represents (history cfg port env calls).events (history cfg port env calls).state :=
  (table_represents cfg port env calls).1.now.1

theorem step_inUse (env : σ) (calls : List (Call σ)) (c : Call σ)
    (none_added : registrationsIn cfg port (history cfg port env calls) c = [])
    (i : Fin schMaxTasks) :
    ((history cfg port env (calls ++ [c])).state.tasks i).inUse =
      ((history cfg port env calls).state.tasks i).inUse := by
  obtain ⟨l, log⟩ := step_log cfg port _ c (history_settled cfg port env calls)
  have same : registered (history cfg port env (calls ++ [c])).events =
      registered (history cfg port env calls).events := by
    rw [registrationsIn, World.since_of_log _ _ l log] at none_added
    rw [registered_events, registered_events, history_concat, log, registrations_append,
      none_added, List.append_nil]
  rw [Bool.eq_iff_iff, (history_represents cfg port env _).inUse_iff,
    (history_represents cfg port env calls).inUse_iff, same]

theorem history_log (env : σ) (calls later : List (Call σ)) :
    ∃ l, (history cfg port env (calls ++ later)).log = (history cfg port env calls).log ++ l := by
  induction later using List.reverseRecOn with
  | nil => exact ⟨[], by rw [List.append_nil, List.append_nil]⟩
  | append_singleton later c ih =>
    obtain ⟨l, log⟩ := ih
    obtain ⟨m, log'⟩ := step_log cfg port _ c (history_settled cfg port env (calls ++ later))
    refine ⟨l ++ m, ?_⟩
    rw [← List.append_assoc, history_concat, log', log, List.append_assoc]

def entryTicks (us : List (SchWorld σ × SchWorld σ)) : List (BitVec 32) :=
  (entryTimes port us).map (BitVec.ofNat 32)

theorem runs_rounds (env : σ) (calls later : List (Call σ))
    (quiet : registrations (World.since (history cfg port env calls)
      (history cfg port env (calls ++ later))) = []) :
    ∃ rounds, Rounds (history cfg port env calls).state.bag
        (entryTicks port (runs cfg port (history cfg port env calls) later)) rounds ∧
      (runs cfg port (history cfg port env calls) later).map periodicCalls =
        rounds.map (List.map SchTask.call) := by
  induction later generalizing calls with
  | nil => exact ⟨[], Rounds.nil _, rfl⟩
  | cons c rest ih =>
    have settled := history_settled cfg port env calls
    obtain ⟨l, log⟩ := step_log cfg port _ c settled
    obtain ⟨m, log'⟩ := history_log cfg port env (calls ++ [c]) rest
    rw [← history_concat] at log
    rw [List.append_cons, World.since_append log log', registrations_append,
      List.append_eq_nil_iff] at quiet
    obtain ⟨none_added, quiet'⟩ := quiet
    rw [history_concat] at none_added
    have unfilled := step_inUse cfg port env calls c none_added
    obtain ⟨rounds, served, called⟩ := ih (calls ++ [c]) quiet'
    rw [history_concat] at unfilled served called
    by_cases isRun : c = .run
    · subst isRun
      obtain ⟨ids, cycles⟩ := run_cycles cfg port _ settled
      rw [step] at unfilled served called
      rw [runs, entryTicks, entryTimes, List.map_cons, List.map_cons, List.map_cons,
        cycles.periodicCalls_eq, called]
      exact ⟨_ :: rounds, Rounds.cons (cycles.serves unfilled) served, List.map_cons.symm⟩
    · have grows := (step_undisturbed cfg port (history cfg port env calls) c isRun).grows
      have same : (step cfg port (history cfg port env calls) c).state.tasks =
          (history cfg port env calls).state.tasks := by
        funext i
        exact slot_unfilled (grows.tasks i) (unfilled i)
      rw [Sch.bag, same] at served
      rw [runs_cons_of_ne cfg port _ c rest isRun]
      exact ⟨rounds, served, called⟩

section Registering

def TaskRequest.task (request : TaskRequest) (tick : BitVec 32) : SchTask where
  fn := request.fn
  ctx := request.ctx
  periodTicks := request.periodTicks
  nextRelease := tick + request.startDelayTicks
  priority := request.priority
  enabled := true
  pending := false
  inUse := true

def registering (order : List (σ × TaskRequest)) : List (Call σ) :=
  order.flatMap fun x => [.elapse x.1, .addTask x.2]

def timetable (order : List (σ × TaskRequest)) : List (TaskRequest × BitVec 32) :=
  order.map fun x => (x.2, BitVec.ofNat 32 (port.time x.1).1)

def tasksOf (entries : List (TaskRequest × BitVec 32)) : List SchTask :=
  (entries.filter fun x => x.1.fn ≠ 0).map fun x => x.1.task x.2

theorem addTask_bag {w : SchWorld σ} {events : List SchEvent} (h : Represents events w.state)
    (room : w.state.taskCount.toNat < schMaxTasks) (request : TaskRequest) :
    let w' := (addTask cfg port request w).2
    w'.state.taskCount.toNat ≤ w.state.taskCount.toNat + 1 ∧
      w'.state.bag = (tasksOf [(request, BitVec.ofNat 32 (port.time w.env).1)] : Multiset SchTask) +
        w.state.bag := by
  intro w'
  have refused (v : SchWorld σ) (refuses : Refuses w.state request) (same : v.state = w.state) :
      v.state.taskCount.toNat ≤ w.state.taskCount.toNat + 1 ∧
      v.state.bag = (tasksOf [(request, BitVec.ofNat 32 (port.time w.env).1)] : Multiset SchTask) +
        w.state.bag := by
    have null := ((h.refuses_iff request).mp refuses).resolve_right room.ne
    rw [same]
    refine ⟨Nat.le_succ _, ?_⟩
    simp [tasksOf, null]
  rcases addTask_cases cfg port request w with ⟨error, -, refuses, out⟩ |
    ⟨error, -, refuses, out⟩ | ⟨r, rfl, time, chosen, out⟩
  · exact refused w' refuses (by simp only [w', out]; rfl)
  · exact refused w' refuses (by simp only [w', out]; rfl)
  · have state : w'.state = w.state.register cfg r.id r.task := by
      simp only [w', out]
      rfl
    have task : r.task = r.request.task (BitVec.ofNat 32 (port.time w.env).1) := by
      rw [← time]
      rfl
    rw [state]
    refine ⟨by rw [register_taskCount, h.count_succ], ?_⟩
    rw [Sch.bag, register_tasks, Bag.contents_fill SchTask.inUse _ r.id r.task chosen.free rfl, task]
    simp [tasksOf, chosen.fn, Sch.bag]

theorem registering_bag (env : σ) (order : List (σ × TaskRequest))
    (few : order.length ≤ schMaxTasks) :
    let w := history cfg port env (registering order)
    w.state.taskCount.toNat ≤ order.length ∧
      w.state.bag = (tasksOf (timetable port order) : Multiset SchTask) := by
  induction order using List.reverseRecOn with
  | nil => exact ⟨le_refl 0, Bag.contents_empty SchTask.inUse _ fun _ => rfl⟩
  | append_singleton order x ih =>
    rw [List.length_append, List.length_singleton] at few
    obtain ⟨count, bag⟩ := ih (by omega)
    have represents := history_represents cfg port env (registering order)
    obtain ⟨count', bag'⟩ := addTask_bag cfg port
      (w := (history cfg port env (registering order)).setEnv x.1) represents
      (lt_of_le_of_lt count (by omega)) x.2
    have last : history cfg port env (registering (order ++ [x])) =
        (addTask cfg port x.2 ((history cfg port env (registering order)).setEnv x.1)).2 := by
      rw [registering, List.flatMap_append, history_append]
      rfl
    rw [last]
    refine ⟨count'.trans ?_, bag'.trans ?_⟩
    · rw [List.length_append, List.length_singleton]
      exact Nat.add_le_add_right count 1
    · rw [World.setEnv_state, bag, add_comm, Multiset.coe_add]
      simp only [tasksOf, timetable, List.map_append, List.filter_append]
      rfl

theorem tasksOf_distinct (order : List (σ × TaskRequest))
    (distinct : (((order.map Prod.snd).filter fun request => request.periodTicks ≠ 0).map
      TaskRequest.priority).Nodup) :
    Distinct (tasksOf (timetable port order) : Multiset SchTask) := by
  have apart := List.Nodup.map (f := BitVec.toNat) (fun _ _ => BitVec.eq_of_toNat_eq) distinct
  rw [Distinct, tasksOf, timetable, Multiset.filter_coe, Multiset.map_coe, Multiset.coe_nodup]
  simp only [List.filter_map, List.map_map, Function.comp_def] at apart ⊢
  refine apart.sublist (List.Sublist.map _ ?_)
  exact List.Sublist.filter _ List.filter_sublist

end Registering

variable {σ₁ σ₂ : Type}

/-- At most 64 tasks, the periodic ones with distinct priorities, registered in two orders,
each at the same tick in both: runs at the same ticks, with no more registrations, execute
the same periodic callbacks. -/
theorem registration_order_free (cfg₁ cfg₂ : Config) (port₁ : Port σ₁) (port₂ : Port σ₂)
    (env₁ : σ₁) (env₂ : σ₂) (order₁ : List (σ₁ × TaskRequest)) (order₂ : List (σ₂ × TaskRequest))
    (same : (timetable port₁ order₁).Perm (timetable port₂ order₂))
    (few : order₁.length ≤ schMaxTasks)
    (distinct : (((order₁.map Prod.snd).filter fun request => request.periodTicks ≠ 0).map
      TaskRequest.priority).Nodup)
    (later₁ : List (Call σ₁)) (later₂ : List (Call σ₂))
    (quiet₁ : registrations (World.since (history cfg₁ port₁ env₁ (registering order₁))
      (history cfg₁ port₁ env₁ (registering order₁ ++ later₁))) = [])
    (quiet₂ : registrations (World.since (history cfg₂ port₂ env₂ (registering order₂))
      (history cfg₂ port₂ env₂ (registering order₂ ++ later₂))) = []) :
    let us₁ := runs cfg₁ port₁ (history cfg₁ port₁ env₁ (registering order₁)) later₁
    let us₂ := runs cfg₂ port₂ (history cfg₂ port₂ env₂ (registering order₂)) later₂
    entryTicks port₁ us₁ = entryTicks port₂ us₂ →
      us₁.map periodicCalls = us₂.map periodicCalls := by
  intro us₁ us₂ ticks
  have length := same.length_eq
  rw [timetable, timetable, List.length_map, List.length_map] at length
  obtain ⟨-, bag₁⟩ := registering_bag cfg₁ port₁ env₁ order₁ few
  obtain ⟨-, bag₂⟩ := registering_bag cfg₂ port₂ env₂ order₂ (length ▸ few)
  have tasks : (tasksOf (timetable port₁ order₁) : Multiset SchTask) =
      tasksOf (timetable port₂ order₂) := Multiset.coe_eq_coe.mpr ((same.filter _).map _)
  obtain ⟨rounds₁, served₁, called₁⟩ := runs_rounds cfg₁ port₁ env₁ _ later₁ quiet₁
  obtain ⟨rounds₂, served₂, called₂⟩ := runs_rounds cfg₂ port₂ env₂ _ later₂ quiet₂
  have distinct' : Distinct (history cfg₁ port₁ env₁ (registering order₁)).state.bag := by
    rw [bag₁]
    exact tasksOf_distinct port₁ order₁ distinct
  have served : Rounds (history cfg₁ port₁ env₁ (registering order₁)).state.bag
      (entryTicks port₁ us₁) rounds₂ := by
    rw [ticks, bag₁, tasks, ← bag₂]
    exact served₂
  have rounds := served₁.unique served distinct'
  exact called₁.trans ((congrArg _ rounds).trans called₂.symm)

/-- Two tasks in both orders; in the second system the counter has wrapped before the other
task is registered. -/
theorem registration_order_free_two :
    let order₁ : List (Nat × TaskRequest) := [(0, ⟨1, 0, 10, 0, 2⟩), (5, ⟨2, 0, 10, 0, 1⟩)]
    let order₂ : List (Nat × TaskRequest) := [(5, ⟨2, 0, 10, 0, 1⟩), (2 ^ 32, ⟨1, 0, 10, 0, 2⟩)]
    let us₁ := runs ⟨true, true⟩ clockPort
      (history ⟨true, true⟩ clockPort 0 (registering order₁)) [.elapse 100, .run]
    let us₂ := runs ⟨true, false⟩ clockPort
      (history ⟨true, false⟩ clockPort 0 (registering order₂)) [.elapse (2 ^ 32 + 100), .run]
    us₁.map periodicCalls = us₂.map periodicCalls ∧ us₁.map periodicCalls = [[(2, 0), (1, 0)]] := by
  intro order₁ order₂ us₁ us₂
  have free := registration_order_free ⟨true, true⟩ ⟨true, false⟩ clockPort clockPort 0 0 order₁
    order₂ (List.Perm.swap _ _ _) (by decide) (by decide) [.elapse 100, .run]
    [.elapse (2 ^ 32 + 100), .run] (by decide +kernel) (by decide +kernel) (by decide +kernel)
  exact ⟨free, by decide +kernel⟩

end SchedulerLib.Scheduler
