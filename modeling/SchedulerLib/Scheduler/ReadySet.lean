import Mathlib.Data.Fintype.Card
import SchedulerLib.Scheduler.Selection
import SchedulerLib.Lib.History

/-!
One run, from its entry to its end. Marking makes the pending tasks the ready ones; the
periodic loop takes them out in the order of `Before`, while callbacks may only add tasks
that are not pending; what is left is one background callback or one idle call. Between
runs no task is pending.
-/

namespace SchedulerLib.Scheduler

open Lib

/-- A periodic task in use whose release has been reached. -/
structure ReadyAt (now : BitVec 32) (task : SchTask) : Prop where
  inUse : task.inUse = true
  periodic : task.periodTicks ≠ 0
  reached : timeReached now task.nextRelease = true

instance (now : BitVec 32) (task : SchTask) : Decidable (ReadyAt now task) :=
  decidable_of_iff (task.inUse = true ∧ task.periodTicks ≠ 0 ∧
    timeReached now task.nextRelease = true) ⟨fun h => ⟨h.1, h.2.1, h.2.2⟩,
    fun h => ⟨h.inUse, h.periodic, h.reached⟩⟩

/-- The scheduler between runs. -/
structure Settled (s : Sch) : Prop where
  pending : ∀ i, (s.tasks i).pending = false
  enabled : ∀ i, (s.tasks i).inUse = true → (s.tasks i).enabled = true
  fn : ∀ i, (s.tasks i).inUse = true → (s.tasks i).fn ≠ 0

theorem init_settled : Settled Sch.init :=
  ⟨fun _ => rfl, fun _ used => (by cases used), fun _ used => (by cases used)⟩

def marked (now : BitVec 32) (task : SchTask) : SchTask :=
  if !task.inUse || !task.enabled || decide (task.periodTicks = 0) then task
  else if timeReached now task.nextRelease then { task with pending := true }
  else task

theorem marked_marked (now : BitVec 32) (task : SchTask) :
    marked now (marked now task) = marked now task := by
  unfold marked
  split_ifs <;> simp_all

theorem marked_eq (now : BitVec 32) (task : SchTask) :
    marked now task = { task with pending := (marked now task).pending } := by
  unfold marked
  split_ifs <;> rfl

theorem marked_of_not_ready {now : BitVec 32} {task : SchTask} (h : ¬ ReadyAt now task) :
    marked now task = task := by
  unfold marked
  split_ifs with skipped reached
  · rfl
  · simp only [Bool.or_eq_true, Bool.not_eq_true', decide_eq_true_eq, not_or, Bool.not_eq_false]
      at skipped
    exact absurd ⟨skipped.1.1, skipped.2, reached⟩ h
  · rfl

theorem marked_of_ready {now : BitVec 32} {task : SchTask} (h : ReadyAt now task)
    (enabled : task.enabled = true) : marked now task = { task with pending := true } := by
  unfold marked
  rw [if_neg (by simpa [h.inUse, enabled] using h.periodic), if_pos h.reached]

def released (now : BitVec 32) (task : SchTask) : SchTask :=
  { task with
    pending := false
    nextRelease := advanceNextRelease now task.nextRelease task.periodTicks }

theorem Settled.next {s s' : Sch} (h : Settled s)
    (tasks : ∀ i, (∃ now, s'.tasks i = released now (s.tasks i)) ∨ s'.tasks i = s.tasks i ∨
      Fresh (s'.tasks i)) : Settled s' where
  pending i := by
    rcases tasks i with ⟨now, out⟩ | same | fresh
    · rw [out, released]
    · rw [same]
      exact h.pending i
    · exact fresh.pending
  enabled i used := by
    rcases tasks i with ⟨now, out⟩ | same | fresh
    · rw [out] at used ⊢
      exact h.enabled i used
    · rw [same] at used ⊢
      exact h.enabled i used
    · exact fresh.enabled
  fn i used := by
    rcases tasks i with ⟨now, out⟩ | same | fresh
    · rw [out] at used ⊢
      exact h.fn i used
    · rw [same] at used ⊢
      exact h.fn i used
    · exact fresh.fn

theorem release_tasks (s : Sch) (now : BitVec 32) (i : Fin schMaxTasks) :
    (s.release now i).tasks = Function.update s.tasks i (released now (s.tasks i)) := rfl

theorem release_inUse (s : Sch) (now : BitVec 32) (id i : Fin schMaxTasks) :
    ((s.release now id).tasks i).inUse = (s.tasks i).inUse := by
  rw [release_tasks]
  by_cases same : i = id
  · rw [same, Function.update_self, released]
  · rw [Function.update_of_ne same]

variable {σ : Type} (cfg : Config) (port : Port σ)

section Mark

structure Marks (f : Fin schMaxTasks → SchTask) (w w' : SchWorld σ) : Prop where
  tasks : w'.state.tasks = f
  cursor : w'.state.nextBackgroundIdx = w.state.nextBackgroundIdx
  log : ∃ l, w'.log = w.log ++ l ∧ actions l = [] ∧ registrations l = []

theorem markSlot_marks (now : BitVec 32) (w : SchWorld σ) (i : Fin schMaxTasks) :
    Marks (Function.update w.state.tasks i (marked now (w.state.tasks i))) w
      (markSlot cfg port now w i) := by
  have quiet := noteMiss_silent cfg port now i w
  unfold markSlot marked
  dsimp only
  split_ifs
  · exact ⟨(Function.update_eq_self ..).symm, rfl, [], (List.append_nil _).symm, rfl, rfl⟩
  · refine ⟨?_, quiet.cursor, quiet.log⟩
    rw [World.modify_state, Sch.setTask, quiet.tasks]
  · exact ⟨(Function.update_eq_self ..).symm, rfl, [], (List.append_nil _).symm, rfl, rfl⟩

theorem markSlots_marks (now : BitVec 32) (w : SchWorld σ) (seen : List (Fin schMaxTasks)) :
    Marks (fun j => if j ∈ seen then marked now (w.state.tasks j) else w.state.tasks j) w
      (seen.foldl (markSlot cfg port now) w) := by
  induction seen using List.reverseRecOn with
  | nil => exact ⟨by simp, rfl, [], (List.append_nil _).symm, rfl, rfl⟩
  | append_singleton seen i ih =>
    rw [List.foldl_append, List.foldl_cons, List.foldl_nil]
    obtain ⟨tasks, cursor, l, log, act, reg⟩ := ih
    obtain ⟨tasks', cursor', m, log', act', reg'⟩ :=
      markSlot_marks cfg port now (seen.foldl (markSlot cfg port now) w) i
    refine ⟨?_, cursor'.trans cursor, l ++ m, World.log_trans log log',
      by rw [actions_append, act, act', List.append_nil],
      by rw [registrations_append, reg, reg', List.append_nil]⟩
    rw [tasks', tasks]
    funext j
    by_cases last : j = i
    · subst last
      rw [Function.update_self]
      by_cases again : j ∈ seen <;> simp [again, marked_marked]
    · rw [Function.update_of_ne last]
      simp [last]

theorem markPeriodicReady_marks (now : BitVec 32) (w : SchWorld σ) :
    Marks (fun i => marked now (w.state.tasks i)) w (markPeriodicReady cfg port now w) := by
  have all := markSlots_marks cfg port now w (List.finRange schMaxTasks)
  simp only [List.mem_finRange, if_true] at all
  exact all

end Mark

/-- What a stretch of the periodic loop does to the tasks when it executes `ids`. -/
structure Cycle (now : BitVec 32) (ids : List (Fin schMaxTasks)) (s s' : Sch) : Prop where
  executed : ∀ i ∈ ids, s'.tasks i = released now (s.tasks i)
  others : ∀ i, i ∉ ids → s'.tasks i = s.tasks i ∨ (s.tasks i).inUse = false ∧ Fresh (s'.tasks i)
  cursor : s'.nextBackgroundIdx = s.nextBackgroundIdx

theorem Cycle.kept {now : BitVec 32} {ids : List (Fin schMaxTasks)} {s s' : Sch}
    (h : Cycle now ids s s') (i : Fin schMaxTasks) (out : i ∉ ids)
    (used : (s.tasks i).inUse = true) : s'.tasks i = s.tasks i :=
  slot_kept (h.others i out) used

theorem Cycle.cons {now : BitVec 32} {ids : List (Fin schMaxTasks)} {s s₁ s₂ : Sch}
    {selected : Fin schMaxTasks} (used : (s.tasks selected).inUse = true)
    (first : Grows (s.release now selected) s₁) (rest : Cycle now ids s₁ s₂)
    (once : selected ∉ ids) (kept : ∀ i ∈ ids, s₁.tasks i = s.tasks i) :
    Cycle now (selected :: ids) s s₂ where
  executed i mem := by
    rcases List.mem_cons.mp mem with rfl | later
    · have released' : s₁.tasks i = released now (s.tasks i) := by
        rw [first.kept i (by rw [release_tasks, Function.update_self]; exact used), release_tasks,
          Function.update_self]
      rw [rest.kept i once (by rw [released']; exact used), released']
    · rw [rest.executed i later, kept i later]
  others i out := by
    rw [List.mem_cons, not_or] at out
    have before := first.tasks i
    rw [release_tasks, Function.update_of_ne out.1] at before
    rcases rest.others i out.2 with same | ⟨free, fresh⟩
    · rw [same]
      exact before
    · rcases before with same | ⟨free', -⟩
      · exact Or.inr ⟨by rwa [same] at free, fresh⟩
      · exact Or.inr ⟨free', fresh⟩
  cursor := rest.cursor.trans first.cursor

/-- The number of pending tasks, which the loop's bound must cover. -/
def pendingCount (s : Sch) : Nat := (Finset.univ.filter fun i => Pending s i).card

theorem pendingCount_le (s : Sch) : pendingCount s ≤ schMaxTasks := by
  have all := Finset.card_filter_le (Finset.univ : Finset (Fin schMaxTasks)) fun i => Pending s i
  rw [Finset.card_univ, Fintype.card_fin] at all
  exact all

theorem pending_after {now : BitVec 32} {s s' : Sch} {selected : Fin schMaxTasks}
    (used : (s.tasks selected).inUse = true) (h : Grows (s.release now selected) s')
    (i : Fin schMaxTasks) : Pending s' i ↔ Pending s i ∧ i ≠ selected := by
  by_cases same : i = selected
  · subst same
    have task : s'.tasks i = released now (s.tasks i) := by
      rw [h.kept i (by rw [release_tasks, Function.update_self]; exact used), release_tasks,
        Function.update_self]
    constructor
    · intro pending
      have := pending.pending
      rw [task] at this
      cases this
    · rintro ⟨-, ne⟩
      exact absurd rfl ne
  · have before := h.tasks i
    rw [release_tasks, Function.update_of_ne same] at before
    constructor
    · intro pending
      refine ⟨?_, same⟩
      rcases before with task | ⟨-, fresh⟩
      · exact ⟨task ▸ pending.inUse, task ▸ pending.enabled, task ▸ pending.pending,
          task ▸ pending.periodic⟩
      · have := pending.pending
        rw [fresh.pending] at this
        cases this
    · rintro ⟨pending, -⟩
      rcases before with task | ⟨free, -⟩
      · exact ⟨task.symm ▸ pending.inUse, task.symm ▸ pending.enabled,
          task.symm ▸ pending.pending, task.symm ▸ pending.periodic⟩
      · rw [pending.inUse] at free
        cases free

theorem pendingCount_after {now : BitVec 32} {s s' : Sch} {selected : Fin schMaxTasks}
    (pending : Pending s selected) (h : Grows (s.release now selected) s') :
    pendingCount s' < pendingCount s := by
  refine Finset.card_lt_card (Finset.ssubset_iff_of_subset ?_ |>.mpr ⟨selected, ?_, ?_⟩)
  · intro i mem
    rw [Finset.mem_filter] at mem ⊢
    exact ⟨mem.1, ((pending_after pending.inUse h i).mp mem.2).1⟩
  · exact Finset.mem_filter.mpr ⟨Finset.mem_univ _, pending⟩
  · intro mem
    exact ((pending_after pending.inUse h selected).mp (Finset.mem_filter.mp mem).2).2 rfl

def periodicAction (s : Sch) (i : Fin schMaxTasks) : Action :=
  .periodic i (s.tasks i).fn (s.tasks i).ctx

structure Executes (now : BitVec 32) (ids : List (Fin schMaxTasks)) (w w' : SchWorld σ) :
    Prop where
  members : ∀ i, i ∈ ids ↔ Pending w.state i
  sorted : ids.Pairwise (Before w.state)
  cycle : Cycle now ids w.state w'.state
  log : ∃ l, w'.log = w.log ++ l ∧ (actions l).map Prod.fst = ids.map (periodicAction w.state) ∧
    ∀ r ∈ registrations l, Registers w.state w'.state r

theorem executes_nil (now : BitVec 32) (w : SchWorld σ) (none_pending : ∀ i, ¬ Pending w.state i) :
    Executes now [] w w where
  members i := by simp [none_pending i]
  sorted := List.Pairwise.nil
  cycle := ⟨fun i mem => by simp at mem, fun i _ => Or.inl rfl, rfl⟩
  log := ⟨[], (List.append_nil _).symm, rfl, by simp⟩

theorem Executes.cons {now : BitVec 32} {ids : List (Fin schMaxTasks)}
    {w w₁ w₂ : SchWorld σ} {selected : Fin schMaxTasks} (pending : Pending w.state selected)
    (least : ∀ j, Pending w.state j → j ≠ selected → Before w.state selected j)
    (first : Performs (periodicAction w.state selected)
      (w.modify fun s => s.release now selected) w₁)
    (rest : Executes now ids w₁ w₂) : Executes now (selected :: ids) w w₂ := by
  have after := pending_after pending.inUse first.grows
  have later : ∀ i ∈ ids, Pending w.state i ∧ i ≠ selected := fun i mem =>
    (after i).mp ((rest.members i).mp mem)
  have kept : ∀ i ∈ ids, w₁.state.tasks i = w.state.tasks i := by
    intro i mem
    have task : (w.state.release now selected).tasks i = w.state.tasks i := by
      rw [release_tasks, Function.update_of_ne (later i mem).2]
    exact (first.grows.kept i (by
      rw [World.modify_state, task]; exact (later i mem).1.inUse)).trans task
  have once : selected ∉ ids := fun mem => (later selected mem).2 rfl
  have cycle := Cycle.cons pending.inUse first.grows rest.cycle once kept
  obtain ⟨l, snapshot, log, act, -, reg⟩ := first.log
  obtain ⟨m, log', act', reg'⟩ := rest.log
  refine ⟨fun i => ?_, ?_, cycle, l ++ m, ?_, ?_, fun r mem => ?_⟩
  · rw [List.mem_cons, rest.members, after]
    by_cases same : i = selected
    · subst same
      simp [pending]
    · simp [same]
  · refine List.Pairwise.cons (fun j mem => least j (later j mem).1 (later j mem).2) ?_
    refine rest.sorted.imp_of_mem fun {i j} hi hj before => ?_
    rwa [Before, kept i hi, kept j hj] at before
  · rw [log', log, World.modify_log, List.append_assoc]
  · rw [actions_append, List.map_append, act, act', List.map_cons]
    refine congrArg _ (List.map_congr_left fun i mem => ?_)
    rw [periodicAction, periodicAction, kept i mem]
  · rw [registrations_append, List.mem_append] at mem
    rcases mem with mem | mem
    · obtain ⟨free, task⟩ := reg r mem
      have unused : (w.state.tasks r.id).inUse = false := by
        rwa [World.modify_state, release_inUse] at free
      have out : r.id ∉ ids := fun mem => by
        have used := (later r.id mem).1.inUse
        rw [unused] at used
        cases used
      exact ⟨unused, (rest.cycle.kept r.id out (by rw [task]; rfl)).trans task⟩
    · obtain ⟨free, task⟩ := reg' r mem
      have unused := first.grows.free r.id free
      exact ⟨by rwa [World.modify_state, release_inUse] at unused, task⟩

theorem runPeriodic_executes (now : BitVec 32) (n : Nat) (w : SchWorld σ)
    (enough : pendingCount w.state ≤ n) :
    ∃ ids, Executes now ids w (runPeriodic cfg port now n w) := by
  induction n generalizing w with
  | zero =>
    have none_pending : ∀ i, ¬ Pending w.state i := by
      intro i pending
      have empty := Finset.card_eq_zero.mp (Nat.le_zero.mp enough)
      have mem : i ∈ Finset.univ.filter fun i => Pending w.state i :=
        Finset.mem_filter.mpr ⟨Finset.mem_univ i, pending⟩
      rw [empty] at mem
      simp at mem
    exact ⟨[], executes_nil now w none_pending⟩
  | succ n ih =>
    unfold runPeriodic
    cases found : selectPendingTask w.state with
    | none => exact ⟨[], executes_nil now w (selectPendingTask_none found)⟩
    | some selected =>
      obtain ⟨pending, least⟩ := selectPendingTask_some found
      have first := executePeriodic_performs cfg port now selected w
      have fewer := pendingCount_after pending first.grows
      obtain ⟨ids, rest⟩ := ih (executePeriodic cfg port now selected w) (by omega)
      exact ⟨selected :: ids, Executes.cons pending least first rest⟩

/-- What is left to do once no periodic task is pending. -/
inductive LastAction (s : Sch) : Action → Prop where
  | background (id : Fin schMaxTasks) (inUse : (s.tasks id).inUse = true)
    (background : (s.tasks id).periodTicks = 0) :
    LastAction s (.background id (s.tasks id).fn (s.tasks id).ctx)
  | idle (none_left : ∀ i, (s.tasks i).inUse = true → (s.tasks i).periodTicks ≠ 0) :
    LastAction s .idle

structure Finishes (w w' : SchWorld σ) : Prop where
  tasks : ∀ i, w'.state.tasks i = w.state.tasks i ∨
    (w.state.tasks i).inUse = false ∧ Fresh (w'.state.tasks i)
  log : ∃ l last snapshot, w'.log = w.log ++ l ∧ actions l = [(last, snapshot)] ∧
    LastAction snapshot last ∧ ∀ r ∈ registrations l, Registers w.state w'.state r

/-- The action after the periodic loop as the scan chooses it on the tasks of `s`, and the
cursor that it leaves behind. -/
inductive Turn (s : Sch) : Action → BitVec 32 → Prop
  | background (id : Fin schMaxTasks) (found : (selectBackgroundTask s).1 = some id) :
    Turn s (.background id (s.tasks id).fn (s.tasks id).ctx)
      (selectBackgroundTask s).2.nextBackgroundIdx
  | idle (missed : (selectBackgroundTask s).1 = none) : Turn s .idle s.nextBackgroundIdx

structure HandsOver (w w' : SchWorld σ) : Prop where
  tasks : ∀ i, w'.state.tasks i = w.state.tasks i ∨
    (w.state.tasks i).inUse = false ∧ Fresh (w'.state.tasks i)
  log : ∃ l last snapshot, w'.log = w.log ++ l ∧ actions l = [(last, snapshot)] ∧
    snapshot.tasks = w.state.tasks ∧ Turn w.state last w'.state.nextBackgroundIdx ∧
    ∀ r ∈ registrations l, Registers w.state w'.state r

theorem Performs.handsOver {act : Action} {w w₀ w' : SchWorld σ} (h : Performs act w₀ w')
    (tasks : w₀.state.tasks = w.state.tasks) (log : w₀.log = w.log)
    (turn : Turn w.state act w₀.state.nextBackgroundIdx) : HandsOver w w' := by
  obtain ⟨l, snapshot, grown, act', same, reg⟩ := h.log
  refine ⟨fun i => ?_, l, act, snapshot, by rw [grown, log], act', same.trans tasks, ?_,
    fun r mem => ?_⟩
  · have grows := h.grows.tasks i
    rwa [tasks] at grows
  · rw [h.grows.cursor]
    exact turn
  · obtain ⟨free, task⟩ := reg r mem
    rw [tasks] at free
    exact ⟨free, task⟩

theorem runBackground_handsOver (w : SchWorld σ) (settled : Settled w.state) :
    HandsOver w (runBackground cfg port w) := by
  have tasks := selectBackgroundTask_tasks w.state
  unfold runBackground
  dsimp only
  cases found : (selectBackgroundTask w.state).1 with
  | none =>
    have stays := selectBackgroundTask_of_none found
    refine (runIdle_performs cfg port _).handsOver tasks rfl ?_
    rw [World.setState_state, stays]
    exact Turn.idle found
  | some id =>
    have background := selectBackgroundTask_some found
    have fn := settled.fn id background.inUse
    simp only [World.setState_state, tasks, if_neg fn]
    exact (executeBackground_performs cfg port id _ _ _).handsOver tasks rfl
      (Turn.background id found)

theorem HandsOver.finishes {w w' : SchWorld σ} (h : HandsOver w w') (settled : Settled w.state) :
    Finishes w w' := by
  obtain ⟨l, last, snapshot, log, act, same, turn, reg⟩ := h.log
  refine ⟨h.tasks, l, last, snapshot, log, act, ?_, reg⟩
  generalize w'.state.nextBackgroundIdx = cursor at turn
  cases turn with
  | background id found =>
    have background := selectBackgroundTask_some found
    rw [← same] at background ⊢
    exact LastAction.background id background.inUse background.background
  | idle missed =>
    refine LastAction.idle fun i used zero => ?_
    rw [same] at used zero
    exact selectBackgroundTask_none missed i ⟨used, settled.enabled i used, zero⟩

theorem runBackground_finishes (w : SchWorld σ) (settled : Settled w.state) :
    Finishes w (runBackground cfg port w) :=
  (runBackground_handsOver cfg port w settled).finishes settled

structure Cycles (now : BitVec 32) (ids : List (Fin schMaxTasks)) (w w' : SchWorld σ) :
    Prop where
  members : ∀ i, i ∈ ids ↔ ReadyAt now (w.state.tasks i)
  sorted : ids.Pairwise (Before w.state)
  executed : ∀ i ∈ ids, w'.state.tasks i = released now (w.state.tasks i)
  others : ∀ i, i ∉ ids → w'.state.tasks i = w.state.tasks i ∨
    (w.state.tasks i).inUse = false ∧ Fresh (w'.state.tasks i)
  log : ∃ l periodic last snapshot, w'.log = w.log ++ l ∧
    actions l = periodic ++ [(last, snapshot)] ∧
    periodic.map Prod.fst = ids.map (periodicAction w.state) ∧ LastAction snapshot last ∧
    ∀ r ∈ registrations l, Registers w.state w'.state r

def entryTime (w : SchWorld σ) : Nat := (port.time w.env).1

theorem pending_marked_iff {now : BitVec 32} {s s' : Sch} (settled : Settled s)
    (table : ∀ i, s'.tasks i = marked now (s.tasks i)) (i : Fin schMaxTasks) :
    Pending s' i ↔ ReadyAt now (s.tasks i) := by
  constructor
  · intro pending
    by_contra quiet
    have raised := pending.pending
    rw [table i, marked_of_not_ready quiet, settled.pending i] at raised
    cases raised
  · intro ready
    have enabled := settled.enabled i ready.inUse
    have task := (table i).trans (marked_of_ready ready enabled)
    exact ⟨by rw [task]; exact ready.inUse, by rw [task]; exact enabled, by rw [task],
      by rw [task]; exact ready.periodic⟩

/-- The periodic part of a run, from the entry at `w` to the end of the loop at `w'`. -/
structure Loops (now : BitVec 32) (ids : List (Fin schMaxTasks)) (w w' : SchWorld σ) :
    Prop where
  members : ∀ i, i ∈ ids ↔ ReadyAt now (w.state.tasks i)
  sorted : ids.Pairwise (Before w.state)
  executed : ∀ i ∈ ids, w'.state.tasks i = released now (w.state.tasks i)
  others : ∀ i, i ∉ ids → w'.state.tasks i = w.state.tasks i ∨
    (w.state.tasks i).inUse = false ∧ Fresh (w'.state.tasks i)
  cursor : w'.state.nextBackgroundIdx = w.state.nextBackgroundIdx
  log : ∃ l, w'.log = w.log ++ l ∧ (actions l).map Prod.fst = ids.map (periodicAction w.state) ∧
    ∀ r ∈ registrations l, Registers w.state w'.state r

theorem Executes.loops {now : BitVec 32} {ids : List (Fin schMaxTasks)}
    {w w₁ w₂ : SchWorld σ} (h : Executes now ids w₁ w₂) (settled : Settled w.state)
    (marks : Marks (fun i => marked now (w.state.tasks i)) w w₁) : Loops now ids w w₂ := by
  have table : ∀ i, w₁.state.tasks i = marked now (w.state.tasks i) := congrFun marks.tasks
  have members : ∀ i, i ∈ ids ↔ ReadyAt now (w.state.tasks i) := fun i =>
    (h.members i).trans (pending_marked_iff settled table i)
  have priority : ∀ i, (w₁.state.tasks i).priority = (w.state.tasks i).priority := fun i => by
    rw [table, marked_eq]
  obtain ⟨l, log, act, reg⟩ := marks.log
  obtain ⟨m, log', act', reg'⟩ := h.log
  refine ⟨members, ?_, fun i mem => ?_, fun i out => ?_, h.cycle.cursor.trans marks.cursor,
    l ++ m, ?_, ?_, fun r mem => ?_⟩
  · refine h.sorted.imp fun {i j} before => ?_
    rwa [Before, priority, priority] at before
  · rw [h.cycle.executed i mem, table, marked_eq]
    rfl
  · have same : w₁.state.tasks i = w.state.tasks i := by
      rw [table, marked_of_not_ready fun ready => out ((members i).mpr ready)]
    have others := h.cycle.others i out
    rwa [same] at others
  · exact World.log_trans log log'
  · rw [actions_append, act, List.nil_append, act']
    refine List.map_congr_left fun i _ => ?_
    rw [periodicAction, periodicAction, table, marked_eq]
  · rw [registrations_append, reg, List.nil_append] at mem
    obtain ⟨free, task⟩ := reg' r mem
    rw [table, marked_eq] at free
    exact ⟨free, task⟩

theorem Loops.free {now : BitVec 32} {ids : List (Fin schMaxTasks)} {w w' : SchWorld σ}
    (h : Loops now ids w w') (i : Fin schMaxTasks) (free : (w'.state.tasks i).inUse = false) :
    (w.state.tasks i).inUse = false := by
  by_cases mem : i ∈ ids
  · rwa [h.executed i mem] at free
  · exact slot_free (h.others i mem) free

theorem Loops.settled {now : BitVec 32} {ids : List (Fin schMaxTasks)} {w w' : SchWorld σ}
    (h : Loops now ids w w') (settled : Settled w.state) : Settled w'.state := by
  refine settled.next fun i => ?_
  by_cases mem : i ∈ ids
  · exact Or.inl ⟨now, h.executed i mem⟩
  · exact Or.inr ((h.others i mem).imp_right And.right)

def afterLoop (w : SchWorld σ) : SchWorld σ :=
  runPeriodic cfg port (nowTicks port w).1 schMaxTasks
    (markPeriodicReady cfg port (nowTicks port w).1 (nowTicks port w).2)

theorem run_eq (w : SchWorld σ) :
    run cfg port w = runBackground cfg port (afterLoop cfg port w) := rfl

theorem afterLoop_loops (w : SchWorld σ) (settled : Settled w.state) :
    ∃ ids, Loops (BitVec.ofNat 32 (entryTime port w)) ids w (afterLoop cfg port w) := by
  obtain ⟨tasks, cursor, l, log, act, reg⟩ := nowTicks_silent port w
  obtain ⟨tasks', cursor', m, log', act', reg'⟩ := markPeriodicReady_marks cfg port
    (nowTicks port w).1 (nowTicks port w).2
  have marks : Marks (fun i => marked (nowTicks port w).1 (w.state.tasks i)) w
      (markPeriodicReady cfg port (nowTicks port w).1 (nowTicks port w).2) := by
    refine ⟨tasks', cursor'.trans cursor, l ++ m, ?_, ?_, ?_⟩
    · exact World.log_trans log log'
    · rw [actions_append, act, act', List.append_nil]
    · rw [registrations_append, reg, reg', List.append_nil]
  obtain ⟨ids, executes⟩ := runPeriodic_executes cfg port (nowTicks port w).1 schMaxTasks
    (markPeriodicReady cfg port (nowTicks port w).1 (nowTicks port w).2) (pendingCount_le _)
  exact ⟨ids, executes.loops settled marks⟩

theorem Loops.cycles {now : BitVec 32} {ids : List (Fin schMaxTasks)} {w w₁ w₂ : SchWorld σ}
    (h : Loops now ids w w₁) (last : Finishes w₁ w₂) : Cycles now ids w w₂ := by
  obtain ⟨l, log, act, reg⟩ := h.log
  obtain ⟨m, action, snapshot, log', act', kind, reg'⟩ := last.log
  have kept (i : Fin schMaxTasks) (used : (w₁.state.tasks i).inUse = true) :
      w₂.state.tasks i = w₁.state.tasks i := slot_kept (last.tasks i) used
  refine ⟨h.members, h.sorted, fun i mem => ?_, fun i out => ?_, l ++ m, actions l, action,
    snapshot, ?_, ?_, act, kind, fun r mem => ?_⟩
  · have task := h.executed i mem
    rw [kept i (by rw [task]; exact ((h.members i).mp mem).inUse), task]
  · rcases last.tasks i with same | ⟨free, fresh⟩
    · rw [same]
      exact h.others i out
    · exact Or.inr ⟨h.free i free, fresh⟩
  · exact World.log_trans log log'
  · rw [actions_append, act']
  · rw [registrations_append, List.mem_append] at mem
    rcases mem with mem | mem
    · obtain ⟨free, task⟩ := reg r mem
      exact ⟨free, (kept r.id (by rw [task]; rfl)).trans task⟩
    · obtain ⟨free, task⟩ := reg' r mem
      exact ⟨h.free r.id free, task⟩

theorem run_cycles (w : SchWorld σ) (settled : Settled w.state) :
    ∃ ids, Cycles (BitVec.ofNat 32 (entryTime port w)) ids w (run cfg port w) := by
  obtain ⟨ids, loops⟩ := afterLoop_loops cfg port w settled
  exact ⟨ids, loops.cycles (runBackground_finishes cfg port _ (loops.settled settled))⟩

theorem Cycles.settled {now : BitVec 32} {ids : List (Fin schMaxTasks)} {w w' : SchWorld σ}
    (h : Cycles now ids w w') (settled : Settled w.state) : Settled w'.state := by
  refine settled.next fun i => ?_
  by_cases mem : i ∈ ids
  · exact Or.inl ⟨now, h.executed i mem⟩
  · exact Or.inr ((h.others i mem).imp_right And.right)

theorem step_undisturbed (w : SchWorld σ) (c : Call σ) (other : c ≠ .run) :
    Undisturbed w (step cfg port w c) := by
  cases c with
  | elapse env => exact (setEnv_silent w env).undisturbed
  | addTask request => exact addTask_undisturbed cfg port request w
  | enableTask taskId enable => exact (Silent.refl w).undisturbed
  | resetStats => exact (resetStats_silent w).undisturbed
  | setTraceHook hook userCtx => exact (setTraceHook_silent hook userCtx w).undisturbed
  | run => exact absurd rfl other

theorem step_log (w : SchWorld σ) (c : Call σ) (settled : Settled w.state) :
    ∃ l, (step cfg port w c).log = w.log ++ l := by
  by_cases isRun : c = .run
  · subst isRun
    obtain ⟨ids, cycles⟩ := run_cycles cfg port w settled
    obtain ⟨l, -, -, -, log, -⟩ := cycles.log
    exact ⟨l, log⟩
  · obtain ⟨l, log, -⟩ := (step_undisturbed cfg port w c isRun).log
    exact ⟨l, log⟩

theorem run_settled (w : SchWorld σ) (settled : Settled w.state) :
    Settled (run cfg port w).state := by
  obtain ⟨ids, cycles⟩ := run_cycles cfg port w settled
  exact cycles.settled settled

theorem step_settled (w : SchWorld σ) (c : Call σ) (settled : Settled w.state) :
    Settled (step cfg port w c).state := by
  by_cases isRun : c = .run
  · subst isRun
    exact run_settled cfg port w settled
  · have tasks := (step_undisturbed cfg port w c isRun).grows.tasks
    exact settled.next fun i => Or.inr ((tasks i).imp_right And.right)

def history (env : σ) (calls : List (Call σ)) : SchWorld σ :=
  calls.foldl (step cfg port) (World.start Sch.init env)

theorem history_settled (env : σ) (calls : List (Call σ)) :
    Settled (history cfg port env calls).state :=
  History.invariant (step cfg port) (fun w => Settled w.state)
    (fun w c => step_settled cfg port w c) _ init_settled calls

def actionsSince (w w' : SchWorld σ) : List (Action × Sch) := actions (World.since w w')

/-- In every reachable state a run executes exactly the ready tasks, in order of priority
and slot, and then one background task if there is one, or else idles once. -/
theorem run_executes_ready_set (env : σ) (calls : List (Call σ)) :
    let w := history cfg port env calls
    ∃ (ids : List (Fin schMaxTasks)) (periodic : List (Action × Sch)) (last : Action)
      (snapshot : Sch),
      actionsSince w (run cfg port w) = periodic ++ [(last, snapshot)] ∧
      periodic.map Prod.fst = ids.map (periodicAction w.state) ∧
      (∀ i, i ∈ ids ↔ ReadyAt (BitVec.ofNat 32 (entryTime port w)) (w.state.tasks i)) ∧
      ids.Pairwise (Before w.state) ∧
      LastAction snapshot last := by
  intro w
  obtain ⟨ids, cycles⟩ := run_cycles cfg port w (history_settled cfg port env calls)
  obtain ⟨l, periodic, last, snapshot, log, act, same, kind, -⟩ := cycles.log
  refine ⟨ids, periodic, last, snapshot, ?_, same, cycles.members, cycles.sorted, kind⟩
  rw [actionsSince, World.since_of_log _ _ l log, act]

end SchedulerLib.Scheduler
