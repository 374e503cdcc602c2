import SchedulerLib.Lib.RoundRobin
import SchedulerLib.Scheduler.Cadence

/-!
The background tasks take turns. The cursor is left one behind the slot that was executed,
so the scan meets the first background task behind the last one; registrations only add
tasks, and whoever waits in the table stays there. The turns are those of a ring of slots.
-/

namespace SchedulerLib.Scheduler

open Lib RoundRobin

def Action.backgroundSlot : Action → Option (Fin schMaxTasks)
  | .background id _ _ => some id
  | _ => none

/-- The executions of background tasks in a piece of the log, each with the scheduler as it
was at that moment. -/
def backgrounds (log : List (SchEvent × Sch)) : List (Fin schMaxTasks × Sch) :=
  (actions log).filterMap fun x => x.1.backgroundSlot.map fun id => (id, x.2)

@[simp] theorem backgrounds_append (l m : List (SchEvent × Sch)) :
    backgrounds (l ++ m) = backgrounds l ++ backgrounds m := by
  simp [backgrounds]

theorem backgrounds_of_actions {l : List (SchEvent × Sch)} (h : actions l = []) :
    backgrounds l = [] := by
  simp [backgrounds, h]

def Waiting (s : Sch) (i : Fin schMaxTasks) : Prop := IsBackground (s.tasks i)

theorem distance_backgroundSlot {s : Sch} {a : Fin schMaxTasks} {offset : Nat}
    (cursor : s.nextBackgroundIdx.toNat = (a.val + 1) % schMaxTasks)
    (inside : offset < schMaxTasks) : distance a (backgroundSlot s offset) = offset + 1 := by
  have value := backgroundSlot_val s offset
  have bound := a.isLt
  rw [cursor] at value
  unfold distance
  simp only [Fin.lt_def, value, schMaxTasks] at bound inside ⊢
  split_ifs <;> omega

theorem next_of_found {s : Sch} {a i : Fin schMaxTasks}
    (cursor : s.nextBackgroundIdx.toNat = (a.val + 1) % schMaxTasks)
    (found : (selectBackgroundTask s).1 = some i) : Next (Waiting s) a i := by
  obtain ⟨here, -, offset, inside, rfl, missed⟩ := selectBackgroundTask_found found
  refine ⟨here, fun y waits => ?_⟩
  obtain ⟨other, inside', rfl⟩ := exists_backgroundSlot s y
  rw [distance_backgroundSlot cursor inside, distance_backgroundSlot cursor inside']
  by_contra nearer
  exact missed other (by omega) waits

variable {σ : Type}

/-- The turns so far, and what they leave for the next one. -/
structure Rotates (w : SchWorld σ) : Prop where
  turns : List.IsChain (Succeeds Waiting) (backgrounds w.log)
  here : ∀ x ∈ backgrounds w.log, Waiting x.2 x.1
  cursor : ∀ x ∈ (backgrounds w.log).getLast?,
    w.state.nextBackgroundIdx.toNat = (x.1.val + 1) % schMaxTasks
  stays : ∀ x ∈ (backgrounds w.log).getLast?, ∀ i, Waiting x.2 i → Waiting w.state i

theorem rotates_start (env : σ) : Rotates (World.start Sch.init env : SchWorld σ) where
  turns := List.IsChain.nil
  here x mem := by cases mem
  cursor x mem := by cases mem
  stays x mem := by cases mem

theorem Rotates.quiet {w w' : SchWorld σ} (h : Rotates w) {l : List (SchEvent × Sch)}
    (log : w'.log = w.log ++ l) (no_turn : backgrounds l = [])
    (cursor : w'.state.nextBackgroundIdx = w.state.nextBackgroundIdx)
    (kept : ∀ i, Waiting w.state i → Waiting w'.state i) : Rotates w' := by
  have same : backgrounds w'.log = backgrounds w.log := by
    rw [log, backgrounds_append, no_turn, List.append_nil]
  refine ⟨?_, ?_, ?_, ?_⟩
  · rw [same]
    exact h.turns
  · rw [same]
    exact h.here
  · rw [same, cursor]
    exact h.cursor
  · rw [same]
    exact fun x mem i waits => kept i (h.stays x mem i waits)

theorem Rotates.turn {w w' : SchWorld σ} (h : Rotates w) {l : List (SchEvent × Sch)}
    {id : Fin schMaxTasks} {snapshot : Sch} (log : w'.log = w.log ++ l)
    (taken : backgrounds l = [(id, snapshot)]) (same : snapshot.tasks = w.state.tasks)
    (found : (selectBackgroundTask w.state).1 = some id)
    (cursor : w'.state.nextBackgroundIdx = (selectBackgroundTask w.state).2.nextBackgroundIdx)
    (kept : ∀ i, Waiting w.state i → Waiting w'.state i) : Rotates w' := by
  have table : ∀ i, Waiting snapshot i ↔ Waiting w.state i := fun i => by
    rw [Waiting, Waiting, same]
  obtain ⟨waits, behind, -⟩ := selectBackgroundTask_found found
  refine ⟨?_, ?_, ?_, ?_⟩
  · rw [log, backgrounds_append, taken]
    refine List.isChain_append.mpr ⟨h.turns, List.IsChain.singleton _, fun x last y mem => ?_⟩
    obtain rfl : (id, snapshot) = y := by simpa using mem
    have next := next_of_found (h.cursor x last) found
    refine ⟨⟨(table id).mpr next.here, fun i present => next.nearest i ((table i).mp present)⟩,
      fun i present => (table i).mpr (h.stays x last i present)⟩
  · intro x mem
    rw [log, backgrounds_append, taken, List.mem_append, List.mem_singleton] at mem
    rcases mem with old | rfl
    · exact h.here x old
    · exact (table id).mpr waits
  · intro x last
    rw [log, backgrounds_append, taken, List.getLast?_concat, Option.mem_some_iff] at last
    rw [cursor, behind, ← last]
  · intro x last i present
    rw [log, backgrounds_append, taken, List.getLast?_concat, Option.mem_some_iff] at last
    rw [← last] at present
    exact kept i ((table i).mp present)

theorem Waiting.kept {s s' : Sch} {i : Fin schMaxTasks} (h : Waiting s i)
    (task : s'.tasks i = s.tasks i ∨ (s.tasks i).inUse = false ∧ Fresh (s'.tasks i)) :
    Waiting s' i := by
  rw [Waiting, slot_kept task h.inUse]
  exact h

section Steps

variable {w w' : SchWorld σ}

theorem Rotates.undisturbed (h : Rotates w) (u : Undisturbed w w') : Rotates w' := by
  obtain ⟨l, log, act, -⟩ := u.log
  exact h.quiet log (backgrounds_of_actions act) u.grows.cursor fun i waits =>
    waits.kept (u.grows.tasks i)

theorem Rotates.loops {now : BitVec 32} {ids : List (Fin schMaxTasks)} (h : Rotates w)
    (loops : Loops now ids w w') : Rotates w' := by
  obtain ⟨l, log, act, -⟩ := loops.log
  refine h.quiet log ?_ loops.cursor fun i waits => waits.kept (loops.others i fun mem => ?_)
  · rw [backgrounds, List.filterMap_eq_nil_iff]
    intro x mem
    have periodic := List.mem_map_of_mem (f := Prod.fst) mem
    rw [act, List.mem_map] at periodic
    obtain ⟨i, -, action⟩ := periodic
    rw [← action]
    rfl
  · exact ((loops.members i).mp mem).periodic waits.background

theorem Rotates.handsOver (h : Rotates w) (handed : HandsOver w w') : Rotates w' := by
  obtain ⟨l, last, snapshot, log, act, same, turn, -⟩ := handed.log
  have kept : ∀ i, Waiting w.state i → Waiting w'.state i := fun i waits =>
    waits.kept (handed.tasks i)
  generalize cursor : w'.state.nextBackgroundIdx = c at turn
  cases turn with
  | background id found =>
    refine h.turn log ?_ same found cursor kept
    rw [backgrounds, act]
    rfl
  | idle missed =>
    refine h.quiet log ?_ cursor kept
    rw [backgrounds, act]
    rfl

end Steps

variable (cfg : Config) (port : Port σ)

theorem step_rotates (w : SchWorld σ) (c : Call σ) (h : Settled w.state ∧ Rotates w) :
    Settled (step cfg port w c).state ∧ Rotates (step cfg port w c) := by
  obtain ⟨settled, rotates⟩ := h
  refine ⟨step_settled cfg port w c settled, ?_⟩
  by_cases isRun : c = .run
  · obtain ⟨ids, loops⟩ := afterLoop_loops cfg port w settled
    rw [isRun, step, run_eq]
    exact (rotates.loops loops).handsOver
      (runBackground_handsOver cfg port _ (loops.settled settled))
  · exact rotates.undisturbed (step_undisturbed cfg port w c isRun)

theorem history_rotates (env : σ) (calls : List (Call σ)) :
    Rotates (history cfg port env calls) :=
  (History.invariant (step cfg port) (fun w => Settled w.state ∧ Rotates w)
    (step_rotates cfg port) _ ⟨init_settled, rotates_start env⟩ calls).2

/-- Between two consecutive executions of a background task `b` nobody is executed twice,
everybody who waited when the first of the two was selected is executed once, and the slots
come in the order of the ring, from behind `b` on. -/
theorem background_round_robin (env : σ) (calls : List (Call σ)) (b : Fin schMaxTasks)
    (s s' : Sch) (earlier between later : List (Fin schMaxTasks × Sch))
    (turns : backgrounds (history cfg port env calls).log =
      earlier ++ (b, s) :: (between ++ (b, s') :: later))
    (consecutive : b ∉ between.map Prod.fst) :
    (∀ i, IsBackground (s.tasks i) → i ≠ b → (between.map Prod.fst).count i = 1) ∧
      (∀ i, (between.map Prod.fst).count i ≤ 1) ∧
      (between.map fun x => distance b x.1).Pairwise (· < ·) := by
  have rotates := history_rotates cfg port env calls
  have chain := rotates.turns
  rw [turns] at chain
  have waits : Waiting s b := rotates.here (b, s) (by rw [turns]; simp)
  have round : List.IsChain (Succeeds Waiting) ((b, s) :: (between ++ [(b, s')])) := by
    refine chain.infix ⟨earlier, later, ?_⟩
    simp
  obtain ⟨onward, complete⟩ := round_of_turns round waits fun z mem same =>
    consecutive (same ▸ List.mem_map_of_mem mem)
  have nodup : (between.map Prod.fst).Nodup := by
    rw [List.pairwise_map] at onward
    rw [List.Nodup, List.pairwise_map]
    exact onward.imp fun before same => absurd before (by rw [same]; exact lt_irrefl _)
  exact ⟨fun i present other => List.count_eq_one_of_mem nodup (complete i present other),
    fun i => List.nodup_iff_count_le_one.mp nodup i, onward⟩

theorem background_round_robin_two :
    let w := history ⟨true, true⟩ clockPort 0
      [.addTask ⟨1, 0, 0, 0, 0⟩, .addTask ⟨2, 0, 0, 0, 0⟩, .run, .run, .run]
    ∃ s between s', backgrounds w.log = (0, s) :: (between ++ [(0, s')]) ∧
      (between.map Prod.fst).count 1 = 1 := by
  intro w
  have turns : (backgrounds w.log).map (fun x => (x.1, decide (IsBackground (x.2.tasks 1)))) =
      [(0, true), (1, true), (0, true)] := by decide +kernel
  simp only [List.map_eq_cons_iff, List.map_eq_nil_iff, Prod.mk.injEq, decide_eq_true_eq] at turns
  obtain ⟨⟨_, s⟩, _, log, ⟨rfl, waits⟩, x, _, rfl, ⟨one, -⟩, ⟨_, s'⟩, _, rfl, ⟨rfl, -⟩, rfl⟩ := turns
  refine ⟨s, [x], s', log, ?_⟩
  refine (background_round_robin ⟨true, true⟩ clockPort 0 _ 0 s s' [] [x] [] log ?_).1 1 waits
    (by decide)
  rw [List.map_singleton, List.mem_singleton, one]
  decide

end SchedulerLib.Scheduler
