import Mathlib.Data.List.Induction
import SchedulerLib.Scheduler.Frame

/-!
The three scans of the task table. Selection compares the running best with the priority
it was stored with, so its sentinel, a legal priority, never competes: the first pending
task is taken whatever its priority.
-/

namespace SchedulerLib.Scheduler

open Lib

structure Pending (s : Sch) (i : Fin schMaxTasks) : Prop where
  inUse : (s.tasks i).inUse = true
  enabled : (s.tasks i).enabled = true
  pending : (s.tasks i).pending = true
  periodic : (s.tasks i).periodTicks ≠ 0

/-- Ascending order of priority value, ties by slot. -/
def Before (s : Sch) (i j : Fin schMaxTasks) : Prop :=
  (s.tasks i).priority < (s.tasks j).priority ∨
    (s.tasks i).priority = (s.tasks j).priority ∧ i < j

theorem pending_iff (s : Sch) (i : Fin schMaxTasks) :
    Pending s i ↔ (!(s.tasks i).inUse || !(s.tasks i).enabled || !(s.tasks i).pending ||
      decide ((s.tasks i).periodTicks = 0)) = false := by
  constructor
  · rintro ⟨inUse, enabled, pending, periodic⟩
    simpa [inUse, enabled, pending] using periodic
  · intro h
    simp only [Bool.or_eq_false_iff, Bool.not_eq_false', decide_eq_false_iff_not] at h
    exact ⟨h.1.1.1, h.1.1.2, h.1.2, h.2⟩

instance (s : Sch) (i : Fin schMaxTasks) : Decidable (Pending s i) :=
  decidable_of_iff _ (pending_iff s i).symm

theorem before_iff (s : Sch) (i j : Fin schMaxTasks) :
    Before s i j ↔ (s.tasks i).priority.toNat < (s.tasks j).priority.toNat ∨
      (s.tasks i).priority.toNat = (s.tasks j).priority.toNat ∧ i < j := by
  rw [Before, BitVec.lt_def, BitVec.toNat_inj]

theorem Before.trans {s : Sch} {i j k : Fin schMaxTasks} (h : Before s i j) (h' : Before s j k) :
    Before s i k := by
  rw [before_iff] at *
  omega

theorem before_of_not {s : Sch} {i j : Fin schMaxTasks} (h : ¬ Before s i j) (ne : i ≠ j) :
    Before s j i := by
  rw [before_iff] at *
  omega

theorem Before.ne {s : Sch} {i j : Fin schMaxTasks} (h : Before s i j) : i ≠ j := by
  rintro rfl
  rw [before_iff] at h
  omega

/-- What the selection loop knows after the slots `seen`. -/
structure BestOf (s : Sch) (seen : List (Fin schMaxTasks))
    (best : Option (Fin schMaxTasks) × BitVec 16) : Prop where
  none_pending : best.1 = none → ∀ j ∈ seen, ¬ Pending s j
  least : ∀ i, best.1 = some i → Pending s i ∧ best.2 = (s.tasks i).priority ∧
    ∀ j ∈ seen, Pending s j → j ≠ i → Before s i j

section Step

variable {s : Sch} {seen : List (Fin schMaxTasks)} {best : Option (Fin schMaxTasks) × BitVec 16}
  {selected i : Fin schMaxTasks}

theorem BestOf.skip (h : BestOf s seen best) (out : ¬ Pending s i) :
    BestOf s (seen ++ [i]) best where
  none_pending absent j hj := by
    rcases List.mem_append.mp hj with old | new
    · exact h.none_pending absent j old
    · rw [List.mem_singleton.mp new]
      exact out
  least k hk := by
    obtain ⟨pending, stored, least⟩ := h.least k hk
    refine ⟨pending, stored, fun j hj pending' ne => ?_⟩
    rcases List.mem_append.mp hj with old | new
    · exact least j old pending' ne
    · rw [List.mem_singleton.mp new] at pending'
      exact absurd pending' out

theorem BestOf.take (pending : Pending s i) (first : ∀ j ∈ seen, Pending s j → Before s i j) :
    BestOf s (seen ++ [i]) (some i, (s.tasks i).priority) where
  none_pending absent := by cases absent
  least k hk := by
    obtain rfl : i = k := by simpa using hk
    refine ⟨pending, rfl, fun j hj pending' ne => ?_⟩
    rcases List.mem_append.mp hj with old | new
    · exact first j old pending'
    · exact absurd (List.mem_singleton.mp new) ne

theorem BestOf.keep (h : BestOf s seen (some selected, (s.tasks selected).priority))
    (worse : ¬ Before s i selected) :
    BestOf s (seen ++ [i]) (some selected, (s.tasks selected).priority) where
  none_pending absent := by cases absent
  least k hk := by
    obtain rfl : selected = k := by simpa using hk
    obtain ⟨pending, -, least⟩ := h.least selected rfl
    refine ⟨pending, rfl, fun j hj pending' ne => ?_⟩
    rcases List.mem_append.mp hj with old | new
    · exact least j old pending' ne
    · rw [List.mem_singleton] at new
      subst new
      exact before_of_not worse ne

theorem BestOf.step (h : BestOf s seen best) (i : Fin schMaxTasks) :
    BestOf s (seen ++ [i]) (selectSlot s best i) := by
  unfold selectSlot
  dsimp only
  by_cases candidate : Pending s i
  · rw [if_neg (by rw [(pending_iff s i).mp candidate]; exact Bool.false_ne_true)]
    obtain ⟨selected, priority⟩ := best
    cases selected with
    | none =>
      have free := h.none_pending rfl
      exact BestOf.take candidate fun j old pending => absurd pending (free j old)
    | some selected =>
      obtain ⟨-, stored, least⟩ := h.least selected rfl
      dsimp only at stored ⊢
      subst stored
      by_cases better : Before s i selected
      · rw [if_pos (by exact better)]
        refine BestOf.take candidate fun j old pending => ?_
        by_cases same : j = selected
        · exact same ▸ better
        · exact better.trans (least j old pending same)
      · rw [if_neg (by exact better)]
        exact h.keep better
  · rw [if_pos (by rwa [pending_iff, Bool.not_eq_false] at candidate)]
    exact h.skip candidate

end Step

theorem selectSlots_bestOf (s : Sch) (seen : List (Fin schMaxTasks)) :
    BestOf s seen (seen.foldl (selectSlot s) (none, schLowestPriority)) := by
  induction seen using List.reverseRecOn with
  | nil => exact ⟨fun _ j hj => by simp at hj, fun i hi => by simp at hi⟩
  | append_singleton seen i ih =>
    rw [List.foldl_append, List.foldl_cons, List.foldl_nil]
    exact ih.step i

theorem selectPendingTask_none {s : Sch} (h : selectPendingTask s = none) (j : Fin schMaxTasks) :
    ¬ Pending s j :=
  (selectSlots_bestOf s _).none_pending h j (List.mem_finRange j)

theorem selectPendingTask_some {s : Sch} {i : Fin schMaxTasks}
    (h : selectPendingTask s = some i) :
    Pending s i ∧ ∀ j, Pending s j → j ≠ i → Before s i j := by
  obtain ⟨pending, -, least⟩ := (selectSlots_bestOf s _).least i h
  exact ⟨pending, fun j => least j (List.mem_finRange j)⟩

structure IsBackground (task : SchTask) : Prop where
  inUse : task.inUse = true
  enabled : task.enabled = true
  background : task.periodTicks = 0

theorem isBackground_iff (task : SchTask) :
    IsBackground task ↔
      (task.inUse && task.enabled && decide (task.periodTicks = 0)) = true := by
  constructor
  · rintro ⟨inUse, enabled, background⟩
    simp [inUse, enabled, background]
  · intro h
    simp only [Bool.and_eq_true, decide_eq_true_eq] at h
    exact ⟨h.1.1, h.1.2, h.2⟩

instance (task : SchTask) : Decidable (IsBackground task) :=
  decidable_of_iff _ (isBackground_iff task).symm

theorem backgroundSlot_val (s : Sch) (offset : Nat) :
    (backgroundSlot s offset).val = (s.nextBackgroundIdx.toNat + offset) % schMaxTasks := by
  have bound := s.nextBackgroundIdx.isLt
  simp only [schMaxTasks, backgroundSlot, Fin.ofNat, BitVec.toNat_umod, BitVec.toNat_add,
    BitVec.toNat_ofNat, Nat.reducePow, Nat.reduceMod]
  omega

theorem exists_backgroundSlot (s : Sch) (i : Fin schMaxTasks) :
    ∃ offset < schMaxTasks, backgroundSlot s offset = i := by
  have bound := i.isLt
  refine ⟨(i.val + (schMaxTasks - s.nextBackgroundIdx.toNat % schMaxTasks)) % schMaxTasks,
    Nat.mod_lt _ (by decide), Fin.ext ?_⟩
  rw [backgroundSlot_val]
  simp only [schMaxTasks] at bound ⊢
  omega

theorem selectBackgroundTask_tasks (s : Sch) : (selectBackgroundTask s).2.tasks = s.tasks := by
  unfold selectBackgroundTask
  dsimp only
  split <;> rfl

theorem selectBackgroundTask_stats (s : Sch) : (selectBackgroundTask s).2.stats = s.stats := by
  unfold selectBackgroundTask
  dsimp only
  split <;> rfl

theorem selectBackgroundTask_taskCount (s : Sch) :
    (selectBackgroundTask s).2.taskCount = s.taskCount := by
  unfold selectBackgroundTask
  dsimp only
  split <;> rfl

theorem selectBackgroundTask_of_none {s : Sch} (h : (selectBackgroundTask s).1 = none) :
    (selectBackgroundTask s).2 = s := by
  unfold selectBackgroundTask at h ⊢
  dsimp only at h ⊢
  split at h
  · rfl
  · cases h

theorem selectBackgroundTask_none {s : Sch} (h : (selectBackgroundTask s).1 = none)
    (i : Fin schMaxTasks) : ¬ IsBackground (s.tasks i) := by
  unfold selectBackgroundTask at h
  dsimp only at h
  split at h
  · rename_i missed
    obtain ⟨offset, below, rfl⟩ := exists_backgroundSlot s i
    rw [isBackground_iff]
    exact List.find?_eq_none.mp missed offset (List.mem_range.mpr below)
  · cases h

/-- The scan stops at the first background task from the cursor on, and the cursor is left
behind it. -/
theorem selectBackgroundTask_found {s : Sch} {i : Fin schMaxTasks}
    (h : (selectBackgroundTask s).1 = some i) : IsBackground (s.tasks i) ∧
      (selectBackgroundTask s).2.nextBackgroundIdx.toNat = (i.val + 1) % schMaxTasks ∧
      ∃ offset < schMaxTasks, backgroundSlot s offset = i ∧
        ∀ earlier < offset, ¬ IsBackground (s.tasks (backgroundSlot s earlier)) := by
  unfold selectBackgroundTask at h ⊢
  dsimp only at h ⊢
  split at h
  · cases h
  · rename_i offset found
    obtain rfl : backgroundSlot s offset = i := by simpa using h
    obtain ⟨accepted, inside, missed⟩ := List.find?_range_eq_some.mp found
    refine ⟨(isBackground_iff _).mpr accepted, ?_, offset, List.mem_range.mp inside, rfl,
      fun earlier before => ?_⟩
    · have bound := (backgroundSlot s offset).isLt
      have one : (1 : BitVec 32).toNat = 1 := rfl
      simp only [schMaxTasks, BitVec.toNat_umod, BitVec.toNat_add, BitVec.toNat_ofNat, one,
        Nat.reducePow, Nat.reduceMod] at bound ⊢
      omega
    · rw [isBackground_iff, Bool.not_eq_true, ← Bool.not_eq_true']
      exact missed earlier before

theorem selectBackgroundTask_some {s : Sch} {i : Fin schMaxTasks}
    (h : (selectBackgroundTask s).1 = some i) : IsBackground (s.tasks i) :=
  (selectBackgroundTask_found h).1

section Keeps

variable {σ : Type} (cfg : Config) (port : Port σ)

theorem runPeriodic_keeps (P : SchWorld σ → Prop) (now : BitVec 32) (n : Nat) (w : SchWorld σ)
    (start : P w)
    (execute : ∀ v i, Pending v.state i → P v → P (executePeriodic cfg port now i v)) :
    P (runPeriodic cfg port now n w) := by
  induction n generalizing w with
  | zero => exact start
  | succ n ih =>
    unfold runPeriodic
    cases found : selectPendingTask w.state with
    | none => exact start
    | some selected => exact ih _ (execute w selected (selectPendingTask_some found).1 start)

theorem runBackground_keeps (P Q : SchWorld σ → Prop) (w : SchWorld σ)
    (selected : P (w.setState (selectBackgroundTask w.state).2))
    (idle : ∀ v, P v → Q (runIdle cfg port v))
    (execute : ∀ v i, IsBackground (v.state.tasks i) → P v →
      Q (executeBackground cfg port i (v.state.tasks i).fn (v.state.tasks i).ctx v)) :
    Q (runBackground cfg port w) := by
  unfold runBackground
  dsimp only
  cases found : (selectBackgroundTask w.state).1 with
  | none => exact idle _ selected
  | some i =>
    dsimp only
    split_ifs
    · exact idle _ selected
    · refine execute _ i ?_ selected
      rw [World.setState_state, selectBackgroundTask_tasks]
      exact selectBackgroundTask_some found

end Keeps

end SchedulerLib.Scheduler
