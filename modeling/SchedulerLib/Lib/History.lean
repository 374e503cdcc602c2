import Mathlib.Data.List.Infix
import Mathlib.Order.Basic

/-!
A history is the list of the calls made so far, and its state the left fold of the step
over it. A property that a step keeps exactly when a condition on the state before it
holds is kept by a whole history exactly when the condition holds before each step.
A register read off a log has the value of the last entry that wrote it.
Values written in order are also read in order.
-/

namespace SchedulerLib.Lib.History

variable {S C : Type}

theorem invariant (step : S → C → S) (Inv : S → Prop) (keep : ∀ s c, Inv s → Inv (step s c))
    (s : S) (start : Inv s) (calls : List C) : Inv (calls.foldl step s) := by
  induction calls generalizing s with
  | nil => exact start
  | cons c rest ih => exact ih (step s c) (keep s c start)

/-- The exact condition for a property to hold at every moment of a history. -/
theorem always_iff (step : S → C → S) (Inv P : S → Prop) (Ok : S → C → Prop)
    (keep : ∀ s c, Inv s → Inv (step s c))
    (exact_step : ∀ s c, Inv s → P s → (P (step s c) ↔ Ok s c))
    (s : S) (inv : Inv s) (start : P s) (calls : List C) :
    (∀ done, done <+: calls → P (done.foldl step s)) ↔
      ∀ done c, done ++ [c] <+: calls → Ok (done.foldl step s) c := by
  constructor
  · intro h done c hc
    have inv' := invariant step Inv keep s inv done
    have before := h done ((List.prefix_append done [c]).trans hc)
    have after := h (done ++ [c]) hc
    rw [List.foldl_append, List.foldl_cons, List.foldl_nil] at after
    exact (exact_step _ c inv' before).mp after
  · intro h done
    induction done using List.reverseRecOn with
    | nil => exact fun _ => start
    | append_singleton done c ih =>
      intro hc
      have before := ih ((List.prefix_append done [c]).trans hc)
      have inv' := invariant step Inv keep s inv done
      rw [List.foldl_append, List.foldl_cons, List.foldl_nil]
      exact (exact_step _ c inv' before).mpr (h done c hc)

theorem exists_crossing (P : List C → Prop) {calls : List C} (start : ¬ P []) (reached : P calls) :
    ∃ early c rest, calls = early ++ c :: rest ∧ ¬ P early ∧ P (early ++ [c]) := by
  induction calls using List.reverseRecOn with
  | nil => exact absurd reached start
  | append_singleton calls c ih =>
    by_cases before : P calls
    · obtain ⟨early, x, rest, rfl, no, yes⟩ := ih before
      exact ⟨early, x, rest ++ [c], by simp, no, yes⟩
    · exact ⟨calls, c, [], rfl, before, reached⟩

section Reaches

/-- Calls from `s` to `s'`, of which `n` are marked. -/
def Reaches (step : S → C → S) (mark : C → Bool) (n : Nat) (s s' : S) : Prop :=
  ∃ calls : List C, s' = calls.foldl step s ∧ calls.countP mark = n

variable {step : S → C → S} {mark : C → Bool} {s s' s'' : S} {m n : Nat}

theorem Reaches.refl (s : S) : Reaches step mark 0 s s := ⟨[], rfl, rfl⟩

theorem Reaches.trans (h : Reaches step mark m s s') (k : Reaches step mark n s' s'') :
    Reaches step mark (m + n) s s'' := by
  obtain ⟨calls, rfl, counted⟩ := h
  obtain ⟨calls', rfl, counted'⟩ := k
  refine ⟨calls ++ calls', ?_, ?_⟩
  · rw [List.foldl_append]
  · rw [List.countP_append, counted, counted']

theorem Reaches.measured (h : Reaches step mark n s s') (P : Nat → S → Prop)
    (keeps : ∀ k s c, mark c = false → P k s → P k (step s c))
    (advances : ∀ k s c, mark c = true → P k s → P (k + 1) (step s c)) (start : P m s) :
    P (m + n) s' := by
  obtain ⟨calls, rfl, rfl⟩ := h
  induction calls generalizing s m with
  | nil => exact start
  | cons c rest ih =>
    rw [List.foldl_cons]
    by_cases marked : mark c = true
    · have later := ih (m := m + 1) (advances m s c marked start)
      rwa [List.countP_cons_of_pos marked, Nat.add_comm (rest.countP mark), ← Nat.add_assoc]
    · rw [List.countP_cons_of_neg marked]
      exact ih (keeps m s c (Bool.eq_false_iff.mpr marked) start)

/-- From any moment of a history on, `n` marked calls achieve `Q n`. -/
def Achieves (step : S → C → S) (mark : C → Bool) (start : S) (Q : Nat → S → S → Prop) : Prop :=
  ∀ (mid : S) (before n : Nat), Reaches step mark before start mid →
    ∀ fin, Reaches step mark n mid fin → Q n mid fin

theorem Achieves.imp {Q Q' : Nat → S → S → Prop} (h : Achieves step mark s Q)
    (weaker : ∀ n v v', Q n v v' → Q' n v v') : Achieves step mark s Q' :=
  fun mid before n earlier fin later => weaker _ _ _ (h mid before n earlier fin later)

end Reaches

section Latest

variable {E V : Type} (writes : E → Option V) (initial : V)

/-- The register after the log `events`; `writes` gives the value an entry writes, if any. -/
def latest (events : List E) : V :=
  events.foldl (fun value e => (writes e).getD value) initial

@[simp] theorem latest_nil : latest writes initial [] = initial := rfl

theorem latest_append_singleton (events : List E) (e : E) :
    latest writes initial (events ++ [e]) = (writes e).getD (latest writes initial events) := by
  rw [latest, List.foldl_append]
  rfl

theorem latest_of_write (events : List E) (e : E) (v : V) (write : writes e = some v) :
    latest writes initial (events ++ [e]) = v := by
  rw [latest_append_singleton, write, Option.getD_some]

theorem latest_of_no_write (events : List E) (e : E) (none_written : writes e = none) :
    latest writes initial (events ++ [e]) = latest writes initial events := by
  rw [latest_append_singleton, none_written, Option.getD_none]

theorem exists_writer (events : List E) (v : V) (value : latest writes initial events = v)
    (other : v ≠ initial) : ∃ before e after, events = before ++ e :: after ∧
      writes e = some v ∧ ∀ x ∈ after, writes x = none := by
  induction events using List.reverseRecOn with
  | nil => exact absurd value.symm other
  | append_singleton events e ih =>
    cases write : writes e with
    | some u =>
      obtain rfl : u = v := by rwa [latest_of_write _ _ _ _ _ write] at value
      exact ⟨events, e, [], rfl, write, by simp⟩
    | none =>
      rw [latest_of_no_write _ _ _ _ write] at value
      obtain ⟨before, x, after, split, wrote, silent⟩ := ih value
      refine ⟨before, x, after ++ [e], by rw [split]; simp, wrote, ?_⟩
      intro y mem
      rcases List.mem_append.mp mem with old | new
      · exact silent y old
      · rw [List.mem_singleton.mp new]
        exact write

section Observations

variable (looks : E → Bool)

def observations : V → List E → List V
  | _, [] => []
  | value, e :: rest =>
    let later := observations ((writes e).getD value) rest
    if looks e then value :: later else later

theorem observations_append_singleton (events : List E) (e : E) :
    observations writes looks initial (events ++ [e]) =
      observations writes looks initial events ++
        if looks e then [latest writes initial events] else [] := by
  induction events generalizing initial with
  | nil => rfl
  | cons x rest ih =>
    rw [List.cons_append, observations, observations, ih]
    by_cases found : looks x = true
    · rw [if_pos found, if_pos found, List.cons_append]
      rfl
    · rw [if_neg found, if_neg found]
      rfl

theorem observations_sorted [Preorder V] (events : List E)
    (sorted : (initial :: events.filterMap writes).Pairwise (· ≤ ·)) :
    (observations writes looks initial events).Pairwise (· ≤ ·) ∧
      ∀ value ∈ observations writes looks initial events, initial ≤ value := by
  induction events generalizing initial with
  | nil => exact ⟨List.Pairwise.nil, fun value mem => by cases mem⟩
  | cons e rest ih =>
    have later : (observations writes looks ((writes e).getD initial) rest).Pairwise (· ≤ ·) ∧
        ∀ value ∈ observations writes looks ((writes e).getD initial) rest, initial ≤ value := by
      cases write : writes e with
      | none =>
        rw [List.filterMap_cons_none write] at sorted
        exact ih initial sorted
      | some v =>
        rw [List.filterMap_cons_some write] at sorted
        obtain ⟨least, sorted'⟩ := List.pairwise_cons.mp sorted
        obtain ⟨ordered, above⟩ := ih v sorted'
        exact ⟨ordered, fun value mem => (least v List.mem_cons_self).trans (above value mem)⟩
    rw [observations]
    split_ifs
    · exact ⟨List.pairwise_cons.mpr ⟨later.2, later.1⟩, List.forall_mem_cons.mpr
        ⟨le_refl initial, later.2⟩⟩
    · exact later

end Observations

end Latest

end SchedulerLib.Lib.History
