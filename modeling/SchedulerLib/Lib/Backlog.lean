import SchedulerLib.Lib.Fifo
import Mathlib.Algebra.BigOperators.Intervals
import Mathlib.Order.Bounds.Basic
import Mathlib.Tactic.Linarith
import Mathlib.Tactic.Ring

/-!
Work that arrives in rounds and is served `budget` items a round. What waits before a round
is served is the greatest demand of any run of rounds up to it, and a bounded queue served
in this way drops nothing exactly when that never exceeds its capacity.
-/

namespace SchedulerLib.Lib

section Rounds

variable {S T A : Type}

/-- The state after `n` rounds; in each, all items of the round enter one by one and are
then served. -/
def afterRounds (enter : A → S → S) (serve : S → S) (rounds : ℕ → List A) (s : S) : ℕ → S
  | 0 => s
  | n + 1 =>
    serve ((rounds n).foldl (fun s a => enter a s) (afterRounds enter serve rounds s n))

def beforeServe (enter : A → S → S) (serve : S → S) (rounds : ℕ → List A) (s : S) (n : ℕ) : S :=
  (rounds n).foldl (fun s a => enter a s) (afterRounds enter serve rounds s n)

variable {enter : A → S → S} {serve : S → S} {enter' : A → T → T} {serve' : T → T}
  {rounds : ℕ → List A}

theorem foldl_related (R : S → T → Prop) (enters : ∀ a s t, R s t → R (enter a s) (enter' a t))
    (l : List A) (s : S) (t : T) (start : R s t) :
    R (l.foldl (fun s a => enter a s) s) (l.foldl (fun t a => enter' a t) t) := by
  induction l generalizing s t with
  | nil => exact start
  | cons a rest ih => exact ih _ _ (enters a s t start)

theorem rounds_related (R : S → T → Prop) (enters : ∀ a s t, R s t → R (enter a s) (enter' a t))
    (serves : ∀ s t, R s t → R (serve s) (serve' t)) (s : S) (t : T) (start : R s t) (n : ℕ) :
    R (afterRounds enter serve rounds s n) (afterRounds enter' serve' rounds t n) ∧
      R (beforeServe enter serve rounds s n) (beforeServe enter' serve' rounds t n) := by
  have after : R (afterRounds enter serve rounds s n) (afterRounds enter' serve' rounds t n) := by
    induction n with
    | zero => exact start
    | succ n ih => exact serves _ _ (foldl_related R enters (rounds n) _ _ ih)
  exact ⟨after, foldl_related R enters (rounds n) _ _ after⟩

end Rounds

section Backlog

variable (budget : ℕ) (arrivals : ℕ → ℕ)

def carry : ℕ → ℕ
  | 0 => 0
  | n + 1 => carry n + arrivals n - budget

def backlog (n : ℕ) : ℕ := carry budget arrivals n + arrivals n

/-- The arrivals of the rounds `i` to `j` less what can be served before round `j`. -/
def demand (i j : ℕ) : ℤ := ∑ k ∈ Finset.Icc i j, (arrivals k : ℤ) - ((j : ℤ) - i) * budget

theorem demand_self (j : ℕ) : demand budget arrivals j j = arrivals j := by
  simp [demand]

theorem demand_succ (i j : ℕ) (le : i ≤ j) :
    demand budget arrivals i (j + 1) =
      demand budget arrivals i j - budget + arrivals (j + 1) := by
  rw [demand, demand, Finset.sum_Icc_succ_top (by omega)]
  push_cast
  ring

theorem backlog_succ (j : ℕ) : backlog budget arrivals (j + 1) =
    backlog budget arrivals j - budget + arrivals (j + 1) := rfl

/-- The backlog is the greatest demand. -/
theorem backlog_isGreatest (j : ℕ) :
    IsGreatest {d | ∃ i ≤ j, d = demand budget arrivals i j} (backlog budget arrivals j : ℤ) := by
  induction j with
  | zero =>
    have only : (backlog budget arrivals 0 : ℤ) = demand budget arrivals 0 0 := by
      simp [backlog, carry, demand_self]
    refine ⟨⟨0, Nat.le_refl 0, only⟩, ?_⟩
    rintro d ⟨i, le, rfl⟩
    obtain rfl : i = 0 := by omega
    exact only.ge
  | succ j ih =>
    obtain ⟨⟨i, le, same⟩, most⟩ := ih
    by_cases cleared : backlog budget arrivals j ≤ budget
    · -- the queue runs empty, and the round stands alone
      have alone : (backlog budget arrivals (j + 1) : ℤ) =
          demand budget arrivals (j + 1) (j + 1) := by
        rw [backlog_succ, Nat.sub_eq_zero_of_le cleared, Nat.zero_add, demand_self]
      refine ⟨⟨j + 1, Nat.le_refl _, alone⟩, ?_⟩
      rintro d ⟨k, bound, rfl⟩
      rcases Nat.lt_or_eq_of_le bound with earlier | rfl
      · have before : demand budget arrivals k j ≤ backlog budget arrivals j :=
          most ⟨k, by omega, rfl⟩
        rw [alone, demand_self, demand_succ _ _ _ _ (by omega)]
        have small : (backlog budget arrivals j : ℤ) ≤ budget := by exact_mod_cast cleared
        linarith
      · exact alone.ge
    · have next : (backlog budget arrivals (j + 1) : ℤ) =
          backlog budget arrivals j - budget + arrivals (j + 1) := by
        rw [backlog_succ]
        push_cast [Nat.le_of_not_le cleared]
        ring
      refine ⟨⟨i, by omega, by rw [next, same, demand_succ _ _ _ _ le]⟩, ?_⟩
      rintro d ⟨k, bound, rfl⟩
      rcases Nat.lt_or_eq_of_le bound with earlier | rfl
      · have before : demand budget arrivals k j ≤ backlog budget arrivals j :=
          most ⟨k, by omega, rfl⟩
        rw [next, demand_succ _ _ _ _ (by omega)]
        linarith
      · have large : (budget : ℤ) ≤ backlog budget arrivals j := by
          exact_mod_cast Nat.le_of_not_le cleared
        rw [next, demand_self]
        linarith

theorem backlog_le_iff (capacity j : ℕ) : backlog budget arrivals j ≤ capacity ↔
    ∀ i ≤ j, demand budget arrivals i j ≤ capacity := by
  obtain ⟨⟨i, le, same⟩, most⟩ := backlog_isGreatest budget arrivals j
  constructor
  · intro bound k earlier
    have bound' : (backlog budget arrivals j : ℤ) ≤ capacity := by exact_mod_cast bound
    exact (most ⟨k, earlier, rfl⟩).trans bound'
  · intro bound
    have largest := bound i le
    rw [← same] at largest
    exact_mod_cast largest

end Backlog

/-- The sizing law of a queue: `clean n` says that nothing was dropped in the first `n`
rounds, and `size j` is what waited before round `j` was served. -/
structure SizingLaw (capacity budget : ℕ) (arrivals : ℕ → ℕ) (clean : ℕ → Prop)
    (size : ℕ → ℕ) : Prop where
  clean_iff : ∀ n, clean n ↔ ∀ i j, i ≤ j → j < n → demand budget arrivals i j ≤ capacity
  backlog : ∀ n, clean n → ∀ j < n,
    IsGreatest {d | ∃ i ≤ j, d = demand budget arrivals i j} (size j : ℤ)

theorem SizingLaw.congr {capacity budget : ℕ} {arrivals : ℕ → ℕ} {clean clean' : ℕ → Prop}
    {size size' : ℕ → ℕ} (h : SizingLaw capacity budget arrivals clean size)
    (same : ∀ n, clean n ↔ clean' n) (sizes : ∀ j, size j = size' j) :
    SizingLaw capacity budget arrivals clean' size' where
  clean_iff n := (same n).symm.trans (h.clean_iff n)
  backlog n clean j lt := sizes j ▸ h.backlog n ((same n).mpr clean) j lt

namespace Fifo

variable {α A : Type}

section Batch

variable (f : A → α)

def pushAll (q : Fifo α) (l : List A) : Fifo α := l.foldl (fun q a => q.push (f a)) q

theorem pushAll_cons (q : Fifo α) (a : A) (rest : List A) :
    q.pushAll f (a :: rest) = (q.push (f a)).pushAll f rest := rfl

theorem pushAll_capacity (q : Fifo α) (l : List A) : (q.pushAll f l).capacity = q.capacity := by
  induction l generalizing q with
  | nil => rfl
  | cons a rest ih => exact ih (q.push (f a))

theorem pushAll_drops_le (q : Fifo α) (l : List A) : q.drops ≤ (q.pushAll f l).drops := by
  induction l generalizing q with
  | nil => exact Nat.le_refl _
  | cons a rest ih => exact (Nat.le_add_right _ _).trans (ih (q.push (f a)))

theorem pushAll_of_fits (q : Fifo α) (l : List A) (fits : q.items.length + l.length ≤ q.capacity) :
    (q.pushAll f l).items.length = q.items.length + l.length ∧
      (q.pushAll f l).drops = q.drops := by
  induction l generalizing q with
  | nil => exact ⟨rfl, rfl⟩
  | cons a rest ih =>
    rw [List.length_cons] at fits
    obtain ⟨items, drops⟩ := q.push_of_room (f a) (by omega)
    have length : (q.push (f a)).items.length = q.items.length + 1 := by simp [items]
    obtain ⟨all, none_dropped⟩ := ih (q.push (f a)) (by rw [length, push_capacity]; omega)
    rw [pushAll_cons, List.length_cons]
    exact ⟨by rw [all, length]; omega, none_dropped.trans drops⟩

theorem pushAll_of_not_fits (q : Fifo α) (l : List A)
    (beyond : q.capacity < q.items.length + l.length) : q.drops < (q.pushAll f l).drops := by
  induction l generalizing q with
  | nil =>
    have bounded := q.bounded
    rw [List.length_nil] at beyond
    omega
  | cons a rest ih =>
    rw [pushAll_cons]
    by_cases room : q.items.length < q.capacity
    · obtain ⟨items, drops⟩ := q.push_of_room (f a) room
      rw [← drops]
      refine ih (q.push (f a)) ?_
      rw [List.length_cons] at beyond
      rw [items, push_capacity, List.length_append, List.length_singleton]
      omega
    · have lost : (q.push (f a)).drops = q.drops + 1 := by
        have kind : q.outcome ≠ .stored := by rwa [Ne, outcome_eq_stored_iff]
        simp [push, kind]
      have rest_drops := pushAll_drops_le f (q.push (f a)) rest
      omega

end Batch

section Served

variable (budget : ℕ) (f : A → α) (rounds : ℕ → List A) (q : Fifo α)

def served (n : ℕ) : Fifo α :=
  afterRounds (fun a q => q.push (f a)) (fun q => q.skip budget) rounds q n

def waiting (n : ℕ) : Fifo α :=
  beforeServe (fun a q => q.push (f a)) (fun q => q.skip budget) rounds q n

theorem served_succ (n : ℕ) :
    q.served budget f rounds (n + 1) = (q.waiting budget f rounds n).skip budget := rfl

theorem waiting_eq (n : ℕ) : q.waiting budget f rounds n =
    (q.served budget f rounds n).pushAll f (rounds n) := rfl

theorem served_capacity (n : ℕ) : (q.served budget f rounds n).capacity = q.capacity := by
  induction n with
  | zero => rfl
  | succ n ih => rw [served_succ, skip_capacity, waiting_eq, pushAll_capacity, ih]

variable {q}

theorem served_step (n : ℕ) (start : (q.served budget f rounds n).drops = 0 →
      (q.served budget f rounds n).items.length = carry budget (fun k => (rounds k).length) n) :
    ((q.served budget f rounds (n + 1)).drops = 0 ↔ (q.served budget f rounds n).drops = 0 ∧
        backlog budget (fun k => (rounds k).length) n ≤ q.capacity) ∧
      ((q.served budget f rounds (n + 1)).drops = 0 → (q.waiting budget f rounds n).items.length =
        backlog budget (fun k => (rounds k).length) n) := by
  have grows := pushAll_drops_le f (q.served budget f rounds n) (rounds n)
  have bound := served_capacity budget f rounds q n
  rw [served_succ, skip_drops, waiting_eq, backlog]
  by_cases clean : (q.served budget f rounds n).drops = 0
  · rw [← start clean, ← bound]
    by_cases fits : (q.served budget f rounds n).items.length + (rounds n).length ≤
        (q.served budget f rounds n).capacity
    · obtain ⟨items, drops⟩ := pushAll_of_fits f _ _ fits
      exact ⟨iff_of_true (drops.trans clean) ⟨clean, fits⟩, fun _ => items⟩
    · have lost := pushAll_of_not_fits f _ _ (Nat.lt_of_not_le fits)
      exact ⟨iff_of_false (by omega) fun h => fits h.2, fun h => by omega⟩
  · exact ⟨iff_of_false (by omega) fun h => clean h.1, fun h => by omega⟩

theorem served_spec (empty : q.items = []) (unspoiled : q.drops = 0) (n : ℕ) :
    ((q.served budget f rounds n).drops = 0 ↔
        ∀ j < n, backlog budget (fun k => (rounds k).length) j ≤ q.capacity) ∧
      ((q.served budget f rounds n).drops = 0 → (q.served budget f rounds n).items.length =
        carry budget (fun k => (rounds k).length) n) := by
  induction n with
  | zero => exact ⟨iff_of_true unspoiled (by simp), fun _ => by rw [served, afterRounds, empty]; rfl⟩
  | succ n ih =>
    obtain ⟨clean, waits⟩ := served_step budget f rounds n ih.2
    constructor
    · rw [clean, ih.1]
      simp only [Nat.lt_succ_iff_lt_or_eq, or_imp, forall_and, forall_eq]
    · intro none_dropped
      rw [served_succ, skip_items, List.length_drop, waits none_dropped]
      rfl

theorem sizingLaw (empty : q.items = []) (unspoiled : q.drops = 0) :
    SizingLaw q.capacity budget (fun k => (rounds k).length)
      (fun n => (q.served budget f rounds n).drops = 0)
      (fun j => (q.waiting budget f rounds j).items.length) where
  clean_iff n := by
    rw [(served_spec budget f rounds empty unspoiled n).1]
    simp only [backlog_le_iff]
    exact ⟨fun h i j le lt => h j lt i le, fun h j lt i le => h i j le lt⟩
  backlog n clean j lt := by
    have spec := served_spec budget f rounds empty unspoiled
    have all := (spec n).1.mp clean
    obtain ⟨-, size⟩ := served_step budget f rounds j (spec j).2
    have upTo := (spec (j + 1)).1.mpr fun i le => all i (by omega)
    rw [size upTo]
    exact backlog_isGreatest _ _ j

end Served

end Fifo

end SchedulerLib.Lib
