import Mathlib.Data.List.Basic
import Mathlib.Data.List.Nodup

/-!
A first-in first-out queue of bounded length, and the ledger of everything that was
ever offered to one. The bound is a field of the queue, so an overfull queue cannot
be built; what happens to an item offered to a full queue is the queue's policy.
-/

namespace SchedulerLib.Lib

namespace Fifo

inductive Policy where
  | dropNewest
  | dropOldest
  deriving DecidableEq, Repr

inductive Outcome where
  | stored
  | droppedNewest
  | droppedOldest
  deriving DecidableEq, Repr

end Fifo

@[ext] structure Fifo (α : Type) where
  capacity : Nat
  policy : Fifo.Policy
  items : List α
  drops : Nat
  positive : 0 < capacity
  bounded : items.length ≤ capacity

namespace Fifo

variable {α β : Type}

def empty (capacity : Nat) (policy : Policy) (positive : 0 < capacity) : Fifo α :=
  ⟨capacity, policy, [], 0, positive, Nat.zero_le _⟩

/-- What the next push reports; it depends on the length alone, not on the item. -/
def outcome (q : Fifo α) : Outcome :=
  if q.items.length < q.capacity then .stored
  else match q.policy with
    | .dropNewest => .droppedNewest
    | .dropOldest => .droppedOldest

def kept (q : Fifo α) (a : α) : List α :=
  match q.outcome with
  | .stored => q.items ++ [a]
  | .droppedNewest => q.items
  | .droppedOldest => q.items.tail ++ [a]

theorem outcome_eq_stored_iff (q : Fifo α) :
    q.outcome = .stored ↔ q.items.length < q.capacity := by
  by_cases room : q.items.length < q.capacity
  · simp [outcome, room]
  · cases policy : q.policy <;> simp [outcome, room, policy]

theorem full_of_not_stored (q : Fifo α) (h : q.outcome ≠ .stored) :
    q.items.length = q.capacity := by
  rw [Ne, outcome_eq_stored_iff] at h
  have := q.bounded
  omega

theorem outcome_of_dropNewest (q : Fifo α) (policy : q.policy = .dropNewest) :
    q.outcome ≠ .droppedOldest := by
  unfold outcome
  rw [policy]
  split <;> simp

theorem outcome_of_dropOldest (q : Fifo α) (policy : q.policy = .dropOldest) :
    q.outcome ≠ .droppedNewest := by
  unfold outcome
  rw [policy]
  split <;> simp

theorem kept_length_le (q : Fifo α) (a : α) : (q.kept a).length ≤ q.capacity := by
  have bound := q.bounded
  have positive := q.positive
  unfold kept
  cases h : q.outcome with
  | stored =>
    rw [outcome_eq_stored_iff] at h
    simp only [List.length_append, List.length_singleton]
    omega
  | droppedNewest => exact bound
  | droppedOldest =>
    simp only [List.length_append, List.length_tail, List.length_singleton]
    omega

def push (q : Fifo α) (a : α) : Fifo α :=
  { q with
    items := q.kept a
    drops := q.drops + if q.outcome = .stored then 0 else 1
    bounded := q.kept_length_le a }

/-- Removes the front, which is `q.items.head?`; an empty queue stays as it is. -/
def pop (q : Fifo α) : Fifo α :=
  { q with
    items := q.items.tail
    bounded := by have := q.bounded; simp only [List.length_tail]; omega }

def skip (q : Fifo α) (n : Nat) : Fifo α :=
  { q with
    items := q.items.drop n
    bounded := by have := q.bounded; simp only [List.length_drop]; omega }

def noteDrop (q : Fifo α) : Fifo α := { q with drops := q.drops + 1 }

def reset (q : Fifo α) : Fifo α :=
  { q with items := [], drops := 0, bounded := Nat.zero_le _ }

def map (f : α → β) (q : Fifo α) : Fifo β :=
  { q with items := q.items.map f, bounded := by simpa using q.bounded }

@[simp] theorem empty_items (c : Nat) (p : Policy) (h : 0 < c) :
    (empty c p h : Fifo α).items = [] := rfl
@[simp] theorem empty_capacity (c : Nat) (p : Policy) (h : 0 < c) :
    (empty c p h : Fifo α).capacity = c := rfl
@[simp] theorem empty_policy (c : Nat) (p : Policy) (h : 0 < c) :
    (empty c p h : Fifo α).policy = p := rfl
@[simp] theorem empty_drops (c : Nat) (p : Policy) (h : 0 < c) :
    (empty c p h : Fifo α).drops = 0 := rfl

@[simp] theorem push_capacity (q : Fifo α) (a : α) : (q.push a).capacity = q.capacity := rfl
@[simp] theorem push_policy (q : Fifo α) (a : α) : (q.push a).policy = q.policy := rfl
theorem push_items (q : Fifo α) (a : α) : (q.push a).items = q.kept a := rfl

@[simp] theorem pop_capacity (q : Fifo α) : q.pop.capacity = q.capacity := rfl
@[simp] theorem pop_policy (q : Fifo α) : q.pop.policy = q.policy := rfl
@[simp] theorem pop_items (q : Fifo α) : q.pop.items = q.items.tail := rfl
@[simp] theorem pop_drops (q : Fifo α) : q.pop.drops = q.drops := rfl

@[simp] theorem skip_capacity (q : Fifo α) (n : Nat) : (q.skip n).capacity = q.capacity := rfl
@[simp] theorem skip_policy (q : Fifo α) (n : Nat) : (q.skip n).policy = q.policy := rfl
@[simp] theorem skip_items (q : Fifo α) (n : Nat) : (q.skip n).items = q.items.drop n := rfl
@[simp] theorem skip_drops (q : Fifo α) (n : Nat) : (q.skip n).drops = q.drops := rfl

theorem pop_skip (q : Fifo α) (n : Nat) : q.pop.skip n = q.skip (n + 1) := by
  ext1 <;> simp

theorem skip_of_nil (q : Fifo α) (n : Nat) (h : q.items = []) : q.skip n = q := by
  ext1 <;> simp [h]

@[simp] theorem noteDrop_capacity (q : Fifo α) : q.noteDrop.capacity = q.capacity := rfl
@[simp] theorem noteDrop_policy (q : Fifo α) : q.noteDrop.policy = q.policy := rfl
@[simp] theorem noteDrop_items (q : Fifo α) : q.noteDrop.items = q.items := rfl
@[simp] theorem noteDrop_drops (q : Fifo α) : q.noteDrop.drops = q.drops + 1 := rfl

@[simp] theorem map_items (f : α → β) (q : Fifo α) : (q.map f).items = q.items.map f := rfl
@[simp] theorem map_capacity (f : α → β) (q : Fifo α) : (q.map f).capacity = q.capacity := rfl
@[simp] theorem map_policy (f : α → β) (q : Fifo α) : (q.map f).policy = q.policy := rfl
@[simp] theorem map_drops (f : α → β) (q : Fifo α) : (q.map f).drops = q.drops := rfl

@[simp] theorem map_outcome (f : α → β) (q : Fifo α) : (q.map f).outcome = q.outcome := by
  simp [outcome]

theorem map_push (f : α → β) (q : Fifo α) (a : α) :
    (q.map f).push (f a) = (q.push a).map f := by
  ext1
  · rfl
  · rfl
  · simp only [push_items, map_items, kept, map_outcome]
    cases q.outcome <;> simp
  · simp [push]

theorem map_pop (f : α → β) (q : Fifo α) : (q.map f).pop = q.pop.map f := by
  ext1 <;> simp

theorem push_of_room (q : Fifo α) (a : α) (room : q.items.length < q.capacity) :
    (q.push a).items = q.items ++ [a] ∧ (q.push a).drops = q.drops := by
  have h := (outcome_eq_stored_iff q).mpr room
  simp [push, kept, h]

theorem push_of_dropNewest (q : Fifo α) (a : α) (full : q.items.length = q.capacity)
    (policy : q.policy = .dropNewest) : q.outcome = .droppedNewest ∧ q.push a = q.noteDrop := by
  have closed : ¬ q.items.length < q.capacity := by omega
  have out : q.outcome = .droppedNewest := by simp [outcome, closed, policy]
  exact ⟨out, by ext1 <;> simp [push, kept, out]⟩

theorem push_dropNewest_cases (q : Fifo α) (a : α) (policy : q.policy = .dropNewest) :
    q.outcome = .stored ∧ (q.push a).items = q.items ++ [a] ∨
      q.outcome = .droppedNewest ∧ (q.push a).items = q.items := by
  by_cases room : q.items.length < q.capacity
  · exact Or.inl ⟨(outcome_eq_stored_iff q).mpr room, (q.push_of_room a room).1⟩
  · have full : q.items.length = q.capacity := by
      have := q.bounded
      omega
    obtain ⟨out, kept⟩ := q.push_of_dropNewest a full policy
    exact Or.inr ⟨out, by rw [kept, noteDrop_items]⟩

/-- A drop-oldest push onto a full queue is a counted pop followed by a plain push. -/
theorem push_of_dropOldest (q : Fifo α) (a : α) (full : q.items.length = q.capacity)
    (policy : q.policy = .dropOldest) :
    q.outcome = .droppedOldest ∧ q.push a = (q.noteDrop.pop).push a := by
  have positive := q.positive
  have closed : ¬ q.items.length < q.capacity := by omega
  have out : q.outcome = .droppedOldest := by simp [outcome, closed, policy]
  have room : (q.noteDrop.pop).outcome = .stored := by
    rw [outcome_eq_stored_iff]
    simp only [pop_items, pop_capacity, noteDrop_items, noteDrop_capacity, List.length_tail]
    omega
  refine ⟨out, ?_⟩
  ext1
  · rfl
  · rfl
  · simp [push, kept, out, room]
  · simp [push, out, room]

end Fifo

/-- The history of one queue. Every item is kept with the number of its push, so that
equal items stay distinguishable; `deleted` lists the numbers of the items lost. -/
structure Ledger (α : Type) where
  queue : Fifo (α × Nat)
  pushed : List α
  popped : List (α × Nat)
  deleted : List Nat

namespace Ledger

variable {α : Type}

def empty (capacity : Nat) (policy : Fifo.Policy) (positive : 0 < capacity) : Ledger α :=
  ⟨Fifo.empty capacity policy positive, [], [], []⟩

/-- The push that the next push costs: itself, or the oldest item in the queue. -/
def victim (l : Ledger α) : List Nat :=
  match l.queue.outcome with
  | .stored => []
  | .droppedNewest => [l.pushed.length]
  | .droppedOldest => (l.queue.items.take 1).map Prod.snd

def push (l : Ledger α) (a : α) : Ledger α where
  queue := l.queue.push (a, l.pushed.length)
  pushed := l.pushed ++ [a]
  popped := l.popped
  deleted := l.deleted ++ l.victim

def pop (l : Ledger α) : Ledger α :=
  { l with queue := l.queue.pop, popped := l.popped ++ l.queue.items.take 1 }

def survivors (l : Ledger α) : List (α × Nat) :=
  l.pushed.zipIdx.filter fun x => decide (x.2 ∉ l.deleted)

structure Balanced (l : Ledger α) : Prop where
  survived : l.popped ++ l.queue.items = l.survivors
  counted : l.deleted.length = l.queue.drops
  numbered : ∀ k ∈ l.deleted, k < l.pushed.length

theorem balanced_empty (capacity : Nat) (policy : Fifo.Policy) (positive : 0 < capacity) :
    Balanced (empty capacity policy positive : Ledger α) where
  survived := by simp [empty, survivors]
  counted := rfl
  numbered := by simp [empty]

section Map

variable {β : Type} (f : α → β)

def map (l : Ledger α) : Ledger β where
  queue := l.queue.map (Prod.map f id)
  pushed := l.pushed.map f
  popped := l.popped.map (Prod.map f id)
  deleted := l.deleted

theorem map_push (l : Ledger α) (a : α) : (l.map f).push (f a) = (l.push a).map f := by
  have queue := Fifo.map_push (Prod.map f id) l.queue (a, l.pushed.length)
  have victim : (l.map f).victim = l.victim := by
    unfold Ledger.victim
    simp only [map, Fifo.map_outcome, Fifo.map_items, List.length_map]
    have numbers : Prod.snd ∘ Prod.map f id = (Prod.snd : α × Nat → Nat) := rfl
    cases l.queue.outcome <;> simp [numbers]
  simp only [push, victim]
  simp only [map, List.length_map, List.map_append, List.map_cons, List.map_nil]
  congr 1

theorem map_pop (l : Ledger α) : (l.map f).pop = (l.pop).map f := by
  simp [pop, map, Fifo.map_pop]

end Map

theorem nodup_survivors (l : Ledger α) : (l.survivors.map Prod.snd).Nodup := by
  have all : (l.pushed.zipIdx.map Prod.snd).Nodup := by
    rw [List.zipIdx_map_snd]
    exact List.nodup_range' ..
  exact all.sublist (List.filter_sublist.map _)

theorem filter_number (before after : List (α × Nat)) (x : α × Nat)
    (distinct : ((before ++ x :: after).map Prod.snd).Nodup) :
    (before ++ x :: after).filter (fun y => decide (y.2 ≠ x.2)) = before ++ after := by
  simp only [List.map_append, List.map_cons, List.nodup_append, List.nodup_cons,
    List.mem_map, List.mem_cons, forall_eq_or_imp] at distinct
  obtain ⟨-, ⟨later, -⟩, earlier⟩ := distinct
  rw [List.filter_append, List.filter_cons_of_neg (by simp)]
  congr 1
  · refine List.filter_eq_self.mpr fun y hy => ?_
    simpa using (earlier y.2 ⟨y, hy, rfl⟩).1
  · refine List.filter_eq_self.mpr fun y hy => ?_
    simpa using fun same => later ⟨y, hy, same⟩

theorem zipIdx_push (l : Ledger α) (a : α) :
    (l.push a).pushed.zipIdx = l.pushed.zipIdx ++ [(a, l.pushed.length)] := by
  simp [push, List.zipIdx_append]

theorem number_lt (l : Ledger α) (x : α × Nat) (h : x ∈ l.pushed.zipIdx) :
    x.2 < l.pushed.length := by
  have := List.mem_zipIdx h
  omega

theorem survivors_push_of_old (l : Ledger α) (a : α) (lost : List Nat)
    (h : (l.push a).deleted = l.deleted ++ lost) (old : ∀ k ∈ l.deleted ++ lost, k < l.pushed.length) :
    (l.push a).survivors =
      l.survivors.filter (fun x => decide (x.2 ∉ lost)) ++ [(a, l.pushed.length)] := by
  have fresh : l.pushed.length ∉ l.deleted ++ lost := fun mem => by
    have := old _ mem
    omega
  simp only [survivors, h, zipIdx_push, List.filter_append, List.filter_filter]
  congr 1
  · refine List.filter_congr fun x _ => ?_
    simp only [List.mem_append, not_or, Bool.decide_and]
    exact Bool.and_comm _ _
  · simp only [List.mem_append, not_or] at fresh
    simp [fresh]

theorem survivors_push_of_new (l : Ledger α) (a : α)
    (h : (l.push a).deleted = l.deleted ++ [l.pushed.length]) :
    (l.push a).survivors = l.survivors := by
  simp only [survivors, h, zipIdx_push, List.filter_append]
  rw [List.filter_cons_of_neg (by simp), List.filter_nil, List.append_nil]
  refine List.filter_congr fun x hx => ?_
  have old := number_lt l x hx
  simp only [List.mem_append, List.mem_singleton, not_or, Bool.decide_and]
  simp [show x.2 ≠ l.pushed.length by omega]

theorem Balanced.front_lt {l : Ledger α} (h : l.Balanced) {x : α × Nat} {rest : List (α × Nat)}
    (items : l.queue.items = x :: rest) : x.2 < l.pushed.length := by
  have listed : x ∈ l.survivors := by
    rw [← h.survived, items]
    simp
  exact number_lt l x (List.mem_of_mem_filter listed)

theorem front_of_not_stored (l : Ledger α) (h : l.queue.outcome ≠ .stored) :
    ∃ x rest, l.queue.items = x :: rest := by
  have positive := l.queue.positive
  have full := l.queue.full_of_not_stored h
  exact List.exists_cons_of_length_pos (by omega)

theorem victim_length (l : Ledger α) :
    l.victim.length = if l.queue.outcome = .stored then 0 else 1 := by
  unfold victim
  cases out : l.queue.outcome with
  | stored => rfl
  | droppedNewest => rfl
  | droppedOldest =>
    obtain ⟨x, rest, items⟩ := l.front_of_not_stored (by rw [out]; decide)
    simp [items]

theorem Balanced.victim_le {l : Ledger α} (h : l.Balanced) :
    ∀ k ∈ l.victim, k ≤ l.pushed.length := by
  intro k hk
  unfold victim at hk
  cases out : l.queue.outcome with
  | stored => simp [out] at hk
  | droppedNewest =>
    obtain rfl : k = l.pushed.length := by simpa [out] using hk
    exact Nat.le_refl _
  | droppedOldest =>
    obtain ⟨x, rest, items⟩ := l.front_of_not_stored (by rw [out]; decide)
    obtain rfl : k = x.2 := by simpa [out, items] using hk
    exact Nat.le_of_lt (h.front_lt items)

theorem Balanced.survived_push {l : Ledger α} (h : l.Balanced) (a : α) :
    (l.push a).popped ++ (l.push a).queue.items = (l.push a).survivors := by
  cases out : l.queue.outcome with
  | stored =>
    have none_lost : (l.push a).deleted = l.deleted ++ [] := by simp [Ledger.push, victim, out]
    rw [survivors_push_of_old l a [] none_lost (by simpa using h.numbered), ← h.survived]
    simp [Ledger.push, Fifo.push, Fifo.kept, out]
  | droppedNewest =>
    rw [survivors_push_of_new l a (by simp [Ledger.push, victim, out]), ← h.survived]
    simp [Ledger.push, Fifo.push, Fifo.kept, out]
  | droppedOldest =>
    obtain ⟨x, rest, items⟩ := l.front_of_not_stored (by rw [out]; decide)
    have lost : (l.push a).deleted = l.deleted ++ [x.2] := by
      simp [Ledger.push, victim, out, items]
    have old : ∀ k ∈ l.deleted ++ [x.2], k < l.pushed.length := by
      intro k hk
      rw [List.mem_append, List.mem_singleton] at hk
      rcases hk with earlier | rfl
      · exact h.numbered k earlier
      · exact h.front_lt items
    have distinct := nodup_survivors l
    rw [← h.survived, items] at distinct
    rw [survivors_push_of_old l a [x.2] lost old, ← h.survived, items]
    simp only [List.mem_singleton]
    rw [filter_number _ _ _ distinct]
    simp [Ledger.push, Fifo.push, Fifo.kept, out, items]

theorem Balanced.push {l : Ledger α} (h : l.Balanced) (a : α) : (l.push a).Balanced where
  survived := h.survived_push a
  counted := by
    rw [Ledger.push, List.length_append, h.counted, l.victim_length]
    rfl
  numbered k hk := by
    rw [Ledger.push, List.mem_append] at hk
    rw [Ledger.push, List.length_append, List.length_singleton, Nat.lt_succ_iff]
    rcases hk with old | lost
    · exact Nat.le_of_lt (h.numbered k old)
    · exact h.victim_le k lost

theorem Balanced.pop {l : Ledger α} (h : l.Balanced) : l.pop.Balanced where
  survived := by
    have split := List.take_append_drop 1 l.queue.items
    rw [List.drop_one] at split
    have same : l.pop.survivors = l.survivors := rfl
    rw [same, ← h.survived]
    conv_rhs => rw [← split]
    simp [Ledger.pop]
  counted := h.counted
  numbered := h.numbered

def Complete (l : Ledger α) : Prop :=
  l.pushed.length = l.popped.length + l.queue.items.length + l.deleted.length

theorem complete_empty (capacity : Nat) (policy : Fifo.Policy) (positive : 0 < capacity) :
    Complete (empty capacity policy positive : Ledger α) := rfl

theorem Complete.push {l : Ledger α} (h : l.Complete) (a : α) : (l.push a).Complete := by
  have positive := l.queue.positive
  unfold Complete at h ⊢
  cases out : l.queue.outcome with
  | stored =>
    simp only [Ledger.push, victim, out, Fifo.push_items, Fifo.kept, List.length_append,
      List.length_singleton, List.append_nil]
    omega
  | droppedNewest =>
    simp only [Ledger.push, victim, out, Fifo.push_items, Fifo.kept, List.length_append,
      List.length_singleton]
    omega
  | droppedOldest =>
    obtain ⟨x, rest, items⟩ := l.front_of_not_stored (by rw [out]; decide)
    rw [items, List.length_cons] at h
    simp only [Ledger.push, victim, out, items, Fifo.push_items, Fifo.kept, List.length_append,
      List.length_singleton, List.tail_cons, List.take_succ_cons, List.take_zero, List.map_cons,
      List.map_nil]
    omega

theorem Complete.pop {l : Ledger α} (h : l.Complete) : l.pop.Complete := by
  unfold Complete at h ⊢
  simp only [Ledger.pop, Fifo.pop_items, List.length_append, List.length_take, List.length_tail]
  omega

def Recent (l : Ledger α) : Prop :=
  l.queue.items = l.pushed.zipIdx.drop (l.pushed.length - l.queue.items.length)

theorem recent_empty (capacity : Nat) (policy : Fifo.Policy) (positive : 0 < capacity) :
    Recent (empty capacity policy positive : Ledger α) := rfl

theorem tail_eq_drop (items all : List (α × Nat)) (n : Nat)
    (last : items = all.drop (n - items.length)) (le : items.length ≤ n) (size : all.length = n) :
    items.tail = all.drop (n - items.tail.length) := by
  rcases items with _ | ⟨x, rest⟩
  · rw [List.tail_nil, List.length_nil, Nat.sub_zero, ← size, List.drop_length]
  · rw [List.length_cons] at last le
    have next : n - (x :: rest).tail.length = n - (rest.length + 1) + 1 := by
      rw [List.tail_cons]
      omega
    rw [next, ← List.drop_drop, ← last, List.drop_one]

theorem Recent.front {l : Ledger α} (h : l.Recent) {x : α × Nat} {rest : List (α × Nat)}
    (items : l.queue.items = x :: rest) : x.2 = l.pushed.length - l.queue.items.length := by
  have first := congrArg List.head? h
  rw [items, List.head?_cons, List.head?_drop, List.getElem?_zipIdx, ← items] at first
  obtain ⟨a, -, same⟩ := Option.map_eq_some_iff.mp first.symm
  rw [← same, Nat.zero_add]

theorem Recent.pop {l : Ledger α} (h : l.Recent) (complete : l.Complete) : l.pop.Recent := by
  unfold Complete at complete
  exact tail_eq_drop l.queue.items l.pushed.zipIdx l.pushed.length h (by omega) (by simp)

theorem Recent.push {l : Ledger α} (h : l.Recent) (complete : l.Complete) (a : α)
    (stores : l.queue.outcome ≠ .droppedNewest) : (l.push a).Recent := by
  have positive := l.queue.positive
  unfold Complete at complete
  have size : (l.push a).pushed.length = l.pushed.length + 1 := by simp [Ledger.push]
  unfold Recent
  rw [zipIdx_push, size]
  cases out : l.queue.outcome with
  | stored =>
    have items : (l.push a).queue.items = l.queue.items ++ [(a, l.pushed.length)] := by
      simp [Ledger.push, Fifo.push, Fifo.kept, out]
    rw [items, List.length_append, List.length_singleton, Nat.add_sub_add_right,
      List.drop_append_of_le_length (by simp), ← h]
  | droppedNewest => exact absurd out stores
  | droppedOldest =>
    have items : (l.push a).queue.items = l.queue.items.tail ++ [(a, l.pushed.length)] := by
      simp [Ledger.push, Fifo.push, Fifo.kept, out]
    have rest := tail_eq_drop l.queue.items l.pushed.zipIdx l.pushed.length h (by omega) (by simp)
    rw [items, List.length_append, List.length_singleton, Nat.add_sub_add_right,
      List.drop_append_of_le_length (by simp), ← rest]

/-- Only a push that is `capacity` pushes back is ever dropped. -/
def Overtaken (l : Ledger α) : Prop := ∀ k ∈ l.deleted, k + l.queue.capacity < l.pushed.length

theorem overtaken_empty (capacity : Nat) (policy : Fifo.Policy) (positive : 0 < capacity) :
    Overtaken (empty capacity policy positive : Ledger α) := fun k mem => by cases mem

theorem Overtaken.push {l : Ledger α} (h : l.Overtaken) (recent : l.Recent)
    (complete : l.Complete) (a : α) (stores : l.queue.outcome ≠ .droppedNewest) :
    (l.push a).Overtaken := by
  intro k mem
  rw [Ledger.push, List.mem_append] at mem
  rw [Ledger.push, List.length_append, List.length_singleton, Fifo.push_capacity]
  rcases mem with old | lost
  · have before := h k old
    omega
  · unfold Complete at complete
    unfold victim at lost
    cases out : l.queue.outcome with
    | stored => simp [out] at lost
    | droppedNewest => exact absurd out stores
    | droppedOldest =>
      have dropped : l.queue.outcome ≠ .stored := by
        rw [out]
        decide
      obtain ⟨x, rest, items⟩ := l.front_of_not_stored dropped
      obtain rfl : k = x.2 := by simpa [out, items] using lost
      have full := l.queue.full_of_not_stored dropped
      have oldest := recent.front items
      omega

structure Sound (policy : Fifo.Policy) (l : Ledger α) : Prop where
  balanced : l.Balanced
  complete : l.Complete
  kind : l.queue.policy = policy
  recent : policy = .dropOldest → l.Recent
  overtaken : policy = .dropOldest → l.Overtaken

theorem sound_empty (capacity : Nat) (policy : Fifo.Policy) (positive : 0 < capacity) :
    Sound policy (empty capacity policy positive : Ledger α) :=
  ⟨balanced_empty capacity policy positive, complete_empty capacity policy positive, rfl,
    fun _ => recent_empty capacity policy positive,
    fun _ => overtaken_empty capacity policy positive⟩

theorem Sound.push {l : Ledger α} {policy : Fifo.Policy} (h : l.Sound policy) (a : α) :
    (l.push a).Sound policy := by
  have stores : policy = .dropOldest → l.queue.outcome ≠ .droppedNewest := fun oldest =>
    l.queue.outcome_of_dropOldest (h.kind.trans oldest)
  exact ⟨h.balanced.push a, h.complete.push a, h.kind,
    fun oldest => (h.recent oldest).push h.complete a (stores oldest),
    fun oldest => (h.overtaken oldest).push (h.recent oldest) h.complete a (stores oldest)⟩

theorem Sound.pop {l : Ledger α} {policy : Fifo.Policy} (h : l.Sound policy) :
    l.pop.Sound policy :=
  ⟨h.balanced.pop, h.complete.pop, h.kind, fun oldest => (h.recent oldest).pop h.complete,
    h.overtaken⟩

section Soon

variable {l : Ledger α} {x : α × Nat} {n : Nat}

/-- The push `x` leaves the queue with the next `n` pops, if it is there at all. -/
structure Soon (l : Ledger α) (n : Nat) (x : α × Nat) : Prop where
  offered : x ∈ l.pushed.zipIdx
  front : x ∈ l.queue.items → x ∈ l.queue.items.take n

theorem Soon.mono (h : l.Soon n x) {m : Nat} (le : n ≤ m) : l.Soon m x where
  offered := h.offered
  front mem := (List.take_subset_take_left _ le) (h.front mem)

theorem Soon.of_not_mem (offered : x ∈ l.pushed.zipIdx) (out : x ∉ l.queue.items) : l.Soon 0 x where
  offered := offered
  front mem := absurd mem out

theorem Soon.gone (h : l.Soon 0 x) : x ∉ l.queue.items := fun mem => by
  have front := h.front mem
  rw [List.take_zero] at front
  cases front

theorem Balanced.items_nodup (h : l.Balanced) : l.queue.items.Nodup := by
  have distinct := nodup_survivors l
  rw [← h.survived, List.map_append] at distinct
  exact (List.nodup_append.mp distinct).2.1.of_map

theorem mem_take_tail (items : List (α × Nat)) (distinct : items.Nodup) (later : x ∈ items.tail)
    (front : x ∈ items.take (n + 1)) : x ∈ items.tail.take n := by
  cases items with
  | nil => cases later
  | cons y rest =>
    rw [List.tail_cons] at later ⊢
    rw [List.take_succ_cons, List.mem_cons] at front
    have apart : x ≠ y := fun same => (List.nodup_cons.mp distinct).1 (same ▸ later)
    exact front.resolve_left apart

theorem Soon.pop (h : l.Soon n x) (balanced : l.Balanced) : l.pop.Soon (n - 1) x where
  offered := h.offered
  front mem := by
    have front := h.front (List.mem_of_mem_tail mem)
    cases n with
    | zero => cases front
    | succ n => exact mem_take_tail _ balanced.items_nodup mem front

theorem Soon.push (h : l.Soon n x) (balanced : l.Balanced) (a : α) : (l.push a).Soon n x where
  offered := by
    rw [zipIdx_push]
    exact List.mem_append_left _ h.offered
  front mem := by
    have old : x ≠ (a, l.pushed.length) := by
      rintro rfl
      exact absurd (number_lt l _ h.offered) (Nat.lt_irrefl _)
    have further : ∀ items : List (α × Nat),
        x ∈ items.take n → x ∈ (items ++ [(a, l.pushed.length)]).take n := fun items mem => by
      rw [List.take_append]
      exact List.mem_append_left _ mem
    have items : (l.push a).queue.items = l.queue.kept (a, l.pushed.length) := rfl
    rw [items] at mem ⊢
    unfold Fifo.kept at mem ⊢
    cases out : l.queue.outcome with
    | stored =>
      simp only [out, List.mem_append, List.mem_singleton, old, or_false] at mem ⊢
      exact further _ (h.front mem)
    | droppedNewest =>
      simp only [out] at mem ⊢
      exact h.front mem
    | droppedOldest =>
      simp only [out, List.mem_append, List.mem_singleton, old, or_false] at mem ⊢
      have front := h.front (List.mem_of_mem_tail mem)
      cases n with
      | zero => cases front
      | succ n =>
        have sooner := mem_take_tail _ balanced.items_nodup mem front
        exact further _ (List.take_subset_take_left _ (Nat.le_succ n) sooner)

theorem Balanced.lost_or_popped (h : l.Balanced) (offered : x ∈ l.pushed.zipIdx)
    (out : x ∉ l.queue.items) : x.2 ∈ l.deleted ∨ x ∈ l.popped := by
  by_cases lost : x.2 ∈ l.deleted
  · exact Or.inl lost
  · have survivor : x ∈ l.survivors := List.mem_filter.mpr ⟨offered, decide_eq_true lost⟩
    rw [← h.survived, List.mem_append] at survivor
    exact Or.inr (survivor.resolve_right out)

/-- A queue that drops the newest loses no push that it holds. -/
structure Safe (l : Ledger α) (x : α × Nat) : Prop where
  offered : x ∈ l.pushed.zipIdx
  spared : x.2 ∉ l.deleted
  policy : l.queue.policy = .dropNewest

theorem Safe.push (h : l.Safe x) (a : α) : (l.push a).Safe x where
  offered := by
    rw [zipIdx_push]
    exact List.mem_append_left _ h.offered
  spared lost := by
    rw [Ledger.push, List.mem_append] at lost
    have victim := lost.resolve_left h.spared
    unfold Ledger.victim at victim
    cases out : l.queue.outcome with
    | stored => simp [out] at victim
    | droppedNewest =>
      have new : x.2 = l.pushed.length := by simpa [out] using victim
      exact absurd (number_lt l x h.offered) (by omega)
    | droppedOldest => exact absurd out (l.queue.outcome_of_dropNewest h.policy)
  policy := h.policy

theorem Safe.pop (h : l.Safe x) : l.pop.Safe x := ⟨h.offered, h.spared, h.policy⟩

end Soon

end Ledger

end SchedulerLib.Lib
