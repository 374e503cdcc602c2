import SchedulerLib.IsrBuffer.RingRefinement

/-!
Everything that ever happened to a ring. The log keeps what the callers see, the items and
the answers, and from it which of the pushed items are gone; the ring holds the rest.
-/

namespace SchedulerLib.IsrBuffer

open Lib

variable {w : Nat}

/-- Since the init or the last reset: the items pushed with the statuses returned, the
items popped, and the numbers of the pushed items that were dropped. -/
structure RingLog (w : Nat) where
  ring : SchSpscRing w
  pushed : List (List Byte × SchRingPushStatus)
  popped : List (List Byte)
  dropped : List Nat

namespace RingLog

def start (ring : SchSpscRing w) : RingLog w := ⟨ring, [], [], []⟩

/-- The number of the item that a push with this status costs: its own, or that of the
oldest item buffered, which is `size` items before it. -/
def cost (log : RingLog w) : SchRingPushStatus → List Nat
  | .ok => []
  | .droppedNewest => [log.pushed.length]
  | .droppedOldest => [log.pushed.length - log.ring.size.toNat]

def call (log : RingLog w) : RingCall → RingLog w
  | .push item =>
    let r := log.ring.pushIsr (some item)
    { ring := r.2
      pushed := log.pushed ++ [(item, r.1)]
      popped := log.popped
      dropped := log.dropped ++ log.cost r.1 }
  | .pop =>
    let r := log.ring.popTask
    { log with ring := r.2, popped := log.popped ++ r.1.toList }
  | .reset => start log.ring.reset

def losses (log : RingLog w) : Nat := log.pushed.countP fun x => decide (x.2 ≠ .ok)

def pushesWith (log : RingLog w) (status : SchRingPushStatus) : List Nat :=
  ((log.pushed.map Prod.snd).zipIdx.filter fun x => decide (x.1 = status)).map Prod.snd

def survivors (log : RingLog w) : List (List Byte) :=
  ((log.pushed.map Prod.fst).zipIdx.filter fun x => decide (x.2 ∉ log.dropped)).map Prod.fst

structure Records (elementSize : Nat) (policy : Fifo.Policy) (log : RingLog w)
    (l : Ledger (List Byte)) : Prop where
  refines : Refines log.ring (l.queue.map Prod.fst)
  size : log.ring.elementSize.toNat = elementSize
  policy : l.queue.policy = policy
  pushed : log.pushed.map Prod.fst = l.pushed
  popped : log.popped = l.popped.map Prod.fst
  dropped : log.dropped = l.deleted
  losses : log.losses = l.deleted.length
  balanced : l.Balanced
  complete : l.Complete

section Call

variable {elementSize : Nat} {policy : Fifo.Policy} {log : RingLog w} {l : Ledger (List Byte)}

theorem Records.length (h : Records elementSize policy log l) :
    log.pushed.length = l.pushed.length := by
  rw [← h.pushed, List.length_map]

theorem Records.size_toNat (h : Records elementSize policy log l) :
    log.ring.size.toNat = l.queue.items.length := by
  rw [h.refines.size_toNat, Fifo.map_items, List.length_map]

theorem Records.status (h : Records elementSize policy log l) (item : List Byte)
    (fits : item.length = elementSize) :
    (log.ring.pushIsr (some item)).1 = statusOf l.queue.outcome := by
  have pushed := (h.refines.push item (by rw [fits, h.size])).1
  rwa [Fifo.map_outcome] at pushed

theorem Records.cost_eq (h : Records elementSize policy log l)
    (recent : policy = .dropOldest → l.Recent) :
    log.cost (statusOf l.queue.outcome) = l.victim := by
  unfold Ledger.victim
  cases out : l.queue.outcome with
  | stored => rfl
  | droppedNewest => rw [statusOf, cost, h.length]
  | droppedOldest =>
    have oldest : policy = .dropOldest := by
      cases policy with
      | dropNewest => exact absurd out (l.queue.outcome_of_dropNewest h.policy)
      | dropOldest => rfl
    obtain ⟨x, rest, items⟩ := l.front_of_not_stored (by rw [out]; decide)
    rw [statusOf, cost, h.length, h.size_toNat, ← (recent oldest).front items, items]
    rfl

theorem Records.push (h : Records elementSize policy log l)
    (recent : policy = .dropOldest → l.Recent) (item : List Byte)
    (fits : item.length = elementSize) :
    Records elementSize policy (log.call (.push item)) (l.push item) := by
  have status := h.status item fits
  have next := (h.refines.push item (by rw [fits, h.size])).2
  have lost := h.cost_eq recent
  rw [← status] at lost
  refine
    { refines := ?_, size := ?_, policy := h.policy, pushed := ?_, popped := h.popped
      dropped := ?_, losses := ?_, balanced := h.balanced.push item
      complete := h.complete.push item }
  · rwa [show item = Prod.fst (item, l.pushed.length) from rfl, Fifo.map_push] at next
  · rw [call, SchSpscRing.pushIsr_elementSize, h.size]
  · rw [call, List.map_append, h.pushed]
    rfl
  · rw [call, lost, h.dropped]
    rfl
  · have counted := h.losses
    rw [RingLog.losses] at counted ⊢
    rw [call, Ledger.push, List.countP_append, counted, List.length_append, l.victim_length,
      status]
    cases l.queue.outcome <;> rfl

theorem Records.pop (h : Records elementSize policy log l) :
    Records elementSize policy (log.call .pop) l.pop := by
  obtain ⟨front, next⟩ := h.refines.pop
  refine
    { refines := ?_, size := ?_, policy := h.policy, pushed := h.pushed, popped := ?_
      dropped := h.dropped, losses := h.losses, balanced := h.balanced.pop
      complete := h.complete.pop }
  · rwa [Fifo.map_pop] at next
  · rw [call, SchSpscRing.popTask_elementSize, h.size]
  · rw [call, front, h.popped, Ledger.pop, List.map_append, Fifo.map_items]
    cases l.queue.items <;> rfl

theorem Records.reset (h : Records elementSize policy log l) :
    Records elementSize policy (log.call .reset)
      (Ledger.empty l.queue.capacity l.queue.policy l.queue.positive) where
  refines := h.refines.reset
  size := by rw [call, start, SchSpscRing.reset_elementSize, h.size]
  policy := h.policy
  pushed := rfl
  popped := rfl
  dropped := rfl
  losses := rfl
  balanced := Ledger.balanced_empty _ _ _
  complete := Ledger.complete_empty _ _ _

theorem pushesWith_push (log : RingLog w) (item : List Byte) (status : SchRingPushStatus) :
    (log.call (.push item)).pushesWith status = log.pushesWith status ++
      if (log.ring.pushIsr (some item)).1 = status then [log.pushed.length] else [] := by
  simp only [pushesWith, call, List.map_append, List.map_cons, List.map_nil, List.zipIdx_append,
    List.zipIdx_cons, List.zipIdx_nil, List.filter_append, List.length_map, Nat.zero_add]
  split_ifs with same
  · simp [same]
  · simp [same]

/-- Which pushes lost an item, by policy. -/
structure Blames (policy : Fifo.Policy) (log : RingLog w) : Prop where
  dropNewest : policy = .dropNewest → log.dropped = log.pushesWith .droppedNewest
  dropOldest : policy = .dropOldest → log.pushesWith .droppedNewest = []

theorem Records.blames_push (h : Records elementSize policy log l) (blames : Blames policy log)
    (item : List Byte) (fits : item.length = elementSize) :
    Blames policy (log.call (.push item)) where
  dropNewest newest := by
    have kind := l.queue.outcome_of_dropNewest (h.policy.trans newest)
    have before := blames.dropNewest newest
    rw [pushesWith_push, ← before, h.status item fits, call, h.status item fits]
    cases out : l.queue.outcome with
    | stored => rfl
    | droppedNewest => rfl
    | droppedOldest => exact absurd out kind
  dropOldest oldest := by
    have kind := l.queue.outcome_of_dropOldest (h.policy.trans oldest)
    rw [pushesWith_push, blames.dropOldest oldest, h.status item fits]
    cases out : l.queue.outcome with
    | stored => rfl
    | droppedNewest => exact absurd out kind
    | droppedOldest => rfl

end Call

section Account

variable {elementSize : Nat} {policy : Fifo.Policy} {log : RingLog w}

/-- The account of a ring since its init or last reset. -/
structure Accounts (elementSize : Nat) (policy : Fifo.Policy) (log : RingLog w) : Prop where
  survived : log.popped ++ log.ring.blocks = log.survivors
  blames : Blames policy log
  newest : policy = .dropOldest → ∀ item : List Byte, item.length = elementSize →
    (log.call (.push item)).ring.blocks.getLast? = some item
  recent : policy = .dropOldest →
    log.ring.blocks = (log.pushed.map Prod.fst).drop (log.pushed.length - log.ring.size.toNat)
  oldest : policy = .dropOldest → log.ring.blocks.head? =
    (log.pushed.map Prod.fst)[log.pushed.length - log.ring.size.toNat]?
  drops : log.ring.dropCount = BitVec.ofNat w log.losses
  balance : log.pushed.length = log.popped.length + log.ring.size.toNat + log.losses

def Kept (elementSize : Nat) (policy : Fifo.Policy) (log : RingLog w) : Prop :=
  ∃ l, Records elementSize policy log l ∧ (policy = .dropOldest → l.Recent) ∧ Blames policy log

theorem Kept.call (h : Kept elementSize policy log) (c : RingCall)
    (fits : ∀ item, c = .push item → item.length = elementSize) :
    Kept elementSize policy (log.call c) := by
  obtain ⟨l, records, recent, blames⟩ := h
  cases c with
  | push item =>
    refine ⟨l.push item, records.push recent item (fits item rfl), fun oldest => ?_,
      records.blames_push blames item (fits item rfl)⟩
    exact (recent oldest).push records.complete item
      (l.queue.outcome_of_dropOldest (records.policy.trans oldest))
  | pop =>
    exact ⟨l.pop, records.pop, fun oldest => (recent oldest).pop records.complete,
      blames.dropNewest, blames.dropOldest⟩
  | reset =>
    exact ⟨_, records.reset, fun _ => Ledger.recent_empty _ _ _, fun _ => rfl, fun _ => rfl⟩

theorem Kept.calls (h : Kept elementSize policy log) (calls : List RingCall)
    (fits : ∀ item, .push item ∈ calls → item.length = elementSize) :
    Kept elementSize policy (calls.foldl RingLog.call log) := by
  induction calls generalizing log with
  | nil => exact h
  | cons c rest ih =>
    refine ih (h.call c fun item same => fits item (same ▸ List.mem_cons_self)) ?_
    exact fun item mem => fits item (List.mem_cons_of_mem _ mem)

theorem Kept.accounts (h : Kept elementSize policy log) : Accounts elementSize policy log := by
  obtain ⟨l, records, recent, blames⟩ := h
  have blocks : log.ring.blocks = l.queue.items.map Prod.fst := records.refines.blocks
  have latest : policy = .dropOldest → log.ring.blocks =
      (log.pushed.map Prod.fst).drop (log.pushed.length - log.ring.size.toNat) := by
    intro oldest
    rw [blocks, recent oldest, List.map_drop, List.zipIdx_map_fst, records.pushed, records.length,
      records.size_toNat]
  refine
    { survived := ?_, blames := blames, newest := fun oldest item fits => ?_
      recent := latest, oldest := fun oldest => ?_, drops := ?_, balance := ?_ }
  · rw [records.popped, blocks, ← List.map_append, records.balanced.survived, Ledger.survivors,
      survivors, records.pushed, records.dropped]
  · have next := (records.push recent item fits).refines.blocks
    rw [next, Fifo.map_items, Ledger.push, Fifo.push_items, Fifo.kept]
    cases out : l.queue.outcome with
    | droppedNewest =>
      exact absurd out (l.queue.outcome_of_dropOldest (records.policy.trans oldest))
    | _ => simp
  · rw [latest oldest, List.head?_drop]
  · rw [records.refines.dropCount_eq, records.losses, Fifo.map_drops, records.balanced.counted]
  · rw [records.length, records.popped, List.length_map, records.size_toNat, records.losses]
    exact records.complete

end Account

end RingLog

/-- At every moment the items popped, then those buffered, are the items pushed since the
init or the last reset without the ones that the overflow policy took. -/
theorem ring_history_accounts (ring : SchSpscRing w) (memory : List Byte)
    (capacity elementSize : BitVec w) (policy : Fifo.Policy) (calls : List RingCall)
    (positive : 0 < capacity.toNat) (element : 0 < elementSize.toNat)
    (length : memory.length = capacity.toNat * elementSize.toNat) (fits : memory.length < 2 ^ w)
    (items : ∀ item, .push item ∈ calls → item.length = elementSize.toNat) :
    let made := ring.init (some memory) capacity elementSize (modeOf policy)
    made.1 = true ∧
      RingLog.Accounts elementSize.toNat policy
        (calls.foldl RingLog.call (RingLog.start made.2)) := by
  intro made
  obtain ⟨ok, refines⟩ := init_refines ring memory capacity elementSize policy positive element
    length fits
  have size : made.2.elementSize = elementSize := by
    have hc : capacity ≠ 0#w := fun zero => by simp [zero] at positive
    have he : elementSize ≠ 0#w := fun zero => by simp [zero] at element
    cases policy <;> simp [made, SchSpscRing.init, hc, he, modeOf]
  have start : RingLog.Records elementSize.toNat policy (RingLog.start made.2)
      (Ledger.empty capacity.toNat policy positive) :=
    ⟨refines, congrArg BitVec.toNat size, rfl, rfl, rfl, rfl, rfl,
      Ledger.balanced_empty _ _ _, Ledger.complete_empty _ _ _⟩
  have kept : RingLog.Kept elementSize.toNat policy (RingLog.start made.2) :=
    ⟨_, start, fun _ => Ledger.recent_empty _ _ _, fun _ => rfl, fun _ => rfl⟩
  exact ⟨ok, (kept.calls calls items).accounts⟩

theorem ring_history_accounts_two_bytes :
    let made := (⟨none, 0, 0, 0, 0, 0, 0, .other 7⟩ : SchSpscRing 16).init (some [0, 0]) 2 1
      (modeOf .dropOldest)
    let log := [RingCall.push [5], .push [6], .push [7], .pop, .push [8], .push [9]].foldl
      RingLog.call (RingLog.start made.2)
    log.dropped = [0, 2] ∧ log.popped = [[6]] ∧ log.popped ++ log.ring.blocks = log.survivors := by
  intro made log
  obtain ⟨-, accounts⟩ := ring_history_accounts
    (⟨none, 0, 0, 0, 0, 0, 0, .other 7⟩ : SchSpscRing 16) [0, 0] 2 1 .dropOldest
    [.push [5], .push [6], .push [7], .pop, .push [8], .push [9]] (by decide) (by decide)
    (by decide) (by decide) (by simp)
  exact ⟨by decide, by decide, accounts.survived⟩

end SchedulerLib.IsrBuffer
