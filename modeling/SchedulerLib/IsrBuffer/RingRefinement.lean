import SchedulerLib.IsrBuffer.Ring
import SchedulerLib.Lib.Fifo

/-!
The byte ring is a bounded queue of byte blocks. `Refines` ties a ring to the queue it
represents; every operation of the ring keeps the tie to the same operation of the queue.
-/

namespace SchedulerLib.IsrBuffer

open Lib

def modeOf : Fifo.Policy → SchOverflowMode
  | .dropNewest => .dropNewest
  | .dropOldest => .dropOldest

def statusOf : Fifo.Outcome → SchRingPushStatus
  | .stored => .ok
  | .droppedNewest => .droppedNewest
  | .droppedOldest => .droppedOldest

def fifoCall (q : Fifo (List Byte)) : RingCall → RingReply × Fifo (List Byte)
  | .push item => (.pushed (statusOf q.outcome), q.push item)
  | .pop => (.popped q.items.head?, q.pop)
  | .reset => (.reset, q.reset)

def fifoCalls : Fifo (List Byte) → List RingCall → List RingReply × Fifo (List Byte)
  | q, [] => ([], q)
  | q, c :: rest =>
    let r := fifoCall q c
    let later := fifoCalls r.2 rest
    (r.1 :: later.1, later.2)

variable {w : Nat}

structure Refines (ring : SchSpscRing w) (q : Fifo (List Byte)) : Prop where
  storage : ring.storage.isSome
  length : ring.bytes.length = ring.capacity.toNat * ring.elementSize.toNat
  fits : ring.capacity.toNat * ring.elementSize.toNat < 2 ^ w
  element : 0 < ring.elementSize.toNat
  capacity : ring.capacity.toNat = q.capacity
  overflow : ring.overflow = modeOf q.policy
  tail : ring.tail.toNat < q.capacity
  head : ring.head.toNat = (ring.tail.toNat + ring.count.toNat) % q.capacity
  count : ring.count.toNat = q.items.length
  blocks : ring.blocks = q.items
  drops : ring.drops = BitVec.ofNat w q.drops

namespace Refines

variable {ring : SchSpscRing w} {q : Fifo (List Byte)}

theorem valid (h : Refines ring q) : ring.valid = true := by
  have positive : 0#w < ring.capacity := by
    rw [BitVec.lt_def, h.capacity]
    exact q.positive
  have element : 0#w < ring.elementSize := by
    rw [BitVec.lt_def]
    exact h.element
  have mode : ring.overflow = .dropNewest ∨ ring.overflow = .dropOldest := by
    rw [h.overflow]
    cases q.policy <;> simp [modeOf]
  simp [SchSpscRing.valid, h.storage, positive, element, mode]

theorem capacity_lt (h : Refines ring q) : q.capacity < 2 ^ w := by
  have fits := h.fits
  rw [h.capacity] at fits
  exact lt_of_le_of_lt (Nat.le_mul_of_pos_right _ h.element) fits

theorem head_lt (h : Refines ring q) : ring.head.toNat < q.capacity := by
  rw [h.head]
  exact Nat.mod_lt _ q.positive

theorem count_le (h : Refines ring q) : ring.count.toNat ≤ q.capacity := by
  rw [h.count]
  exact q.bounded

theorem succ_toNat (h : Refines ring q) (i : BitVec w) (hi : i.toNat < q.capacity) :
    (i + 1#w).toNat = i.toNat + 1 := by
  have bound := h.capacity_lt
  have one : (1#w).toNat = 1 := by
    rw [BitVec.toNat_one]
    by_contra zero
    have : w = 0 := by omega
    subst this
    have := q.positive
    omega
  rw [BitVec.toNat_add, one, Nat.mod_eq_of_lt (by omega)]

theorem step_toNat (h : Refines ring q) (i : BitVec w) (hi : i.toNat < q.capacity) :
    ((i + 1#w) % ring.capacity).toNat = (i.toNat + 1) % q.capacity := by
  rw [BitVec.toNat_umod, h.succ_toNat i hi, h.capacity]

theorem offset_toNat (h : Refines ring q) (i : BitVec w) (hi : i.toNat < q.capacity) :
    (ring.offset i).toNat = i.toNat * ring.elementSize.toNat := by
  have inside := slot_end_le ring.elementSize.toNat hi
  have fits := h.fits
  rw [h.capacity] at fits
  rw [SchSpscRing.offset, BitVec.toNat_mul, Nat.mod_eq_of_lt (by omega)]

theorem pred_toNat (h : Refines ring q) (nonempty : 0 < q.items.length) :
    (ring.count - 1#w).toNat = q.items.length - 1 := by
  have bound := h.capacity_lt
  have room := q.bounded
  have one : (1#w).toNat = 1 := by
    have up := h.succ_toNat 0#w (by simpa using q.positive)
    simpa using up
  rw [BitVec.toNat_sub_of_le (by rw [BitVec.le_def, h.count, one]; omega), h.count, one]

theorem window_eq (h : Refines ring q) :
    window (slot ring.bytes ring.elementSize.toNat) q.capacity ring.tail.toNat q.items.length =
      q.items := by
  have same := h.blocks
  rwa [SchSpscRing.blocks, h.capacity, h.count] at same

theorem front (h : Refines ring q) (nonempty : 0 < q.items.length) :
    q.items.head? = some (slot ring.bytes ring.elementSize.toNat ring.tail.toNat) ∧
      window (slot ring.bytes ring.elementSize.toNat) q.capacity
        ((ring.tail.toNat + 1) % q.capacity) (q.items.length - 1) = q.items.tail := by
  have same := h.window_eq
  have split : q.items.length = q.items.length - 1 + 1 := by omega
  rw [split, window_succ_first, Nat.mod_eq_of_lt h.tail] at same
  rw [← same]
  simp

theorem countDrop (h : Refines ring q) : Refines ring.countDrop q.noteDrop :=
  { h with
    drops := by
      simp only [SchSpscRing.countDrop, Fifo.noteDrop_drops, h.drops, BitVec.ofNat_add] }

theorem dropOldest (h : Refines ring q) (nonempty : 0 < q.items.length) :
    Refines ring.dropOldest q.pop :=
  { h with
    tail := by
      simp only [SchSpscRing.dropOldest, h.step_toNat _ h.tail]
      exact Nat.mod_lt _ q.positive
    head := by
      simp only [SchSpscRing.dropOldest, h.step_toNat _ h.tail, h.pred_toNat nonempty, h.head,
        h.count, Fifo.pop_capacity, Nat.mod_add_mod]
      congr 1
      omega
    count := by
      rw [SchSpscRing.dropOldest, h.pred_toNat nonempty]
      simp
    blocks := by
      have rest := (h.front nonempty).2
      simp only [SchSpscRing.blocks, SchSpscRing.dropOldest, h.step_toNat _ h.tail,
        h.pred_toNat nonempty, h.capacity]
      exact rest }

theorem store (h : Refines ring q) (room : q.items.length < q.capacity) (block : List Byte)
    (size : block.length = ring.elementSize.toNat) : Refines (ring.store block) (q.push block) := by
  obtain ⟨items, drops⟩ := q.push_of_room block room
  obtain ⟨memory, stored⟩ := Option.isSome_iff_exists.mp h.storage
  have bytes : ring.bytes = memory := by simp [SchSpscRing.bytes, stored]
  have whole : block.take ring.elementSize.toNat = block := List.take_of_length_le (by omega)
  have after : (ring.store block).bytes =
      Bytes.write ring.bytes (ring.head.toNat * ring.elementSize.toNat) block := by
    simp [SchSpscRing.store, SchSpscRing.bytes, stored, whole, h.offset_toNat _ h.head_lt]
  have length := h.length
  rw [h.capacity] at length
  have inside := slot_end_le ring.elementSize.toNat h.head_lt
  have countUp : (ring.count + 1#w).toNat = q.items.length + 1 := by
    rw [h.succ_toNat _ (by rw [h.count]; exact room), h.count]
  refine { h with storage := ?_, length := ?_, head := ?_, count := ?_, blocks := ?_, drops := ?_ }
  · simp [SchSpscRing.store, h.storage]
  · rw [after, Bytes.write_length _ _ _ (by omega)]
    exact h.length
  · simp only [SchSpscRing.store, h.step_toNat _ h.head_lt, countUp, h.head, h.count,
      Fifo.push_capacity, Nat.mod_add_mod]
    congr 1
  · simp only [SchSpscRing.store, countUp, items, List.length_append, List.length_singleton]
  · have slots : ∀ i < q.capacity, slot (ring.store block).bytes ring.elementSize.toNat i =
        Function.update (slot ring.bytes ring.elementSize.toNat) ring.head.toNat block i := by
      intro i _
      rw [after]
      exact slot_write _ _ _ q.capacity _ _ length size h.head_lt
    have view : (ring.store block).blocks =
        window (slot (ring.store block).bytes ring.elementSize.toNat) q.capacity
          ring.tail.toNat (q.items.length + 1) := by
      rw [SchSpscRing.blocks, ← countUp, ← h.capacity]
      rfl
    rw [view, window_congr _ _ _ _ _ q.positive slots, items, h.head, h.count,
      window_fill _ _ _ _ _ room, h.window_eq]
  · simpa [SchSpscRing.store, drops] using h.drops

theorem push (h : Refines ring q) (block : List Byte)
    (size : block.length = ring.elementSize.toNat) :
    (ring.pushIsr (some block)).1 = statusOf q.outcome ∧
      Refines (ring.pushIsr (some block)).2 (q.push block) := by
  have full_iff : ring.count = ring.capacity ↔ q.items.length = q.capacity := by
    rw [← BitVec.toNat_inj, h.count, h.capacity]
  simp only [SchSpscRing.pushIsr, h.valid, Bool.not_true, Bool.false_eq_true, if_false, full_iff,
    h.overflow]
  by_cases full : q.items.length = q.capacity
  · cases policy : q.policy with
    | dropNewest =>
      obtain ⟨out, pushed⟩ := q.push_of_dropNewest block full policy
      simp only [full, modeOf, if_true, out, statusOf, pushed, true_and]
      exact h.countDrop
    | dropOldest =>
      obtain ⟨out, pushed⟩ := q.push_of_dropOldest block full policy
      have positive := q.positive
      have dropped := h.countDrop.dropOldest (by rw [Fifo.noteDrop_items]; omega)
      simp only [full, modeOf, if_true, reduceCtorEq, if_false, out, statusOf, pushed, true_and]
      refine dropped.store ?_ block size
      simp only [Fifo.pop_items, Fifo.pop_capacity, Fifo.noteDrop_items, Fifo.noteDrop_capacity,
        List.length_tail]
      omega
  · have room : q.items.length < q.capacity := lt_of_le_of_ne q.bounded full
    have out := (q.outcome_eq_stored_iff).mpr room
    simp only [full, if_false, out, statusOf, true_and]
    exact h.store room block size

theorem pop (h : Refines ring q) :
    ring.popTask.1 = q.items.head? ∧ Refines ring.popTask.2 q.pop := by
  have empty_iff : ring.count = 0#w ↔ q.items.length = 0 := by
    rw [← BitVec.toNat_inj, h.count, BitVec.toNat_zero]
  simp only [SchSpscRing.popTask, h.valid, Bool.not_true, Bool.false_eq_true, if_false, empty_iff]
  by_cases empty : q.items.length = 0
  · have none_left : q.items = [] := List.eq_nil_of_length_eq_zero empty
    have same : q.pop = q := by ext1 <;> simp [none_left]
    rw [same, none_left]
    exact ⟨rfl, h⟩
  · have nonempty : 0 < q.items.length := by omega
    simp only [empty, if_false]
    refine ⟨?_, h.dropOldest nonempty⟩
    rw [(h.front nonempty).1, h.offset_toNat _ h.tail]
    rfl

theorem reset (h : Refines ring q) : Refines ring.reset q.reset := by
  simp only [SchSpscRing.reset, h.valid, if_true]
  exact { h with
    tail := by simpa [Fifo.reset] using q.positive
    head := by simp [Fifo.reset]
    count := by simp [Fifo.reset]
    blocks := by simp [SchSpscRing.blocks, Fifo.reset]
    drops := by simp [Fifo.reset] }

theorem size_toNat (h : Refines ring q) : ring.size.toNat = q.items.length := by
  simp [SchSpscRing.size, h.valid, h.count]

theorem isEmpty_iff (h : Refines ring q) : ring.isEmpty = true ↔ q.items = [] := by
  simp only [SchSpscRing.isEmpty, decide_eq_true_eq, ← BitVec.toNat_inj, h.size_toNat,
    BitVec.toNat_zero, List.length_eq_zero_iff]

theorem isFull_iff (h : Refines ring q) :
    ring.isFull = true ↔ q.items.length = q.capacity := by
  simp only [SchSpscRing.isFull, h.valid, if_true, decide_eq_true_eq, ← BitVec.toNat_inj,
    h.count, h.capacity]

theorem dropCount_eq (h : Refines ring q) : ring.dropCount = BitVec.ofNat w q.drops := by
  simp [SchSpscRing.dropCount, h.valid, h.drops]

end Refines

theorem init_refines (ring : SchSpscRing w) (memory : List Byte) (capacity elementSize : BitVec w)
    (policy : Fifo.Policy) (positive : 0 < capacity.toNat) (element : 0 < elementSize.toNat)
    (length : memory.length = capacity.toNat * elementSize.toNat) (fits : memory.length < 2 ^ w) :
    (ring.init (some memory) capacity elementSize (modeOf policy)).1 = true ∧
      Refines (ring.init (some memory) capacity elementSize (modeOf policy)).2
        (Fifo.empty capacity.toNat policy positive) := by
  have hc : capacity ≠ 0#w := fun zero => by simp [zero] at positive
  have he : elementSize ≠ 0#w := fun zero => by simp [zero] at element
  have mode : ¬ (modeOf policy ≠ .dropNewest ∧ modeOf policy ≠ .dropOldest) := by
    cases policy <;> simp [modeOf]
  simp only [SchSpscRing.init, hc, he, reduceCtorEq, or_false, if_false, mode, true_and]
  exact {
    storage := rfl
    length := length
    fits := length ▸ fits
    element := element
    capacity := rfl
    overflow := rfl
    tail := by simpa using positive
    head := by simp
    count := by simp
    blocks := by simp [SchSpscRing.blocks]
    drops := by simp }

/-- Everything a ring of `capacity` elements of `elementSize` bytes may rely on before its
next call: indices in range, no wrap in any of their computations, and no access outside
the storage. -/
structure WithinStorage (ring : SchSpscRing w) (capacity elementSize : Nat) : Prop where
  head : ring.head.toNat < capacity
  tail : ring.tail.toNat < capacity
  count : ring.count.toNat ≤ capacity
  link : ring.head.toNat = (ring.tail.toNat + ring.count.toNat) % capacity
  headStep : (ring.head + 1#w).toNat = ring.head.toNat + 1
  tailStep : (ring.tail + 1#w).toNat = ring.tail.toNat + 1
  headOffset : (ring.offset ring.head).toNat = ring.head.toNat * elementSize
  tailOffset : (ring.offset ring.tail).toNat = ring.tail.toNat * elementSize
  countUp : ring.count ≠ ring.capacity → (ring.count + 1#w).toNat = ring.count.toNat + 1
  countDown : ring.count ≠ 0#w → (ring.count - 1#w).toNat = ring.count.toNat - 1
  touched : ∀ c, ∀ k ∈ ring.touched c, k < capacity * elementSize

theorem Refines.withinStorage {ring : SchSpscRing w} {q : Fifo (List Byte)} (h : Refines ring q) :
    WithinStorage ring q.capacity ring.elementSize.toNat where
  head := h.head_lt
  tail := h.tail
  count := h.count_le
  link := h.head
  headStep := h.succ_toNat _ h.head_lt
  tailStep := h.succ_toNat _ h.tail
  headOffset := h.offset_toNat _ h.head_lt
  tailOffset := h.offset_toNat _ h.tail
  countUp room := by
    refine h.succ_toNat _ (lt_of_le_of_ne h.count_le fun full => room ?_)
    rw [← BitVec.toNat_inj, full, h.capacity]
  countDown nonempty := by
    have positive : ring.count.toNat ≠ 0 := fun zero => nonempty (BitVec.eq_of_toNat_eq (by simpa))
    rw [h.count] at positive ⊢
    exact h.pred_toNat (Nat.pos_of_ne_zero positive)
  touched c k hk := by
    have inside (i : BitVec w) (hi : i.toNat < q.capacity)
        (mem : k ∈ (List.range ring.elementSize.toNat).map ((ring.offset i).toNat + ·)) :
        k < q.capacity * ring.elementSize.toNat := by
      obtain ⟨b, below, rfl⟩ := List.mem_map.mp mem
      have last := slot_end_le ring.elementSize.toNat hi
      have := List.mem_range.mp below
      rw [h.offset_toNat _ hi]
      omega
    cases c with
    | push item =>
      simp only [SchSpscRing.touched] at hk
      split_ifs at hk
      · simp at hk
      · exact inside _ h.head_lt hk
    | pop =>
      simp only [SchSpscRing.touched] at hk
      split_ifs at hk
      · simp at hk
      · exact inside _ h.tail hk
    | reset => simp [SchSpscRing.touched] at hk

theorem Refines.call {ring : SchSpscRing w} {q : Fifo (List Byte)} (h : Refines ring q)
    (c : RingCall) (size : ∀ item, c = .push item → item.length = ring.elementSize.toNat) :
    (ring.call c).1 = (fifoCall q c).1 ∧ Refines (ring.call c).2 (fifoCall q c).2 := by
  cases c with
  | push item =>
    obtain ⟨status, next⟩ := h.push item (size item rfl)
    exact ⟨congrArg RingReply.pushed status, next⟩
  | pop =>
    obtain ⟨item, next⟩ := h.pop
    exact ⟨congrArg RingReply.popped item, next⟩
  | reset => exact ⟨rfl, h.reset⟩

theorem Refines.calls {ring : SchSpscRing w} {q : Fifo (List Byte)} (h : Refines ring q)
    (cs : List RingCall)
    (size : ∀ item, .push item ∈ cs → item.length = ring.elementSize.toNat) :
    (ring.calls cs).1 = (fifoCalls q cs).1 ∧ Refines (ring.calls cs).2 (fifoCalls q cs).2 ∧
      (ring.calls cs).2.elementSize = ring.elementSize ∧
      (fifoCalls q cs).2.capacity = q.capacity := by
  induction cs generalizing ring q with
  | nil => exact ⟨rfl, h, rfl, rfl⟩
  | cons c rest ih =>
    obtain ⟨reply, next⟩ := h.call c fun item same => size item (same ▸ List.mem_cons_self)
    obtain ⟨replies, last, kept, bound⟩ := ih next fun item mem => by
      rw [SchSpscRing.call_elementSize]
      exact size item (List.mem_cons_of_mem _ mem)
    have capacity : (fifoCall q c).2.capacity = q.capacity := by cases c <;> rfl
    simp only [SchSpscRing.calls, fifoCalls, reply, replies, true_and]
    exact ⟨last, kept.trans (ring.call_elementSize c), bound.trans capacity⟩

/-- The byte ring behaves as the bounded queue of its blocks over every sequence of calls,
and never leaves its storage. -/
theorem ring_calls_refine_fifo (ring : SchSpscRing w) (memory : List Byte)
    (capacity elementSize : BitVec w) (policy : Fifo.Policy) (cs : List RingCall)
    (positive : 0 < capacity.toNat) (element : 0 < elementSize.toNat)
    (length : memory.length = capacity.toNat * elementSize.toNat) (fits : memory.length < 2 ^ w)
    (items : ∀ item, .push item ∈ cs → item.length = elementSize.toNat) :
    let made := ring.init (some memory) capacity elementSize (modeOf policy)
    let real := made.2.calls cs
    let ideal := fifoCalls (Fifo.empty capacity.toNat policy positive) cs
    made.1 = true ∧
      WithinStorage real.2 capacity.toNat elementSize.toNat ∧
      real.2.blocks = ideal.2.items ∧
      real.1 = ideal.1 ∧
      real.2.dropCount = BitVec.ofNat w ideal.2.drops ∧
      real.2.size.toNat = ideal.2.items.length ∧
      (real.2.isEmpty = true ↔ ideal.2.items = []) ∧
      (real.2.isFull = true ↔ ideal.2.items.length = capacity.toNat) := by
  intro made real ideal
  obtain ⟨ok, start⟩ := init_refines ring memory capacity elementSize policy positive element
    length fits
  have size : made.2.elementSize = elementSize := by
    have hc : capacity ≠ 0#w := fun zero => by simp [zero] at positive
    have he : elementSize ≠ 0#w := fun zero => by simp [zero] at element
    cases policy <;> simp [made, SchSpscRing.init, hc, he, modeOf]
  obtain ⟨replies, last, kept, bound⟩ := start.calls cs (by rwa [size])
  have within := last.withinStorage
  rw [kept, size, bound] at within
  refine ⟨ok, within, last.blocks, replies, last.dropCount_eq, last.size_toNat, last.isEmpty_iff, ?_⟩
  have full := last.isFull_iff
  rwa [bound] at full

theorem ring_calls_refine_fifo_two_bytes :
    let made := (⟨none, 0, 0, 0, 0, 0, 0, .other 7⟩ : SchSpscRing 16).init (some [0, 0]) 2 1
      (modeOf .dropOldest)
    (made.2.calls [.push [5], .push [6], .push [7], .pop]).2.blocks = [[7]] := by
  have refined := ring_calls_refine_fifo (⟨none, 0, 0, 0, 0, 0, 0, .other 7⟩ : SchSpscRing 16)
    [0, 0] 2 1 .dropOldest [.push [5], .push [6], .push [7], .pop] (by decide) (by decide)
    (by decide) (by decide) (by simp)
  exact refined.2.2.1

end SchedulerLib.IsrBuffer
