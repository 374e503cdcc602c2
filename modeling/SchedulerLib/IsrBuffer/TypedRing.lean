import SchedulerLib.IsrBuffer.RingRefinement
import SchedulerLib.Lib.Layout

/-!
Rings of typed elements and the event queue. The services hand the ring a pointer to an
object; what the ring copies is the object's layout. `Carries` says that a ring holds
the elements of a queue of values, and is what every proof about a service uses. The
functions on an event queue have their names in the source after `sch_event_queue_`.
-/

namespace SchedulerLib.IsrBuffer

open Lib

variable {w : Nat} {α : Type}

namespace SchSpscRing

/-- `sch_spsc_ring_init` for elements of `sizeof` the layout. -/
def initAs (L : Layout α) (ring : SchSpscRing w) (storage : Option (List Byte))
    (capacity : BitVec w) (overflow : SchOverflowMode) : Bool × SchSpscRing w :=
  ring.init storage capacity (BitVec.ofNat w L.size) overflow

def pushAs (L : Layout α) (ring : SchSpscRing w) (a : α) : SchRingPushStatus × SchSpscRing w :=
  ring.pushIsr (some (L.toBytes a))

/-- `sch_spsc_ring_pop_task` into an object; `none` when it returns false. -/
def popAs (L : Layout α) (ring : SchSpscRing w) : Option α × SchSpscRing w :=
  (ring.popTask.1.map L.ofBytes, ring.popTask.2)

theorem popAs_of_isEmpty (L : Layout α) {ring : SchSpscRing w} (empty : ring.isEmpty = true) :
    ring.popAs L = (none, ring) := by
  have missed : ring.popTask = (none, ring) := by
    rw [isEmpty, decide_eq_true_iff, size] at empty
    unfold popTask
    cases valid : ring.valid with
    | false => rfl
    | true =>
      rw [valid, if_pos rfl] at empty
      rw [if_pos empty]
      rfl
  rw [popAs, missed]
  rfl

theorem popAs_none (L : Layout α) {ring : SchSpscRing w} (missed : (ring.popAs L).1 = none) :
    (ring.popAs L).2 = ring := by
  simp only [popAs, Option.map_eq_none_iff] at missed ⊢
  unfold popTask at missed ⊢
  split_ifs at missed ⊢ <;> rfl

def items (L : Layout α) (ring : SchSpscRing w) : List α := ring.blocks.map L.ofBytes

end SchSpscRing

structure Carries (L : Layout α) (ring : SchSpscRing w) (q : Fifo α) : Prop where
  refines : Refines ring (q.map L.toBytes)
  size : ring.elementSize.toNat = L.size

namespace Carries

variable {L : Layout α} {ring : SchSpscRing w} {q : Fifo α}

theorem items (h : Carries L ring q) : ring.items L = q.items := by
  rw [SchSpscRing.items, h.refines.blocks, Fifo.map_items, L.map_ofBytes_toBytes]

theorem push (h : Carries L ring q) (a : α) :
    (ring.pushAs L a).1 = statusOf q.outcome ∧ Carries L (ring.pushAs L a).2 (q.push a) := by
  obtain ⟨status, next⟩ := h.refines.push (L.toBytes a) (by rw [L.length_toBytes, h.size])
  rw [Fifo.map_outcome] at status
  rw [Fifo.map_push] at next
  exact ⟨status, next, by rw [SchSpscRing.pushAs, SchSpscRing.pushIsr_elementSize, h.size]⟩

theorem pop (h : Carries L ring q) :
    (ring.popAs L).1 = q.items.head? ∧ Carries L (ring.popAs L).2 q.pop := by
  obtain ⟨front, next⟩ := h.refines.pop
  rw [Fifo.map_pop] at next
  refine ⟨?_, next, by rw [SchSpscRing.popAs, SchSpscRing.popTask_elementSize, h.size]⟩
  rw [SchSpscRing.popAs, front, Fifo.map_items, List.head?_map, Option.map_map,
    L.ofBytes_comp_toBytes, Option.map_id_fun, id]

theorem isEmpty_iff (h : Carries L ring q) : ring.isEmpty = true ↔ q.items = [] := by
  rw [h.refines.isEmpty_iff, Fifo.map_items, List.map_eq_nil_iff]

theorem size_toNat (h : Carries L ring q) : ring.size.toNat = q.items.length := by
  rw [h.refines.size_toNat, Fifo.map_items, List.length_map]

theorem dropCount_eq (h : Carries L ring q) : ring.dropCount = BitVec.ofNat w q.drops :=
  h.refines.dropCount_eq

end Carries

theorem initAs_carries (L : Layout α) (ring : SchSpscRing w) (memory : List Byte)
    (capacity : BitVec w) (policy : Fifo.Policy) (positive : 0 < capacity.toNat)
    (length : memory.length = capacity.toNat * L.size) (fits : memory.length < 2 ^ w) :
    (ring.initAs L (some memory) capacity (modeOf policy)).1 = true ∧
      Carries L (ring.initAs L (some memory) capacity (modeOf policy)).2
        (Fifo.empty capacity.toNat policy positive) := by
  have small : L.size < 2 ^ w := by
    have := Nat.le_mul_of_pos_left L.size positive
    omega
  have element : (BitVec.ofNat w L.size).toNat = L.size := by
    rw [BitVec.toNat_ofNat, Nat.mod_eq_of_lt small]
  obtain ⟨ok, start⟩ := init_refines ring memory capacity (BitVec.ofNat w L.size) policy positive
    (by rw [element]; exact L.size_pos) (by rw [element]; exact length) fits
  refine ⟨ok, start, ?_⟩
  have hc : capacity ≠ 0#w := fun zero => by simp [zero] at positive
  have he : BitVec.ofNat w L.size ≠ 0#w := fun zero => by
    have := congrArg BitVec.toNat zero
    rw [element, BitVec.toNat_ofNat, Nat.zero_mod] at this
    exact absurd this L.size_pos.ne'
  cases policy <;> simp [SchSpscRing.initAs, SchSpscRing.init, hc, he, modeOf, element]

theorem initAs_success (L : Layout α) (ring : SchSpscRing w) (memory : List Byte)
    (capacity : BitVec w) (policy : Fifo.Policy)
    (ok : (ring.initAs L (some memory) capacity (modeOf policy)).1 = true)
    (length : memory.length = capacity.toNat * L.size) (fits : memory.length < 2 ^ w) :
    ∃ positive : 0 < capacity.toNat,
      Carries L (ring.initAs L (some memory) capacity (modeOf policy)).2
        (Fifo.empty capacity.toNat policy positive) := by
  have positive : 0 < capacity.toNat := by
    by_contra zero
    have hc : capacity = 0#w := BitVec.eq_of_toNat_eq (by simpa using zero)
    simp [SchSpscRing.initAs, SchSpscRing.init, hc] at ok
  exact ⟨positive, (initAs_carries L ring memory capacity policy positive length fits).2⟩

/-- A queue of 16-bit event or descriptor identifiers. -/
structure SchEventQueue (w : Nat) where
  ring : SchSpscRing w
  deriving DecidableEq, Repr

namespace SchEventQueue

variable (u16 : Layout (BitVec 16))

def init (queue : SchEventQueue w) (storage : Option (List Byte)) (capacity : BitVec w)
    (overflow : SchOverflowMode) : Bool × SchEventQueue w :=
  let r := queue.ring.initAs u16 storage capacity overflow
  (r.1, ⟨r.2⟩)

def pushIsr (queue : SchEventQueue w) (eventId : BitVec 16) :
    SchRingPushStatus × SchEventQueue w :=
  let r := queue.ring.pushAs u16 eventId
  (r.1, ⟨r.2⟩)

def popTask (queue : SchEventQueue w) : Option (BitVec 16) × SchEventQueue w :=
  let r := queue.ring.popAs u16
  (r.1, ⟨r.2⟩)

def size (queue : SchEventQueue w) : BitVec w := queue.ring.size

def dropCount (queue : SchEventQueue w) : BitVec w := queue.ring.dropCount

end SchEventQueue

end SchedulerLib.IsrBuffer
