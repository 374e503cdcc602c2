import Mathlib.Tactic.SplitIfs
import SchedulerLib.Lib.Slots

/-!
`isr_buffer.c`: the byte ring between one interrupt producer and one task consumer.
A `size_t` is a `BitVec w`, so that every index computation wraps where C's does. A
pointer to a ring is the ring itself; the storage and item pointers may be NULL
(`none`). Each function has its name in the source after `sch_spsc_ring_`, and is one
critical section, hence one step.
-/

namespace SchedulerLib.IsrBuffer

open Lib

/-- `other` is any further value that the C enumeration type can hold. -/
inductive SchOverflowMode where
  | dropNewest
  | dropOldest
  | other (value : Nat)
  deriving DecidableEq, Repr

inductive SchRingPushStatus where
  | ok
  | droppedNewest
  | droppedOldest
  deriving DecidableEq, Repr

structure SchSpscRing (w : Nat) where
  storage : Option (List Byte)
  elementSize : BitVec w
  capacity : BitVec w
  head : BitVec w
  tail : BitVec w
  count : BitVec w
  drops : BitVec w
  overflow : SchOverflowMode
  deriving DecidableEq, Repr

namespace SchSpscRing

variable {w : Nat}

def valid (ring : SchSpscRing w) : Bool :=
  ring.storage.isSome && decide (0#w < ring.capacity) && decide (0#w < ring.elementSize) &&
    (decide (ring.overflow = .dropNewest) || decide (ring.overflow = .dropOldest))

def init (ring : SchSpscRing w) (storage : Option (List Byte))
    (capacity elementSize : BitVec w) (overflow : SchOverflowMode) : Bool × SchSpscRing w :=
  if storage = none ∨ capacity = 0#w ∨ elementSize = 0#w then (false, ring)
  else if overflow ≠ .dropNewest ∧ overflow ≠ .dropOldest then (false, ring)
  else
    (true,
      { storage := storage
        elementSize := elementSize
        capacity := capacity
        head := 0#w
        tail := 0#w
        count := 0#w
        drops := 0#w
        overflow := overflow })

def reset (ring : SchSpscRing w) : SchSpscRing w :=
  if ring.valid then { ring with head := 0#w, tail := 0#w, count := 0#w, drops := 0#w } else ring

/-- The byte index `index * element_size` at which a `memcpy` starts. -/
def offset (ring : SchSpscRing w) (index : BitVec w) : BitVec w := index * ring.elementSize

def bytes (ring : SchSpscRing w) : List Byte := ring.storage.getD []

def store (ring : SchSpscRing w) (item : List Byte) : SchSpscRing w :=
  { ring with
    storage := ring.storage.map fun memory =>
      Bytes.write memory (ring.offset ring.head).toNat (item.take ring.elementSize.toNat)
    head := (ring.head + 1#w) % ring.capacity
    count := ring.count + 1#w }

def dropOldest (ring : SchSpscRing w) : SchSpscRing w :=
  { ring with tail := (ring.tail + 1#w) % ring.capacity, count := ring.count - 1#w }

def countDrop (ring : SchSpscRing w) : SchSpscRing w := { ring with drops := ring.drops + 1#w }

def pushIsr (ring : SchSpscRing w) (item : Option (List Byte)) :
    SchRingPushStatus × SchSpscRing w :=
  match item with
  | none => (.droppedNewest, ring)
  | some block =>
    if !ring.valid then (.droppedNewest, ring)
    else if ring.count = ring.capacity then
      if ring.overflow = .dropNewest then (.droppedNewest, ring.countDrop)
      else (.droppedOldest, (ring.countDrop.dropOldest).store block)
    else (.ok, ring.store block)

/-- `sch_spsc_ring_pop_task` with a non-NULL `out_item`: the block copied out, if any. -/
def popTask (ring : SchSpscRing w) : Option (List Byte) × SchSpscRing w :=
  if !ring.valid then (none, ring)
  else if ring.count = 0#w then (none, ring)
  else
    (some (Bytes.read ring.bytes (ring.offset ring.tail).toNat ring.elementSize.toNat),
      { ring with tail := (ring.tail + 1#w) % ring.capacity, count := ring.count - 1#w })

def size (ring : SchSpscRing w) : BitVec w := if ring.valid then ring.count else 0#w

def dropCount (ring : SchSpscRing w) : BitVec w := if ring.valid then ring.drops else 0#w

def isEmpty (ring : SchSpscRing w) : Bool := decide (ring.size = 0#w)

def isFull (ring : SchSpscRing w) : Bool :=
  if ring.valid then decide (ring.count = ring.capacity) else false

/-- The blocks in the ring from the oldest to the newest. -/
def blocks (ring : SchSpscRing w) : List (List Byte) :=
  window (slot ring.bytes ring.elementSize.toNat) ring.capacity.toNat ring.tail.toNat
    ring.count.toNat

@[simp] theorem pushIsr_elementSize (ring : SchSpscRing w) (item : Option (List Byte)) :
    (ring.pushIsr item).2.elementSize = ring.elementSize := by
  unfold pushIsr
  split
  · rfl
  · split_ifs <;> rfl

@[simp] theorem popTask_elementSize (ring : SchSpscRing w) :
    ring.popTask.2.elementSize = ring.elementSize := by
  unfold popTask
  split_ifs <;> rfl

@[simp] theorem reset_elementSize (ring : SchSpscRing w) :
    ring.reset.elementSize = ring.elementSize := by
  unfold reset
  split_ifs <;> rfl

end SchSpscRing

inductive RingCall where
  | push (item : List Byte)
  | pop
  | reset
  deriving DecidableEq, Repr

inductive RingReply where
  | pushed (status : SchRingPushStatus)
  | popped (item : Option (List Byte))
  | reset
  deriving DecidableEq, Repr

namespace SchSpscRing

variable {w : Nat}

def call (ring : SchSpscRing w) : RingCall → RingReply × SchSpscRing w
  | .push item => let r := ring.pushIsr (some item); (.pushed r.1, r.2)
  | .pop => let r := ring.popTask; (.popped r.1, r.2)
  | .reset => (.reset, ring.reset)

/-- The indices into the storage that a call reads or writes. -/
def touched (ring : SchSpscRing w) : RingCall → List Nat
  | .push _ =>
    if ring.count = ring.capacity ∧ ring.overflow = .dropNewest then []
    else (List.range ring.elementSize.toNat).map ((ring.offset ring.head).toNat + ·)
  | .pop =>
    if ring.count = 0#w then []
    else (List.range ring.elementSize.toNat).map ((ring.offset ring.tail).toNat + ·)
  | .reset => []

@[simp] theorem call_elementSize (ring : SchSpscRing w) (c : RingCall) :
    (ring.call c).2.elementSize = ring.elementSize := by
  cases c <;> simp [call]

def calls : SchSpscRing w → List RingCall → List RingReply × SchSpscRing w
  | ring, [] => ([], ring)
  | ring, c :: rest =>
    let r := ring.call c
    let later := r.2.calls rest
    (r.1 :: later.1, later.2)

end SchSpscRing

end SchedulerLib.IsrBuffer
