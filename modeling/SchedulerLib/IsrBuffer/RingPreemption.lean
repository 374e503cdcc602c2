import SchedulerLib.IsrBuffer.RingRefinement
import SchedulerLib.Lib.Linearization

/-!
`isr_buffer.c` statement by statement. Every load and every store of a ring is a step of
its own and `memcpy` copies one byte at a time, so that an interrupt may come anywhere but
inside a critical section. Each function implements its description as one step, and any
clients of a ring, in the task and in nested interrupts, see the bounded queue.
-/

namespace SchedulerLib.IsrBuffer

open Lib

namespace RingCode

variable {M I S : Type} {w : Nat}

def valid : Prog M (SchSpscRing w) Bool :=
  .both
    (.both
      (.both (.read fun ring => ring.storage.isSome) (.read fun ring => decide (0#w < ring.capacity)))
      (.read fun ring => decide (0#w < ring.elementSize)))
    (.either (.read fun ring => decide (ring.overflow = .dropNewest))
      (.read fun ring => decide (ring.overflow = .dropOldest)))

def copyIn : Nat → List Byte → Prog M (SchSpscRing w) Unit
  | _, [] => pure ()
  | offset, b :: rest => do
    .write fun ring =>
      { ring with storage := ring.storage.map fun memory => Bytes.write memory offset [b] }
    copyIn (offset + 1) rest

def copyOut : Nat → Nat → Prog M (SchSpscRing w) (List Byte)
  | _, 0 => pure []
  | offset, n + 1 => do
    let b ← .read fun ring => Bytes.read ring.bytes offset 1
    let rest ← copyOut (offset + 1) n
    pure (b ++ rest)

def advanceTail : Prog M (SchSpscRing w) Unit := do
  let tail ← .read SchSpscRing.tail
  let capacity ← .read SchSpscRing.capacity
  .write fun ring => { ring with tail := (tail + 1#w) % capacity }
  let count ← .read SchSpscRing.count
  .write fun ring => { ring with count := count - 1#w }

/-- The end of a push, from the `memcpy` on. -/
def fill (block : List Byte) (state : M) (status : SchRingPushStatus) :
    Prog M (SchSpscRing w) SchRingPushStatus := do
  let head ← .read SchSpscRing.head
  let elementSize ← .read SchSpscRing.elementSize
  copyIn (head * elementSize).toNat (block.take elementSize.toNat)
  let head ← .read SchSpscRing.head
  let capacity ← .read SchSpscRing.capacity
  .write fun ring => { ring with head := (head + 1#w) % capacity }
  let count ← .read SchSpscRing.count
  .write fun ring => { ring with count := count + 1#w }
  .exitCritical state
  pure status

/-- `sch_spsc_ring_push_isr` behind its checks, from the entry of the critical section on. -/
def pushSection (block : List Byte) (state : M) : Prog M (SchSpscRing w) SchRingPushStatus := do
  let count ← .read SchSpscRing.count
  let capacity ← .read SchSpscRing.capacity
  if count = capacity then
    let drops ← .read SchSpscRing.drops
    .write fun ring => { ring with drops := drops + 1#w }
    let overflow ← .read SchSpscRing.overflow
    if overflow = .dropNewest then
      .exitCritical state
      pure .droppedNewest
    else
      advanceTail
      fill block state .droppedOldest
  else fill block state .ok

def pushIsr (item : Option (List Byte)) : Prog M (SchSpscRing w) SchRingPushStatus :=
  (Prog.both valid (.ret item.isSome)).bind fun ok =>
    if ok then .enter (pushSection (item.getD [])) else .ret .droppedNewest

def popSection (state : M) : Prog M (SchSpscRing w) (Option (List Byte)) := do
  let count ← .read SchSpscRing.count
  if count = 0#w then
    .exitCritical state
    pure none
  else
    let tail ← .read SchSpscRing.tail
    let elementSize ← .read SchSpscRing.elementSize
    let block ← copyOut (tail * elementSize).toNat elementSize.toNat
    advanceTail
    .exitCritical state
    pure (some block)

def popTask : Prog M (SchSpscRing w) (Option (List Byte)) :=
  valid.bind fun ok => if ok then .enter popSection else .ret none

def reset : Prog M (SchSpscRing w) Unit :=
  valid.bind fun ok =>
    if ok then .enter fun state => do
      .write fun ring => { ring with head := 0#w }
      .write fun ring => { ring with tail := 0#w }
      .write fun ring => { ring with count := 0#w }
      .write fun ring => { ring with drops := 0#w }
      .exitCritical state
    else .ret ()

/-- A function that reads inside its critical section and returns what it read. -/
def query {β : Type} (body : Prog M (SchSpscRing w) β) (refusal : β) :
    Prog M (SchSpscRing w) β :=
  valid.bind fun ok =>
    if ok then .enter fun state => do
      let value ← body
      .exitCritical state
      pure value
    else .ret refusal

def size : Prog M (SchSpscRing w) (BitVec w) := query (.read SchSpscRing.count) 0#w

def dropCount : Prog M (SchSpscRing w) (BitVec w) := query (.read SchSpscRing.drops) 0#w

def isEmpty : Prog M (SchSpscRing w) Bool := do
  let n ← size
  pure (decide (n = 0#w))

def isFull : Prog M (SchSpscRing w) Bool :=
  query (do
    let count ← .read SchSpscRing.count
    let capacity ← .read SchSpscRing.capacity
    pure (decide (count = capacity))) false

theorem copyIn_settle (offset : Nat) (block : List Byte) (ring : SchSpscRing w) :
    (copyIn offset block : Prog M _ _).settle ring =
      (.ret (), { ring with
        storage := ring.storage.map fun memory => Bytes.write memory offset block }) := by
  induction block generalizing offset ring with
  | nil =>
    have same : ring.storage.map (fun memory => Bytes.write memory offset []) = ring.storage := by
      cases ring.storage <;> simp [Bytes.write_nil]
    rw [same]
    rfl
  | cons b rest ih =>
    have joined (storage : Option (List Byte)) :
        (storage.map fun memory => Bytes.write memory offset [b]).map
            (fun memory => Bytes.write memory (offset + 1) rest) =
          storage.map fun memory => Bytes.write memory offset (b :: rest) := by
      cases storage <;> simp [Bytes.write_cons]
    simp only [copyIn, Prog.bind_eq, Prog.settle_write, ih, joined]

theorem copyOut_settle (offset n : Nat) (ring : SchSpscRing w) :
    (copyOut offset n : Prog M _ _).settle ring =
      (.ret (Bytes.read ring.bytes offset n), ring) := by
  induction n generalizing offset with
  | zero => simp [copyOut, Bytes.read]
  | succ n ih =>
    simp only [copyOut, Prog.bind_eq, Prog.settle_read, Prog.settle_bind (ih (offset + 1)),
      Prog.pure_eq, Prog.settle_ret, Bytes.read_succ ring.bytes offset n]

theorem advanceTail_settle (ring : SchSpscRing w) :
    (advanceTail : Prog M _ _).settle ring = (.ret (), ring.dropOldest) := rfl

theorem fill_settle (block : List Byte) (state : M) (status : SchRingPushStatus)
    (ring : SchSpscRing w) :
    (fill block state status).settle ring = (.exit state (.ret status), ring.store block) := by
  simp only [fill, Prog.bind_eq, Prog.settle_read, Prog.settle_bind (copyIn_settle _ _ _)]
  rfl

theorem pushSection_settle (block : List Byte) (state : M) (ring : SchSpscRing w)
    (valid : ring.valid = true) :
    (pushSection block state).settle ring =
      (.exit state (.ret (ring.pushIsr (some block)).1), (ring.pushIsr (some block)).2) := by
  simp only [pushSection, Prog.bind_eq, Prog.settle_read, SchSpscRing.pushIsr, valid,
    Bool.not_true, Bool.false_eq_true, if_false]
  by_cases full : ring.count = ring.capacity
  · rw [if_pos full, if_pos full]
    simp only [Prog.settle_read, Prog.settle_write]
    by_cases newest : ring.overflow = .dropNewest
    · rw [if_pos newest, if_pos newest]
      rfl
    · rw [if_neg newest, if_neg newest, Prog.settle_bind (advanceTail_settle _), fill_settle]
      rfl
  · rw [if_neg full, if_neg full, fill_settle]

theorem popSection_settle (state : M) (ring : SchSpscRing w) (valid : ring.valid = true) :
    (popSection state).settle ring =
      (.exit state (.ret ring.popTask.1), ring.popTask.2) := by
  simp only [popSection, Prog.bind_eq, Prog.settle_read, SchSpscRing.popTask, valid,
    Bool.not_true, Bool.false_eq_true, if_false]
  by_cases empty : ring.count = 0#w
  · rw [if_pos empty, if_pos empty]
    rfl
  · rw [if_neg empty, if_neg empty]
    simp only [Prog.settle_read, Prog.settle_bind (copyOut_settle _ _ _),
      Prog.settle_bind (advanceTail_settle _)]
    rfl

end RingCode

namespace SchSpscRing

variable {w : Nat}

def config (ring : SchSpscRing w) : Bool × BitVec w × BitVec w × SchOverflowMode :=
  (ring.storage.isSome, ring.capacity, ring.elementSize, ring.overflow)

@[simp] theorem config_store (ring : SchSpscRing w) (block : List Byte) :
    (ring.store block).config = ring.config := by
  simp [config, store]

@[simp] theorem config_pushIsr (ring : SchSpscRing w) (item : Option (List Byte)) :
    (ring.pushIsr item).2.config = ring.config := by
  unfold pushIsr
  cases item with
  | none => rfl
  | some block =>
    dsimp only
    split_ifs
    · rfl
    · rfl
    · exact config_store _ block
    · exact config_store _ block

@[simp] theorem config_popTask (ring : SchSpscRing w) : ring.popTask.2.config = ring.config := by
  unfold popTask
  split_ifs <;> rfl

@[simp] theorem config_reset (ring : SchSpscRing w) : ring.reset.config = ring.config := by
  unfold reset
  split_ifs <;> rfl

end SchSpscRing

namespace RingCode

section Steps

variable {M I S : Type} {w : Nat} {port : Masking M I} {handler : I → Prog M S Unit}
  {field : Field S (SchSpscRing w)}

theorem valid_stable (kept : Prog.Stable port handler fun s => (field.get s).config) :
    Prog.Stable port handler fun s => (field.get s).valid :=
  kept.comp fun c => c.1 && decide (0#w < c.2.1) && decide (0#w < c.2.2.1) &&
    (decide (c.2.2.2 = .dropNewest) || decide (c.2.2.2 = .dropOldest))

theorem valid_peeks (kept : Prog.Stable port handler fun s => (field.get s).config) :
    Prog.Peeks port handler (valid.inside field) fun s => (field.get s).valid := by
  have storage := kept.comp fun c => c.1
  have capacity := kept.comp fun c => decide (0#w < c.2.1)
  have elementSize := kept.comp fun c => decide (0#w < c.2.2.1)
  have newest := kept.comp fun c => decide (c.2.2.2 = .dropNewest)
  have oldest := kept.comp fun c => decide (c.2.2.2 = .dropOldest)
  have mode := kept.comp fun c =>
    decide (c.2.2.2 = .dropNewest) || decide (c.2.2.2 = .dropOldest)
  simp only [valid, Prog.inside_both, Prog.inside_either, Prog.inside_read]
  exact (((Prog.peeks_read storage).both (Prog.peeks_read capacity) capacity).both
    (Prog.peeks_read elementSize) elementSize).both
      ((Prog.peeks_read newest).either (Prog.peeks_read oldest) oldest) mode

theorem pushIsr_implements (kept : Prog.Stable port handler fun s => (field.get s).config)
    (item : Option (List Byte)) : Prog.Implements port handler ((pushIsr item).inside field)
      (.atomic (field.apply fun ring => ring.pushIsr item)) := by
  have present : Prog.Stable port handler fun _ : S => item.isSome :=
    fun _ _ _ _ _ _ _ => rfl
  have stable : Prog.Stable port handler fun s => (field.get s).valid && item.isSome :=
    (valid_stable kept).comp fun b => b && item.isSome
  refine Prog.Implements.guarded (g := fun ring => ring.valid && item.isSome) field ?_ stable ?_ ?_
  · rw [Prog.inside_both]
    exact (valid_peeks kept).both (Prog.peeks_ret item.isSome) present
  · intro state ring passed
    obtain ⟨valid, given⟩ := Bool.and_eq_true_iff.mp passed
    obtain ⟨block, rfl⟩ := Option.isSome_iff_exists.mp given
    exact pushSection_settle block state ring valid
  · intro ring refused
    cases item with
    | none => rfl
    | some block => 
      have invalid : ring.valid = false := by simpa using refused
      simp [SchSpscRing.pushIsr, invalid]

theorem popTask_implements (kept : Prog.Stable port handler fun s => (field.get s).config) :
    Prog.Implements port handler (popTask.inside field)
      (.atomic (field.apply fun ring => ring.popTask)) := by
  refine Prog.Implements.guarded (g := SchSpscRing.valid) field (valid_peeks kept)
    (valid_stable kept) popSection_settle ?_
  intro ring invalid
  simp [SchSpscRing.popTask, invalid]

theorem reset_implements (kept : Prog.Stable port handler fun s => (field.get s).config) :
    Prog.Implements port handler (reset.inside field)
      (.atomic (field.apply fun ring => ((), ring.reset))) := by
  refine Prog.Implements.guarded (g := SchSpscRing.valid) field (valid_peeks kept)
    (valid_stable kept) ?_ ?_
  · intro state ring valid
    rw [SchSpscRing.reset, if_pos valid]
    rfl
  · intro ring invalid
    simp [SchSpscRing.reset, invalid]

theorem query_implements {β : Type} (kept : Prog.Stable port handler fun s => (field.get s).config)
    {body : Prog M (SchSpscRing w) β} {f : SchSpscRing w → β} {refusal : β}
    (reads : ∀ ring, body.settle ring = (.ret (f ring), ring)) :
    Prog.Implements port handler ((query body refusal).inside field)
      (.atomic (field.apply fun ring => (if ring.valid then f ring else refusal, ring))) := by
  refine Prog.Implements.guarded (g := SchSpscRing.valid) field (valid_peeks kept)
    (valid_stable kept) ?_ ?_
  · intro state ring valid
    simp only [Prog.bind_eq, Prog.settle_bind (reads ring), valid, if_true]
    rfl
  · intro ring invalid
    simp [invalid]

theorem isEmpty_implements (kept : Prog.Stable port handler fun s => (field.get s).config) :
    Prog.Implements port handler (isEmpty.inside field)
      (.atomic (field.apply fun ring => (ring.isEmpty, ring))) := by
  have sized : Prog.Implements port handler (size.inside field)
      (.atomic (field.apply fun ring => (ring.size, ring))) := query_implements kept fun _ => rfl
  simp only [isEmpty, Prog.bind_eq, Prog.inside_bind]
  exact sized.bind fun n => Prog.Implements.refl _

end Steps

end RingCode

inductive RingRequest (n : Nat) where
  | push (item : Option { block : List Byte // block.length = n })
  | pop
  | reset
  | size
  | dropCount
  | isEmpty
  | isFull

inductive RingAnswer (w : Nat) where
  | pushed (status : SchRingPushStatus)
  | popped (item : Option (List Byte))
  | done
  | amount (n : BitVec w)
  | flag (b : Bool)
  deriving DecidableEq, Repr

namespace RingRequest

variable {M I α : Type} {w n : Nat}

def code : RingRequest n → Prog M (SchSpscRing w) (RingAnswer w)
  | push item => do return .pushed (← RingCode.pushIsr (item.map Subtype.val))
  | pop => do return .popped (← RingCode.popTask)
  | reset => do
    RingCode.reset
    return .done
  | size => do return .amount (← RingCode.size)
  | dropCount => do return .amount (← RingCode.dropCount)
  | isEmpty => do return .flag (← RingCode.isEmpty)
  | isFull => do return .flag (← RingCode.isFull)

def serve : RingRequest n → SchSpscRing w → RingAnswer w × SchSpscRing w
  | push item, ring => (.pushed (ring.pushIsr (item.map Subtype.val)).1,
      (ring.pushIsr (item.map Subtype.val)).2)
  | pop, ring => (.popped ring.popTask.1, ring.popTask.2)
  | reset, ring => (.done, ring.reset)
  | size, ring => (.amount ring.size, ring)
  | dropCount, ring => (.amount ring.dropCount, ring)
  | isEmpty, ring => (.flag ring.isEmpty, ring)
  | isFull, ring => (.flag ring.isFull, ring)

/-- The call on the bounded queue. A push of NULL is refused and counts no drop. -/
def queueServe (w : Nat) : RingRequest n → Fifo (List Byte) → RingAnswer w × Fifo (List Byte)
  | push none, q => (.pushed .droppedNewest, q)
  | push (some item), q => (.pushed (statusOf q.outcome), q.push item.val)
  | pop, q => (.popped q.items.head?, q.pop)
  | reset, q => (.done, q.reset)
  | size, q => (.amount (BitVec.ofNat w q.items.length), q)
  | dropCount, q => (.amount (BitVec.ofNat w q.drops), q)
  | isEmpty, q => (.flag (decide (q.items = [])), q)
  | isFull, q => (.flag (decide (q.items.length = q.capacity)), q)

theorem serve_config (c : RingRequest n) (ring : SchSpscRing w) :
    (c.serve ring).2.config = ring.config := by
  cases c <;> simp [serve]

theorem code_implements {S : Type} {port : Masking M I} {handler : I → Prog M S Unit}
    {field : Field S (SchSpscRing w)}
    (kept : Prog.Stable port handler fun s => (field.get s).config) (c : RingRequest n) :
    Prog.Implements port handler (c.code.inside field) (.atomic (field.apply c.serve)) := by
  cases c with
  | push item =>
    simp only [code, Prog.bind_eq, Prog.inside_bind]
    exact (RingCode.pushIsr_implements kept _).bind fun _ => Prog.Implements.refl _
  | pop =>
    simp only [code, Prog.bind_eq, Prog.inside_bind]
    exact (RingCode.popTask_implements kept).bind fun _ => Prog.Implements.refl _
  | reset =>
    simp only [code, Prog.bind_eq, Prog.inside_bind]
    exact (RingCode.reset_implements kept).bind fun _ => Prog.Implements.refl _
  | size =>
    simp only [code, Prog.bind_eq, Prog.inside_bind]
    exact (RingCode.query_implements kept fun _ => rfl).bind fun _ => Prog.Implements.refl _
  | dropCount =>
    simp only [code, Prog.bind_eq, Prog.inside_bind]
    exact (RingCode.query_implements kept fun _ => rfl).bind fun _ => Prog.Implements.refl _
  | isEmpty =>
    simp only [code, Prog.bind_eq, Prog.inside_bind]
    exact (RingCode.isEmpty_implements kept).bind fun _ => Prog.Implements.refl _
  | isFull =>
    have full : Prog.Implements port handler (RingCode.isFull.inside field)
        (.atomic (field.apply fun ring => (ring.isFull, ring))) :=
      RingCode.query_implements (f := fun ring => decide (ring.count = ring.capacity)) kept
        fun _ => rfl
    simp only [code, Prog.bind_eq, Prog.inside_bind]
    exact full.bind fun _ => Prog.Implements.refl _

def Represents (n bound : Nat) (ring : SchSpscRing w) (q : Fifo (List Byte)) : Prop :=
  Refines ring q ∧ ring.elementSize.toNat = n ∧ q.capacity = bound

theorem serve_simulates (bound : Nat) : Simulates (Represents (w := w) n bound)
    (fun c : RingRequest n => c.serve) fun c => c.queueServe w := by
  intro c ring q ⟨h, bytes, same⟩
  cases c with
  | push item =>
    cases item with
    | none => exact ⟨rfl, h, bytes, same⟩
    | some block =>
      obtain ⟨status, next⟩ := h.push block.val (block.property.trans bytes.symm)
      refine ⟨congrArg RingAnswer.pushed status, next, ?_, same⟩
      exact (congrArg BitVec.toNat (ring.pushIsr_elementSize _)).trans bytes
  | pop =>
    obtain ⟨item, next⟩ := h.pop
    refine ⟨congrArg RingAnswer.popped item, next, ?_, same⟩
    exact (congrArg BitVec.toNat ring.popTask_elementSize).trans bytes
  | reset =>
    exact ⟨rfl, h.reset, (congrArg BitVec.toNat ring.reset_elementSize).trans bytes, same⟩
  | size =>
    have amount : ring.size = BitVec.ofNat w q.items.length := by
      rw [← h.size_toNat, BitVec.ofNat_toNat, BitVec.setWidth_eq]
    exact ⟨congrArg RingAnswer.amount amount, h, bytes, same⟩
  | dropCount => exact ⟨congrArg RingAnswer.amount h.dropCount_eq, h, bytes, same⟩
  | isEmpty =>
    have flag : ring.isEmpty = decide (q.items = []) := by
      rw [Bool.eq_iff_iff, h.isEmpty_iff, decide_eq_true_iff]
    exact ⟨congrArg RingAnswer.flag flag, h, bytes, same⟩
  | isFull =>
    have flag : ring.isFull = decide (q.items.length = q.capacity) := by
      rw [Bool.eq_iff_iff, h.isFull_iff, decide_eq_true_iff]
    exact ⟨congrArg RingAnswer.flag flag, h, bytes, same⟩

theorem run_serial {port : Masking M I} {isr : I → Client (RingRequest n) (RingAnswer w) Unit}
    {client : Client (RingRequest n) (RingAnswer w) α} {m m' : M} {ring ring' : SchSpscRing w}
    {taken : List I} {a : α} {q : Fifo (List Byte)} {bound : Nat} (start : Represents n bound ring q)
    (run : Prog.Runs port (fun i => (isr i).program code) (client.program code) m ring taken a m'
      ring') :
    m' = m ∧ ∃ history q',
      Client.Serial (fun c => c.queueServe w) isr client q taken history a q' ∧
      Represents n bound ring' q' := by
  have kept : Prog.Stable port
      (fun i => (isr i).program fun c => (Prog.atomic c.serve : Prog M _ _))
      fun ring => ((Field.whole (SchSpscRing w)).get ring).config :=
    Prog.stable_of_steps fun i => Client.program_within (fun c ring => serve_config c ring) (isr i)
  have operations : ∀ c : RingRequest n, Prog.Implements port
      (fun i => (isr i).program fun c => (Prog.atomic c.serve : Prog M _ _)) c.code
      (.atomic c.serve) := by
    intro c
    have implemented := code_implements kept c
    rwa [Prog.inside_whole] at implemented
  obtain ⟨restored, history, explained⟩ := Client.serial operations run
  obtain ⟨q', ideal, last⟩ := explained.simulate (serve_simulates bound) start
  exact ⟨restored, history, q', ideal, last⟩

end RingRequest

/-- After a successful init, every client of the ring under every preemption by other clients
leaves the interrupt state as it found it and has a history in which one call is served at a
time, with the calls of exactly the interrupts taken: the bounded queue gives the same answers in
the same order, and the ring ends as it. -/
theorem preempted_ring_serial {M I α : Type} {w n : Nat} (port : Masking M I)
    (isr : I → Client (RingRequest n) (RingAnswer w) Unit)
    (client : Client (RingRequest n) (RingAnswer w) α) (ring ring' : SchSpscRing w)
    (memory : List Byte) (capacity elementSize : BitVec w) (policy : Fifo.Policy)
    (positive : 0 < capacity.toNat) (element : 0 < elementSize.toNat)
    (length : memory.length = capacity.toNat * elementSize.toNat) (fits : memory.length < 2 ^ w)
    (items : elementSize.toNat = n) (m m' : M) (taken : List I) (a : α)
    (run : Prog.Runs port (fun i => (isr i).program RingRequest.code)
      (client.program RingRequest.code) m
      (ring.init (some memory) capacity elementSize (modeOf policy)).2 taken a m' ring') :
    m' = m ∧ ∃ history q',
      Client.Serial (fun c => c.queueServe w) isr client
        (Fifo.empty capacity.toNat policy positive) taken history a q' ∧
      perform (fun c => c.queueServe w) (Fifo.empty capacity.toNat policy positive)
        (history.map Served.call) = (history.map Served.answer, q') ∧
      client.Answers ((history.filter Served.own).map fun x => (x.call, x.answer)) a ∧
      ring'.blocks = q'.items ∧ ring'.dropCount = BitVec.ofNat w q'.drops ∧
      WithinStorage ring' capacity.toNat n := by
  obtain ⟨-, start⟩ := init_refines ring memory capacity elementSize policy positive element
    length fits
  have bytes : (ring.init (some memory) capacity elementSize (modeOf policy)).2.elementSize.toNat =
      n := by
    have hc : capacity ≠ 0#w := fun zero => by simp [zero] at positive
    have he : elementSize ≠ 0#w := fun zero => by simp [zero] at element
    cases policy <;> simpa [SchSpscRing.init, hc, he, modeOf] using items
  obtain ⟨restored, history, q', ideal, last, size, bound⟩ :=
    RingRequest.run_serial ⟨start, bytes, rfl⟩ run
  have within := last.withinStorage
  rw [size, bound] at within
  exact ⟨restored, history, q', ideal, ideal.performs, ideal.answers, last.blocks,
    last.dropCount_eq, within⟩

section Example

def pushingIsr (_ : Unit) : Client (RingRequest 1) (RingAnswer 16) Unit :=
  .call (.push (some ⟨[5], rfl⟩)) fun _ => .done ()

def poppingClient : Client (RingRequest 1) (RingAnswer 16) (RingAnswer 16) := .call .pop .done

def flagPort : Masking Bool Unit := ⟨fun _ => true, fun m _ => !m, fun _ _ => rfl⟩

def byteRing : SchSpscRing 16 :=
  ((⟨none, 0, 0, 0, 0, 0, 0, .other 7⟩ : SchSpscRing 16).init (some [0]) 1 1
    (modeOf .dropNewest)).2

def afterPush : Unit × Bool × SchSpscRing 16 :=
  ((pushingIsr ()).program RingRequest.code).alone flagPort.raise false byteRing

def afterPop : RingAnswer 16 × Bool × SchSpscRing 16 :=
  (poppingClient.program RingRequest.code).alone flagPort.raise afterPush.2.1 afterPush.2.2

/-- A push interrupts a pop from an empty ring, which then finds the block and leaves the ring
empty, as one after the other they would. -/
theorem preempted_ring_serial_pushed_first :
    ∃ ring', Prog.Runs flagPort (fun i => (pushingIsr i).program RingRequest.code)
        (poppingClient.program RingRequest.code) false byteRing [()] (.popped (some [5])) false
        ring' ∧
      ring'.blocks = [] ∧ ∃ history q', Client.Serial (fun c => c.queueServe 16) pushingIsr
        poppingClient (Fifo.empty 1 .dropNewest (by decide)) [()] history (.popped (some [5])) q' ∧
      q'.items = [] := by
  have run : Prog.Runs flagPort (fun i => (pushingIsr i).program RingRequest.code)
      (poppingClient.program RingRequest.code) false byteRing [()] afterPop.1 afterPop.2.1
      afterPop.2.2 :=
    Prog.runs_interrupted flagPort (fun i => (pushingIsr i).program RingRequest.code)
      (poppingClient.program RingRequest.code) false byteRing () rfl
  have answer : afterPop.1 = .popped (some [5]) := by decide +kernel
  have unmasked : afterPop.2.1 = false := by decide +kernel
  have empty : afterPop.2.2.blocks = [] := by decide +kernel
  rw [answer, unmasked] at run
  obtain ⟨-, history, q', ideal, -, -, blocks, -⟩ := preempted_ring_serial flagPort pushingIsr
    poppingClient _ _ [0] 1 1 .dropNewest (by decide) (by decide) (by decide) (by decide)
    (by decide) _ _ _ _ run
  exact ⟨afterPop.2.2, run, empty, history, q', ideal, blocks.symm.trans empty⟩

end Example

end SchedulerLib.IsrBuffer
