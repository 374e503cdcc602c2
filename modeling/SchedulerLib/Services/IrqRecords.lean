import SchedulerLib.IsrBuffer.TypedRing
import SchedulerLib.Lib.World

/-!
What `fsi_service.c` and `ipc_service.c` have in common: interrupt handlers put records
into a ring, and a run hands each record to the callback of its class. `T` is the type of
interrupt classes, `R` the record, and `A` a call of an interrupt handler with its
arguments. A run is preempted by whatever calls `fire` makes the environment raise.
-/

namespace SchedulerLib.Services

open Lib IsrBuffer

structure IrqHal (T R σ : Type) where
  ackIrq : Option (T → BitVec 16 → σ → σ)
  service : T → Option (R → σ → Bool × σ)

structure IrqService (T R σ : Type) (w : Nat) where
  hal : IrqHal T R σ
  irqRecords : SchSpscRing w
  eventBits : BitVec 32
  maxRecordsPerRun : BitVec w

inductive IrqEvent (A T R : Type) where
  | ackIrq (tag : T) (source : BitVec 16)
  | push (call : A) (status : SchRingPushStatus)
  | pop (record : R)
  | invoke (tag : T) (record : R)
  deriving DecidableEq, Repr

abbrev IrqWorld (A T R σ : Type) (w : Nat) := World (IrqService T R σ w) (IrqEvent A T R) σ

namespace IrqService

variable {A T R σ : Type} {w : Nat} (layout : Layout R)

def init (service : IrqService T R σ w) (hal : Option (IrqHal T R σ))
    (recordStorage : Option (List Byte)) (recordCapacity maxRecordsPerRun : BitVec w)
    (overflowMode : SchOverflowMode) : Bool × IrqService T R σ w :=
  match hal with
  | none => (false, service)
  | some hal =>
    if maxRecordsPerRun = 0#w then (false, service)
    else
      let records := service.irqRecords.initAs layout recordStorage recordCapacity overflowMode
      (records.1,
        { hal := hal
          irqRecords := records.2
          eventBits := 0
          maxRecordsPerRun := maxRecordsPerRun })

def acknowledge (tag : T) (source : BitVec 16) (s : IrqWorld A T R σ w) : IrqWorld A T R σ w :=
  match s.state.hal.ackIrq with
  | none => s
  | some ack => (s.setEnv (ack tag source s.env)).emit (.ackIrq tag source)

/-- The common `isr_push`; `call` names the handler call for the log. -/
def isrPush (call : A) (tag : T) (source : BitVec 16) (record : R) (eventBit : BitVec 32)
    (s : IrqWorld A T R σ w) : IrqWorld A T R σ w :=
  let s := acknowledge tag source s
  let r := s.state.irqRecords.pushAs layout record
  ((s.modify fun service => { service with irqRecords := r.2 }).emit (.push call r.1)).modify
    fun service => { service with eventBits := service.eventBits ||| eventBit }

/-- The switch on a record's tag; `classOf` finds no class for an unknown tag. -/
def dispatch (classOf : R → Option T) (record : R) (s : IrqWorld A T R σ w) :
    IrqWorld A T R σ w :=
  match classOf record with
  | none => s
  | some tag =>
    match s.state.hal.service tag with
    | none => s
    | some callback => (s.setEnv (callback record s.env).2).emit (.invoke tag record)

def drainRecords (classOf : R → Option T) (gap : IrqWorld A T R σ w → IrqWorld A T R σ w) :
    Nat → IrqWorld A T R σ w → IrqWorld A T R σ w
  | 0, s => s
  | n + 1, s =>
    let s := gap s
    let r := s.state.irqRecords.popAs layout
    match r.1 with
    | none => s
    | some record =>
      let s := (s.modify fun service => { service with irqRecords := r.2 }).emit (.pop record)
      drainRecords classOf gap n (dispatch classOf record (gap s))

def run (classOf : R → Option T) (gap : IrqWorld A T R σ w → IrqWorld A T R σ w)
    (s : IrqWorld A T R σ w) : IrqWorld A T R σ w :=
  let pendingEventBits := s.state.eventBits
  let s := s.modify fun service => { service with eventBits := 0 }
  if pendingEventBits = 0 then
    let s := gap s
    if s.state.irqRecords.isEmpty then s
    else drainRecords layout classOf gap s.state.maxRecordsPerRun.toNat s
  else drainRecords layout classOf gap s.state.maxRecordsPerRun.toNat s

def dropCount (service : IrqService T R σ w) : BitVec w := service.irqRecords.dropCount

/-- Between two critical sections, the handlers the environment raises run to completion. -/
def preempted (enter : A → IrqWorld A T R σ w → IrqWorld A T R σ w) (fire : σ → List A × σ)
    (s : IrqWorld A T R σ w) : IrqWorld A T R σ w :=
  (fire s.env).1.foldl (fun s call => enter call s) (s.setEnv (fire s.env).2)

end IrqService

inductive IrqCall (A : Type) where
  | isr (call : A)
  | run
  deriving DecidableEq, Repr

end SchedulerLib.Services
