import SchedulerLib.IsrBuffer.TypedRing
import SchedulerLib.Lib.World

/-! `i2c_eeprom_service.c`. -/

namespace SchedulerLib.Services

open Lib IsrBuffer

inductive SchI2cEventId where
  | transferDone
  | transferError
  deriving DecidableEq, Repr

def SchI2cEventId.code : SchI2cEventId → BitVec 32
  | .transferDone => 1
  | .transferError => 2

structure SchEepromRequest where
  address : BitVec 16
  length : BitVec 16
  write : Bool
  deriving DecidableEq, Repr

/-- `consumeCompletion` returns what it wrote to its event pointer, if anything; its Boolean
result is ignored by the service. -/
structure SchI2cEepromHal (σ : Type) where
  ackIrq : Option (σ → σ)
  submitRequest : Option (SchEepromRequest → σ → Bool × σ)
  consumeCompletion : Option (σ → (Bool × Option (BitVec 32)) × σ)

structure SchI2cEepromService (σ : Type) (w : Nat) where
  hal : SchI2cEepromHal σ
  requestRing : SchSpscRing w
  completionQueue : SchEventQueue w
  irqHint : Bool
  maxRequestsPerRun : BitVec w
  maxCompletionsPerRun : BitVec w

inductive EepromEvent where
  | ackIrq
  | enqueueRequest (request : Option SchEepromRequest) (queued : Bool)
  | consumeCompletion (wrote : Option (BitVec 32))
  | pushCompletion (eventId : BitVec 16) (status : SchRingPushStatus)
  | takeRequest (request : SchEepromRequest)
  | submitRequest (request : SchEepromRequest) (submitted : Bool)
  | takeCompletion (eventId : BitVec 16)
  deriving DecidableEq, Repr

abbrev EepromWorld (σ : Type) (w : Nat) := World (SchI2cEepromService σ w) EepromEvent σ

namespace SchI2cEeprom

variable {σ : Type} {w : Nat} (u16 : Layout (BitVec 16)) (descriptor : Layout SchEepromRequest)

def serviceInit (service : SchI2cEepromService σ w) (hal : Option (SchI2cEepromHal σ))
    (requestStorage : Option (List Byte)) (requestCapacity : BitVec w)
    (completionStorage : Option (List Byte)) (completionCapacity : BitVec w)
    (maxRequestsPerRun maxCompletionsPerRun : BitVec w) : Bool × SchI2cEepromService σ w :=
  match hal with
  | none => (false, service)
  | some hal =>
    if hal.submitRequest.isNone || decide (maxRequestsPerRun = 0#w) ||
        decide (maxCompletionsPerRun = 0#w) then
      (false, service)
    else
      let requests := service.requestRing.initAs descriptor requestStorage requestCapacity
        .dropNewest
      let completions := service.completionQueue.init u16 completionStorage completionCapacity
        .dropOldest
      (requests.1 && completions.1,
        { hal := hal
          requestRing := requests.2
          completionQueue := completions.2
          irqHint := false
          maxRequestsPerRun := maxRequestsPerRun
          maxCompletionsPerRun := maxCompletionsPerRun })

def enqueueRequestIsr (request : Option SchEepromRequest) (s : EepromWorld σ w) :
    EepromWorld σ w :=
  match request with
  | none => s.emit (.enqueueRequest none false)
  | some r =>
    let pushed := s.state.requestRing.pushAs descriptor r
    (s.modify fun service => { service with requestRing := pushed.2 }).emit
      (.enqueueRequest (some r) (decide (pushed.1 = .ok)))

def acknowledge (s : EepromWorld σ w) : EepromWorld σ w :=
  match s.state.hal.ackIrq with
  | none => s
  | some ack => (s.setEnv (ack s.env)).emit .ackIrq

/-- The event a completion interrupt reports: transfer done, unless the callback says else. -/
def completionEvent (s : EepromWorld σ w) : BitVec 32 × EepromWorld σ w :=
  match s.state.hal.consumeCompletion with
  | none => (SchI2cEventId.transferDone.code, s)
  | some consumeCompletion =>
    let r := consumeCompletion s.env
    (r.1.2.getD SchI2cEventId.transferDone.code, (s.setEnv r.2).emit (.consumeCompletion r.1.2))

def isrComplete (s : EepromWorld σ w) : EepromWorld σ w :=
  let event := completionEvent (acknowledge s)
  let eventId := event.1.setWidth 16
  let pushed := event.2.state.completionQueue.pushIsr u16 eventId
  ((event.2.modify fun service => { service with completionQueue := pushed.2 }).emit
    (.pushCompletion eventId pushed.1)).modify fun service => { service with irqHint := true }

def drainRequests (gap : EepromWorld σ w → EepromWorld σ w) :
    Nat → EepromWorld σ w → EepromWorld σ w
  | 0, s => s
  | n + 1, s =>
    let s := gap s
    let r := s.state.requestRing.popAs descriptor
    match r.1 with
    | none => s
    | some request =>
      let s := gap ((s.modify fun service => { service with requestRing := r.2 }).emit
        (.takeRequest request))
      match s.state.hal.submitRequest with
      | none => s
      | some submitRequest =>
        let answer := submitRequest request s.env
        let s := (s.setEnv answer.2).emit (.submitRequest request answer.1)
        -- a rejected request has left the ring and is not put back
        if answer.1 then drainRequests gap n s else s

/-- The completion loop of `sch_i2c_eeprom_service_run`; no case of its switch does a thing. -/
def drainCompletions (gap : EepromWorld σ w → EepromWorld σ w) :
    Nat → EepromWorld σ w → EepromWorld σ w
  | 0, s => s
  | n + 1, s =>
    let s := gap s
    let r := s.state.completionQueue.popTask u16
    match r.1 with
    | none => s
    | some eventId =>
      drainCompletions gap n
        ((s.modify fun service => { service with completionQueue := r.2 }).emit
          (.takeCompletion eventId))

def drain (gap : EepromWorld σ w → EepromWorld σ w) (s : EepromWorld σ w) : EepromWorld σ w :=
  let s := drainRequests descriptor gap s.state.maxRequestsPerRun.toNat s
  drainCompletions u16 gap s.state.maxCompletionsPerRun.toNat s

def serviceRun (gap : EepromWorld σ w → EepromWorld σ w) (s : EepromWorld σ w) :
    EepromWorld σ w :=
  let hadIrqHint := s.state.irqHint
  let s := s.modify fun service => { service with irqHint := false }
  if hadIrqHint then drain u16 descriptor gap s
  else
    let s := gap s
    if !s.state.requestRing.isEmpty then drain u16 descriptor gap s
    else
      let s := gap s
      if s.state.completionQueue.size = 0#w then s else drain u16 descriptor gap s

end SchI2cEeprom

inductive EepromCall where
  | enqueueRequest (request : Option SchEepromRequest)
  | isrComplete
  | run
  deriving DecidableEq, Repr

def eepromStep {σ : Type} {w : Nat} (u16 : Layout (BitVec 16))
    (descriptor : Layout SchEepromRequest) (s : EepromWorld σ w) : EepromCall → EepromWorld σ w
  | .enqueueRequest request => SchI2cEeprom.enqueueRequestIsr descriptor request s
  | .isrComplete => SchI2cEeprom.isrComplete u16 s
  | .run => SchI2cEeprom.serviceRun u16 descriptor id s

end SchedulerLib.Services
