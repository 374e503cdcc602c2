import SchedulerLib.Services.IrqRecords

/-!
`ethernet_service.c`. Interrupt handlers queue event identifiers, and a run asks the HAL
about each of them. As for the other services, `gap` is what preempts a run.
-/

namespace SchedulerLib.Services

open Lib IsrBuffer

inductive SchEthEventId where
  | rxReady
  | txDone
  | linkChange
  deriving DecidableEq, Repr

def SchEthEventId.code : SchEthEventId → BitVec 16
  | .rxReady => 1
  | .txDone => 2
  | .linkChange => 3

/-- A descriptor callback yields the descriptor, or `none` for false. -/
structure SchEthHal (σ : Type) where
  ackIrq : Option (σ → σ)
  fetchRxDescriptor : Option (σ → Option (BitVec 16) × σ)
  completeTxDescriptor : Option (σ → Option (BitVec 16) × σ)
  serviceLinkState : Option (σ → Bool × σ)

structure SchEthService (σ : Type) (w : Nat) where
  hal : SchEthHal σ
  eventQueue : SchEventQueue w
  irqHint : Bool
  maxEventsPerRun : BitVec w

/-- `ackIrq` names the handler that acknowledges. -/
inductive EthEvent where
  | ackIrq (id : SchEthEventId)
  | pushEvent (id : SchEthEventId) (status : SchRingPushStatus)
  | takeEvent (eventId : BitVec 16)
  | fetchRxDescriptor
  | completeTxDescriptor
  | serviceLinkState
  deriving DecidableEq, Repr

abbrev EthWorld (σ : Type) (w : Nat) := World (SchEthService σ w) EthEvent σ

namespace SchEth

variable {σ : Type} {w : Nat} (u16 : Layout (BitVec 16))

def serviceInit (service : SchEthService σ w) (hal : Option (SchEthHal σ))
    (eventStorage : Option (List Byte)) (eventCapacity maxEventsPerRun : BitVec w) :
    Bool × SchEthService σ w :=
  match hal with
  | none => (false, service)
  | some hal =>
    if hal.ackIrq.isNone || decide (maxEventsPerRun = 0#w) then (false, service)
    else
      let events := service.eventQueue.init u16 eventStorage eventCapacity .dropOldest
      (events.1,
        { hal := hal
          eventQueue := events.2
          irqHint := false
          maxEventsPerRun := maxEventsPerRun })

/-- The unconditional call of `ack_irq`, which init has found not to be NULL. -/
def acknowledge (id : SchEthEventId) (s : EthWorld σ w) : EthWorld σ w :=
  match s.state.hal.ackIrq with
  | none => s
  | some ack => (s.setEnv (ack s.env)).emit (.ackIrq id)

def pushEventIsr (id : SchEthEventId) (s : EthWorld σ w) : EthWorld σ w :=
  let s := acknowledge id s
  let r := s.state.eventQueue.pushIsr u16 id.code
  ((s.modify fun service => { service with eventQueue := r.2 }).emit (.pushEvent id r.1)).modify
    fun service => { service with irqHint := true }

def isrRx (s : EthWorld σ w) : EthWorld σ w := pushEventIsr u16 .rxReady s

def isrTx (s : EthWorld σ w) : EthWorld σ w := pushEventIsr u16 .txDone s

def isrLink (s : EthWorld σ w) : EthWorld σ w := pushEventIsr u16 .linkChange s

def isr : SchEthEventId → EthWorld σ w → EthWorld σ w
  | .rxReady => isrRx u16
  | .txDone => isrTx u16
  | .linkChange => isrLink u16

def halFetchRxDescriptor (s : EthWorld σ w) : EthWorld σ w :=
  match s.state.hal.fetchRxDescriptor with
  | none => s
  | some fetch => (s.setEnv (fetch s.env).2).emit .fetchRxDescriptor

def halCompleteTxDescriptor (s : EthWorld σ w) : EthWorld σ w :=
  match s.state.hal.completeTxDescriptor with
  | none => s
  | some complete => (s.setEnv (complete s.env).2).emit .completeTxDescriptor

def halServiceLinkState (s : EthWorld σ w) : EthWorld σ w :=
  match s.state.hal.serviceLinkState with
  | none => s
  | some serviceLink => (s.setEnv (serviceLink s.env).2).emit .serviceLinkState

def handleEvent (eventId : BitVec 16) (s : EthWorld σ w) : EthWorld σ w :=
  if eventId = SchEthEventId.rxReady.code then halFetchRxDescriptor s
  else if eventId = SchEthEventId.txDone.code then halCompleteTxDescriptor s
  else if eventId = SchEthEventId.linkChange.code then halServiceLinkState s
  else s

def drainEvents (gap : EthWorld σ w → EthWorld σ w) : Nat → EthWorld σ w → EthWorld σ w
  | 0, s => s
  | n + 1, s =>
    let s := gap s
    let r := s.state.eventQueue.popTask u16
    match r.1 with
    | none => s
    | some eventId =>
      let s := (s.modify fun service => { service with eventQueue := r.2 }).emit
        (.takeEvent eventId)
      drainEvents gap n (handleEvent eventId (gap s))

def serviceRun (gap : EthWorld σ w → EthWorld σ w) (s : EthWorld σ w) : EthWorld σ w :=
  let hadIrqHint := s.state.irqHint
  let s := s.modify fun service => { service with irqHint := false }
  if hadIrqHint then drainEvents u16 gap s.state.maxEventsPerRun.toNat s
  else
    let s := gap s
    if s.state.eventQueue.size = 0#w then s
    else drainEvents u16 gap s.state.maxEventsPerRun.toNat s

/-- Between two critical sections, the handlers the environment raises run to completion. -/
def preempted (fire : σ → List SchEthEventId × σ) (s : EthWorld σ w) : EthWorld σ w :=
  (fire s.env).1.foldl (fun s id => isr u16 id s) (s.setEnv (fire s.env).2)

end SchEth

def ethStep {σ : Type} {w : Nat} (u16 : Layout (BitVec 16))
    (fire : σ → List SchEthEventId × σ) (s : EthWorld σ w) : IrqCall SchEthEventId → EthWorld σ w
  | .isr id => SchEth.isr u16 id s
  | .run => SchEth.serviceRun u16 (SchEth.preempted u16 fire) s

end SchedulerLib.Services
