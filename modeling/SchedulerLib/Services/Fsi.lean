import SchedulerLib.Services.IrqRecords

/-! `fsi_service.c`. -/

namespace SchedulerLib.Services

open Lib IsrBuffer

inductive SchFsiIrqTag where
  | rx
  | tx
  | error
  deriving DecidableEq, Repr

def SchFsiIrqTag.code : SchFsiIrqTag → BitVec 16
  | .rx => 1
  | .tx => 2
  | .error => 3

/-- `sch_fsi_event_bit_t` of a class. -/
def SchFsiIrqTag.eventBit : SchFsiIrqTag → BitVec 32
  | .rx => 1 <<< 0
  | .tx => 1 <<< 1
  | .error => 1 <<< 2

structure SchFsiIrqRecord where
  channel : BitVec 16
  frameIndex : BitVec 16
  irqTag : BitVec 16
  status : BitVec 16
  deriving DecidableEq, Repr

structure SchFsiHal (σ : Type) where
  ackIrq : Option (SchFsiIrqTag → BitVec 16 → σ → σ)
  serviceRxFrame : Option (SchFsiIrqRecord → σ → Bool × σ)
  serviceTxComplete : Option (SchFsiIrqRecord → σ → Bool × σ)
  serviceError : Option (SchFsiIrqRecord → σ → Bool × σ)

def SchFsiHal.callbacks {σ : Type} (hal : SchFsiHal σ) : IrqHal SchFsiIrqTag SchFsiIrqRecord σ where
  ackIrq := hal.ackIrq
  service
    | .rx => hal.serviceRxFrame
    | .tx => hal.serviceTxComplete
    | .error => hal.serviceError

inductive FsiIsr where
  | rx (channel frameIndex status : BitVec 16)
  | tx (channel frameIndex status : BitVec 16)
  | error (channel errorStatus : BitVec 16)
  deriving DecidableEq, Repr

abbrev SchFsiService (σ : Type) (w : Nat) := IrqService SchFsiIrqTag SchFsiIrqRecord σ w

abbrev FsiWorld (σ : Type) (w : Nat) := IrqWorld FsiIsr SchFsiIrqTag SchFsiIrqRecord σ w

namespace SchFsi

variable {σ : Type} {w : Nat} (layout : Layout SchFsiIrqRecord)

def serviceInit (service : SchFsiService σ w) (hal : Option (SchFsiHal σ))
    (recordStorage : Option (List Byte)) (recordCapacity maxRecordsPerRun : BitVec w)
    (overflowMode : SchOverflowMode) : Bool × SchFsiService σ w :=
  service.init layout (hal.map SchFsiHal.callbacks) recordStorage recordCapacity maxRecordsPerRun
    overflowMode

def isrPush (call : FsiIsr) (tag : SchFsiIrqTag) (channel frameIndex status : BitVec 16)
    (eventBit : BitVec 32) (s : FsiWorld σ w) : FsiWorld σ w :=
  IrqService.isrPush layout call tag channel
    { channel := channel, frameIndex := frameIndex, irqTag := tag.code, status := status }
    eventBit s

def isrRx (channel frameIndex status : BitVec 16) (s : FsiWorld σ w) : FsiWorld σ w :=
  isrPush layout (.rx channel frameIndex status) .rx channel frameIndex status
    SchFsiIrqTag.rx.eventBit s

def isrTx (channel frameIndex status : BitVec 16) (s : FsiWorld σ w) : FsiWorld σ w :=
  isrPush layout (.tx channel frameIndex status) .tx channel frameIndex status
    SchFsiIrqTag.tx.eventBit s

def isrError (channel errorStatus : BitVec 16) (s : FsiWorld σ w) : FsiWorld σ w :=
  isrPush layout (.error channel errorStatus) .error channel 0 errorStatus
    SchFsiIrqTag.error.eventBit s

/-- The cases of the switch in `sch_fsi_service_run`. -/
def classOf (record : SchFsiIrqRecord) : Option SchFsiIrqTag :=
  if record.irqTag = SchFsiIrqTag.rx.code then some .rx
  else if record.irqTag = SchFsiIrqTag.tx.code then some .tx
  else if record.irqTag = SchFsiIrqTag.error.code then some .error
  else none

def serviceRun (gap : FsiWorld σ w → FsiWorld σ w) (s : FsiWorld σ w) : FsiWorld σ w :=
  IrqService.run layout classOf gap s

def serviceDropCount (service : SchFsiService σ w) : BitVec w := service.dropCount

def isr : FsiIsr → FsiWorld σ w → FsiWorld σ w
  | .rx channel frameIndex status => isrRx layout channel frameIndex status
  | .tx channel frameIndex status => isrTx layout channel frameIndex status
  | .error channel errorStatus => isrError layout channel errorStatus

end SchFsi

def fsiStep {σ : Type} {w : Nat} (layout : Layout SchFsiIrqRecord) (fire : σ → List FsiIsr × σ)
    (s : FsiWorld σ w) : IrqCall FsiIsr → FsiWorld σ w
  | .isr call => SchFsi.isr layout call s
  | .run => SchFsi.serviceRun layout (IrqService.preempted (SchFsi.isr layout) fire) s

end SchedulerLib.Services
