import SchedulerLib.Services.IrqRecords

/-! `ipc_service.c`. The handlers of this service differ in the order of their arguments. -/

namespace SchedulerLib.Services

open Lib IsrBuffer

inductive SchIpcIrqTag where
  | notify
  | ack
  | fault
  deriving DecidableEq, Repr

def SchIpcIrqTag.code : SchIpcIrqTag → BitVec 16
  | .notify => 1
  | .ack => 2
  | .fault => 3

/-- `sch_ipc_event_bit_t` of a class. -/
def SchIpcIrqTag.eventBit : SchIpcIrqTag → BitVec 32
  | .notify => 1 <<< 0
  | .ack => 1 <<< 1
  | .fault => 1 <<< 2

structure SchIpcIrqRecord where
  endpoint : BitVec 16
  slot : BitVec 16
  irqTag : BitVec 16
  detailFlags : BitVec 16
  deriving DecidableEq, Repr

structure SchIpcHal (σ : Type) where
  ackIrq : Option (SchIpcIrqTag → BitVec 16 → σ → σ)
  serviceNotify : Option (SchIpcIrqRecord → σ → Bool × σ)
  serviceAck : Option (SchIpcIrqRecord → σ → Bool × σ)
  serviceFault : Option (SchIpcIrqRecord → σ → Bool × σ)

def SchIpcHal.callbacks {σ : Type} (hal : SchIpcHal σ) : IrqHal SchIpcIrqTag SchIpcIrqRecord σ where
  ackIrq := hal.ackIrq
  service
    | .notify => hal.serviceNotify
    | .ack => hal.serviceAck
    | .fault => hal.serviceFault

inductive IpcIsr where
  | notify (endpoint slot payloadFlags : BitVec 16)
  | ack (endpoint slot ackFlags : BitVec 16)
  | fault (endpoint faultFlags sourceSlot : BitVec 16)
  deriving DecidableEq, Repr

abbrev SchIpcService (σ : Type) (w : Nat) := IrqService SchIpcIrqTag SchIpcIrqRecord σ w

abbrev IpcWorld (σ : Type) (w : Nat) := IrqWorld IpcIsr SchIpcIrqTag SchIpcIrqRecord σ w

namespace SchIpc

variable {σ : Type} {w : Nat} (layout : Layout SchIpcIrqRecord)

def serviceInit (service : SchIpcService σ w) (hal : Option (SchIpcHal σ))
    (recordStorage : Option (List Byte)) (recordCapacity maxRecordsPerRun : BitVec w)
    (overflowMode : SchOverflowMode) : Bool × SchIpcService σ w :=
  service.init layout (hal.map SchIpcHal.callbacks) recordStorage recordCapacity maxRecordsPerRun
    overflowMode

def isrPush (call : IpcIsr) (tag : SchIpcIrqTag) (endpoint slot detailFlags : BitVec 16)
    (eventBit : BitVec 32) (s : IpcWorld σ w) : IpcWorld σ w :=
  IrqService.isrPush layout call tag endpoint
    { endpoint := endpoint, slot := slot, irqTag := tag.code, detailFlags := detailFlags }
    eventBit s

def isrNotify (endpoint slot payloadFlags : BitVec 16) (s : IpcWorld σ w) : IpcWorld σ w :=
  isrPush layout (.notify endpoint slot payloadFlags) .notify endpoint slot payloadFlags
    SchIpcIrqTag.notify.eventBit s

def isrAck (endpoint slot ackFlags : BitVec 16) (s : IpcWorld σ w) : IpcWorld σ w :=
  isrPush layout (.ack endpoint slot ackFlags) .ack endpoint slot ackFlags
    SchIpcIrqTag.ack.eventBit s

/-- `sch_ipc_isr_fault`; the flags come before the slot. -/
def isrFault (endpoint faultFlags sourceSlot : BitVec 16) (s : IpcWorld σ w) : IpcWorld σ w :=
  isrPush layout (.fault endpoint faultFlags sourceSlot) .fault endpoint sourceSlot faultFlags
    SchIpcIrqTag.fault.eventBit s

/-- The cases of the switch in `sch_ipc_service_run`. -/
def classOf (record : SchIpcIrqRecord) : Option SchIpcIrqTag :=
  if record.irqTag = SchIpcIrqTag.notify.code then some .notify
  else if record.irqTag = SchIpcIrqTag.ack.code then some .ack
  else if record.irqTag = SchIpcIrqTag.fault.code then some .fault
  else none

def serviceRun (gap : IpcWorld σ w → IpcWorld σ w) (s : IpcWorld σ w) : IpcWorld σ w :=
  IrqService.run layout classOf gap s

def serviceDropCount (service : SchIpcService σ w) : BitVec w := service.dropCount

def isr : IpcIsr → IpcWorld σ w → IpcWorld σ w
  | .notify endpoint slot payloadFlags => isrNotify layout endpoint slot payloadFlags
  | .ack endpoint slot ackFlags => isrAck layout endpoint slot ackFlags
  | .fault endpoint faultFlags sourceSlot => isrFault layout endpoint faultFlags sourceSlot

end SchIpc

def ipcStep {σ : Type} {w : Nat} (layout : Layout SchIpcIrqRecord) (fire : σ → List IpcIsr × σ)
    (s : IpcWorld σ w) : IrqCall IpcIsr → IpcWorld σ w
  | .isr call => SchIpc.isr layout call s
  | .run => SchIpc.serviceRun layout (IrqService.preempted (SchIpc.isr layout) fire) s

end SchedulerLib.Services
