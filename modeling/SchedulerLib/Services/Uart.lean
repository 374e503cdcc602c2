import SchedulerLib.IsrBuffer.TypedRing
import SchedulerLib.Lib.World

/-!
`uart_service.c`. The hardware is the environment `σ` behind the HAL callbacks. `run`
takes `gap`, what other contexts do between two of its critical sections; `id` stands
for a run that nothing preempts.
-/

namespace SchedulerLib.Services

open Lib IsrBuffer

/-- The callbacks may be NULL (`none`); a read yields the byte, or `none` for false. -/
structure SchUartHal (σ : Type) where
  tryReadByte : Option (σ → Option (BitVec 16) × σ)
  tryWriteByte : Option (BitVec 16 → σ → Bool × σ)
  ackIrq : Option (σ → σ)

structure SchUartService (σ : Type) (w : Nat) where
  hal : SchUartHal σ
  rxRing : SchSpscRing w
  txRing : SchSpscRing w
  rxHint : Bool
  txHint : Bool
  maxRxItemsPerRun : BitVec w
  maxTxItemsPerRun : BitVec w

/-- HAL calls, answers to callers, and the moves of bytes between ring and task. -/
inductive UartEvent where
  | ackIrq
  | readByte (byte : Option (BitVec 16))
  | writeByte (byte : BitVec 16) (accepted : Bool)
  | queueTx (byte : BitVec 16) (queued : Bool)
  | takeTx (byte : BitVec 16)
  | putBackTx (byte : BitVec 16) (status : SchRingPushStatus)
  | takeRx (byte : BitVec 16)
  deriving DecidableEq, Repr

abbrev UartWorld (σ : Type) (w : Nat) := World (SchUartService σ w) UartEvent σ

namespace SchUart

variable {σ : Type} {w : Nat} (u16 : Layout (BitVec 16))

def serviceInit (service : SchUartService σ w) (hal : Option (SchUartHal σ))
    (rxStorage : Option (List Byte)) (rxCapacity : BitVec w)
    (txStorage : Option (List Byte)) (txCapacity : BitVec w)
    (maxRxItemsPerRun maxTxItemsPerRun : BitVec w) : Bool × SchUartService σ w :=
  match hal with
  | none => (false, service)
  | some hal =>
    if hal.tryReadByte.isNone || hal.tryWriteByte.isNone ||
        decide (maxRxItemsPerRun = 0#w) || decide (maxTxItemsPerRun = 0#w) then
      (false, service)
    else
      let rx := service.rxRing.initAs u16 rxStorage rxCapacity .dropOldest
      let tx := service.txRing.initAs u16 txStorage txCapacity .dropNewest
      (rx.1 && tx.1,
        { hal := hal
          rxRing := rx.2
          txRing := tx.2
          rxHint := false
          txHint := false
          maxRxItemsPerRun := maxRxItemsPerRun
          maxTxItemsPerRun := maxTxItemsPerRun })

def acknowledge (s : UartWorld σ w) : UartWorld σ w :=
  match s.state.hal.ackIrq with
  | none => s
  | some ack => (s.setEnv (ack s.env)).emit .ackIrq

/-- `sch_uart_isr_rx`; the missing-callback branch is unreachable once init succeeded. -/
def isrRx (s : UartWorld σ w) : UartWorld σ w :=
  let s := acknowledge s
  match s.state.hal.tryReadByte with
  | none => s
  | some tryReadByte =>
    let r := tryReadByte s.env
    let s := (s.setEnv r.2).emit (.readByte r.1)
    match r.1 with
    | none => s
    | some byte => s.modify fun service =>
      { service with rxRing := (service.rxRing.pushAs u16 byte).2, rxHint := true }

def isrTxReady (s : UartWorld σ w) : UartWorld σ w :=
  (acknowledge s).modify fun service => { service with txHint := true }

def queueTx (byte : BitVec 16) (s : UartWorld σ w) : UartWorld σ w :=
  let r := s.state.txRing.pushAs u16 byte
  (s.modify fun service => { service with txRing := r.2 }).emit
    (.queueTx byte (decide (r.1 = .ok)))

def drainTx (gap : UartWorld σ w → UartWorld σ w) : Nat → UartWorld σ w → UartWorld σ w
  | 0, s => s
  | n + 1, s =>
    let s := gap s
    let r := s.state.txRing.popAs u16
    match r.1 with
    | none => s
    | some byte =>
      let s := (s.modify fun service => { service with txRing := r.2 }).emit (.takeTx byte)
      let s := gap s
      match s.state.hal.tryWriteByte with
      | none => s
      | some tryWriteByte =>
        let answer := tryWriteByte byte s.env
        let s := (s.setEnv answer.2).emit (.writeByte byte answer.1)
        if answer.1 then drainTx gap n s
        else
          -- the byte goes back through the producer end, behind everything still queued
          let s := gap s
          let back := s.state.txRing.pushAs u16 byte
          (s.modify fun service => { service with txRing := back.2 }).emit
            (.putBackTx byte back.1)

def drainRx (gap : UartWorld σ w → UartWorld σ w) : Nat → UartWorld σ w → UartWorld σ w
  | 0, s => s
  | n + 1, s =>
    let s := gap s
    let r := s.state.rxRing.popAs u16
    match r.1 with
    | none => s
    | some byte =>
      drainRx gap n
        ((s.modify fun service => { service with rxRing := r.2 }).emit (.takeRx byte))

def drain (gap : UartWorld σ w → UartWorld σ w) (s : UartWorld σ w) : UartWorld σ w :=
  let s := drainTx u16 gap s.state.maxTxItemsPerRun.toNat s
  drainRx u16 gap s.state.maxRxItemsPerRun.toNat s

def serviceRun (gap : UartWorld σ w → UartWorld σ w) (s : UartWorld σ w) : UartWorld σ w :=
  let hadRxHint := s.state.rxHint
  let hadTxHint := s.state.txHint
  let s := s.modify fun service => { service with rxHint := false, txHint := false }
  if hadRxHint || hadTxHint then drain u16 gap s
  else
    let s := gap s
    if !s.state.rxRing.isEmpty then drain u16 gap s
    else
      let s := gap s
      if !s.state.txRing.isEmpty then drain u16 gap s else s

end SchUart

inductive UartCall where
  | queueTx (byte : BitVec 16)
  | isrTxReady
  | isrRx
  | run
  deriving DecidableEq, Repr

def uartStep {σ : Type} {w : Nat} (u16 : Layout (BitVec 16)) (s : UartWorld σ w) :
    UartCall → UartWorld σ w
  | .queueTx byte => SchUart.queueTx u16 byte s
  | .isrTxReady => SchUart.isrTxReady s
  | .isrRx => SchUart.isrRx u16 s
  | .run => SchUart.serviceRun u16 id s

end SchedulerLib.Services
