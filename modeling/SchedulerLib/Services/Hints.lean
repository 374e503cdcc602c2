import SchedulerLib.Services.Uart
import SchedulerLib.Services.Eeprom
import SchedulerLib.Services.Fsi
import SchedulerLib.Services.Ipc
import SchedulerLib.Services.Ethernet

/-!
Wake hints. A run that no hint and no queue calls for returns early; the loops it then
leaves out would have found nothing. So a run that nothing preempts does what its loops do,
whatever the hints were when it began.
-/

namespace SchedulerLib.Services

open Lib IsrBuffer

variable {σ : Type} {w : Nat} (u16 : Layout (BitVec 16))

namespace SchUart

theorem drain_of_empty (s : UartWorld σ w) (rx : s.state.rxRing.isEmpty = true)
    (tx : s.state.txRing.isEmpty = true) : drain u16 id s = s := by
  have sent : ∀ n, drainTx u16 id n s = s := by
    rintro (_ | n)
    · rfl
    · rw [drainTx, id, SchSpscRing.popAs_of_isEmpty u16 tx]
  have received : ∀ n, drainRx u16 id n s = s := by
    rintro (_ | n)
    · rfl
    · rw [drainRx, id, SchSpscRing.popAs_of_isEmpty u16 rx]
  rw [drain, sent, received]

theorem serviceRun_eq_drain (s : UartWorld σ w) : serviceRun u16 id s =
    drain u16 id (s.modify fun service => { service with rxHint := false, txHint := false }) := by
  unfold serviceRun
  dsimp only [id]
  split_ifs with hinted rx tx
  · rfl
  · rfl
  · rfl
  · rw [Bool.not_eq_true, Bool.not_eq_false'] at rx tx
    exact (drain_of_empty u16 _ rx tx).symm

end SchUart

namespace SchI2cEeprom

variable (descriptor : Layout SchEepromRequest)

theorem drain_of_empty (s : EepromWorld σ w) (requests : s.state.requestRing.isEmpty = true)
    (completions : s.state.completionQueue.ring.isEmpty = true) :
    drain u16 descriptor id s = s := by
  have submitted : ∀ n, drainRequests descriptor id n s = s := by
    rintro (_ | n)
    · rfl
    · rw [drainRequests, id, SchSpscRing.popAs_of_isEmpty descriptor requests]
  have completed : ∀ n, drainCompletions u16 id n s = s := by
    rintro (_ | n)
    · rfl
    · rw [drainCompletions, id, SchEventQueue.popTask,
        SchSpscRing.popAs_of_isEmpty u16 completions]
  rw [drain, submitted, completed]

theorem serviceRun_eq_drain (s : EepromWorld σ w) : serviceRun u16 descriptor id s =
    drain u16 descriptor id (s.modify fun service => { service with irqHint := false }) := by
  unfold serviceRun
  dsimp only [id]
  split_ifs with hinted requests completions
  · rfl
  · rfl
  · rw [Bool.not_eq_true, Bool.not_eq_false'] at requests
    exact (drain_of_empty u16 descriptor _ requests (decide_eq_true completions)).symm
  · rfl

end SchI2cEeprom

namespace IrqService

variable {A T R : Type} (layout : Layout R) (classOf : R → Option T)

theorem drainRecords_of_empty (s : IrqWorld A T R σ w) (n : Nat)
    (records : s.state.irqRecords.isEmpty = true) : drainRecords layout classOf id n s = s := by
  cases n with
  | zero => rfl
  | succ n => rw [drainRecords, id, SchSpscRing.popAs_of_isEmpty layout records]

theorem run_eq_drain (s : IrqWorld A T R σ w) : run layout classOf id s =
    drainRecords layout classOf id s.state.maxRecordsPerRun.toNat
      (s.modify fun service => { service with eventBits := 0 }) := by
  unfold run
  dsimp only [id]
  split_ifs with hinted records
  · exact (drainRecords_of_empty layout classOf _ _ records).symm
  · rfl
  · rfl

end IrqService

namespace SchEth

theorem drainEvents_of_empty (s : EthWorld σ w) (n : Nat)
    (events : s.state.eventQueue.ring.isEmpty = true) : drainEvents u16 id n s = s := by
  cases n with
  | zero => rfl
  | succ n => rw [drainEvents, id, SchEventQueue.popTask, SchSpscRing.popAs_of_isEmpty u16 events]

theorem serviceRun_eq_drain (s : EthWorld σ w) : serviceRun u16 id s =
    drainEvents u16 id s.state.maxEventsPerRun.toNat
      (s.modify fun service => { service with irqHint := false }) := by
  unfold serviceRun
  dsimp only [id]
  split_ifs with hinted events
  · rfl
  · exact (drainEvents_of_empty u16 _ _ (decide_eq_true events)).symm
  · rfl

end SchEth

/-- Runs that nothing preempts, from states that differ in the hints alone, make the same
calls and end in the same state. -/
theorem hints_advisory (descriptor : Layout SchEepromRequest) (fsi : Layout SchFsiIrqRecord)
    (ipc : Layout SchIpcIrqRecord) :
    (∀ (s : UartWorld σ w) (rxHint txHint : Bool),
      SchUart.serviceRun u16 id (s.modify fun service =>
        { service with rxHint := rxHint, txHint := txHint }) = SchUart.serviceRun u16 id s) ∧
    (∀ (s : EepromWorld σ w) (irqHint : Bool),
      SchI2cEeprom.serviceRun u16 descriptor id (s.modify fun service =>
        { service with irqHint := irqHint }) = SchI2cEeprom.serviceRun u16 descriptor id s) ∧
    (∀ (s : EthWorld σ w) (irqHint : Bool),
      SchEth.serviceRun u16 id (s.modify fun service =>
        { service with irqHint := irqHint }) = SchEth.serviceRun u16 id s) ∧
    (∀ (s : FsiWorld σ w) (eventBits : BitVec 32),
      SchFsi.serviceRun fsi id (s.modify fun service =>
        { service with eventBits := eventBits }) = SchFsi.serviceRun fsi id s) ∧
    (∀ (s : IpcWorld σ w) (eventBits : BitVec 32),
      SchIpc.serviceRun ipc id (s.modify fun service =>
        { service with eventBits := eventBits }) = SchIpc.serviceRun ipc id s) := by
  refine ⟨fun s rxHint txHint => ?_, fun s irqHint => ?_, fun s irqHint => ?_,
    fun s eventBits => ?_, fun s eventBits => ?_⟩
  · rw [SchUart.serviceRun_eq_drain, SchUart.serviceRun_eq_drain]
    rfl
  · rw [SchI2cEeprom.serviceRun_eq_drain, SchI2cEeprom.serviceRun_eq_drain]
    rfl
  · rw [SchEth.serviceRun_eq_drain, SchEth.serviceRun_eq_drain]
    rfl
  · rw [SchFsi.serviceRun, SchFsi.serviceRun, IrqService.run_eq_drain, IrqService.run_eq_drain]
    rfl
  · rw [SchIpc.serviceRun, SchIpc.serviceRun, IrqService.run_eq_drain, IrqService.run_eq_drain]
    rfl

end SchedulerLib.Services
