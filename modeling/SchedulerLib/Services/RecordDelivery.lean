import SchedulerLib.Services.Fsi
import SchedulerLib.Services.Ipc
import SchedulerLib.Services.IrqDelivery

/-!
The delivery theorem for the two record services. What a handler call should lead to is
written out for each handler: its class, and the record with its own arguments.
-/

namespace SchedulerLib.Services

open Lib IsrBuffer IrqHandlers

variable {σ : Type} {w : Nat}

def SchFsi.handlers : IrqHandlers FsiIsr SchFsiIrqTag SchFsiIrqRecord where
  tag
    | .rx .. => .rx
    | .tx .. => .tx
    | .error .. => .error
  source
    | .rx channel _ _ | .tx channel _ _ | .error channel _ => channel
  record
    | .rx channel frameIndex status => ⟨channel, frameIndex, SchFsiIrqTag.rx.code, status⟩
    | .tx channel frameIndex status => ⟨channel, frameIndex, SchFsiIrqTag.tx.code, status⟩
    | .error channel errorStatus => ⟨channel, 0, SchFsiIrqTag.error.code, errorStatus⟩
  eventBit
    | .rx .. => SchFsiIrqTag.rx.eventBit
    | .tx .. => SchFsiIrqTag.tx.eventBit
    | .error .. => SchFsiIrqTag.error.eventBit
  classOf := SchFsi.classOf
  classOf_record call := by cases call <;> rfl

def SchIpc.handlers : IrqHandlers IpcIsr SchIpcIrqTag SchIpcIrqRecord where
  tag
    | .notify .. => .notify
    | .ack .. => .ack
    | .fault .. => .fault
  source
    | .notify endpoint _ _ | .ack endpoint _ _ | .fault endpoint _ _ => endpoint
  record
    | .notify endpoint slot payloadFlags =>
      ⟨endpoint, slot, SchIpcIrqTag.notify.code, payloadFlags⟩
    | .ack endpoint slot ackFlags => ⟨endpoint, slot, SchIpcIrqTag.ack.code, ackFlags⟩
    | .fault endpoint faultFlags sourceSlot =>
      ⟨endpoint, sourceSlot, SchIpcIrqTag.fault.code, faultFlags⟩
  eventBit
    | .notify .. => SchIpcIrqTag.notify.eventBit
    | .ack .. => SchIpcIrqTag.ack.eventBit
    | .fault .. => SchIpcIrqTag.fault.eventBit
  classOf := SchIpc.classOf
  classOf_record call := by cases call <;> rfl

theorem SchFsi.isr_eq (layout : Layout SchFsiIrqRecord) (call : FsiIsr) :
    SchFsi.isr (σ := σ) (w := w) layout call = SchFsi.handlers.enter layout call := by
  cases call <;> rfl

theorem SchIpc.isr_eq (layout : Layout SchIpcIrqRecord) (call : IpcIsr) :
    SchIpc.isr (σ := σ) (w := w) layout call = SchIpc.handlers.enter layout call := by
  cases call <;> rfl

theorem fsiStep_eq (layout : Layout SchFsiIrqRecord) (fire : σ → List FsiIsr × σ) :
    fsiStep (w := w) layout fire = SchFsi.handlers.step layout fire := by
  funext s call
  have same : SchFsi.isr (σ := σ) (w := w) layout = SchFsi.handlers.enter layout :=
    funext (SchFsi.isr_eq layout)
  cases call with
  | isr call => exact congrFun (SchFsi.isr_eq layout call) s
  | run =>
    rw [fsiStep, same]
    rfl

theorem ipcStep_eq (layout : Layout SchIpcIrqRecord) (fire : σ → List IpcIsr × σ) :
    ipcStep (w := w) layout fire = SchIpc.handlers.step layout fire := by
  funext s call
  have same : SchIpc.isr (σ := σ) (w := w) layout = SchIpc.handlers.enter layout :=
    funext (SchIpc.isr_eq layout)
  cases call with
  | isr call => exact congrFun (SchIpc.isr_eq layout call) s
  | run =>
    rw [ipcStep, same]
    rfl

/-- Both services deliver their records, whatever interrupts preempt their runs. -/
theorem irq_records_delivered (fsi : Layout SchFsiIrqRecord) (ipc : Layout SchIpcIrqRecord) :
    (∀ (service : SchFsiService σ w) (hal : SchFsiHal σ) (memory : List Byte)
        (capacity maxRecords : BitVec w) (policy : Fifo.Policy) (env : σ)
        (fire : σ → List FsiIsr × σ) (calls : List (IrqCall FsiIsr))
        (positive : 0 < capacity.toNat),
      (SchFsi.serviceInit fsi service (some hal) (some memory) capacity maxRecords
        (modeOf policy)).1 = true →
      (∀ tag, (hal.callbacks.service tag).isSome) →
      memory.length = capacity.toNat * fsi.size → memory.length < 2 ^ w →
      Delivers SchFsi.handlers fsi positive policy (fsiStep fsi fire)
        (calls.foldl (fsiStep fsi fire) (World.start (SchFsi.serviceInit fsi service (some hal)
          (some memory) capacity maxRecords (modeOf policy)).2 env))) ∧
    (∀ (service : SchIpcService σ w) (hal : SchIpcHal σ) (memory : List Byte)
        (capacity maxRecords : BitVec w) (policy : Fifo.Policy) (env : σ)
        (fire : σ → List IpcIsr × σ) (calls : List (IrqCall IpcIsr))
        (positive : 0 < capacity.toNat),
      (SchIpc.serviceInit ipc service (some hal) (some memory) capacity maxRecords
        (modeOf policy)).1 = true →
      (∀ tag, (hal.callbacks.service tag).isSome) →
      memory.length = capacity.toNat * ipc.size → memory.length < 2 ^ w →
      Delivers SchIpc.handlers ipc positive policy (ipcStep ipc fire)
        (calls.foldl (ipcStep ipc fire) (World.start (SchIpc.serviceInit ipc service (some hal)
          (some memory) capacity maxRecords (modeOf policy)).2 env))) := by
  constructor
  · intro service hal memory capacity maxRecords policy env fire calls positive ok callbacks
      length fits
    rw [fsiStep_eq]
    exact init_delivers SchFsi.handlers fsi service hal.callbacks memory capacity maxRecords policy
      env positive fire calls ok callbacks length fits
  · intro service hal memory capacity maxRecords policy env fire calls positive ok callbacks
      length fits
    rw [ipcStep_eq]
    exact init_delivers SchIpc.handlers ipc service hal.callbacks memory capacity maxRecords policy
      env positive fire calls ok callbacks length fits

section Example

def fsiLayout : Layout SchFsiIrqRecord :=
  (Layout.word16.pair (Layout.word16.pair (Layout.word16.pair Layout.word16))).record
    (fun r => (r.channel, r.frameIndex, r.irqTag, r.status))
    (fun x => ⟨x.1, x.2.1, x.2.2.1, x.2.2.2⟩) fun _ => rfl

def ipcLayout : Layout SchIpcIrqRecord :=
  (Layout.word16.pair (Layout.word16.pair (Layout.word16.pair Layout.word16))).record
    (fun r => (r.endpoint, r.slot, r.irqTag, r.detailFlags))
    (fun x => ⟨x.1, x.2.1, x.2.2.1, x.2.2.2⟩) fun _ => rfl

/-- Callbacks that do nothing, in an environment that raises the interrupt `call` once. -/
def plainFsi : SchFsiHal Bool where
  ackIrq := none
  serviceRxFrame := some fun _ s => (true, s)
  serviceTxComplete := some fun _ s => (true, s)
  serviceError := some fun _ s => (true, s)

def plainIpc : SchIpcHal Bool where
  ackIrq := none
  serviceNotify := some fun _ s => (true, s)
  serviceAck := some fun _ s => (true, s)
  serviceFault := some fun _ s => (true, s)

def raiseOnce {A : Type} (call : A) (armed : Bool) : List A × Bool :=
  (if armed then [call] else [], false)

def blankRecords {T R : Type} : IrqService T R Bool 16 where
  hal := ⟨none, fun _ => none⟩
  irqRecords := ⟨none, 0, 0, 0, 0, 0, 0, .dropNewest⟩
  eventBits := 0
  maxRecordsPerRun := 0

def fsiExample : FsiWorld Bool 16 :=
  [IrqCall.isr (.rx 3 8 1), .run].foldl (fsiStep fsiLayout (raiseOnce (.error 4 9)))
    (World.start (SchFsi.serviceInit fsiLayout blankRecords (some plainFsi)
      (some (List.replicate 8 0)) 1 2 .dropOldest).2 true)

def ipcExample : IpcWorld Bool 16 :=
  [IrqCall.isr (.fault 3 8 1), .run].foldl (ipcStep ipcLayout (raiseOnce (.notify 4 9 2)))
    (World.start (SchIpc.serviceInit ipcLayout blankRecords (some plainIpc)
      (some (List.replicate 8 0)) 1 2 .dropNewest).2 true)

/-- Room for one record, and a second interrupt at the start of the run: the FSI service
loses the first record, the IPC service the second. -/
theorem irq_records_delivered_full_ring :
    invocations fsiExample.events = [(.error, ⟨4, 0, 3, 9⟩)] ∧
      invocations ipcExample.events = [(.fault, ⟨3, 1, 3, 8⟩)] := by
  have both := irq_records_delivered (σ := Bool) (w := 16) fsiLayout ipcLayout
  have fsi := both.1 blankRecords plainFsi (List.replicate 8 0) 1 2 .dropOldest true
    (raiseOnce (.error 4 9)) [.isr (.rx 3 8 1), .run] (by decide) (by decide)
    (by rintro ⟨⟩ <;> rfl) (by decide) (by decide)
  have ipc := both.2 blankRecords plainIpc (List.replicate 8 0) 1 2 .dropNewest true
    (raiseOnce (.notify 4 9 2)) [.isr (.fault 3 8 1), .run] (by decide) (by decide)
    (by rintro ⟨⟩ <;> rfl) (by decide) (by decide)
  exact ⟨(fsi.accounted.now.invoked (by decide)).trans (by decide),
    (ipc.accounted.now.invoked (by decide)).trans (by decide)⟩

end Example

end SchedulerLib.Services
