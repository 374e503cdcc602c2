import SchedulerLib.IsrBuffer.Channel
import SchedulerLib.Services.UartConservation

/-!
The receive side of the UART service. The bytes that the receive interrupt read from the
hardware are the puts of a channel and the bytes that a run took are its takes, whichever
calls preempt the run.
-/

namespace SchedulerLib.Services

open Lib IsrBuffer

def UartCall.isRun : UartCall → Bool
  | .run => true
  | _ => false

namespace SchUart

variable {σ : Type} {w : Nat}

def received (u16 : Layout (BitVec 16)) :
    Channel (SchUartService σ w) UartEvent (BitVec 16) w where
  layout := u16
  ring service := service.rxRing
  limit service := service.maxRxItemsPerRun
  put
    | .readByte byte => byte
    | _ => none
  taken
    | .takeRx byte => some byte
    | _ => none
  apart e _ taken := by
    cases e with
    | takeRx => rfl
    | _ => cases taken

variable {u16 : Layout (BitVec 16)} {capacity : Nat} {positive : 0 < capacity} {budget : Nat}
  {seen : List UartEvent} {places : Nat} {s s' : UartWorld σ w}

abbrev Receiving (u16 : Layout (BitVec 16)) (positive : 0 < capacity) (budget : Nat)
    (seen : List UartEvent) (places : Nat) (s : UartWorld σ w) : Prop :=
  (received u16).Awaits .dropOldest positive budget seen places s

theorem receiving_acknowledge (h : Receiving u16 positive budget seen places s) :
    Receiving u16 positive budget seen places (acknowledge s) := by
  unfold SchUart.acknowledge
  cases s.state.hal.ackIrq with
  | none => exact h
  | some ack => exact (h.setEnv (ack s.env)).emit .ackIrq ⟨rfl, rfl⟩

theorem receiving_isrTxReady (h : Receiving u16 positive budget seen places s) :
    Receiving u16 positive budget seen places (isrTxReady s) :=
  (receiving_acknowledge h).modify _ rfl rfl

theorem receiving_isrRx (h : Receiving u16 positive budget seen places s) :
    Receiving u16 positive budget seen places (isrRx u16 s) := by
  have acked := receiving_acknowledge h
  unfold SchUart.isrRx
  generalize SchUart.acknowledge s = s at acked
  dsimp only
  cases s.state.hal.tryReadByte with
  | none => exact acked
  | some tryReadByte =>
    have read := acked.setEnv (tryReadByte s.env).2
    dsimp only
    cases (tryReadByte s.env).1 with
    | none => exact read.emit (.readByte none) ⟨rfl, rfl⟩
    | some byte =>
      refine Channel.Awaits.put (e := .readByte (some byte)) (a := byte) read ?_ rfl rfl rfl
      rw [World.modify_events, World.emit_events]

theorem receiving_queueTx (h : Receiving u16 positive budget seen places s) (byte : BitVec 16) :
    Receiving u16 positive budget seen places (queueTx u16 byte s) := by
  have queued := h.modify (fun service =>
    { service with txRing := (s.state.txRing.pushAs u16 byte).2 }) rfl rfl
  exact queued.emit _ ⟨rfl, rfl⟩

theorem receiving_enter (h : Receiving u16 positive budget seen places s) (entry : UartEntry) :
    Receiving u16 positive budget seen places (enter u16 entry s) := by
  cases entry with
  | queueTx byte => exact receiving_queueTx h byte
  | isrTxReady => exact receiving_isrTxReady h
  | isrRx => exact receiving_isrRx h

theorem receiving_preempted (h : Receiving u16 positive budget seen places s)
    (fire : σ → List UartEntry × σ) :
    Receiving u16 positive budget seen places (preempted u16 fire s) :=
  History.invariant (fun s entry => SchUart.enter u16 entry s)
    (Receiving u16 positive budget seen places) (fun _ entry h => receiving_enter h entry) _
    (h.setEnv (fire s.env).2) (fire s.env).1

theorem receiving_drainTx (fire : σ → List UartEntry × σ) (n : Nat)
    (h : Receiving u16 positive budget seen places s) : Receiving u16 positive budget seen places
      (drainTx u16 (SchUart.preempted u16 fire) n s) := by
  induction n generalizing s with
  | zero => exact h
  | succ n ih =>
    have before := receiving_preempted h fire
    simp only [SchUart.drainTx]
    generalize SchUart.preempted u16 fire s = s at before
    cases (s.state.txRing.popAs u16).1 with
    | none => exact before
    | some byte =>
      have popped := before.modify (fun service =>
        { service with txRing := (s.state.txRing.popAs u16).2 }) rfl rfl
      have taken := receiving_preempted (popped.emit (.takeTx byte) ⟨rfl, rfl⟩) fire
      dsimp only
      generalize SchUart.preempted u16 fire _ = s at taken
      cases s.state.hal.tryWriteByte with
      | none => exact taken
      | some write =>
        have written := (taken.setEnv (write byte s.env).2).emit
          (.writeByte byte (write byte s.env).1) ⟨rfl, rfl⟩
        dsimp only
        split_ifs
        · exact ih written
        · have gap := receiving_preempted written fire
          generalize SchUart.preempted u16 fire _ = s at gap
          have back := gap.modify (fun service =>
            { service with txRing := (s.state.txRing.pushAs u16 byte).2 }) rfl rfl
          exact back.emit _ ⟨rfl, rfl⟩

theorem receiving_drainRx (fire : σ → List UartEntry × σ) (n : Nat)
    (h : Receiving u16 positive budget seen places s) :
    Receiving u16 positive budget seen (places - n)
      (drainRx u16 (SchUart.preempted u16 fire) n s) := by
  induction n generalizing s places with
  | zero => exact h
  | succ n ih =>
    have before := receiving_preempted h fire
    simp only [SchUart.drainRx]
    generalize SchUart.preempted u16 fire s = s at before
    cases front : (s.state.rxRing.popAs u16).1 with
    | none => exact before.missed front _
    | some byte =>
      have taken : Receiving u16 positive budget seen (places - 1) ((s.modify fun service =>
          { service with rxRing := (s.state.rxRing.popAs u16).2 }).emit (.takeRx byte)) :=
        before.take (e := .takeRx byte) front (World.emit_events _ _) rfl rfl rfl
      have later := ih taken
      rwa [Nat.sub_sub, Nat.add_comm] at later

theorem receiving_drain (fire : σ → List UartEntry × σ)
    (h : Receiving u16 positive budget seen places s) :
    Receiving u16 positive budget seen (places - budget)
      (drain u16 (SchUart.preempted u16 fire) s) := by
  have sent := receiving_drainTx fire s.state.maxTxItemsPerRun.toNat h
  unfold SchUart.drain
  dsimp only
  generalize SchUart.drainTx u16 _ _ s = s at sent ⊢
  have limit : s.state.maxRxItemsPerRun.toNat = budget := sent.budget
  rw [limit]
  exact receiving_drainRx fire budget sent

/-- The early return is taken only after the ring was found empty. -/
theorem receiving_serviceRun (fire : σ → List UartEntry × σ)
    (h : Receiving u16 positive budget seen places s) :
    Receiving u16 positive budget seen (places - budget)
      (serviceRun u16 (SchUart.preempted u16 fire) s) := by
  have cleared := h.modify (fun service => { service with rxHint := false, txHint := false })
    rfl rfl
  have gap := receiving_preempted cleared fire
  unfold SchUart.serviceRun
  dsimp only
  split_ifs with hint rx tx
  · exact receiving_drain fire cleared
  · exact receiving_drain fire gap
  · exact receiving_drain fire (receiving_preempted gap fire)
  · rw [Bool.not_eq_true, Bool.not_eq_false'] at rx
    exact receiving_preempted (gap.empty rx (places - budget)) fire

theorem serves_received (u16 : Layout (BitVec 16)) (positive : 0 < capacity) (budget : Nat)
    (fire : σ → List UartEntry × σ) :
    (received (σ := σ) (w := w) u16).Serves .dropOldest positive (uartPreemptedStep u16 fire)
      UartCall.isRun budget where
  keeps seen places s call unmarked h := by
    cases call with
    | queueTx byte => exact receiving_queueTx h byte
    | isrTxReady => exact receiving_isrTxReady h
    | isrRx => exact receiving_isrRx h
    | run => cases unmarked
  advances seen places s call isMarked h := by
    cases call with
    | run => exact receiving_serviceRun fire h
    | _ => cases isMarked

section Init

variable (service : SchUartService σ w) (hal : SchUartHal σ) (rxMemory : List Byte)
  (txStorage : Option (List Byte)) (rxCapacity txCapacity maxRxItems maxTxItems : BitVec w) (env : σ)

theorem serviceInit_receiving (positive : 0 < rxCapacity.toNat)
    (ok : (serviceInit u16 service (some hal) (some rxMemory) rxCapacity txStorage txCapacity
      maxRxItems maxTxItems).1 = true)
    (length : rxMemory.length = rxCapacity.toNat * u16.size) (fits : rxMemory.length < 2 ^ w) :
    Receiving u16 positive maxRxItems.toNat [] 0 (World.start (serviceInit u16 service (some hal)
      (some rxMemory) rxCapacity txStorage txCapacity maxRxItems maxTxItems).2 env) := by
  unfold serviceInit at ok ⊢
  dsimp only at ok ⊢
  split_ifs at ok ⊢
  obtain ⟨-, carries⟩ := initAs_carries u16 service.rxRing rxMemory rxCapacity .dropOldest positive
    length fits
  exact Channel.awaits_start env rfl carries

/-- Whatever preempts the runs, the received bytes are accounted for at every moment: taken in
order, in the ring, or overwritten by later ones and counted. Bytes in the ring are taken by the
next runs unless a ring's worth of bytes comes after them. -/
theorem uart_bytes_received (fire : σ → List UartEntry × σ) (positive : 0 < rxCapacity.toNat)
    (ok : (serviceInit u16 service (some hal) (some rxMemory) rxCapacity txStorage txCapacity
      maxRxItems maxTxItems).1 = true)
    (length : rxMemory.length = rxCapacity.toNat * u16.size) (fits : rxMemory.length < 2 ^ w) :
    History.Achieves (uartPreemptedStep u16 fire) UartCall.isRun (World.start (serviceInit u16
      service (some hal) (some rxMemory) rxCapacity txStorage txCapacity maxRxItems maxTxItems).2 env)
      ((received u16).Passes .dropOldest positive maxRxItems.toNat) :=
  have brings := (serves_received u16 positive maxRxItems.toNat fire).brings (serviceInit_receiving
    service hal rxMemory txStorage rxCapacity txCapacity maxRxItems maxTxItems env positive ok length
    fits)
  brings.imp fun _ _ _ brought => brought.passes

end Init

section Example

/-- Hardware with the next numbers to read; the environment is the number and whether another
byte is to come in the next gap. -/
def countingUart : SchUartHal (BitVec 16 × Bool) where
  tryReadByte := some fun env => (some env.1, env.1 + 1, env.2)
  tryWriteByte := some fun _ env => (true, env)
  ackIrq := none

def blankCountingUart : SchUartService (BitVec 16 × Bool) 16 where
  hal := ⟨none, none, none⟩
  rxRing := ⟨none, 0, 0, 0, 0, 0, 0, .dropNewest⟩
  txRing := ⟨none, 0, 0, 0, 0, 0, 0, .dropNewest⟩
  rxHint := false
  txHint := false
  maxRxItemsPerRun := 0
  maxTxItemsPerRun := 0

def oneMoreByte (env : BitVec 16 × Bool) : List UartEntry × (BitVec 16 × Bool) :=
  (if env.2 then [.isrRx] else [], env.1, false)

def countingUartStart : UartWorld (BitVec 16 × Bool) 16 :=
  World.start (serviceInit Layout.word16 blankCountingUart (some countingUart) (some [0, 0, 0, 0]) 2
    (some [0, 0]) 1 1 1).2 (7, true)

theorem uart_bytes_received_in_run :
    let mid := [UartCall.isrRx].foldl (uartPreemptedStep Layout.word16 oneMoreByte) countingUartStart
    let fin := [UartCall.run].foldl (uartPreemptedStep Layout.word16 oneMoreByte) mid
    (received Layout.word16).Accounted .dropOldest (show 0 < (2 : BitVec 16).toNat by decide) fin ∧
      (received Layout.word16).Prompt .dropOldest (show 0 < (2 : BitVec 16).toNat by decide) mid
        fin ∧
      fin.events.filterMap (received (σ := BitVec 16 × Bool) (w := 16) Layout.word16).taken = [7] ∧
      fin.state.rxRing.items Layout.word16 = [8] := by
  intro mid fin
  have achieves := @uart_bytes_received _ _ Layout.word16 blankCountingUart countingUart [0, 0, 0, 0]
    (some [0, 0]) 2 1 1 1 (7, true) oneMoreByte (by decide) (by decide) (by decide) (by decide)
  obtain ⟨accounted, prompt⟩ := achieves mid 0 1 ⟨[.isrRx], rfl, by decide⟩ fin
    ⟨[.run], rfl, by decide⟩
  exact ⟨accounted, prompt (by decide), by decide, by decide⟩

end Example

end SchUart

end SchedulerLib.Services
