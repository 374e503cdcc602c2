import SchedulerLib.Services.Uart
import SchedulerLib.Lib.History
import SchedulerLib.Lib.Offers

/-!
The order of transmitted bytes. The transmit loop takes a byte from the consumer end of
the ring and, when the hardware refuses it, returns it through the producer end. The
bytes leave in the order in which they were queued exactly as long as no refused byte
has a different byte queued behind it.
-/

namespace SchedulerLib.Services.SchUart

open Lib IsrBuffer

variable {σ : Type} {w : Nat} (u16 : Layout (BitVec 16))

def sent (events : List UartEvent) : List (BitVec 16) :=
  events.filterMap fun
    | .writeByte byte true => some byte
    | _ => none

def accepted (events : List UartEvent) : List (BitVec 16) :=
  events.filterMap fun
    | .queueTx byte true => some byte
    | _ => none

def InOrder (s : UartWorld σ w) : Prop :=
  sent s.events ++ s.state.txRing.items u16 = accepted s.events

instance (s : UartWorld σ w) : Decidable (InOrder u16 s) := inferInstanceAs (Decidable (_ = _))

/-- Whatever a run would find queued behind a byte the hardware refuses equals that byte. -/
def RefusedAlike (s : UartWorld σ w) : Prop :=
  ∀ write, s.state.hal.tryWriteByte = some write →
    ∀ byte behind, refused write s.state.maxTxItemsPerRun.toNat s.env
      (s.state.txRing.items u16) = some (byte, behind) → ∀ x ∈ behind, x = byte

structure Carrying (write : BitVec 16 → σ → Bool × σ) (q : Fifo (BitVec 16))
    (s : UartWorld σ w) : Prop where
  ring : Carries u16 s.state.txRing q
  policy : q.policy = .dropNewest
  hal : s.state.hal.tryWriteByte = some write

@[simp] theorem sent_append (e f : List UartEvent) : sent (e ++ f) = sent e ++ sent f := by
  simp [sent]

@[simp] theorem accepted_append (e f : List UartEvent) :
    accepted (e ++ f) = accepted e ++ accepted f := by
  simp [accepted]

variable {u16} {write : BitVec 16 → σ → Bool × σ} {q : Fifo (BitVec 16)} {s : UartWorld σ w}

theorem Carrying.inOrder_iff (h : Carrying u16 write q s) :
    InOrder u16 s ↔ sent s.events ++ q.items = accepted s.events := by
  rw [InOrder, h.ring.items]

def requeue (byte : BitVec 16) (rest : List (BitVec 16)) : List (BitVec 16) := rest ++ [byte]

/-- What up to `n` passes of the transmit loop send and leave in the ring. -/
structure Drained (u16 : Layout (BitVec 16)) (write : BitVec 16 → σ → Bool × σ) (n : Nat)
    (q : Fifo (BitVec 16)) (s s' : UartWorld σ w) : Prop where
  queued : accepted s'.events = accepted s.events
  sent : sent s'.events = sent s.events ++ (offered write requeue n s.env q.items).1
  carrying : ∃ q', q'.items = (offered write requeue n s.env q.items).2 ∧ Carrying u16 write q' s'

def offer (u16 : Layout (BitVec 16)) (write : BitVec 16 → σ → Bool × σ) (byte : BitVec 16)
    (s : UartWorld σ w) : UartWorld σ w :=
  let s := (s.modify fun service =>
    { service with txRing := (service.txRing.popAs u16).2 }).emit (.takeTx byte)
  (s.setEnv (write byte s.env).2).emit (.writeByte byte (write byte s.env).1)

def putBack (u16 : Layout (BitVec 16)) (byte : BitVec 16) (s : UartWorld σ w) : UartWorld σ w :=
  (s.modify fun service =>
    { service with txRing := (service.txRing.pushAs u16 byte).2 }).emit
      (.putBackTx byte (s.state.txRing.pushAs u16 byte).1)

@[simp] theorem offer_env (byte : BitVec 16) :
    (offer u16 write byte s).env = (write byte s.env).2 := rfl

@[simp] theorem offer_accepted (byte : BitVec 16) :
    accepted (offer u16 write byte s).events = accepted s.events := by
  simp [offer, accepted]

theorem offer_sent_of_taken (byte : BitVec 16) (taken : (write byte s.env).1 = true) :
    sent (offer u16 write byte s).events = sent s.events ++ [byte] := by
  simp [offer, sent, taken]

theorem offer_sent_of_refused (byte : BitVec 16) (ref : (write byte s.env).1 = false) :
    sent (offer u16 write byte s).events = sent s.events := by
  simp [offer, sent, ref]

@[simp] theorem putBack_accepted (byte : BitVec 16) :
    accepted (putBack u16 byte s).events = accepted s.events := by
  simp [putBack, accepted]

@[simp] theorem putBack_sent (byte : BitVec 16) :
    sent (putBack u16 byte s).events = sent s.events := by
  simp [putBack, sent]

theorem Carrying.offer (h : Carrying u16 write q s) (byte : BitVec 16) :
    Carrying u16 write q.pop (offer u16 write byte s) :=
  ⟨h.ring.pop.2, h.policy, h.hal⟩

theorem Carrying.putBack (h : Carrying u16 write q s) (byte : BitVec 16) :
    Carrying u16 write (q.push byte) (putBack u16 byte s) :=
  ⟨(h.ring.push byte).2, h.policy, h.hal⟩

theorem Carrying.drainTx_nil (h : Carrying u16 write q s) (n : Nat) (items : q.items = []) :
    drainTx u16 id n s = s := by
  have front : (s.state.txRing.popAs u16).1 = none := by rw [h.ring.pop.1, items]; rfl
  cases n with
  | zero => rfl
  | succ n => simp [drainTx, front]

theorem Carrying.drainTx_cons (h : Carrying u16 write q s) (n : Nat) (byte : BitVec 16)
    (rest : List (BitVec 16)) (items : q.items = byte :: rest) :
    drainTx u16 id (n + 1) s =
      if (write byte s.env).1 then drainTx u16 id n (SchUart.offer u16 write byte s)
      else SchUart.putBack u16 byte (SchUart.offer u16 write byte s) := by
  have front : (s.state.txRing.popAs u16).1 = some byte := by rw [h.ring.pop.1, items]; rfl
  simp only [drainTx, front, h.hal, id_eq, World.emit_state, World.modify_state]
  rfl

theorem drainTx_offering (queued : List (BitVec 16)) :
    Offering write requeue World.env (fun s => sent s.events)
      (fun items s => ∃ q, q.items = items ∧ Carrying u16 write q s ∧ accepted s.events = queued)
      (drainTx (σ := σ) (w := w) u16 id) where
  zero _ := rfl
  empty := by
    rintro n s ⟨q, items, h, -⟩
    exact h.drainTx_nil n items
  taken := by
    rintro n s byte rest ⟨q, items, h, before⟩ taken
    refine ⟨SchUart.offer u16 write byte s, ?_, offer_env byte, offer_sent_of_taken byte taken,
      q.pop, ?_, h.offer byte, ?_⟩
    · rw [h.drainTx_cons n byte rest items, if_pos taken]
    · rw [Fifo.pop_items, items, List.tail_cons]
    · rw [offer_accepted, before]
  refused := by
    rintro n s byte rest ⟨q, items, h, before⟩ ref
    have popped := h.offer byte
    have tail : q.pop.items = rest := by rw [Fifo.pop_items, items, List.tail_cons]
    -- the byte has just left the ring, so there is room to put it back, behind the rest
    have room : q.pop.items.length < q.pop.capacity := by
      have bound := q.bounded
      rw [items, List.length_cons] at bound
      rw [tail, Fifo.pop_capacity]
      omega
    rw [h.drainTx_cons n byte rest items, if_neg ref]
    refine ⟨?_, _, ?_, popped.putBack byte, ?_⟩
    · rw [putBack_sent, offer_sent_of_refused byte (by simpa using ref)]
    · rw [(q.pop.push_of_room byte room).1, tail, requeue]
    · rw [putBack_accepted, offer_accepted, before]

theorem drainTx_drained (n : Nat) (h : Carrying u16 write q s) :
    Drained u16 write n q s (drainTx u16 id n s) := by
  obtain ⟨gone, q', left, carrying, queued⟩ :=
    (drainTx_offering (accepted s.events)).after n s q.items ⟨q, rfl, h, rfl⟩
  exact ⟨queued, gone, q', left, carrying⟩

structure KeepsTx (s s' : UartWorld σ w) : Prop where
  ring : s'.state.txRing = s.state.txRing
  hal : s'.state.hal = s.state.hal
  sent : sent s'.events = sent s.events
  queued : accepted s'.events = accepted s.events

theorem KeepsTx.refl (s : UartWorld σ w) : KeepsTx s s := ⟨rfl, rfl, rfl, rfl⟩

theorem KeepsTx.trans {s₁ s₂ s₃ : UartWorld σ w} (h : KeepsTx s₁ s₂) (k : KeepsTx s₂ s₃) :
    KeepsTx s₁ s₃ :=
  ⟨k.ring.trans h.ring, k.hal.trans h.hal, k.sent.trans h.sent, k.queued.trans h.queued⟩

theorem KeepsTx.carrying {s' : UartWorld σ w} (k : KeepsTx s s') (h : Carrying u16 write q s) :
    Carrying u16 write q s' :=
  ⟨k.ring ▸ h.ring, h.policy, k.hal ▸ h.hal⟩

theorem KeepsTx.inOrder_iff {s' : UartWorld σ w} (k : KeepsTx s s') :
    InOrder u16 s' ↔ InOrder u16 s := by
  rw [InOrder, InOrder, k.ring, k.sent, k.queued]

theorem acknowledge_keepsTx (s : UartWorld σ w) : KeepsTx s (acknowledge s) := by
  unfold acknowledge
  cases s.state.hal.ackIrq with
  | none => exact KeepsTx.refl s
  | some ack => exact ⟨rfl, rfl, by simp [sent], by simp [accepted]⟩

theorem isrTxReady_keepsTx (s : UartWorld σ w) : KeepsTx s (isrTxReady s) :=
  (acknowledge_keepsTx s).trans ⟨rfl, rfl, rfl, rfl⟩

theorem isrRx_keepsTx (s : UartWorld σ w) : KeepsTx s (isrRx u16 s) := by
  refine (acknowledge_keepsTx s).trans ?_
  unfold isrRx
  generalize acknowledge s = s
  dsimp only
  cases hal : s.state.hal.tryReadByte with
  | none => exact KeepsTx.refl s
  | some tryReadByte =>
    cases byte : (tryReadByte s.env).1 with
    | none => constructor <;> simp [byte, sent, accepted]
    | some b => constructor <;> simp [byte, sent, accepted]

theorem drainRx_keepsTx (n : Nat) (s : UartWorld σ w) : KeepsTx s (drainRx u16 id n s) := by
  induction n generalizing s with
  | zero => exact KeepsTx.refl s
  | succ n ih =>
    simp only [drainRx, id_eq]
    cases (s.state.rxRing.popAs u16).1 with
    | none => exact KeepsTx.refl s
    | some byte =>
      have rest := ih ((s.modify fun service =>
        { service with rxRing := (s.state.rxRing.popAs u16).2 }).emit (.takeRx byte))
      refine KeepsTx.trans ?_ rest
      exact ⟨rfl, rfl, by simp [sent], by simp [accepted]⟩

theorem Drained.keepsTx {n : Nat} {s' s'' : UartWorld σ w} (d : Drained u16 write n q s s')
    (k : KeepsTx s' s'') : Drained u16 write n q s s'' where
  queued := k.queued.trans d.queued
  sent := k.sent.trans d.sent
  carrying := by
    obtain ⟨q', left, h⟩ := d.carrying
    exact ⟨q', left, k.carrying h⟩

theorem drain_drained (h : Carrying u16 write q s) :
    Drained u16 write s.state.maxTxItemsPerRun.toNat q s (drain u16 id s) :=
  (drainTx_drained _ h).keepsTx (drainRx_keepsTx _ _)

/-- Whether or not the run finds a hint, it leaves the transmit ring as the loop does: with
no hint and both rings empty there is nothing to transmit. -/
theorem serviceRun_drained (h : Carrying u16 write q s) :
    Drained u16 write s.state.maxTxItemsPerRun.toNat q s (serviceRun u16 id s) := by
  have cleared : Carrying u16 write q
      (s.modify fun service => { service with rxHint := false, txHint := false }) :=
    ⟨h.ring, h.policy, h.hal⟩
  have looped : Drained u16 write s.state.maxTxItemsPerRun.toNat q s (drain u16 id
      (s.modify fun service => { service with rxHint := false, txHint := false })) := by
    obtain ⟨queued, sent, carrying⟩ := drain_drained cleared
    exact ⟨queued, sent, carrying⟩
  simp only [serviceRun, id_eq]
  split_ifs with hint rx tx
  · exact looped
  · exact looped
  · exact looped
  · have items : q.items = [] := h.ring.isEmpty_iff.mp (by simpa using tx)
    refine ⟨rfl, ?_, q, ?_, cleared⟩
    · rw [items, offered_nil, List.append_nil]
      rfl
    · rw [items, offered_nil]

theorem serviceRun_inOrder_iff (h : Carrying u16 write q s) (before : InOrder u16 s) :
    InOrder u16 (serviceRun u16 id s) ↔ RefusedAlike u16 s := by
  obtain ⟨queued, gone, q', left, carrying⟩ := serviceRun_drained h
  rw [h.inOrder_iff] at before
  rw [carrying.inOrder_iff, queued, gone, left, ← before, List.append_assoc,
    List.append_right_inj, offered_append_eq_iff]
  simp only [RefusedAlike, h.ring.items, h.hal, Option.some.injEq, forall_eq', requeue,
    append_singleton_eq_cons_iff]

theorem queueTx_keeps (h : Carrying u16 write q s) (byte : BitVec 16) :
    Carrying u16 write (q.push byte) (queueTx u16 byte s) ∧
      (InOrder u16 s → InOrder u16 (queueTx u16 byte s)) := by
  obtain ⟨status, next⟩ := h.ring.push byte
  have after : Carrying u16 write (q.push byte) (queueTx u16 byte s) := ⟨next, h.policy, h.hal⟩
  refine ⟨after, fun before => ?_⟩
  rw [h.inOrder_iff] at before
  rw [after.inOrder_iff]
  rcases q.push_dropNewest_cases byte h.policy with ⟨out, items⟩ | ⟨out, items⟩
  · rw [items]
    simp [queueTx, status, out, statusOf, sent_append, accepted_append, ← before]
    simp [sent, accepted]
  · rw [items]
    simp [queueTx, status, out, statusOf, sent_append, accepted_append, ← before]
    simp [sent, accepted]

theorem serviceInit_carrying (service : SchUartService σ w) (hal : SchUartHal σ)
    (rxStorage : Option (List Byte)) (txMemory : List Byte)
    (rxCapacity txCapacity maxRxItems maxTxItems : BitVec w) (env : σ)
    (ok : (serviceInit u16 service (some hal) rxStorage rxCapacity (some txMemory) txCapacity
      maxRxItems maxTxItems).1 = true)
    (length : txMemory.length = txCapacity.toNat * u16.size) (fits : txMemory.length < 2 ^ w) :
    ∃ write positive, Carrying u16 write (Fifo.empty txCapacity.toNat .dropNewest positive)
      (World.start (serviceInit u16 service (some hal) rxStorage rxCapacity (some txMemory)
        txCapacity maxRxItems maxTxItems).2 env) := by
  unfold serviceInit at ok ⊢
  dsimp only at ok ⊢
  split_ifs at ok ⊢ with bad
  obtain ⟨write, callback⟩ : ∃ write, hal.tryWriteByte = some write := by
    cases present : hal.tryWriteByte with
    | none => simp [present] at bad
    | some write => exact ⟨write, rfl⟩
  obtain ⟨positive, ring⟩ := initAs_success u16 service.txRing txMemory txCapacity .dropNewest
    (Bool.and_eq_true _ _ ▸ ok).2 length fits
  exact ⟨write, positive, ring, rfl, callback⟩

theorem uartStep_carrying (c : UartCall) (h : ∃ q, Carrying u16 write q s) :
    ∃ q, Carrying u16 write q (uartStep u16 s c) := by
  obtain ⟨q, h⟩ := h
  cases c with
  | queueTx byte => exact ⟨_, (queueTx_keeps h byte).1⟩
  | isrTxReady => exact ⟨q, (isrTxReady_keepsTx s).carrying h⟩
  | isrRx => exact ⟨q, (isrRx_keepsTx s).carrying h⟩
  | run =>
    obtain ⟨q', -, carrying⟩ := (serviceRun_drained h).carrying
    exact ⟨q', carrying⟩

theorem uartStep_inOrder_iff (c : UartCall) (h : ∃ q, Carrying u16 write q s)
    (before : InOrder u16 s) :
    InOrder u16 (uartStep u16 s c) ↔ (c = .run → RefusedAlike u16 s) := by
  obtain ⟨q, h⟩ := h
  cases c with
  | queueTx byte => simpa [uartStep] using (queueTx_keeps h byte).2 before
  | isrTxReady => simpa [uartStep] using (isrTxReady_keepsTx s).inOrder_iff.mpr before
  | isrRx => simpa [uartStep] using (isrRx_keepsTx s).inOrder_iff.mpr before
  | run => simpa [uartStep] using serviceRun_inOrder_iff h before

/-- The bytes are transmitted in the order of their queueing, none lost and none twice, in
exactly the histories in which every run finds what `RefusedAlike` says. -/
theorem uart_tx_inOrder_iff (service : SchUartService σ w) (hal : SchUartHal σ)
    (rxStorage : Option (List Byte)) (txMemory : List Byte)
    (rxCapacity txCapacity maxRxItems maxTxItems : BitVec w) (env : σ) (calls : List UartCall)
    (ok : (serviceInit u16 service (some hal) rxStorage rxCapacity (some txMemory) txCapacity
      maxRxItems maxTxItems).1 = true)
    (length : txMemory.length = txCapacity.toNat * u16.size) (fits : txMemory.length < 2 ^ w) :
    let start := World.start (serviceInit u16 service (some hal) rxStorage rxCapacity
      (some txMemory) txCapacity maxRxItems maxTxItems).2 env
    (∀ done, done <+: calls → InOrder u16 (done.foldl (uartStep u16) start)) ↔
      ∀ done, done ++ [.run] <+: calls → RefusedAlike u16 (done.foldl (uartStep u16) start) := by
  intro start
  obtain ⟨write, positive, carrying⟩ := serviceInit_carrying service hal rxStorage txMemory
    rxCapacity txCapacity maxRxItems maxTxItems env ok length fits
  have initially : InOrder u16 start := by
    rw [carrying.inOrder_iff]
    rfl
  rw [History.always_iff (uartStep u16) (fun s => ∃ q, Carrying u16 write q s) (InOrder u16)
    (fun s c => c = .run → RefusedAlike u16 s) (fun s c => uartStep_carrying c)
    (fun s c => uartStep_inOrder_iff c) start ⟨_, carrying⟩ initially calls]
  constructor
  · intro h done run
    exact h done .run run rfl
  · rintro h done c call rfl
    exact h done call

section Example

def stuckUart : SchUartHal Unit where
  tryReadByte := some fun s => (none, s)
  tryWriteByte := some fun _ s => (false, s)
  ackIrq := none

def blankUart : SchUartService Unit 16 where
  hal := ⟨none, none, none⟩
  rxRing := ⟨none, 0, 0, 0, 0, 0, 0, .dropNewest⟩
  txRing := ⟨none, 0, 0, 0, 0, 0, 0, .dropNewest⟩
  rxHint := false
  txHint := false
  maxRxItemsPerRun := 0
  maxTxItemsPerRun := 0

def stuckUartStart : UartWorld Unit 16 :=
  World.start (serviceInit Layout.word16 blankUart (some stuckUart) (some [0, 0]) 1
    (some [0, 0, 0, 0]) 2 1 1).2 ()

theorem uart_tx_inOrder_iff_two_bytes :
    ¬ ∀ done, done ++ [.run] <+: [UartCall.queueTx 1, .queueTx 2, .run] →
      RefusedAlike Layout.word16 (done.foldl (uartStep Layout.word16) stuckUartStart) := by
  intro alike
  have order := (uart_tx_inOrder_iff blankUart stuckUart (some [0, 0]) [0, 0, 0, 0] 1 2 1 1 ()
    [.queueTx 1, .queueTx 2, .run] (by decide) (by decide) (by decide)).mpr alike
  exact absurd (order _ (List.prefix_refl _)) (by decide)

/-- Two queued bytes and one refused write: the ring then holds them the other way round. -/
theorem uart_tx_reorders :
    (serviceInit Layout.word16 blankUart (some stuckUart) (some [0, 0]) 1
      (some [0, 0, 0, 0]) 2 1 1).1 = true ∧
    let s := [UartCall.queueTx 1, .queueTx 2, .run].foldl (uartStep Layout.word16) stuckUartStart
    ¬ InOrder Layout.word16 s ∧ accepted s.events = [1, 2] ∧ sent s.events = [] ∧
      s.state.txRing.items Layout.word16 = [2, 1] := by
  decide

end Example

end SchedulerLib.Services.SchUart
