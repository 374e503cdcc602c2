import SchedulerLib.Services.UartOrder
import Mathlib.Algebra.Order.Group.Multiset
import Mathlib.Data.List.Chain
import Mathlib.Tactic.Abel

/-!
Conservation of transmitted bytes when other contexts preempt the run. A byte that the
hardware refused comes back through the producer end of the ring, where it competes with
what the producer queued in the meantime; it is lost exactly when it finds the ring full.
-/

namespace SchedulerLib.Services

open Lib IsrBuffer

inductive UartEntry where
  | queueTx (byte : BitVec 16)
  | isrTxReady
  | isrRx
  deriving DecidableEq, Repr

namespace SchUart

variable {σ : Type} {w : Nat} (u16 : Layout (BitVec 16))

def enter : UartEntry → UartWorld σ w → UartWorld σ w
  | .queueTx byte => queueTx u16 byte
  | .isrTxReady => isrTxReady
  | .isrRx => isrRx u16

/-- Between two critical sections, the calls the environment raises run to completion. -/
def preempted (fire : σ → List UartEntry × σ) (s : UartWorld σ w) : UartWorld σ w :=
  (fire s.env).1.foldl (fun s entry => enter u16 entry s) (s.setEnv (fire s.env).2)

def rejected (events : List UartEvent) : List (BitVec 16) :=
  events.filterMap fun
    | .queueTx byte false => some byte
    | _ => none

/-- The byte taken out of the ring last, until it is sent or put back. -/
def held (events : List UartEvent) : Option (BitVec 16) :=
  events.foldl (fun byte e => match e with
    | .takeTx byte => some byte
    | .writeByte _ true => none
    | .putBackTx _ _ => none
    | _ => byte) none

def lost (events : List UartEvent) : List (BitVec 16) :=
  events.filterMap fun
    | .putBackTx _ .ok => none
    | .putBackTx byte _ => some byte
    | _ => none

structure Conserved (events : List UartEvent) (service : SchUartService σ w) : Prop where
  bytes : (accepted events : Multiset (BitVec 16)) =
    sent events + service.txRing.items u16 + (held events).toList
  dropped : service.txRing.dropCount = BitVec.ofNat w (rejected events).length

def isPutBack : UartEvent → Bool
  | .putBackTx _ _ => true
  | _ => false

/-- A byte is put back into a ring that was not full. -/
def Roomy (x y : UartEvent × SchUartService σ w) : Prop :=
  isPutBack y.1 = true → x.2.txRing.isFull = false

instance (x y : UartEvent × SchUartService σ w) : Decidable (Roomy x y) :=
  inferInstanceAs (Decidable (_ → _))

@[simp] theorem rejected_append (e f : List UartEvent) :
    rejected (e ++ f) = rejected e ++ rejected f := by
  simp [rejected]

@[simp] theorem lost_append (e f : List UartEvent) : lost (e ++ f) = lost e ++ lost f := by
  simp [lost]

@[simp] theorem held_append_singleton (events : List UartEvent) (e : UartEvent) :
    held (events ++ [e]) = match e with
      | .takeTx byte => some byte
      | .writeByte _ true => none
      | .putBackTx _ _ => none
      | _ => held events := by
  simp [held]

structure Balance (q : Fifo (BitVec 16)) (events : List UartEvent)
    (service : SchUartService σ w) : Prop where
  ring : Carries u16 service.txRing q
  policy : q.policy = .dropNewest
  callback : service.hal.tryWriteByte.isSome
  bytes : (accepted events : Multiset (BitVec 16)) =
    sent events + q.items + (held events).toList + lost events
  drops : q.drops = (rejected events).length + (lost events).length

variable {u16} {q : Fifo (BitVec 16)} {events : List UartEvent} {service : SchUartService σ w}

theorem Balance.conserved_iff (h : Balance u16 q events service) :
    Conserved u16 events service ↔ lost events = [] := by
  constructor
  · intro conserved
    have both := conserved.bytes
    rw [h.bytes, h.ring.items, add_eq_left, Multiset.coe_eq_zero] at both
    exact both
  · intro none_lost
    have bytes := h.bytes
    have drops := h.drops
    rw [none_lost, Multiset.coe_nil, add_zero] at bytes
    rw [none_lost, List.length_nil, Nat.add_zero] at drops
    exact ⟨by rw [bytes, h.ring.items], by rw [h.ring.dropCount_eq, drops]⟩

theorem Balance.takeTx (h : Balance u16 q events service) (free : held events = none)
    (byte : BitVec 16) (front : (service.txRing.popAs u16).1 = some byte) :
    Balance u16 q.pop (events ++ [.takeTx byte])
      { service with txRing := (service.txRing.popAs u16).2 } where
  ring := h.ring.pop.2
  policy := h.policy
  callback := h.callback
  bytes := by
    have first := h.ring.pop.1
    rw [front] at first
    obtain ⟨rest, items⟩ := List.head?_eq_some_iff.mp first.symm
    have before := h.bytes
    rw [free, items] at before
    obtain ⟨a, t, l⟩ : accepted [.takeTx byte] = [] ∧ sent [.takeTx byte] = [] ∧
      lost [.takeTx byte] = [] := ⟨rfl, rfl, rfl⟩
    rw [accepted_append, sent_append, lost_append, held_append_singleton, a, t, l, Fifo.pop_items,
      items, List.append_nil, before, ← Multiset.cons_coe, ← Multiset.singleton_add]
    simp only [List.append_nil, List.tail_cons, Option.toList_none, Option.toList_some,
      Multiset.coe_nil, Multiset.coe_singleton]
    abel
  drops := by simpa [rejected, lost] using h.drops

theorem Balance.writeByte (h : Balance u16 q events service) (byte : BitVec 16)
    (holding : held events = some byte) (taken : Bool) :
    Balance u16 q (events ++ [.writeByte byte taken]) service where
  ring := h.ring
  policy := h.policy
  callback := h.callback
  bytes := by
    have before := h.bytes
    cases taken with
    | false =>
      rw [held_append_singleton]
      simpa [accepted, sent, lost] using before
    | true =>
      obtain ⟨a, t, l⟩ : accepted [.writeByte byte true] = [] ∧
        sent [.writeByte byte true] = [byte] ∧ lost [.writeByte byte true] = [] := ⟨rfl, rfl, rfl⟩
      rw [accepted_append, sent_append, lost_append, held_append_singleton, a, t, l]
      simp only [List.append_nil, Option.toList_none, Multiset.coe_nil, ← Multiset.coe_add]
      rw [before, holding, Option.toList_some]
      abel
  drops := by simpa [rejected, lost] using h.drops

theorem Balance.putBackTx (h : Balance u16 q events service) (byte : BitVec 16)
    (holding : held events = some byte) :
    Balance u16 (q.push byte) (events ++ [.putBackTx byte (service.txRing.pushAs u16 byte).1])
      { service with txRing := (service.txRing.pushAs u16 byte).2 } where
  ring := (h.ring.push byte).2
  policy := h.policy
  callback := h.callback
  bytes := by
    have before := h.bytes
    have a : ∀ status, accepted [.putBackTx byte status] = [] := fun _ => rfl
    have t : ∀ status, sent [.putBackTx byte status] = [] := fun _ => rfl
    rw [(h.ring.push byte).1, held_append_singleton, accepted_append, sent_append, lost_append]
    rcases q.push_dropNewest_cases byte h.policy with ⟨out, items⟩ | ⟨out, items⟩
    · -- the byte moves from the run's hands back into the ring
      have l : lost [.putBackTx byte (statusOf .stored)] = [] := rfl
      rw [out, items, a, t, l]
      simp only [List.append_nil, Option.toList_none, Multiset.coe_nil, ← Multiset.coe_add]
      rw [before, holding, Option.toList_some]
      abel
    · -- or it is gone
      have l : lost [.putBackTx byte (statusOf .droppedNewest)] = [byte] := rfl
      rw [out, items, a, t, l]
      simp only [List.append_nil, Option.toList_none, Multiset.coe_nil, ← Multiset.coe_add]
      rw [before, holding, Option.toList_some]
      abel
  drops := by
    have before := h.drops
    rw [(h.ring.push byte).1, Fifo.push, before, rejected_append, lost_append]
    rcases q.push_dropNewest_cases byte h.policy with ⟨out, -⟩ | ⟨out, -⟩
    · simp [out, statusOf, rejected, lost]
    · simp [out, statusOf, rejected, lost, Nat.add_assoc]

theorem Balance.queueTx (h : Balance u16 q events service) (byte : BitVec 16) :
    Balance u16 (q.push byte)
      (events ++ [.queueTx byte (decide ((service.txRing.pushAs u16 byte).1 = .ok))])
      { service with txRing := (service.txRing.pushAs u16 byte).2 } where
  ring := (h.ring.push byte).2
  policy := h.policy
  callback := h.callback
  bytes := by
    have before := h.bytes
    rw [(h.ring.push byte).1, held_append_singleton]
    rcases q.push_dropNewest_cases byte h.policy with ⟨out, items⟩ | ⟨out, items⟩
    · obtain ⟨a, t, l⟩ : accepted [.queueTx byte true] = [byte] ∧ sent [.queueTx byte true] = [] ∧
        lost [.queueTx byte true] = [] := ⟨rfl, rfl, rfl⟩
      have queued : decide (statusOf .stored = .ok) = true := rfl
      rw [out, items, queued, accepted_append, sent_append, lost_append, a, t, l]
      simp only [List.append_nil, ← Multiset.coe_add]
      rw [before]
      abel
    · rw [out, items]
      simpa [statusOf, accepted, sent, lost] using before
  drops := by
    have before := h.drops
    rw [(h.ring.push byte).1, Fifo.push, before, rejected_append, lost_append]
    rcases q.push_dropNewest_cases byte h.policy with ⟨out, -⟩ | ⟨out, -⟩
    · simp [out, statusOf, rejected, lost]
    · simp [out, statusOf, rejected, lost, Nat.add_right_comm]

def Aside : UartEvent → Prop
  | .ackIrq | .readByte _ | .takeRx _ => True
  | _ => False

theorem Balance.aside (h : Balance u16 q events service) (e : UartEvent) (aside : Aside e)
    (service' : SchUartService σ w) (ring : service'.txRing = service.txRing)
    (hal : service'.hal = service.hal) : Balance u16 q (events ++ [e]) service' where
  ring := ring ▸ h.ring
  policy := h.policy
  callback := hal ▸ h.callback
  bytes := by
    rw [held_append_singleton]
    cases e with
    | ackIrq | readByte | takeRx => simpa [accepted, sent, lost] using h.bytes
    | _ => exact aside.elim
  drops := by
    cases e with
    | ackIrq | readByte | takeRx => simpa [rejected, lost] using h.drops
    | _ => exact aside.elim

/-- The account holds throughout the log, with `byte` what a run in progress is holding; the
transmit ring is as the last entry left it, and bytes are lost only at a full ring. -/
structure Tracked (u16 : Layout (BitVec 16)) (byte : Option (BitVec 16)) (s : UartWorld σ w) :
    Prop where
  balanced : World.Throughout (fun events service => ∃ q, Balance u16 q events service) s
  holding : held s.events = byte
  latest : ∀ x ∈ s.log.getLast?, x.2.txRing = s.state.txRing
  roomy : lost s.events = [] ↔ s.log.IsChain Roomy

variable {byte : Option (BitVec 16)} {s : UartWorld σ w}

theorem Tracked.setEnv (h : Tracked u16 byte s) (env : σ) : Tracked u16 byte (s.setEnv env) :=
  ⟨h.balanced.setEnv env, h.holding, h.latest, h.roomy⟩

theorem Tracked.modify (h : Tracked u16 byte s) (f : SchUartService σ w → SchUartService σ w)
    (ring : (f s.state).txRing = s.state.txRing) (hal : (f s.state).hal = s.state.hal) :
    Tracked u16 byte (s.modify f) where
  balanced := by
    obtain ⟨q, balance⟩ := h.balanced.now
    exact h.balanced.setState _ ⟨q, ring ▸ balance.ring, balance.policy, hal ▸ balance.callback,
      balance.bytes, balance.drops⟩
  holding := h.holding
  latest x mem := (h.latest x mem).trans ring.symm
  roomy := h.roomy

theorem Tracked.record (h : Tracked u16 byte s) (service : SchUartService σ w) (e : UartEvent)
    (plain : isPutBack e = false) (balance : ∃ q, Balance u16 q (s.events ++ [e]) service) :
    Tracked u16 (held (s.events ++ [e])) ((s.setState service).emit e) where
  balanced := h.balanced.record service e balance
  holding := by rw [World.emit_events, World.setState_events]
  latest x mem := by
    rw [World.emit_log, List.getLast?_concat, Option.mem_some_iff] at mem
    rw [← mem]
    rfl
  roomy := by
    have same : lost (s.events ++ [e]) = lost s.events := by
      cases e with
      | putBackTx => cases plain
      | _ => simp [lost]
    rw [World.emit_events, World.setState_events, same, h.roomy, World.emit_log,
      List.isChain_append]
    simp [Roomy, plain]

theorem Tracked.putBackTx {b : BitVec 16} (h : Tracked u16 (some b) s) :
    Tracked u16 none (putBack u16 b s) := by
  obtain ⟨q, balance⟩ := h.balanced.now
  have next := balance.putBackTx b h.holding
  refine ⟨h.balanced.record _ _ ⟨_, next⟩, ?_, fun x mem => ?_, ?_⟩
  · rw [putBack, World.emit_events, held_append_singleton]
  · rw [putBack, World.emit_log, List.getLast?_concat, Option.mem_some_iff] at mem
    rw [← mem]
    rfl
  · -- the entry before is the one whose state decides, and there is one: the byte was taken
    obtain ⟨x, last⟩ : ∃ x, s.log.getLast? = some x := by
      cases last : s.log.getLast? with
      | some x => exact ⟨x, rfl⟩
      | none =>
        have holding := h.holding
        rw [World.events, List.getLast?_eq_none_iff.mp last] at holding
        cases holding
    have ring := h.latest x last
    have full := balance.ring.refines.isFull_iff
    rw [Fifo.map_items, List.length_map, Fifo.map_capacity] at full
    have decides : lost [.putBackTx b (s.state.txRing.pushAs u16 b).1] = [] ↔
        x.2.txRing.isFull = false := by
      rw [ring, ← Bool.not_eq_true, full, (balance.ring.push b).1]
      rcases q.push_dropNewest_cases b balance.policy with ⟨out, -⟩ | ⟨out, -⟩
      · have room := (q.outcome_eq_stored_iff).mp out
        simp [out, statusOf, lost, room.ne]
      · have closed := q.full_of_not_stored (by rw [out]; decide)
        simp [out, statusOf, lost, closed]
    rw [putBack, World.emit_events, World.modify_events, lost_append, List.append_eq_nil_iff,
      h.roomy, decides, World.emit_log, World.modify_log, List.isChain_append, last]
    simp [Roomy, isPutBack]

theorem Tracked.aside (h : Tracked u16 byte s) (e : UartEvent) (aside : Aside e)
    (service : SchUartService σ w) (ring : service.txRing = s.state.txRing)
    (hal : service.hal = s.state.hal) : Tracked u16 byte ((s.setState service).emit e) := by
  obtain ⟨q, balance⟩ := h.balanced.now
  have plain : isPutBack e = false := by cases e <;> first | rfl | exact aside.elim
  have kept : held (s.events ++ [e]) = byte := by
    rw [held_append_singleton, ← h.holding]
    cases e <;> first | rfl | exact aside.elim
  rw [← kept]
  exact h.record service e plain ⟨q, balance.aside e aside service ring hal⟩

theorem Tracked.acknowledge (h : Tracked u16 byte s) : Tracked u16 byte (acknowledge s) := by
  unfold SchUart.acknowledge
  cases s.state.hal.ackIrq with
  | none => exact h
  | some ack => exact (h.setEnv (ack s.env)).aside .ackIrq trivial s.state rfl rfl

theorem Tracked.isrTxReady (h : Tracked u16 byte s) : Tracked u16 byte (isrTxReady s) :=
  h.acknowledge.modify _ rfl rfl

theorem Tracked.isrRx (h : Tracked u16 byte s) : Tracked u16 byte (isrRx u16 s) := by
  have acked := h.acknowledge
  unfold SchUart.isrRx
  generalize SchUart.acknowledge s = s at acked
  dsimp only
  cases s.state.hal.tryReadByte with
  | none => exact acked
  | some tryReadByte =>
    have read := (acked.setEnv (tryReadByte s.env).2).aside (.readByte (tryReadByte s.env).1)
      trivial s.state rfl rfl
    dsimp only
    cases answer : (tryReadByte s.env).1 with
    | none =>
      rw [answer] at read
      exact read
    | some b =>
      rw [answer] at read
      exact read.modify (fun service => { service with
        rxRing := (service.rxRing.pushAs u16 b).2, rxHint := true }) rfl rfl

theorem Tracked.queueTx (h : Tracked u16 byte s) (b : BitVec 16) :
    Tracked u16 byte (queueTx u16 b s) := by
  obtain ⟨q, balance⟩ := h.balanced.now
  have entered := h.record _ _ rfl ⟨_, balance.queueTx b⟩
  rw [held_append_singleton] at entered
  rw [← h.holding]
  exact entered

theorem Tracked.enter (h : Tracked u16 byte s) (entry : UartEntry) :
    Tracked u16 byte (enter u16 entry s) := by
  cases entry with
  | queueTx b => exact h.queueTx b
  | isrTxReady => exact h.isrTxReady
  | isrRx => exact h.isrRx

theorem Tracked.preempted (h : Tracked u16 byte s) (fire : σ → List UartEntry × σ) :
    Tracked u16 byte (preempted u16 fire s) :=
  History.invariant _ _ (fun _ entry h => h.enter entry) _ (h.setEnv _) _

theorem Tracked.takeTx (h : Tracked u16 none s) (b : BitVec 16)
    (front : (s.state.txRing.popAs u16).1 = some b) :
    Tracked u16 (some b) ((s.modify fun service =>
      { service with txRing := (s.state.txRing.popAs u16).2 }).emit (.takeTx b)) := by
  obtain ⟨q, balance⟩ := h.balanced.now
  have taken := h.record _ _ rfl ⟨_, balance.takeTx h.holding b front⟩
  rw [held_append_singleton] at taken
  exact taken

theorem Tracked.writeByte {b : BitVec 16} (h : Tracked u16 (some b) s) (taken : Bool) (env : σ) :
    Tracked u16 (if taken then none else some b)
      ((s.setEnv env).emit (.writeByte b taken)) := by
  obtain ⟨q, balance⟩ := h.balanced.now
  have written := (h.setEnv env).record s.state _ rfl ⟨_, balance.writeByte b h.holding taken⟩
  rw [held_append_singleton, World.setEnv_events, h.holding] at written
  cases taken with
  | false => exact written
  | true => exact written

theorem Tracked.drainTx (fire : σ → List UartEntry × σ) (n : Nat) (h : Tracked u16 none s) :
    Tracked u16 none (drainTx u16 (SchUart.preempted u16 fire) n s) := by
  induction n generalizing s with
  | zero => exact h
  | succ n ih =>
    have before := h.preempted fire
    simp only [SchUart.drainTx]
    generalize SchUart.preempted u16 fire s = s at before
    cases front : (s.state.txRing.popAs u16).1 with
    | none => exact before
    | some b =>
      have taken := (before.takeTx b front).preempted fire
      dsimp only
      generalize SchUart.preempted u16 fire _ = s at taken
      obtain ⟨q, balance⟩ := taken.balanced.now
      obtain ⟨write, present⟩ := Option.isSome_iff_exists.mp balance.callback
      have written := taken.writeByte (write b s.env).1 (write b s.env).2
      rw [present]
      dsimp only
      split_ifs with answer
      · rw [if_pos answer] at written
        exact ih written
      · rw [if_neg answer] at written
        exact (written.preempted fire).putBackTx

theorem Tracked.drainRx (fire : σ → List UartEntry × σ) (n : Nat) (h : Tracked u16 none s) :
    Tracked u16 none (drainRx u16 (SchUart.preempted u16 fire) n s) := by
  induction n generalizing s with
  | zero => exact h
  | succ n ih =>
    have before := h.preempted fire
    simp only [SchUart.drainRx]
    generalize SchUart.preempted u16 fire s = s at before
    cases (s.state.rxRing.popAs u16).1 with
    | none => exact before
    | some b => exact ih (before.aside (.takeRx b) trivial _ rfl rfl)

theorem Tracked.drain (fire : σ → List UartEntry × σ) (h : Tracked u16 none s) :
    Tracked u16 none (drain u16 (SchUart.preempted u16 fire) s) :=
  (h.drainTx fire _).drainRx fire _

theorem Tracked.serviceRun (fire : σ → List UartEntry × σ) (h : Tracked u16 none s) :
    Tracked u16 none (serviceRun u16 (SchUart.preempted u16 fire) s) := by
  have cleared := h.modify (fun service => { service with rxHint := false, txHint := false })
    rfl rfl
  unfold SchUart.serviceRun
  dsimp only
  split_ifs with hint rx tx
  · exact cleared.drain fire
  · exact (cleared.preempted fire).drain fire
  · exact ((cleared.preempted fire).preempted fire).drain fire
  · exact (cleared.preempted fire).preempted fire

end SchUart

def uartPreemptedStep {σ : Type} {w : Nat} (u16 : Layout (BitVec 16))
    (fire : σ → List UartEntry × σ) (s : UartWorld σ w) : UartCall → UartWorld σ w
  | .queueTx byte => SchUart.queueTx u16 byte s
  | .isrTxReady => SchUart.isrTxReady s
  | .isrRx => SchUart.isrRx u16 s
  | .run => SchUart.serviceRun u16 (SchUart.preempted u16 fire) s

namespace SchUart

variable {σ : Type} {w : Nat} {u16 : Layout (BitVec 16)} {s : UartWorld σ w}

theorem Tracked.step (h : Tracked u16 none s) (fire : σ → List UartEntry × σ) (c : UartCall) :
    Tracked u16 none (uartPreemptedStep u16 fire s c) := by
  cases c with
  | queueTx b => exact h.queueTx b
  | isrTxReady => exact h.isrTxReady
  | isrRx => exact h.isrRx
  | run => exact h.serviceRun fire

theorem Tracked.conserved_iff {byte : Option (BitVec 16)} (h : Tracked u16 byte s) :
    World.Throughout (Conserved u16) s ↔ s.log.IsChain Roomy := by
  rw [← h.roomy]
  constructor
  · intro conserved
    obtain ⟨q, balance⟩ := h.balanced.now
    exact balance.conserved_iff.mp conserved.now
  · intro none_lost
    refine h.balanced.imp fun events service earlier => ?_
    rintro ⟨q, balance⟩
    obtain ⟨later, split⟩ := earlier
    rw [← split, lost_append, List.append_eq_nil_iff] at none_lost
    exact balance.conserved_iff.mpr none_lost.1

theorem serviceInit_tracked (service : SchUartService σ w) (hal : SchUartHal σ)
    (rxStorage : Option (List Byte)) (txMemory : List Byte)
    (rxCapacity txCapacity maxRxItems maxTxItems : BitVec w) (env : σ)
    (ok : (serviceInit u16 service (some hal) rxStorage rxCapacity (some txMemory) txCapacity
      maxRxItems maxTxItems).1 = true)
    (length : txMemory.length = txCapacity.toNat * u16.size) (fits : txMemory.length < 2 ^ w) :
    Tracked u16 none (World.start (serviceInit u16 service (some hal) rxStorage rxCapacity
      (some txMemory) txCapacity maxRxItems maxTxItems).2 env) := by
  obtain ⟨write, positive, carrying⟩ := serviceInit_carrying service hal rxStorage txMemory
    rxCapacity txCapacity maxRxItems maxTxItems env ok length fits
  have balance : ∃ q, Balance u16 q [] (serviceInit u16 service (some hal) rxStorage rxCapacity
      (some txMemory) txCapacity maxRxItems maxTxItems).2 :=
    ⟨_, carrying.ring, carrying.policy, Option.isSome_iff_exists.mpr ⟨write, carrying.hal⟩, rfl,
      rfl⟩
  exact ⟨World.throughout_start _ _ balance, rfl, fun _ mem => (by cases mem),
    iff_of_true rfl .nil⟩

/-- Bytes are conserved throughout a history in exactly the histories in which no refused
byte is put back into a full ring. -/
theorem uart_tx_conserved_iff (service : SchUartService σ w) (hal : SchUartHal σ)
    (rxStorage : Option (List Byte)) (txMemory : List Byte)
    (rxCapacity txCapacity maxRxItems maxTxItems : BitVec w) (env : σ)
    (fire : σ → List UartEntry × σ) (calls : List UartCall)
    (ok : (serviceInit u16 service (some hal) rxStorage rxCapacity (some txMemory) txCapacity
      maxRxItems maxTxItems).1 = true)
    (length : txMemory.length = txCapacity.toNat * u16.size) (fits : txMemory.length < 2 ^ w) :
    let s := calls.foldl (uartPreemptedStep u16 fire) (World.start (serviceInit u16 service
      (some hal) rxStorage rxCapacity (some txMemory) txCapacity maxRxItems maxTxItems).2 env)
    World.Throughout (Conserved u16) s ↔ s.log.IsChain Roomy := by
  intro s
  have start := serviceInit_tracked service hal rxStorage txMemory rxCapacity txCapacity
    maxRxItems maxTxItems env ok length fits
  have tracked : Tracked u16 none s :=
    History.invariant _ _ (fun _ c h => h.step fire c) _ start calls
  exact tracked.conserved_iff

section Example

def busyUart : SchUartHal Nat where
  tryReadByte := some fun n => (none, n)
  tryWriteByte := some fun _ n => (false, n)
  ackIrq := none

def blankBusyUart : SchUartService Nat 16 where
  hal := ⟨none, none, none⟩
  rxRing := ⟨none, 0, 0, 0, 0, 0, 0, .dropNewest⟩
  txRing := ⟨none, 0, 0, 0, 0, 0, 0, .dropNewest⟩
  rxHint := false
  txHint := false
  maxRxItemsPerRun := 0
  maxTxItemsPerRun := 0

def producerAt (n gap : Nat) : List UartEntry × Nat :=
  (if gap = n then [.queueTx 2] else [], gap + 1)

def busyUartRun (n : Nat) : UartWorld Nat 16 :=
  [UartCall.queueTx 1, .run].foldl (uartPreemptedStep Layout.word16 (producerAt n))
    (World.start (serviceInit Layout.word16 blankBusyUart (some busyUart) (some [0, 0]) 1
      (some [0, 0]) 1 1 1).2 0)

/-- The producer comes in after the put-back: its byte is turned away and nothing is lost. -/
theorem uart_tx_conserved_iff_late_producer :
    World.Throughout (Conserved Layout.word16) (busyUartRun 5) ∧
      rejected (busyUartRun 5).events = [2] :=
  ⟨(uart_tx_conserved_iff blankBusyUart busyUart (some [0, 0]) [0, 0] 1 1 1 1 0 (producerAt 5)
    [.queueTx 1, .run] (by decide) (by decide) (by decide)).mpr (by decide), by decide⟩

/-- The producer comes in between the pop and the put-back: two bytes were accepted, none
was sent, and one of them is gone, counted as a drop that no producer was told of. -/
theorem uart_tx_loses :
    (serviceInit Layout.word16 blankBusyUart (some busyUart) (some [0, 0]) 1 (some [0, 0]) 1
        1 1).1 = true ∧
      ¬ World.Throughout (Conserved Layout.word16) (busyUartRun 3) ∧
      accepted (busyUartRun 3).events = [1, 2] ∧ sent (busyUartRun 3).events = [] ∧
      (busyUartRun 3).state.txRing.items Layout.word16 = [2] ∧
      held (busyUartRun 3).events = none ∧ rejected (busyUartRun 3).events = [] ∧
      (busyUartRun 3).state.txRing.dropCount = 1 := by
  refine ⟨by decide, fun conserved => ?_, by decide⟩
  have dropped := conserved.now.dropped
  revert dropped
  decide

end Example

end SchUart

end SchedulerLib.Services
