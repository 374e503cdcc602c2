import SchedulerLib.Services.Eeprom
import SchedulerLib.Lib.History
import SchedulerLib.Lib.Offers

/-!
What becomes of accepted requests. The submit loop takes a request out of the ring before
it offers it to the hardware, and a request the hardware rejects goes nowhere: it is lost.
-/

namespace SchedulerLib.Services.SchI2cEeprom

open Lib IsrBuffer

variable {σ : Type} {w : Nat} (u16 : Layout (BitVec 16)) (descriptor : Layout SchEepromRequest)

def submitted (events : List EepromEvent) : List SchEepromRequest :=
  events.filterMap fun
    | .submitRequest request true => some request
    | _ => none

def accepted (events : List EepromEvent) : List SchEepromRequest :=
  events.filterMap fun
    | .enqueueRequest (some request) true => some request
    | _ => none

def InOrder (s : EepromWorld σ w) : Prop :=
  submitted s.events ++ s.state.requestRing.items descriptor = accepted s.events

instance (s : EepromWorld σ w) : Decidable (InOrder descriptor s) :=
  inferInstanceAs (Decidable (_ = _))

/-- The hardware rejects none of the requests that a run would offer it. -/
def RefusesNone (s : EepromWorld σ w) : Prop :=
  ∀ submit, s.state.hal.submitRequest = some submit →
    refused submit s.state.maxRequestsPerRun.toNat s.env
      (s.state.requestRing.items descriptor) = none

/-- The request side of a service: its ring carries `q`, and the hardware is `submit`. -/
structure Carrying (submit : SchEepromRequest → σ → Bool × σ) (q : Fifo SchEepromRequest)
    (s : EepromWorld σ w) : Prop where
  ring : Carries descriptor s.state.requestRing q
  policy : q.policy = .dropNewest
  hal : s.state.hal.submitRequest = some submit

@[simp] theorem submitted_append (e f : List EepromEvent) :
    submitted (e ++ f) = submitted e ++ submitted f := by
  simp [submitted]

@[simp] theorem accepted_append (e f : List EepromEvent) :
    accepted (e ++ f) = accepted e ++ accepted f := by
  simp [accepted]

variable {u16 descriptor} {submit : SchEepromRequest → σ → Bool × σ} {q : Fifo SchEepromRequest}
  {s : EepromWorld σ w}

theorem Carrying.inOrder_iff (h : Carrying descriptor submit q s) :
    InOrder descriptor s ↔ submitted s.events ++ q.items = accepted s.events := by
  rw [InOrder, h.ring.items]

def drop (_request : SchEepromRequest) (rest : List SchEepromRequest) : List SchEepromRequest := rest

/-- What up to `n` passes of the submit loop submit and leave in the ring. -/
structure Drained (descriptor : Layout SchEepromRequest)
    (submit : SchEepromRequest → σ → Bool × σ) (n : Nat) (q : Fifo SchEepromRequest)
    (s s' : EepromWorld σ w) : Prop where
  queued : accepted s'.events = accepted s.events
  submitted : submitted s'.events = submitted s.events ++ (offered submit drop n s.env q.items).1
  carrying : ∃ q', q'.items = (offered submit drop n s.env q.items).2 ∧
    Carrying descriptor submit q' s'

def offer (descriptor : Layout SchEepromRequest) (submit : SchEepromRequest → σ → Bool × σ)
    (request : SchEepromRequest) (s : EepromWorld σ w) : EepromWorld σ w :=
  let s := (s.modify fun service =>
    { service with requestRing := (service.requestRing.popAs descriptor).2 }).emit
      (.takeRequest request)
  (s.setEnv (submit request s.env).2).emit (.submitRequest request (submit request s.env).1)

@[simp] theorem offer_env (request : SchEepromRequest) :
    (offer descriptor submit request s).env = (submit request s.env).2 := rfl

@[simp] theorem offer_accepted (request : SchEepromRequest) :
    accepted (offer descriptor submit request s).events = accepted s.events := by
  simp [offer, accepted]

theorem offer_submitted_of_taken (request : SchEepromRequest)
    (taken : (submit request s.env).1 = true) :
    submitted (offer descriptor submit request s).events = submitted s.events ++ [request] := by
  simp [offer, submitted, taken]

theorem offer_submitted_of_refused (request : SchEepromRequest)
    (ref : (submit request s.env).1 = false) :
    submitted (offer descriptor submit request s).events = submitted s.events := by
  simp [offer, submitted, ref]

theorem Carrying.offer (h : Carrying descriptor submit q s) (request : SchEepromRequest) :
    Carrying descriptor submit q.pop (offer descriptor submit request s) :=
  ⟨h.ring.pop.2, h.policy, h.hal⟩

theorem Carrying.drainRequests_nil (h : Carrying descriptor submit q s) (n : Nat)
    (items : q.items = []) : drainRequests descriptor id n s = s := by
  have front : (s.state.requestRing.popAs descriptor).1 = none := by
    rw [h.ring.pop.1, items]
    rfl
  cases n with
  | zero => rfl
  | succ n => simp [drainRequests, front]

theorem Carrying.drainRequests_cons (h : Carrying descriptor submit q s) (n : Nat)
    (request : SchEepromRequest) (rest : List SchEepromRequest) (items : q.items = request :: rest) :
    drainRequests descriptor id (n + 1) s =
      if (submit request s.env).1 then
        drainRequests descriptor id n (SchI2cEeprom.offer descriptor submit request s)
      else SchI2cEeprom.offer descriptor submit request s := by
  have front : (s.state.requestRing.popAs descriptor).1 = some request := by
    rw [h.ring.pop.1, items]
    rfl
  simp only [drainRequests, front, h.hal, id_eq, World.emit_state, World.modify_state]
  rfl

theorem drainRequests_offering (queued : List SchEepromRequest) :
    Offering submit drop World.env (fun s => submitted s.events)
      (fun items s => ∃ q, q.items = items ∧ Carrying descriptor submit q s ∧
        accepted s.events = queued)
      (drainRequests (σ := σ) (w := w) descriptor id) where
  zero _ := rfl
  empty := by
    rintro n s ⟨q, items, h, -⟩
    exact h.drainRequests_nil n items
  taken := by
    rintro n s request rest ⟨q, items, h, before⟩ taken
    refine ⟨SchI2cEeprom.offer descriptor submit request s, ?_, offer_env request,
      offer_submitted_of_taken request taken, q.pop, ?_, h.offer request, ?_⟩
    · rw [h.drainRequests_cons n request rest items, if_pos taken]
    · rw [Fifo.pop_items, items, List.tail_cons]
    · rw [offer_accepted, before]
  refused := by
    -- the request has left the ring, and nothing puts it back
    rintro n s request rest ⟨q, items, h, before⟩ ref
    rw [h.drainRequests_cons n request rest items, if_neg ref]
    refine ⟨offer_submitted_of_refused request (by simpa using ref), q.pop, ?_,
      h.offer request, ?_⟩
    · rw [Fifo.pop_items, items, List.tail_cons, drop]
    · rw [offer_accepted, before]

theorem drainRequests_drained (n : Nat) (h : Carrying descriptor submit q s) :
    Drained descriptor submit n q s (drainRequests descriptor id n s) := by
  obtain ⟨gone, q', left, carrying, queued⟩ :=
    (drainRequests_offering (accepted s.events)).after n s q.items ⟨q, rfl, h, rfl⟩
  exact ⟨queued, gone, q', left, carrying⟩

structure KeepsRequests (s s' : EepromWorld σ w) : Prop where
  ring : s'.state.requestRing = s.state.requestRing
  hal : s'.state.hal = s.state.hal
  submitted : submitted s'.events = submitted s.events
  queued : accepted s'.events = accepted s.events

theorem KeepsRequests.refl (s : EepromWorld σ w) : KeepsRequests s s := ⟨rfl, rfl, rfl, rfl⟩

theorem KeepsRequests.trans {s₁ s₂ s₃ : EepromWorld σ w} (h : KeepsRequests s₁ s₂)
    (k : KeepsRequests s₂ s₃) : KeepsRequests s₁ s₃ :=
  ⟨k.ring.trans h.ring, k.hal.trans h.hal, k.submitted.trans h.submitted,
    k.queued.trans h.queued⟩

theorem KeepsRequests.carrying {s' : EepromWorld σ w} (k : KeepsRequests s s')
    (h : Carrying descriptor submit q s) : Carrying descriptor submit q s' :=
  ⟨k.ring ▸ h.ring, h.policy, k.hal ▸ h.hal⟩

theorem KeepsRequests.inOrder_iff {s' : EepromWorld σ w} (k : KeepsRequests s s') :
    InOrder descriptor s' ↔ InOrder descriptor s := by
  rw [InOrder, InOrder, k.ring, k.submitted, k.queued]

theorem acknowledge_keepsRequests (s : EepromWorld σ w) : KeepsRequests s (acknowledge s) := by
  unfold acknowledge
  cases s.state.hal.ackIrq with
  | none => exact KeepsRequests.refl s
  | some ack => exact ⟨rfl, rfl, by simp [submitted], by simp [accepted]⟩

theorem completionEvent_keepsRequests (s : EepromWorld σ w) :
    KeepsRequests s (completionEvent s).2 := by
  unfold completionEvent
  cases s.state.hal.consumeCompletion with
  | none => exact KeepsRequests.refl s
  | some consumeCompletion => exact ⟨rfl, rfl, by simp [submitted], by simp [accepted]⟩

theorem isrComplete_keepsRequests (s : EepromWorld σ w) :
    KeepsRequests s (isrComplete u16 s) := by
  refine ((acknowledge_keepsRequests s).trans (completionEvent_keepsRequests _)).trans ?_
  exact ⟨rfl, rfl, by simp [isrComplete, submitted], by simp [isrComplete, accepted]⟩

theorem drainCompletions_keepsRequests (n : Nat) (s : EepromWorld σ w) :
    KeepsRequests s (drainCompletions u16 id n s) := by
  induction n generalizing s with
  | zero => exact KeepsRequests.refl s
  | succ n ih =>
    simp only [drainCompletions, id_eq]
    cases (s.state.completionQueue.popTask u16).1 with
    | none => exact KeepsRequests.refl s
    | some eventId =>
      have rest := ih ((s.modify fun service =>
        { service with completionQueue := (s.state.completionQueue.popTask u16).2 }).emit
          (.takeCompletion eventId))
      refine KeepsRequests.trans ?_ rest
      exact ⟨rfl, rfl, by simp [submitted], by simp [accepted]⟩

theorem Drained.keepsRequests {n : Nat} {s' s'' : EepromWorld σ w}
    (d : Drained descriptor submit n q s s') (k : KeepsRequests s' s'') :
    Drained descriptor submit n q s s'' where
  queued := k.queued.trans d.queued
  submitted := k.submitted.trans d.submitted
  carrying := by
    obtain ⟨q', left, h⟩ := d.carrying
    exact ⟨q', left, k.carrying h⟩

theorem drain_drained (h : Carrying descriptor submit q s) :
    Drained descriptor submit s.state.maxRequestsPerRun.toNat q s (drain u16 descriptor id s) :=
  (drainRequests_drained _ h).keepsRequests (drainCompletions_keepsRequests _ _)

theorem serviceRun_drained (h : Carrying descriptor submit q s) :
    Drained descriptor submit s.state.maxRequestsPerRun.toNat q s
      (serviceRun u16 descriptor id s) := by
  have cleared : Carrying descriptor submit q
      (s.modify fun service => { service with irqHint := false }) := ⟨h.ring, h.policy, h.hal⟩
  have looped : Drained descriptor submit s.state.maxRequestsPerRun.toNat q s
      (drain u16 descriptor id (s.modify fun service => { service with irqHint := false })) := by
    obtain ⟨queued, submitted, carrying⟩ := @drain_drained _ _ u16 _ _ _ _ cleared
    exact ⟨queued, submitted, carrying⟩
  simp only [serviceRun, id_eq]
  split_ifs with hint requests completions
  · exact looped
  · exact looped
  · have items : q.items = [] := h.ring.isEmpty_iff.mp (by simpa using requests)
    refine ⟨rfl, ?_, q, ?_, cleared⟩
    · rw [items, offered_nil, List.append_nil]
      rfl
    · rw [items, offered_nil]
  · exact looped

theorem serviceRun_inOrder_iff (h : Carrying descriptor submit q s)
    (before : InOrder descriptor s) :
    InOrder descriptor (serviceRun u16 descriptor id s) ↔ RefusesNone descriptor s := by
  obtain ⟨queued, gone, q', left, carrying⟩ := @serviceRun_drained _ _ u16 _ _ _ _ h
  rw [h.inOrder_iff] at before
  rw [carrying.inOrder_iff, queued, gone, left, ← before, List.append_assoc,
    List.append_right_inj, offered_append_eq_iff]
  simp only [RefusesNone, h.ring.items, h.hal, Option.some.injEq, forall_eq', drop]
  cases refused submit s.state.maxRequestsPerRun.toNat s.env q.items with
  | none => simp
  | some found =>
    obtain ⟨request, behind⟩ := found
    simp

theorem enqueueRequestIsr_keeps (h : Carrying descriptor submit q s)
    (request : Option SchEepromRequest) :
    (∃ q', Carrying descriptor submit q' (enqueueRequestIsr descriptor request s)) ∧
      (InOrder descriptor s → InOrder descriptor (enqueueRequestIsr descriptor request s)) := by
  cases request with
  | none =>
    have kept : KeepsRequests s (enqueueRequestIsr descriptor none s) :=
      ⟨rfl, rfl, by simp [enqueueRequestIsr, submitted], by simp [enqueueRequestIsr, accepted]⟩
    exact ⟨⟨q, kept.carrying h⟩, kept.inOrder_iff.mpr⟩
  | some r =>
    obtain ⟨status, next⟩ := h.ring.push r
    have after : Carrying descriptor submit (q.push r) (enqueueRequestIsr descriptor (some r) s) :=
      ⟨next, h.policy, h.hal⟩
    refine ⟨⟨_, after⟩, fun before => ?_⟩
    rw [h.inOrder_iff] at before
    rw [after.inOrder_iff]
    rcases q.push_dropNewest_cases r h.policy with ⟨out, items⟩ | ⟨out, items⟩
    · rw [items]
      simp [enqueueRequestIsr, status, out, statusOf, ← before]
      simp [submitted, accepted]
    · rw [items]
      simp [enqueueRequestIsr, status, out, statusOf, ← before]
      simp [submitted, accepted]

theorem eepromStep_carrying (c : EepromCall) (h : ∃ q, Carrying descriptor submit q s) :
    ∃ q, Carrying descriptor submit q (eepromStep u16 descriptor s c) := by
  obtain ⟨q, h⟩ := h
  cases c with
  | enqueueRequest request => exact (enqueueRequestIsr_keeps h request).1
  | isrComplete => exact ⟨q, (isrComplete_keepsRequests s).carrying h⟩
  | run =>
    obtain ⟨q', -, carrying⟩ := (serviceRun_drained h).carrying
    exact ⟨q', carrying⟩

theorem eepromStep_inOrder_iff (c : EepromCall) (h : ∃ q, Carrying descriptor submit q s)
    (before : InOrder descriptor s) :
    InOrder descriptor (eepromStep u16 descriptor s c) ↔ (c = .run → RefusesNone descriptor s) := by
  obtain ⟨q, h⟩ := h
  cases c with
  | enqueueRequest request => simpa [eepromStep] using (enqueueRequestIsr_keeps h request).2 before
  | isrComplete => simpa [eepromStep] using (isrComplete_keepsRequests s).inOrder_iff.mpr before
  | run => simpa [eepromStep] using @serviceRun_inOrder_iff _ _ u16 _ _ _ _ h before

theorem serviceInit_carrying (service : SchI2cEepromService σ w) (hal : SchI2cEepromHal σ)
    (requestMemory : List Byte) (completionStorage : Option (List Byte))
    (requestCapacity completionCapacity maxRequests maxCompletions : BitVec w) (env : σ)
    (ok : (serviceInit u16 descriptor service (some hal) (some requestMemory) requestCapacity
      completionStorage completionCapacity maxRequests maxCompletions).1 = true)
    (length : requestMemory.length = requestCapacity.toNat * descriptor.size)
    (fits : requestMemory.length < 2 ^ w) :
    ∃ submit q, q.items = [] ∧ Carrying descriptor submit q (World.start (serviceInit u16
      descriptor service (some hal) (some requestMemory) requestCapacity completionStorage
      completionCapacity maxRequests maxCompletions).2 env) := by
  unfold serviceInit at ok ⊢
  dsimp only at ok ⊢
  split_ifs at ok ⊢ with bad
  obtain ⟨submit, callback⟩ : ∃ submit, hal.submitRequest = some submit := by
    cases present : hal.submitRequest with
    | none => simp [present] at bad
    | some submit => exact ⟨submit, rfl⟩
  obtain ⟨positive, ring⟩ := initAs_success descriptor service.requestRing requestMemory
    requestCapacity .dropNewest (Bool.and_eq_true _ _ ▸ ok).1 length fits
  exact ⟨submit, _, rfl, ring, rfl, callback⟩

/-- The accepted requests are submitted in order, none lost, in exactly the histories in
which the hardware rejects no request that a run offers it. -/
theorem eeprom_requests_inOrder_iff (service : SchI2cEepromService σ w) (hal : SchI2cEepromHal σ)
    (requestMemory : List Byte) (completionStorage : Option (List Byte))
    (requestCapacity completionCapacity maxRequests maxCompletions : BitVec w) (env : σ)
    (calls : List EepromCall)
    (ok : (serviceInit u16 descriptor service (some hal) (some requestMemory) requestCapacity
      completionStorage completionCapacity maxRequests maxCompletions).1 = true)
    (length : requestMemory.length = requestCapacity.toNat * descriptor.size)
    (fits : requestMemory.length < 2 ^ w) :
    let start := World.start (serviceInit u16 descriptor service (some hal) (some requestMemory)
      requestCapacity completionStorage completionCapacity maxRequests maxCompletions).2 env
    (∀ done, done <+: calls →
        InOrder descriptor (done.foldl (eepromStep u16 descriptor) start)) ↔
      ∀ done, done ++ [.run] <+: calls →
        RefusesNone descriptor (done.foldl (eepromStep u16 descriptor) start) := by
  intro start
  obtain ⟨submit, q, empty, carrying⟩ := serviceInit_carrying service hal requestMemory
    completionStorage requestCapacity completionCapacity maxRequests maxCompletions env ok length
    fits
  have initially : InOrder descriptor start := by
    rw [carrying.inOrder_iff, empty]
    rfl
  rw [History.always_iff (eepromStep u16 descriptor)
    (fun s => ∃ q, Carrying descriptor submit q s) (InOrder descriptor)
    (fun s c => c = .run → RefusesNone descriptor s) (fun s c => eepromStep_carrying c)
    (fun s c => eepromStep_inOrder_iff c) start ⟨q, carrying⟩ initially calls]
  constructor
  · intro h done run
    exact h done .run run rfl
  · rintro h done c call rfl
    exact h done call

section Example

def busyOnce : SchI2cEepromHal Bool where
  ackIrq := none
  submitRequest := some fun _ busy => (!busy, false)
  consumeCompletion := none

def blankEeprom : SchI2cEepromService Bool 16 where
  hal := ⟨none, none, none⟩
  requestRing := ⟨none, 0, 0, 0, 0, 0, 0, .dropNewest⟩
  completionQueue := ⟨⟨none, 0, 0, 0, 0, 0, 0, .dropNewest⟩⟩
  irqHint := false
  maxRequestsPerRun := 0
  maxCompletionsPerRun := 0

def requestLayout : Layout SchEepromRequest :=
  (Layout.word16.pair (Layout.word16.pair Layout.bool8)).record
    (fun b => (b.address, b.length, b.write)) (fun x => ⟨x.1, x.2.1, x.2.2⟩) fun _ => rfl

def eepromStart (busy : Bool) : EepromWorld Bool 16 :=
  World.start (serviceInit Layout.word16 requestLayout blankEeprom (some busyOnce)
    (some [0, 0, 0, 0, 0]) 1 (some [0, 0]) 1 1 1).2 busy

theorem eeprom_requests_inOrder_iff_busy :
    ¬ ∀ done, done ++ [.run] <+: [EepromCall.enqueueRequest (some ⟨16, 4, true⟩), .run] →
      RefusesNone requestLayout
        (done.foldl (eepromStep Layout.word16 requestLayout) (eepromStart true)) := by
  intro taken
  have order := (eeprom_requests_inOrder_iff blankEeprom busyOnce [0, 0, 0, 0, 0] (some [0, 0])
    1 1 1 1 true [.enqueueRequest (some ⟨16, 4, true⟩), .run] (by decide) (by decide)
    (by decide)).mpr taken
  exact absurd (order _ (List.prefix_refl _)) (by decide)

/-- One accepted request and one rejected submission: the request is nowhere. -/
theorem eeprom_request_lost :
    (serviceInit Layout.word16 requestLayout blankEeprom (some busyOnce)
      (some [0, 0, 0, 0, 0]) 1 (some [0, 0]) 1 1 1).1 = true ∧
    let s := [EepromCall.enqueueRequest (some ⟨16, 4, true⟩), .run, .run].foldl
      (eepromStep Layout.word16 requestLayout) (eepromStart true)
    ¬ InOrder requestLayout s ∧ accepted s.events = [⟨16, 4, true⟩] ∧ submitted s.events = [] ∧
      s.state.requestRing.items requestLayout = [] := by
  decide

end Example

end SchedulerLib.Services.SchI2cEeprom
