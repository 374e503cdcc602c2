import SchedulerLib.IsrBuffer.Channel
import SchedulerLib.Services.EepromOrder

/-!
The EEPROM service under preemption. Completions go through a channel. Requests keep their
order through ring and run, so that every accepted one is offered to the hardware once; the
only ones lost are those that the hardware refused, at most one for each run.
-/

namespace SchedulerLib.Services

open Lib IsrBuffer

inductive EepromEntry where
  | enqueueRequest (request : Option SchEepromRequest)
  | isrComplete
  deriving DecidableEq, Repr

def EepromCall.isRun : EepromCall → Bool
  | .run => true
  | _ => false

namespace SchI2cEeprom

variable {σ : Type} {w : Nat}

section Calls

variable (u16 : Layout (BitVec 16)) (descriptor : Layout SchEepromRequest)

def enter : EepromEntry → EepromWorld σ w → EepromWorld σ w
  | .enqueueRequest request => enqueueRequestIsr descriptor request
  | .isrComplete => isrComplete u16

/-- Between two critical sections, the calls the environment raises run to completion. -/
def preempted (fire : σ → List EepromEntry × σ) (s : EepromWorld σ w) : EepromWorld σ w :=
  (fire s.env).1.foldl (fun s entry => enter u16 descriptor entry s) (s.setEnv (fire s.env).2)

def preemptedStep (fire : σ → List EepromEntry × σ) (s : EepromWorld σ w) :
    EepromCall → EepromWorld σ w
  | .enqueueRequest request => enqueueRequestIsr descriptor request s
  | .isrComplete => isrComplete u16 s
  | .run => serviceRun u16 descriptor (preempted u16 descriptor fire) s

end Calls

def completed (u16 : Layout (BitVec 16)) :
    Channel (SchI2cEepromService σ w) EepromEvent (BitVec 16) w where
  layout := u16
  ring service := service.completionQueue.ring
  limit service := service.maxCompletionsPerRun
  put
    | .pushCompletion eventId _ => some eventId
    | _ => none
  taken
    | .takeCompletion eventId => some eventId
    | _ => none
  apart e _ taken := by
    cases e with
    | takeCompletion => rfl
    | _ => cases taken

section Completions

variable {u16 : Layout (BitVec 16)} {descriptor : Layout SchEepromRequest} {capacity : Nat}
  {positive : 0 < capacity} {budget : Nat} {seen : List EepromEvent} {places : Nat}
  {s s' : EepromWorld σ w}

abbrev Completing (u16 : Layout (BitVec 16)) (positive : 0 < capacity) (budget : Nat)
    (seen : List EepromEvent) (places : Nat) (s : EepromWorld σ w) : Prop :=
  (completed u16).Awaits .dropOldest positive budget seen places s

theorem completing_enqueueRequestIsr (h : Completing u16 positive budget seen places s)
    (request : Option SchEepromRequest) :
    Completing u16 positive budget seen places (enqueueRequestIsr descriptor request s) := by
  cases request with
  | none => exact h.emit _ ⟨rfl, rfl⟩
  | some r =>
    have pushed := h.modify (fun service => { service with
      requestRing := (s.state.requestRing.pushAs descriptor r).2 }) rfl rfl
    exact pushed.emit _ ⟨rfl, rfl⟩

theorem completing_acknowledge (h : Completing u16 positive budget seen places s) :
    Completing u16 positive budget seen places (acknowledge s) := by
  unfold SchI2cEeprom.acknowledge
  cases s.state.hal.ackIrq with
  | none => exact h
  | some ack => exact (h.setEnv (ack s.env)).emit .ackIrq ⟨rfl, rfl⟩

theorem completing_completionEvent (h : Completing u16 positive budget seen places s) :
    Completing u16 positive budget seen places (completionEvent s).2 := by
  unfold SchI2cEeprom.completionEvent
  cases s.state.hal.consumeCompletion with
  | none => exact h
  | some consume => exact (h.setEnv (consume s.env).2).emit _ ⟨rfl, rfl⟩

theorem completing_isrComplete (h : Completing u16 positive budget seen places s) :
    Completing u16 positive budget seen places (isrComplete u16 s) := by
  have told := completing_completionEvent (completing_acknowledge h)
  unfold SchI2cEeprom.isrComplete
  generalize SchI2cEeprom.completionEvent (SchI2cEeprom.acknowledge s) = event at told
  have pushed : Completing u16 positive budget seen places ((event.2.modify fun service =>
      { service with completionQueue :=
        (event.2.state.completionQueue.pushIsr u16 (event.1.setWidth 16)).2 }).emit
      (.pushCompletion (event.1.setWidth 16)
        (event.2.state.completionQueue.pushIsr u16 (event.1.setWidth 16)).1)) :=
    told.put (a := event.1.setWidth 16) (World.emit_events _ _) rfl rfl rfl
  exact pushed.modify _ rfl rfl

theorem completing_enter (h : Completing u16 positive budget seen places s) (entry : EepromEntry) :
    Completing u16 positive budget seen places (enter u16 descriptor entry s) := by
  cases entry with
  | enqueueRequest request => exact completing_enqueueRequestIsr h request
  | isrComplete => exact completing_isrComplete h

theorem completing_preempted (descriptor : Layout SchEepromRequest)
    (h : Completing u16 positive budget seen places s) (fire : σ → List EepromEntry × σ) :
    Completing u16 positive budget seen places (preempted u16 descriptor fire s) :=
  History.invariant (fun s entry => SchI2cEeprom.enter u16 descriptor entry s)
    (Completing u16 positive budget seen places) (fun _ entry h => completing_enter h entry) _
    (h.setEnv (fire s.env).2) (fire s.env).1

theorem completing_drainRequests (descriptor : Layout SchEepromRequest)
    (fire : σ → List EepromEntry × σ) (n : Nat)
    (h : Completing u16 positive budget seen places s) :
    Completing u16 positive budget seen places
      (drainRequests descriptor (SchI2cEeprom.preempted u16 descriptor fire) n s) := by
  induction n generalizing s with
  | zero => exact h
  | succ n ih =>
    have before := completing_preempted descriptor h fire
    simp only [SchI2cEeprom.drainRequests]
    generalize SchI2cEeprom.preempted u16 descriptor fire s = s at before
    cases (s.state.requestRing.popAs descriptor).1 with
    | none => exact before
    | some request =>
      have popped := before.modify (fun service =>
        { service with requestRing := (s.state.requestRing.popAs descriptor).2 }) rfl rfl
      have taken := completing_preempted descriptor
        (popped.emit (.takeRequest request) ⟨rfl, rfl⟩) fire
      dsimp only
      generalize SchI2cEeprom.preempted u16 descriptor fire _ = s at taken
      cases s.state.hal.submitRequest with
      | none => exact taken
      | some submit =>
        have answered := (taken.setEnv (submit request s.env).2).emit
          (.submitRequest request (submit request s.env).1) ⟨rfl, rfl⟩
        dsimp only
        split_ifs
        · exact ih answered
        · exact answered

theorem completing_drainCompletions (fire : σ → List EepromEntry × σ) (n : Nat)
    (h : Completing u16 positive budget seen places s) :
    Completing u16 positive budget seen (places - n)
      (drainCompletions u16 (SchI2cEeprom.preempted u16 descriptor fire) n s) := by
  induction n generalizing s places with
  | zero => exact h
  | succ n ih =>
    have before := completing_preempted descriptor h fire
    simp only [SchI2cEeprom.drainCompletions]
    generalize SchI2cEeprom.preempted u16 descriptor fire s = s at before
    cases front : (s.state.completionQueue.popTask u16).1 with
    | none => exact before.missed front _
    | some eventId =>
      have taken : Completing u16 positive budget seen (places - 1) ((s.modify fun service =>
          { service with completionQueue := (s.state.completionQueue.popTask u16).2 }).emit
            (.takeCompletion eventId)) :=
        before.take (e := .takeCompletion eventId) front (World.emit_events _ _) rfl rfl rfl
      have later := ih taken
      rwa [Nat.sub_sub, Nat.add_comm] at later

theorem completing_drain (fire : σ → List EepromEntry × σ)
    (h : Completing u16 positive budget seen places s) :
    Completing u16 positive budget seen (places - budget)
      (drain u16 descriptor (SchI2cEeprom.preempted u16 descriptor fire) s) := by
  have sent := completing_drainRequests descriptor fire s.state.maxRequestsPerRun.toNat h
  unfold SchI2cEeprom.drain
  dsimp only
  generalize SchI2cEeprom.drainRequests descriptor _ _ s = s at sent ⊢
  have limit : s.state.maxCompletionsPerRun.toNat = budget := sent.budget
  rw [limit]
  exact completing_drainCompletions fire budget sent

theorem completing_serviceRun (fire : σ → List EepromEntry × σ)
    (h : Completing u16 positive budget seen places s) :
    Completing u16 positive budget seen (places - budget)
      (serviceRun u16 descriptor (SchI2cEeprom.preempted u16 descriptor fire) s) := by
  have cleared := h.modify (fun service => { service with irqHint := false }) rfl rfl
  have gap := completing_preempted descriptor cleared fire
  have gap' := completing_preempted descriptor gap fire
  unfold SchI2cEeprom.serviceRun
  dsimp only
  split_ifs with hint requests completions
  · exact completing_drain fire cleared
  · exact completing_drain fire gap
  · exact gap'.empty (decide_eq_true completions) (places - budget)
  · exact completing_drain fire gap'

theorem serves_completed (u16 : Layout (BitVec 16)) (descriptor : Layout SchEepromRequest)
    (positive : 0 < capacity) (budget : Nat) (fire : σ → List EepromEntry × σ) :
    (completed (σ := σ) (w := w) u16).Serves .dropOldest positive
      (preemptedStep u16 descriptor fire) EepromCall.isRun budget where
  keeps seen places s call unmarked h := by
    cases call with
    | enqueueRequest request => exact completing_enqueueRequestIsr h request
    | isrComplete => exact completing_isrComplete h
    | run => cases unmarked
  advances seen places s call isMarked h := by
    cases call with
    | run => exact completing_serviceRun fire h
    | _ => cases isMarked

end Completions

section Requests

def tried (events : List EepromEvent) : List SchEepromRequest :=
  events.filterMap fun
    | .submitRequest request _ => some request
    | _ => none

def turnedDown (events : List EepromEvent) : List SchEepromRequest :=
  events.filterMap fun
    | .submitRequest request false => some request
    | _ => none

def rejected (events : List EepromEvent) : List SchEepromRequest :=
  events.filterMap fun
    | .enqueueRequest (some request) false => some request
    | _ => none

structure Silent (l : List EepromEvent) : Prop where
  accepted : accepted l = []
  tried : tried l = []
  turnedDown : turnedDown l = []
  rejected : rejected l = []

@[simp] theorem tried_append (e f : List EepromEvent) : tried (e ++ f) = tried e ++ tried f := by
  simp [tried]

@[simp] theorem turnedDown_append (e f : List EepromEvent) :
    turnedDown (e ++ f) = turnedDown e ++ turnedDown f := by
  simp [turnedDown]

@[simp] theorem rejected_append (e f : List EepromEvent) :
    rejected (e ++ f) = rejected e ++ rejected f := by
  simp [rejected]

/-- The request side since the moment `mid`. A request is accepted, in the ring, in the hands of
the run (`held`) and offered to the hardware, in this order. Of the requests in the ring at `mid`
as many as `granted` have been offered, less what refusals cost. -/
structure Submitting (descriptor : Layout SchEepromRequest) (mid : EepromWorld σ w)
    (granted limit : Nat) (held : Option SchEepromRequest) (s : EepromWorld σ w) : Prop where
  ring : ∃ q : Fifo SchEepromRequest, Carries descriptor s.state.requestRing q ∧
    q.policy = .dropNewest ∧ q.drops = (rejected s.events).length ∧
    accepted s.events = tried s.events ++ held.toList ++ q.items
  callback : s.state.hal.submitRequest.isSome
  positive : 0 < mid.state.maxRequestsPerRun.toNat
  budget : s.state.maxRequestsPerRun = mid.state.maxRequestsPerRun
  later : accepted mid.events <+: accepted s.events
  refusals : (turnedDown s.events).length ≤ (turnedDown mid.events).length + limit
  soon : (accepted mid.events).length ≤ (tried s.events).length ∨
    (accepted mid.events).length + granted +
        (turnedDown mid.events).length * (mid.state.maxRequestsPerRun.toNat - 1) ≤
      (tried s.events).length + mid.state.requestRing.size.toNat +
        (turnedDown s.events).length * (mid.state.maxRequestsPerRun.toNat - 1)

variable {u16 : Layout (BitVec 16)} {descriptor : Layout SchEepromRequest}
  {mid s s' : EepromWorld σ w} {granted limit : Nat} {held : Option SchEepromRequest}

theorem Submitting.aside (h : Submitting descriptor mid granted limit held s)
    {l : List EepromEvent} (events : s'.events = s.events ++ l) (silent : Silent l)
    (ring : s'.state.requestRing = s.state.requestRing) (hal : s'.state.hal = s.state.hal)
    (budget : s'.state.maxRequestsPerRun = s.state.maxRequestsPerRun) :
    Submitting descriptor mid granted limit held s' := by
  have accepted_same : accepted s'.events = accepted s.events := by
    rw [events, accepted_append, silent.accepted, List.append_nil]
  have tried_same : tried s'.events = tried s.events := by
    rw [events, tried_append, silent.tried, List.append_nil]
  have turned_same : turnedDown s'.events = turnedDown s.events := by
    rw [events, turnedDown_append, silent.turnedDown, List.append_nil]
  have rejected_same : rejected s'.events = rejected s.events := by
    rw [events, rejected_append, silent.rejected, List.append_nil]
  constructor
  · rw [accepted_same, tried_same, rejected_same, ring]
    exact h.ring
  · rw [hal]
    exact h.callback
  · exact h.positive
  · rw [budget, h.budget]
  · rw [accepted_same]
    exact h.later
  · rw [turned_same]
    exact h.refusals
  · rw [tried_same, turned_same]
    exact h.soon

theorem Submitting.modify (h : Submitting descriptor mid granted limit held s)
    (f : SchI2cEepromService σ w → SchI2cEepromService σ w)
    (ring : (f s.state).requestRing = s.state.requestRing) (hal : (f s.state).hal = s.state.hal)
    (budget : (f s.state).maxRequestsPerRun = s.state.maxRequestsPerRun) :
    Submitting descriptor mid granted limit held (s.modify f) :=
  h.aside (List.append_nil _).symm ⟨rfl, rfl, rfl, rfl⟩ ring hal budget

theorem Submitting.setEnv (h : Submitting descriptor mid granted limit held s) (env : σ) :
    Submitting descriptor mid granted limit held (s.setEnv env) :=
  h.aside (List.append_nil _).symm ⟨rfl, rfl, rfl, rfl⟩ rfl rfl rfl

theorem Submitting.emit (h : Submitting descriptor mid granted limit held s) (e : EepromEvent)
    (silent : Silent [e]) : Submitting descriptor mid granted limit held (s.emit e) :=
  h.aside (World.emit_events s e) silent rfl rfl rfl

theorem Submitting.enqueue (h : Submitting descriptor mid granted limit held s)
    (request : Option SchEepromRequest) :
    Submitting descriptor mid granted limit held (enqueueRequestIsr descriptor request s) := by
  cases request with
  | none => exact h.emit _ ⟨rfl, rfl, rfl, rfl⟩
  | some r =>
    obtain ⟨q, carries, policy, drops, order⟩ := h.ring
    obtain ⟨status, next⟩ := carries.push r
    have events : (enqueueRequestIsr descriptor (some r) s).events = s.events ++
        [.enqueueRequest (some r) (decide (statusOf q.outcome = .ok))] := by
      rw [← status]
      exact World.emit_events _ _
    have tried_same : tried (enqueueRequestIsr descriptor (some r) s).events = tried s.events := by
      rw [events, tried_append]
      exact List.append_nil _
    have turned_same :
        turnedDown (enqueueRequestIsr descriptor (some r) s).events = turnedDown s.events := by
      rw [events, turnedDown_append]
      exact List.append_nil _
    refine ⟨⟨q.push r, next, policy, ?_, ?_⟩, h.callback, h.positive, h.budget, ?_, ?_, ?_⟩
    · rw [events, rejected_append, List.length_append, Fifo.push, drops]
      rcases q.push_dropNewest_cases r policy with ⟨out, -⟩ | ⟨out, -⟩
      · simp [out, statusOf, rejected]
      · simp [out, statusOf, rejected]
    · rw [tried_same, events, accepted_append, order]
      rcases q.push_dropNewest_cases r policy with ⟨out, items⟩ | ⟨out, items⟩
      · simp [out, items, statusOf, accepted]
      · simp [out, items, statusOf, accepted]
    · rw [events, accepted_append]
      exact h.later.trans (List.prefix_append _ _)
    · rw [turned_same]
      exact h.refusals
    · rw [tried_same, turned_same]
      exact h.soon

theorem Submitting.acknowledge (h : Submitting descriptor mid granted limit held s) :
    Submitting descriptor mid granted limit held (acknowledge s) := by
  unfold SchI2cEeprom.acknowledge
  cases s.state.hal.ackIrq with
  | none => exact h
  | some ack => exact (h.setEnv (ack s.env)).emit .ackIrq ⟨rfl, rfl, rfl, rfl⟩

theorem Submitting.completionEvent (h : Submitting descriptor mid granted limit held s) :
    Submitting descriptor mid granted limit held (completionEvent s).2 := by
  unfold SchI2cEeprom.completionEvent
  cases s.state.hal.consumeCompletion with
  | none => exact h
  | some consume => exact (h.setEnv (consume s.env).2).emit _ ⟨rfl, rfl, rfl, rfl⟩

theorem Submitting.isrComplete (h : Submitting descriptor mid granted limit held s) :
    Submitting descriptor mid granted limit held (isrComplete u16 s) := by
  have told := h.acknowledge.completionEvent
  unfold SchI2cEeprom.isrComplete
  generalize SchI2cEeprom.completionEvent (SchI2cEeprom.acknowledge s) = event at told
  have pushed := told.modify (fun service => { service with
    completionQueue := (event.2.state.completionQueue.pushIsr u16 (event.1.setWidth 16)).2 })
    rfl rfl rfl
  exact (pushed.emit _ ⟨rfl, rfl, rfl, rfl⟩).modify _ rfl rfl rfl

theorem Submitting.enter (h : Submitting descriptor mid granted limit held s)
    (entry : EepromEntry) :
    Submitting descriptor mid granted limit held (enter u16 descriptor entry s) := by
  cases entry with
  | enqueueRequest request => exact h.enqueue request
  | isrComplete => exact h.isrComplete

theorem Submitting.preempted (u16 : Layout (BitVec 16))
    (h : Submitting descriptor mid granted limit held s) (fire : σ → List EepromEntry × σ) :
    Submitting descriptor mid granted limit held (preempted u16 descriptor fire s) :=
  History.invariant (fun s entry => SchI2cEeprom.enter u16 descriptor entry s)
    (Submitting descriptor mid granted limit held) (fun _ entry h => h.enter entry) _
    (h.setEnv (fire s.env).2) (fire s.env).1

theorem Submitting.take (h : Submitting descriptor mid granted limit none s)
    (request : SchEepromRequest)
    (front : (s.state.requestRing.popAs descriptor).1 = some request) :
    Submitting descriptor mid granted limit (some request) ((s.modify fun service =>
      { service with requestRing := (s.state.requestRing.popAs descriptor).2 }).emit
        (.takeRequest request)) := by
  obtain ⟨q, carries, policy, drops, order⟩ := h.ring
  have accepted_same : accepted (s.events ++ [.takeRequest request]) = accepted s.events := by
    rw [accepted_append]
    exact List.append_nil _
  have tried_same : tried (s.events ++ [.takeRequest request]) = tried s.events := by
    rw [tried_append]
    exact List.append_nil _
  have turned_same : turnedDown (s.events ++ [.takeRequest request]) = turnedDown s.events := by
    rw [turnedDown_append]
    exact List.append_nil _
  constructor
  · refine ⟨q.pop, carries.pop.2, policy, ?_, ?_⟩
    · rw [World.emit_events, World.modify_events, rejected_append]
      simpa [rejected] using drops
    · rw [carries.pop.1] at front
      obtain ⟨rest, items⟩ := List.head?_eq_some_iff.mp front
      rw [World.emit_events, World.modify_events, accepted_same, tried_same, order, Fifo.pop_items,
        items]
      simp
  · exact h.callback
  · exact h.positive
  · exact h.budget
  · rw [World.emit_events, World.modify_events, accepted_same]
    exact h.later
  · rw [World.emit_events, World.modify_events, turned_same]
    exact h.refusals
  · rw [World.emit_events, World.modify_events, tried_same, turned_same]
    exact h.soon

/-- The hardware's answer. A refusal ends the loop, so it may count for the whole of a run. -/
theorem Submitting.offered {request : SchEepromRequest}
    (h : Submitting descriptor mid granted limit (some request) s) (env : σ) (taken : Bool)
    (n : Nat) (within : n ≤ if taken then 1 else mid.state.maxRequestsPerRun.toNat) :
    Submitting descriptor mid (granted + n) (limit + if taken then 0 else 1) none
      ((s.setEnv env).emit (.submitRequest request taken)) := by
  obtain ⟨q, carries, policy, drops, order⟩ := h.ring
  have accepted_same :
      accepted (s.events ++ [.submitRequest request taken]) = accepted s.events := by
    rw [accepted_append]
    exact List.append_nil _
  have tried_more :
      tried (s.events ++ [.submitRequest request taken]) = tried s.events ++ [request] := by
    rw [tried_append]
    rfl
  have turned_more : (turnedDown (s.events ++ [.submitRequest request taken])).length =
      (turnedDown s.events).length + if taken then 0 else 1 := by
    rw [turnedDown_append, List.length_append]
    cases taken <;> rfl
  constructor
  · refine ⟨q, carries, policy, ?_, ?_⟩
    · rw [World.emit_events, World.setEnv_events, rejected_append]
      simpa [rejected] using drops
    · rw [World.emit_events, World.setEnv_events, accepted_same, tried_more, order]
      simp
  · exact h.callback
  · exact h.positive
  · exact h.budget
  · rw [World.emit_events, World.setEnv_events, accepted_same]
    exact h.later
  · rw [World.emit_events, World.setEnv_events, turned_more]
    have before := h.refusals
    omega
  · rw [World.emit_events, World.setEnv_events, turned_more, tried_more, List.length_append,
      List.length_singleton]
    rcases h.soon with done | waiting
    · exact .inl (by omega)
    · right
      have positive := h.positive
      cases taken with
      | true =>
        simp only [if_true, Nat.add_zero] at within ⊢
        omega
      | false =>
        rw [if_neg Bool.false_ne_true] at within
        rw [if_neg Bool.false_ne_true, Nat.add_mul, Nat.one_mul]
        omega

theorem Submitting.more (h : Submitting descriptor mid granted limit none s) :
    Submitting descriptor mid granted (limit + 1) none s :=
  ⟨h.ring, h.callback, h.positive, h.budget, h.later, h.refusals.trans (by omega), h.soon⟩

theorem Submitting.empty (h : Submitting descriptor mid granted limit none s)
    (empty : s.state.requestRing.isEmpty = true) (more : Nat) :
    Submitting descriptor mid more (limit + 1) none s := by
  obtain ⟨q, carries, policy, drops, order⟩ := h.ring
  have items := carries.isEmpty_iff.mp empty
  refine ⟨⟨q, carries, policy, drops, order⟩, h.callback, h.positive, h.budget, h.later,
    h.refusals.trans (by omega), .inl ?_⟩
  have early := h.later.length_le
  rw [order, items] at early
  simpa using early

theorem Submitting.missed (h : Submitting descriptor mid granted limit none s)
    (missed : (s.state.requestRing.popAs descriptor).1 = none) (more : Nat) :
    Submitting descriptor mid more (limit + 1) none s := by
  obtain ⟨q, carries, -⟩ := h.ring
  refine h.empty (carries.isEmpty_iff.mpr ?_) more
  rw [carries.pop.1] at missed
  exact List.head?_eq_none_iff.mp missed

theorem Submitting.drainRequests (u16 : Layout (BitVec 16)) (fire : σ → List EepromEntry × σ)
    (n : Nat) (within : n ≤ mid.state.maxRequestsPerRun.toNat)
    (h : Submitting descriptor mid granted limit none s) :
    Submitting descriptor mid (granted + n) (limit + 1) none
      (drainRequests descriptor (SchI2cEeprom.preempted u16 descriptor fire) n s) := by
  induction n generalizing s granted with
  | zero => exact h.more
  | succ n ih =>
    have before := h.preempted u16 fire
    simp only [SchI2cEeprom.drainRequests]
    generalize SchI2cEeprom.preempted u16 descriptor fire s = s at before
    cases front : (s.state.requestRing.popAs descriptor).1 with
    | none => exact before.missed front _
    | some request =>
      have taken := (before.take request front).preempted u16 fire
      dsimp only
      generalize SchI2cEeprom.preempted u16 descriptor fire _ = s at taken
      obtain ⟨submit, callback⟩ := Option.isSome_iff_exists.mp taken.callback
      rw [callback]
      dsimp only
      cases answer : (submit request s.env).1 with
      | true =>
        have answered := taken.offered (submit request s.env).2 true 1 le_rfl
        have later := ih (Nat.le_of_succ_le within) answered
        rwa [Nat.add_assoc, Nat.add_comm 1] at later
      | false => exact taken.offered (submit request s.env).2 false (n + 1) within

theorem Submitting.drainCompletions (fire : σ → List EepromEntry × σ) (n : Nat)
    (h : Submitting descriptor mid granted limit none s) :
    Submitting descriptor mid granted limit none
      (drainCompletions u16 (SchI2cEeprom.preempted u16 descriptor fire) n s) := by
  induction n generalizing s with
  | zero => exact h
  | succ n ih =>
    have before := h.preempted u16 fire
    simp only [SchI2cEeprom.drainCompletions]
    generalize SchI2cEeprom.preempted u16 descriptor fire s = s at before
    cases (s.state.completionQueue.popTask u16).1 with
    | none => exact before
    | some eventId =>
      have popped := before.modify (fun service => { service with
        completionQueue := (s.state.completionQueue.popTask u16).2 }) rfl rfl rfl
      exact ih (popped.emit (.takeCompletion eventId) ⟨rfl, rfl, rfl, rfl⟩)

theorem Submitting.drain (fire : σ → List EepromEntry × σ)
    (h : Submitting descriptor mid granted limit none s) :
    Submitting descriptor mid (granted + mid.state.maxRequestsPerRun.toNat) (limit + 1) none
      (drain u16 descriptor (SchI2cEeprom.preempted u16 descriptor fire) s) := by
  unfold SchI2cEeprom.drain
  dsimp only
  rw [h.budget]
  exact (h.drainRequests u16 fire _ le_rfl).drainCompletions fire _

theorem Submitting.serviceRun (fire : σ → List EepromEntry × σ)
    (h : Submitting descriptor mid granted limit none s) :
    Submitting descriptor mid (granted + mid.state.maxRequestsPerRun.toNat) (limit + 1) none
      (serviceRun u16 descriptor (SchI2cEeprom.preempted u16 descriptor fire) s) := by
  have cleared := h.modify (fun service => { service with irqHint := false }) rfl rfl rfl
  have gap := cleared.preempted u16 fire
  unfold SchI2cEeprom.serviceRun
  dsimp only
  split_ifs with hint requests completions
  · exact cleared.drain fire
  · exact gap.drain fire
  · rw [Bool.not_eq_true, Bool.not_eq_false'] at requests
    exact (gap.empty requests _).preempted u16 fire
  · exact (gap.preempted u16 fire).drain fire

/-- The account of the requests: offered ones, then those in the ring, are all that was accepted,
and the drops of the ring are the requests that were not. -/
structure RequestsAccounted (descriptor : Layout SchEepromRequest) (s : EepromWorld σ w) : Prop where
  order : tried s.events ++ s.state.requestRing.items descriptor = accepted s.events
  dropped : s.state.requestRing.dropCount = BitVec.ofNat w (rejected s.events).length

/-- What `n` runs that submit up to `budget` requests each achieve. The account is right, a run is
refused at most one request, and runs for all that was in the ring, and for what their refusals
cost, have offered everything accepted so far. -/
structure RequestsPass (descriptor : Layout SchEepromRequest) (budget n : Nat)
    (mid fin : EepromWorld σ w) : Prop where
  accounted : RequestsAccounted descriptor fin
  prompt : mid.state.requestRing.size.toNat + ((turnedDown fin.events).length -
      (turnedDown mid.events).length) * (budget - 1) ≤ n * budget →
    accepted mid.events <+: tried fin.events

theorem RequestsPass.fewer {budget m n : Nat} {mid fin : EepromWorld σ w}
    (h : RequestsPass descriptor budget n mid fin) (le : m ≤ n) :
    RequestsPass descriptor budget m mid fin :=
  ⟨h.accounted, fun enough => h.prompt (enough.trans (Nat.mul_le_mul_right budget le))⟩

theorem Submitting.accounted (h : Submitting descriptor mid granted limit none s) :
    RequestsAccounted descriptor s := by
  obtain ⟨q, carries, policy, drops, order⟩ := h.ring
  constructor
  · rw [carries.items, order, Option.toList_none, List.append_nil]
  · rw [carries.dropCount_eq, drops]

theorem Submitting.all (h : Submitting descriptor mid granted limit none s) :
    Submitting descriptor s 0 0 none s := by
  obtain ⟨q, carries, policy, drops, order⟩ := h.ring
  refine ⟨h.ring, h.callback, h.budget ▸ h.positive, rfl, List.prefix_rfl, le_rfl, .inr ?_⟩
  rw [order, Option.toList_none, List.append_nil, List.length_append, carries.size_toNat]
  omega

theorem Submitting.reaches (fire : σ → List EepromEntry × σ) {n : Nat}
    (reaches : History.Reaches (preemptedStep u16 descriptor fire) EepromCall.isRun n mid s)
    (start : Submitting descriptor mid 0 0 none mid) :
    Submitting descriptor mid (n * mid.state.maxRequestsPerRun.toNat) n none s := by
  have measured := reaches.measured (m := 0)
    (fun runs s => Submitting descriptor mid (runs * mid.state.maxRequestsPerRun.toNat) runs none s)
    (fun runs s call unmarked h => by
      cases call with
      | enqueueRequest request => exact h.enqueue request
      | isrComplete => exact h.isrComplete
      | run => cases unmarked)
    (fun runs s call marked h => by
      cases call with
      | run =>
        rw [Nat.succ_mul]
        exact h.serviceRun fire
      | _ => cases marked)
    (by rwa [Nat.zero_mul])
  rwa [Nat.zero_add] at measured

theorem requests_achieved (fire : σ → List EepromEntry × σ) {start : EepromWorld σ w}
    (initial : Submitting descriptor start 0 0 none start) :
    History.Achieves (preemptedStep u16 descriptor fire) EepromCall.isRun start fun n mid fin =>
      RequestsPass descriptor start.state.maxRequestsPerRun.toNat n mid fin ∧
        (turnedDown fin.events).length ≤ (turnedDown mid.events).length + n := by
  intro mid before n earlier fin later
  have reached := initial.reaches fire earlier
  have arrived := reached.all.reaches fire later
  refine ⟨⟨arrived.accounted, fun enough => ?_⟩, arrived.refusals⟩
  obtain ⟨q, carries, policy, drops, order⟩ := arrived.ring
  have offered : tried fin.events <+: accepted fin.events := by
    rw [order, List.append_assoc]
    exact List.prefix_append _ _
  refine List.prefix_of_prefix_length_le arrived.later offered ?_
  rcases arrived.soon with done | waiting
  · exact done
  · rw [reached.budget] at waiting
    rw [Nat.sub_mul] at enough
    omega

section Init

variable (service : SchI2cEepromService σ w) (hal : SchI2cEepromHal σ)
  (requestMemory completionMemory : List Byte)
  (requestCapacity completionCapacity maxRequests maxCompletions : BitVec w) (env : σ)
  (fire : σ → List EepromEntry × σ)

theorem serviceInit_submitting
    (ok : (serviceInit u16 descriptor service (some hal) (some requestMemory) requestCapacity
      (some completionMemory) completionCapacity maxRequests maxCompletions).1 = true)
    (length : requestMemory.length = requestCapacity.toNat * descriptor.size)
    (fits : requestMemory.length < 2 ^ w) :
    let start := World.start (serviceInit u16 descriptor service (some hal) (some requestMemory)
      requestCapacity (some completionMemory) completionCapacity maxRequests maxCompletions).2 env
    start.state.maxRequestsPerRun = maxRequests ∧ Submitting descriptor start 0 0 none start := by
  unfold serviceInit at ok ⊢
  dsimp only at ok ⊢
  split_ifs at ok ⊢ with bad
  obtain ⟨_, ring⟩ := initAs_success descriptor service.requestRing requestMemory
    requestCapacity .dropNewest (Bool.and_eq_true _ _ ▸ ok).1 length fits
  rw [Bool.or_eq_true, Bool.or_eq_true, not_or, not_or, decide_eq_true_eq] at bad
  refine ⟨rfl, ⟨_, ring, rfl, rfl, rfl⟩, ?_, ?_, rfl, List.prefix_rfl, le_rfl, .inr ?_⟩
  · simpa [Option.isSome_iff_ne_none] using bad.1.1
  · exact Nat.pos_of_ne_zero fun zero => bad.1.2 (BitVec.eq_of_toNat_eq zero)
  · simp [World.start, World.events, accepted]

theorem serviceInit_completing (positive : 0 < completionCapacity.toNat)
    (ok : (serviceInit u16 descriptor service (some hal) (some requestMemory) requestCapacity
      (some completionMemory) completionCapacity maxRequests maxCompletions).1 = true)
    (length : completionMemory.length = completionCapacity.toNat * u16.size)
    (fits : completionMemory.length < 2 ^ w) :
    Completing u16 positive maxCompletions.toNat [] 0 (World.start (serviceInit u16 descriptor
      service (some hal) (some requestMemory) requestCapacity (some completionMemory)
      completionCapacity maxRequests maxCompletions).2 env) := by
  unfold serviceInit at ok ⊢
  dsimp only at ok ⊢
  split_ifs at ok ⊢
  obtain ⟨-, ring⟩ := initAs_carries u16 service.completionQueue.ring completionMemory
    completionCapacity .dropOldest positive length fits
  exact Channel.awaits_start env rfl ring

/-- Whatever preempts the runs, accepted requests are offered to the hardware in order, each once,
and completions are taken in order. A refused request costs its run the rest of its budget; an
overwritten completion is counted. -/
theorem eeprom_traffic_served (positive : 0 < completionCapacity.toNat)
    (ok : (serviceInit u16 descriptor service (some hal) (some requestMemory) requestCapacity
      (some completionMemory) completionCapacity maxRequests maxCompletions).1 = true)
    (requestLength : requestMemory.length = requestCapacity.toNat * descriptor.size)
    (requestFits : requestMemory.length < 2 ^ w)
    (completionLength : completionMemory.length = completionCapacity.toNat * u16.size)
    (completionFits : completionMemory.length < 2 ^ w) :
    let start := World.start (serviceInit u16 descriptor service (some hal) (some requestMemory)
      requestCapacity (some completionMemory) completionCapacity maxRequests maxCompletions).2 env
    History.Achieves (preemptedStep u16 descriptor fire) EepromCall.isRun start fun n mid fin =>
      (RequestsPass descriptor maxRequests.toNat n mid fin ∧
        (turnedDown fin.events).length ≤ (turnedDown mid.events).length + n) ∧
      (completed u16).Passes .dropOldest positive maxCompletions.toNat n mid fin := by
  intro start mid before n earlier fin later
  obtain ⟨budget, submitting⟩ := serviceInit_submitting service hal requestMemory completionMemory
    requestCapacity completionCapacity maxRequests maxCompletions env ok requestLength requestFits
  have completing := serviceInit_completing service hal requestMemory completionMemory
    requestCapacity completionCapacity maxRequests maxCompletions env positive ok completionLength
    completionFits
  have requests := requests_achieved fire submitting mid before n earlier fin later
  have completions := (serves_completed u16 descriptor positive maxCompletions.toNat fire).brings
    completing mid before n earlier fin later
  rw [budget] at requests
  exact ⟨requests, completions.passes⟩

end Init

end Requests

section Example

def completeWhileBusy (busy : Bool) : List EepromEntry × Bool :=
  (if busy then [.isrComplete] else [], busy)

def eepromBusyStart : EepromWorld Bool 16 :=
  World.start (serviceInit Layout.word16 requestLayout blankEeprom (some busyOnce)
    (some [0, 0, 0, 0, 0, 0, 0, 0, 0, 0]) 2 (some [0, 0, 0, 0]) 2 2 1).2 true

/-- Of two requests the first is refused, so the second takes another run. -/
theorem eeprom_traffic_served_refused :
    let requests := [EepromCall.enqueueRequest (some ⟨16, 4, true⟩),
      .enqueueRequest (some ⟨32, 4, false⟩)]
    let mid := requests.foldl (preemptedStep Layout.word16 requestLayout completeWhileBusy)
      eepromBusyStart
    let fin := [EepromCall.run, .run].foldl
      (preemptedStep Layout.word16 requestLayout completeWhileBusy) mid
    accepted mid.events <+: tried fin.events ∧
      (completed (σ := Bool) (w := 16) Layout.word16).Accounted .dropOldest
        (show 0 < (2 : BitVec 16).toNat by decide) fin ∧
      turnedDown fin.events = [⟨16, 4, true⟩] := by
  intro requests mid fin
  have served := @eeprom_traffic_served _ _ Layout.word16 requestLayout
    blankEeprom busyOnce [0, 0, 0, 0, 0, 0, 0, 0, 0, 0] [0, 0, 0, 0] 2 2 2 1 true completeWhileBusy
    (by decide) (by decide) (by decide) (by decide) (by decide) (by decide)
  have before : History.Reaches (preemptedStep Layout.word16 requestLayout completeWhileBusy)
      EepromCall.isRun 0 eepromBusyStart mid := ⟨requests, rfl, by decide⟩
  have after : History.Reaches (preemptedStep Layout.word16 requestLayout completeWhileBusy)
      EepromCall.isRun 2 mid fin := ⟨[.run, .run], rfl, by decide⟩
  obtain ⟨⟨requests, -⟩, completions⟩ := served mid 0 2 before fin after
  exact ⟨requests.prompt (by decide), completions.accounted, by decide⟩

end Example

end SchI2cEeprom

end SchedulerLib.Services
