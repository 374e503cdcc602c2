import SchedulerLib.Services.Motor
import SchedulerLib.Lib.History

/-!
The two queues of the motor service and what each call does to them. `serviceRun` on a
service with work to do applies the command, then consumes events, then samples; on a
service without work it does nothing.
-/

namespace SchedulerLib.Services.SchMotor

open Lib IsrBuffer

variable {σ : Type} {w : Nat}

structure Ready (u16 : Layout (BitVec 16)) (sample : Layout SchMotorFeedback)
    (q : Fifo (BitVec 16)) (f : Fifo SchMotorFeedback) (s : MotorWorld σ w) : Prop where
  events : Carries u16 s.state.eventQueue.ring q
  policy : q.policy = .dropOldest
  feedback : Carries sample s.state.feedbackRing f
  setEnable : s.state.hal.setEnable.isSome
  setTargetSpeedRpm : s.state.hal.setTargetSpeedRpm.isSome

def commandTrace (enable : Bool) (targetSpeedRpm : BitVec 16) : List MotorEvent :=
  .setEnable enable :: if enable then [.setTargetSpeedRpm targetSpeedRpm] else []

def consumeTrace (eventId : BitVec 16) : List MotorEvent :=
  .takeEvent eventId ::
    if eventId = SchMotorEventId.fault.code then [.setEnable false] else []

/-- A service with work: its hint is raised or one of its queues is not empty. -/
def HasWork (hint : Bool) (q : Fifo (BitVec 16)) (f : Fifo SchMotorFeedback) : Prop :=
  hint = true ∨ f.items ≠ [] ∨ q.items ≠ []

instance (hint : Bool) (q : Fifo (BitVec 16)) (f : Fifo SchMotorFeedback) :
    Decidable (HasWork hint q f) := inferInstanceAs (Decidable (_ ∨ _))

def runTrace (service : SchMotorSupervisionService σ w) (q : Fifo (BitVec 16))
    (f : Fifo SchMotorFeedback) : List MotorEvent :=
  if HasWork service.irqHint q f then
    commandTrace service.enabled service.targetSpeedRpm ++
      (q.items.take service.maxEventsPerRun.toNat).flatMap consumeTrace ++
      (f.items.take service.maxFeedbackItemsPerRun.toNat).map .takeFeedback
  else []

variable {u16 : Layout (BitVec 16)} {sample : Layout SchMotorFeedback} {q : Fifo (BitVec 16)}
  {f : Fifo SchMotorFeedback} {s : MotorWorld σ w}

theorem Ready.halSetEnable (h : Ready u16 sample q f s) (enable : Bool) :
    Ready u16 sample q f (halSetEnable enable s) ∧
      (halSetEnable enable s).state = s.state ∧
      (halSetEnable enable s).events = s.events ++ [.setEnable enable] := by
  obtain ⟨setEnable, present⟩ := Option.isSome_iff_exists.mp h.setEnable
  simp only [SchMotor.halSetEnable, present, World.emit_state, World.setEnv_state,
    World.emit_events, World.setEnv_events, and_true]
  exact ⟨h.events, h.policy, h.feedback, h.setEnable, h.setTargetSpeedRpm⟩

theorem Ready.halSetTargetSpeedRpm (h : Ready u16 sample q f s) (targetSpeedRpm : BitVec 16) :
    Ready u16 sample q f (halSetTargetSpeedRpm targetSpeedRpm s) ∧
      (halSetTargetSpeedRpm targetSpeedRpm s).state = s.state ∧
      (halSetTargetSpeedRpm targetSpeedRpm s).events =
        s.events ++ [.setTargetSpeedRpm targetSpeedRpm] := by
  obtain ⟨setTargetSpeedRpm, present⟩ := Option.isSome_iff_exists.mp h.setTargetSpeedRpm
  simp only [SchMotor.halSetTargetSpeedRpm, present, World.emit_state, World.setEnv_state,
    World.emit_events, World.setEnv_events, and_true]
  exact ⟨h.events, h.policy, h.feedback, h.setEnable, h.setTargetSpeedRpm⟩

theorem Ready.applyCommand (h : Ready u16 sample q f s) :
    Ready u16 sample q f (applyCommand s) ∧ (applyCommand s).state = s.state ∧
      (applyCommand s).events =
        s.events ++ commandTrace s.state.enabled s.state.targetSpeedRpm := by
  obtain ⟨ready, state, events⟩ := h.halSetEnable s.state.enabled
  unfold SchMotor.applyCommand commandTrace
  simp only [state]
  cases enabled : s.state.enabled with
  | false =>
    rw [enabled] at ready state events
    exact ⟨ready, state, events⟩
  | true =>
    rw [enabled] at ready state events
    obtain ⟨ready', state', events'⟩ := ready.halSetTargetSpeedRpm s.state.targetSpeedRpm
    refine ⟨ready', state'.trans state, ?_⟩
    rw [if_pos rfl, events', events]
    simp

theorem Ready.handleEvent (h : Ready u16 sample q f s) (eventId : BitVec 16) :
    Ready u16 sample q f (handleEvent eventId s) ∧
      (handleEvent eventId s).events =
        s.events ++ if eventId = SchMotorEventId.fault.code then [.setEnable false] else [] := by
  unfold SchMotor.handleEvent
  split_ifs with fault
  · have off : Ready u16 sample q f (s.modify fun service => { service with enabled := false }) :=
      ⟨h.events, h.policy, h.feedback, h.setEnable, h.setTargetSpeedRpm⟩
    obtain ⟨ready, -, events⟩ := off.halSetEnable false
    exact ⟨ready, events⟩
  · exact ⟨h, (List.append_nil _).symm⟩

@[simp] theorem halSetEnable_maxFeedback (enable : Bool) (s : MotorWorld σ w) :
    (halSetEnable enable s).state.maxFeedbackItemsPerRun = s.state.maxFeedbackItemsPerRun := by
  unfold halSetEnable
  cases s.state.hal.setEnable <;> rfl

@[simp] theorem handleEvent_maxFeedback (eventId : BitVec 16) (s : MotorWorld σ w) :
    (handleEvent eventId s).state.maxFeedbackItemsPerRun = s.state.maxFeedbackItemsPerRun := by
  unfold handleEvent
  split_ifs
  · rw [halSetEnable_maxFeedback]
    rfl
  · rfl

theorem drainEvents_maxFeedback (n : Nat) (s : MotorWorld σ w) :
    (drainEvents u16 id n s).state.maxFeedbackItemsPerRun = s.state.maxFeedbackItemsPerRun := by
  induction n generalizing s with
  | zero => rfl
  | succ n ih =>
    simp only [drainEvents, id_eq]
    cases (s.state.eventQueue.popTask u16).1 with
    | none => rfl
    | some eventId => simp [ih]

theorem Ready.drainEvents (n : Nat) (h : Ready u16 sample q f s) :
    Ready u16 sample (q.skip n) f (drainEvents u16 id n s) ∧
      (drainEvents u16 id n s).events = s.events ++ (q.items.take n).flatMap consumeTrace := by
  induction n generalizing q s with
  | zero => exact ⟨h, by simp [SchMotor.drainEvents]⟩
  | succ n ih =>
    obtain ⟨front, next⟩ := h.events.pop
    cases items : q.items with
    | nil =>
      have same : SchMotor.drainEvents u16 id (n + 1) s = s := by
        simp [SchMotor.drainEvents, SchEventQueue.popTask, front, items]
      rw [same, q.skip_of_nil _ items]
      exact ⟨h, by simp⟩
    | cons eventId rest =>
      have popped : Ready u16 sample q.pop f ((s.modify fun service =>
          { service with eventQueue := (s.state.eventQueue.popTask u16).2 }).emit
            (.takeEvent eventId)) :=
        ⟨next, h.policy, h.feedback, h.setEnable, h.setTargetSpeedRpm⟩
      obtain ⟨handled, trace⟩ := popped.handleEvent eventId
      obtain ⟨ready, events⟩ := ih handled
      have step : SchMotor.drainEvents u16 id (n + 1) s = SchMotor.drainEvents u16 id n
          (SchMotor.handleEvent eventId ((s.modify fun service =>
            { service with eventQueue := (s.state.eventQueue.popTask u16).2 }).emit
              (.takeEvent eventId))) := by
        simp [SchMotor.drainEvents, SchEventQueue.popTask, front, items]
      rw [step, ← q.pop_skip]
      refine ⟨ready, ?_⟩
      rw [events, trace, Fifo.pop_items, items]
      simp [consumeTrace]

theorem Ready.drainFeedback (n : Nat) (h : Ready u16 sample q f s) :
    Ready u16 sample q (f.skip n) (drainFeedback sample id n s) ∧
      (drainFeedback sample id n s).events = s.events ++ (f.items.take n).map .takeFeedback := by
  induction n generalizing f s with
  | zero => exact ⟨h, by simp [SchMotor.drainFeedback]⟩
  | succ n ih =>
    obtain ⟨front, next⟩ := h.feedback.pop
    cases items : f.items with
    | nil =>
      have same : SchMotor.drainFeedback sample id (n + 1) s = s := by
        simp [SchMotor.drainFeedback, front, items]
      rw [same, f.skip_of_nil _ items]
      exact ⟨h, by simp⟩
    | cons read rest =>
      have popped : Ready u16 sample q f.pop ((s.modify fun service =>
          { service with feedbackRing := (s.state.feedbackRing.popAs sample).2 }).emit
            (.takeFeedback read)) :=
        ⟨h.events, h.policy, next, h.setEnable, h.setTargetSpeedRpm⟩
      obtain ⟨ready, events⟩ := ih popped
      have step : SchMotor.drainFeedback sample id (n + 1) s = SchMotor.drainFeedback sample id n
          ((s.modify fun service =>
            { service with feedbackRing := (s.state.feedbackRing.popAs sample).2 }).emit
              (.takeFeedback read)) := by
        simp [SchMotor.drainFeedback, front, items]
      rw [step, ← f.pop_skip]
      refine ⟨ready, ?_⟩
      rw [events, Fifo.pop_items, items]
      simp

theorem Ready.supervise (h : Ready u16 sample q f s) :
    Ready u16 sample (q.skip s.state.maxEventsPerRun.toNat)
        (f.skip s.state.maxFeedbackItemsPerRun.toNat) (supervise u16 sample id s) ∧
      (supervise u16 sample id s).events = s.events ++
        (commandTrace s.state.enabled s.state.targetSpeedRpm ++
          (q.items.take s.state.maxEventsPerRun.toNat).flatMap consumeTrace ++
          (f.items.take s.state.maxFeedbackItemsPerRun.toNat).map .takeFeedback) := by
  obtain ⟨applied, state, command⟩ := h.applyCommand
  obtain ⟨consumed, trace⟩ := applied.drainEvents s.state.maxEventsPerRun.toNat
  obtain ⟨ready, events⟩ := consumed.drainFeedback s.state.maxFeedbackItemsPerRun.toNat
  have budget : (SchMotor.drainEvents u16 id s.state.maxEventsPerRun.toNat
      (SchMotor.applyCommand s)).state.maxFeedbackItemsPerRun =
        s.state.maxFeedbackItemsPerRun := by
    rw [drainEvents_maxFeedback, state]
  simp only [SchMotor.supervise, id_eq, state, budget]
  refine ⟨ready, ?_⟩
  rw [events, trace, command, List.append_assoc, List.append_assoc, List.append_assoc]

theorem Ready.clearHint (h : Ready u16 sample q f s) :
    Ready u16 sample q f (s.modify fun service => { service with irqHint := false }) :=
  ⟨h.events, h.policy, h.feedback, h.setEnable, h.setTargetSpeedRpm⟩

/-- The early return is taken exactly when there is no work. -/
theorem Ready.serviceRun_eq (h : Ready u16 sample q f s) :
    serviceRun u16 sample id s =
      if HasWork s.state.irqHint q f then
        SchMotor.supervise u16 sample id (s.modify fun service => { service with irqHint := false })
      else s.modify fun service => { service with irqHint := false } := by
  have noFeedback : s.state.feedbackRing.isEmpty = true ↔ f.items = [] := h.feedback.isEmpty_iff
  have noEvents : s.state.eventQueue.size = 0#w ↔ q.items = [] := by
    rw [← BitVec.toNat_inj, SchEventQueue.size, h.events.size_toNat]
    simp
  unfold SchMotor.serviceRun HasWork
  simp only [id_eq, World.modify_state, Bool.not_eq_true', ← Bool.not_eq_true, noFeedback,
    noEvents]
  by_cases hint : s.state.irqHint = true
  · simp [hint]
  · by_cases feedback : f.items = []
    · by_cases events : q.items = []
      · simp [hint, feedback, events]
      · simp [hint, feedback, events]
    · simp [hint, feedback]

theorem Ready.serviceRun (h : Ready u16 sample q f s) :
    Ready u16 sample (q.skip s.state.maxEventsPerRun.toNat)
        (f.skip s.state.maxFeedbackItemsPerRun.toNat) (serviceRun u16 sample id s) ∧
      (serviceRun u16 sample id s).events = s.events ++ runTrace s.state q f := by
  rw [h.serviceRun_eq, runTrace]
  by_cases work : HasWork s.state.irqHint q f
  · rw [if_pos work, if_pos work]
    exact h.clearHint.supervise
  · have idle := work
    simp only [HasWork, not_or, not_not] at idle
    rw [if_neg work, if_neg work, q.skip_of_nil _ idle.2.2, f.skip_of_nil _ idle.2.1]
    exact ⟨h.clearHint, (List.append_nil _).symm⟩

theorem Ready.acknowledge (h : Ready u16 sample q f s) :
    Ready u16 sample q f (acknowledge s) ∧ s.events <+: (acknowledge s).events := by
  unfold SchMotor.acknowledge
  cases s.state.hal.ackIrq with
  | none => exact ⟨h, List.prefix_rfl⟩
  | some ack =>
    exact ⟨⟨h.events, h.policy, h.feedback, h.setEnable, h.setTargetSpeedRpm⟩, by simp⟩

theorem Ready.sampleFeedback (h : Ready u16 sample q f s) :
    (∃ f', Ready u16 sample q f' (sampleFeedback sample s)) ∧
      s.events <+: (sampleFeedback sample s).events := by
  unfold SchMotor.sampleFeedback
  cases s.state.hal.readFeedbackSample with
  | none => exact ⟨⟨f, h⟩, List.prefix_rfl⟩
  | some readFeedbackSample =>
    dsimp only
    cases (readFeedbackSample s.env).1 with
    | none =>
      exact ⟨⟨f, h.events, h.policy, h.feedback, h.setEnable, h.setTargetSpeedRpm⟩, by simp⟩
    | some read =>
      exact ⟨⟨f.push read, h.events, h.policy, (h.feedback.push read).2, h.setEnable,
        h.setTargetSpeedRpm⟩, by simp⟩

theorem Ready.pushEvent (h : Ready u16 sample q f s) (id : SchMotorEventId) :
    Ready u16 sample (q.push id.code) f (pushEvent u16 id s) ∧
      s.events <+: (pushEvent u16 id s).events :=
  ⟨⟨(h.events.push id.code).2, h.policy, h.feedback, h.setEnable, h.setTargetSpeedRpm⟩,
    by simp [SchMotor.pushEvent]⟩

def nextEvents (maxEvents : Nat) (q : Fifo (BitVec 16)) : MotorCall → Fifo (BitVec 16)
  | .isrFeedback => q.push SchMotorEventId.feedback.code
  | .isrFault => q.push SchMotorEventId.fault.code
  | .setCommand .. => q
  | .run => q.skip maxEvents

theorem Ready.step (h : Ready u16 sample q f s) (c : MotorCall) :
    (∃ f', Ready u16 sample (nextEvents s.state.maxEventsPerRun.toNat q c) f'
        (motorStep u16 sample s c)) ∧
      s.events <+: (motorStep u16 sample s c).events := by
  cases c with
  | isrFeedback =>
    obtain ⟨acked, first⟩ := h.acknowledge
    obtain ⟨⟨f', sampled⟩, second⟩ := acked.sampleFeedback
    obtain ⟨pushed, third⟩ := sampled.pushEvent .feedback
    exact ⟨⟨f', pushed⟩, (first.trans second).trans third⟩
  | isrFault =>
    obtain ⟨acked, first⟩ := h.acknowledge
    obtain ⟨pushed, second⟩ := acked.pushEvent .fault
    exact ⟨⟨f, pushed⟩, first.trans second⟩
  | setCommand enable targetSpeedRpm =>
    exact ⟨⟨f, h.events, h.policy, h.feedback, h.setEnable, h.setTargetSpeedRpm⟩,
      by simp [motorStep, SchMotor.setCommand]⟩
  | run =>
    obtain ⟨ready, events⟩ := h.serviceRun
    exact ⟨⟨_, ready⟩, by rw [motorStep, events]; exact List.prefix_append ..⟩

theorem Ready.calls (h : Ready u16 sample q f s) (calls : List MotorCall) :
    ∃ q' f', q'.capacity = q.capacity ∧
      Ready u16 sample q' f' (calls.foldl (motorStep u16 sample) s) := by
  refine History.invariant (motorStep u16 sample)
    (fun s => ∃ q' f', q'.capacity = q.capacity ∧ Ready u16 sample q' f' s) ?_ s
    ⟨q, f, rfl, h⟩ calls
  rintro s c ⟨q', f', bound, ready⟩
  obtain ⟨⟨f'', next⟩, -⟩ := ready.step c
  exact ⟨_, f'', by cases c <;> exact bound, next⟩

theorem serviceInit_ready (service : SchMotorSupervisionService σ w) (hal : SchMotorHal σ)
    (feedbackMemory eventMemory : List Byte)
    (feedbackCapacity eventCapacity maxFeedbackItems maxEvents : BitVec w) (env : σ)
    (ok : (serviceInit u16 sample service (some hal) (some feedbackMemory) feedbackCapacity
      (some eventMemory) eventCapacity maxFeedbackItems maxEvents).1 = true)
    (feedbackLength : feedbackMemory.length = feedbackCapacity.toNat * sample.size)
    (feedbackFits : feedbackMemory.length < 2 ^ w)
    (eventLength : eventMemory.length = eventCapacity.toNat * u16.size)
    (eventFits : eventMemory.length < 2 ^ w) :
    ∃ q f, q.items = [] ∧ q.capacity = eventCapacity.toNat ∧ Ready u16 sample q f
      (World.start (serviceInit u16 sample service (some hal) (some feedbackMemory)
        feedbackCapacity (some eventMemory) eventCapacity maxFeedbackItems maxEvents).2 env) := by
  unfold serviceInit at ok ⊢
  dsimp only at ok ⊢
  split_ifs at ok ⊢ with bad
  obtain ⟨okFeedback, okEvents⟩ := Bool.and_eq_true _ _ ▸ ok
  obtain ⟨_, feedback⟩ := initAs_success sample service.feedbackRing feedbackMemory
    feedbackCapacity .dropOldest okFeedback feedbackLength feedbackFits
  obtain ⟨_, events⟩ := initAs_success u16 service.eventQueue.ring eventMemory eventCapacity
    .dropOldest okEvents eventLength eventFits
  simp only [Bool.or_eq_true, not_or, Option.isNone_iff_eq_none, ← Option.isSome_iff_ne_none]
    at bad
  exact ⟨_, _, rfl, rfl, events, rfl, feedback, bad.1.1.1, bad.1.1.2⟩

end SchedulerLib.Services.SchMotor
