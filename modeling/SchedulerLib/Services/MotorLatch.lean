import SchedulerLib.Services.MotorCommand
import SchedulerLib.Lib.History

/-!
The fault latch. Read off the log, the drive is armed from a command to enable it until a
command to disable it or a fault that a run pops; what the run sends to the hardware
follows that, at every moment, whichever interrupts preempt it.
-/

namespace SchedulerLib.Services

open Lib IsrBuffer

namespace SchMotor

variable {σ : Type} {w : Nat} (u16 : Layout (BitVec 16)) (sample : Layout SchMotorFeedback)

def isr : SchMotorEventId → MotorWorld σ w → MotorWorld σ w
  | .feedback => isrFeedback u16 sample
  | .fault => isrFault u16

def preempted (fire : σ → List SchMotorEventId × σ) (s : MotorWorld σ w) : MotorWorld σ w :=
  (fire s.env).1.foldl (fun s id => isr u16 sample id s) (s.setEnv (fire s.env).2)

/-- What an event makes of the armed speed: a command sets it, a popped fault clears it. -/
def arms : MotorEvent → Option (Option (BitVec 16))
  | .setCommand enable targetSpeedRpm => some (if enable then some targetSpeedRpm else none)
  | .takeEvent eventId => if eventId = SchMotorEventId.fault.code then some none else none
  | _ => none

def armed (events : List MotorEvent) : Option (BitVec 16) := History.latest arms none events

/-- The HAL calls that the log `before` permits next. -/
def Licensed (before : List MotorEvent) : MotorEvent → Prop
  | .setEnable enable => enable = true → (armed before).isSome
  | .setTargetSpeedRpm speed =>
    armed before = some speed ∧ before.getLast? = some (.setEnable true)
  | _ => True

def Lawful (events : List MotorEvent) (_ : SchMotorSupervisionService σ w) : Prop :=
  ∀ before e, events = before ++ [e] → Licensed before e

/-- The latch on a whole log. After a popped fault nothing enables the drive or sets a speed
before the next command to enable; and a speed is only ever set right after enabling, as the
last command said, with no fault popped since. -/
structure FaultLatched (events : List MotorEvent) : Prop where
  latched : ∀ before after later,
    events = before ++ .takeEvent SchMotorEventId.fault.code :: (after ++ later) →
    (∀ speed, .setCommand true speed ∉ after) →
    .setEnable true ∉ after ∧ ∀ speed, .setTargetSpeedRpm speed ∉ after
  commanded : ∀ before speed later, events = before ++ .setTargetSpeedRpm speed :: later →
    ∃ earlier since, before = earlier ++ .setCommand true speed :: (since ++ [.setEnable true]) ∧
      (∀ enable other, .setCommand enable other ∉ since) ∧
      .takeEvent SchMotorEventId.fault.code ∉ since

/-- `popped` says that a run has popped a fault and not handled it yet. -/
structure Latching (popped : Bool) (s : MotorWorld σ w) : Prop where
  lawful : World.Throughout Lawful s
  command : armed s.events =
    if s.state.enabled && !popped then some s.state.targetSpeedRpm else none
  setEnable : s.state.hal.setEnable.isSome
  setTargetSpeedRpm : s.state.hal.setTargetSpeedRpm.isSome

variable {u16 sample} {popped : Bool} {s : MotorWorld σ w}

theorem lawful_append {events : List MotorEvent} {e : MotorEvent}
    (service : SchMotorSupervisionService σ w) (licensed : Licensed events e) :
    Lawful (events ++ [e]) service := by
  intro before x split
  obtain ⟨rfl, same⟩ := List.append_inj' split rfl
  obtain rfl : e = x := by simpa using same
  exact licensed

theorem Latching.setEnv (h : Latching popped s) (env : σ) : Latching popped (s.setEnv env) :=
  ⟨h.lawful.setEnv env, h.command, h.setEnable, h.setTargetSpeedRpm⟩

theorem Latching.modify (h : Latching popped s)
    (f : SchMotorSupervisionService σ w → SchMotorSupervisionService σ w)
    (enabled : (f s.state).enabled = s.state.enabled)
    (speed : (f s.state).targetSpeedRpm = s.state.targetSpeedRpm)
    (hal : (f s.state).hal = s.state.hal) : Latching popped (s.modify f) where
  lawful := h.lawful.setState _ h.lawful.now
  command := by
    rw [World.modify_state, enabled, speed]
    exact h.command
  setEnable := hal ▸ h.setEnable
  setTargetSpeedRpm := hal ▸ h.setTargetSpeedRpm

theorem Latching.emit (h : Latching popped s) (e : MotorEvent) (silent : arms e = none)
    (licensed : Licensed s.events e) : Latching popped (s.emit e) where
  lawful := h.lawful.emit e (lawful_append _ licensed)
  command := by
    rw [World.emit_events, armed, History.latest_of_no_write _ _ _ _ silent]
    exact h.command
  setEnable := h.setEnable
  setTargetSpeedRpm := h.setTargetSpeedRpm

theorem Latching.acknowledge (h : Latching popped s) : Latching popped (acknowledge s) := by
  unfold SchMotor.acknowledge
  cases s.state.hal.ackIrq with
  | none => exact h
  | some ack => exact (h.setEnv _).emit .ackIrq rfl trivial

theorem Latching.pushEvent (h : Latching popped s) (id : SchMotorEventId) :
    Latching popped (pushEvent u16 id s) := by
  have queued := h.modify (fun service =>
    { service with eventQueue := (s.state.eventQueue.pushIsr u16 id.code).2 }) rfl rfl rfl
  have logged := queued.emit (.pushEvent id (s.state.eventQueue.pushIsr u16 id.code).1) rfl trivial
  exact logged.modify (fun service => { service with irqHint := true }) rfl rfl rfl

theorem Latching.sampleFeedback (h : Latching popped s) :
    Latching popped (sampleFeedback sample s) := by
  unfold SchMotor.sampleFeedback
  cases s.state.hal.readFeedbackSample with
  | none => exact h
  | some readFeedbackSample =>
    have read := (h.setEnv (readFeedbackSample s.env).2).emit
      (.readFeedbackSample (readFeedbackSample s.env).1) rfl trivial
    dsimp only
    cases answer : (readFeedbackSample s.env).1 with
    | none =>
      rw [answer] at read
      exact read
    | some value =>
      rw [answer] at read
      exact read.modify (fun service => { service with
        feedbackRing := (service.feedbackRing.pushAs sample value).2 }) rfl rfl rfl

theorem Latching.isr (h : Latching popped s) (id : SchMotorEventId) :
    Latching popped (isr u16 sample id s) := by
  cases id with
  | feedback => exact h.acknowledge.sampleFeedback.pushEvent .feedback
  | fault => exact h.acknowledge.pushEvent .fault

theorem Latching.preempted (h : Latching popped s) (fire : σ → List SchMotorEventId × σ) :
    Latching popped (preempted u16 sample fire s) :=
  History.invariant _ _ (fun _ id h => h.isr id) _ (h.setEnv _) _

theorem Latching.setCommand (h : Latching false s) (enable : Bool) (speed : BitVec 16) :
    Latching false (setCommand enable speed s) where
  lawful := h.lawful.record _ _ (lawful_append _ trivial)
  command := by
    rw [SchMotor.setCommand, World.emit_events, armed,
      History.latest_of_write arms none _ (.setCommand enable speed) _ rfl]
    simp
  setEnable := h.setEnable
  setTargetSpeedRpm := h.setTargetSpeedRpm

theorem Latching.halSetEnable (h : Latching popped s) (enable : Bool)
    (licensed : enable = true → (armed s.events).isSome) :
    Latching popped (halSetEnable enable s) ∧ (halSetEnable enable s).state = s.state ∧
      (halSetEnable enable s).events = s.events ++ [.setEnable enable] := by
  obtain ⟨callback, present⟩ := Option.isSome_iff_exists.mp h.setEnable
  unfold SchMotor.halSetEnable
  rw [present]
  exact ⟨(h.setEnv (callback enable s.env).2).emit (.setEnable enable) rfl licensed, rfl,
    World.emit_events _ _⟩

theorem Latching.applyCommand (h : Latching false s) : Latching false (applyCommand s) := by
  have command := h.command
  rw [Bool.not_false, Bool.and_true] at command
  obtain ⟨enabling, same, events⟩ := h.halSetEnable s.state.enabled fun enabled => by
    rw [command, if_pos enabled]
    rfl
  unfold SchMotor.applyCommand
  dsimp only
  split_ifs with on
  · obtain ⟨callback, present⟩ := Option.isSome_iff_exists.mp enabling.setTargetSpeedRpm
    unfold SchMotor.halSetTargetSpeedRpm
    rw [present]
    refine (enabling.setEnv _).emit _ rfl ⟨?_, ?_⟩
    · have after := enabling.command
      rwa [on, Bool.not_false, Bool.and_true, if_pos rfl] at after
    · rw [same] at on
      rw [World.setEnv_events, events, List.getLast?_concat, on]
  · exact enabling

theorem Latching.takeEvent (h : Latching false s) (queue : SchEventQueue w)
    (eventId : BitVec 16) :
    Latching (decide (eventId = SchMotorEventId.fault.code))
      ((s.modify fun service => { service with eventQueue := queue }).emit (.takeEvent eventId))
    where
  lawful := h.lawful.record _ _ (lawful_append _ trivial)
  command := by
    rw [World.emit_events, World.modify_events, armed]
    by_cases fault : eventId = SchMotorEventId.fault.code
    · rw [History.latest_of_write arms none _ _ none (by simp [arms, fault])]
      simp [fault]
    · rw [History.latest_of_no_write arms none _ _ (by simp [arms, fault])]
      have before := h.command
      rw [armed] at before
      simpa [fault] using before
  setEnable := h.setEnable
  setTargetSpeedRpm := h.setTargetSpeedRpm

theorem Latching.handleEvent (eventId : BitVec 16)
    (h : Latching (decide (eventId = SchMotorEventId.fault.code)) s) :
    Latching false (handleEvent eventId s) := by
  unfold SchMotor.handleEvent
  split_ifs with fault
  · have disabled : Latching false (s.modify fun service => { service with enabled := false }) := by
      refine ⟨h.lawful.setState _ h.lawful.now, ?_, h.setEnable, h.setTargetSpeedRpm⟩
      simpa [fault] using h.command
    exact (disabled.halSetEnable false fun on => absurd on Bool.false_ne_true).1
  · simpa [fault] using h

theorem Latching.drainEvents (fire : σ → List SchMotorEventId × σ) (n : Nat)
    (h : Latching false s) :
    Latching false (drainEvents u16 (SchMotor.preempted u16 sample fire) n s) := by
  induction n generalizing s with
  | zero => exact h
  | succ n ih =>
    have before : Latching false (SchMotor.preempted u16 sample fire s) := h.preempted fire
    simp only [SchMotor.drainEvents]
    generalize SchMotor.preempted u16 sample fire s = s at before
    cases (s.state.eventQueue.popTask u16).1 with
    | none => exact before
    | some eventId => exact ih (((before.takeEvent _ eventId).preempted fire).handleEvent eventId)

theorem Latching.drainFeedback (fire : σ → List SchMotorEventId × σ) (n : Nat)
    (h : Latching false s) :
    Latching false (drainFeedback sample (SchMotor.preempted u16 sample fire) n s) := by
  induction n generalizing s with
  | zero => exact h
  | succ n ih =>
    have before : Latching false (SchMotor.preempted u16 sample fire s) := h.preempted fire
    simp only [SchMotor.drainFeedback]
    generalize SchMotor.preempted u16 sample fire s = s at before
    cases (s.state.feedbackRing.popAs sample).1 with
    | none => exact before
    | some feedback =>
      have popped := before.modify (fun service =>
        { service with feedbackRing := (s.state.feedbackRing.popAs sample).2 }) rfl rfl rfl
      exact ih (popped.emit (.takeFeedback feedback) rfl trivial)

theorem Latching.supervise (fire : σ → List SchMotorEventId × σ) (h : Latching false s) :
    Latching false (supervise u16 sample (SchMotor.preempted u16 sample fire) s) :=
  (((h.preempted fire).applyCommand).drainEvents fire _).drainFeedback fire _

theorem Latching.serviceRun (fire : σ → List SchMotorEventId × σ) (h : Latching false s) :
    Latching false (serviceRun u16 sample (SchMotor.preempted u16 sample fire) s) := by
  have cleared := h.modify (fun service => { service with irqHint := false }) rfl rfl rfl
  unfold SchMotor.serviceRun
  dsimp only
  split_ifs with hint feedback events
  · exact cleared.supervise fire
  · exact (cleared.preempted fire).supervise fire
  · exact (cleared.preempted fire).preempted fire
  · exact ((cleared.preempted fire).preempted fire).supervise fire

end SchMotor

def motorPreemptedStep {σ : Type} {w : Nat} (u16 : Layout (BitVec 16))
    (sample : Layout SchMotorFeedback) (fire : σ → List SchMotorEventId × σ) (s : MotorWorld σ w) :
    MotorCall → MotorWorld σ w
  | .isrFeedback => SchMotor.isrFeedback u16 sample s
  | .isrFault => SchMotor.isrFault u16 s
  | .setCommand enable targetSpeedRpm => SchMotor.setCommand enable targetSpeedRpm s
  | .run => SchMotor.serviceRun u16 sample (SchMotor.preempted u16 sample fire) s

namespace SchMotor

variable {σ : Type} {w : Nat} {u16 : Layout (BitVec 16)} {sample : Layout SchMotorFeedback}
  {s : MotorWorld σ w}

theorem Latching.step (h : Latching false s) (fire : σ → List SchMotorEventId × σ)
    (c : MotorCall) : Latching false (motorPreemptedStep u16 sample fire s c) := by
  have interrupt (id : SchMotorEventId) : Latching false (SchMotor.isr u16 sample id s) := h.isr id
  cases c with
  | isrFeedback => exact interrupt .feedback
  | isrFault => exact interrupt .fault
  | setCommand enable speed => exact h.setCommand enable speed
  | run => exact h.serviceRun fire

theorem Latching.licensed (h : Latching false s) (before : List MotorEvent) (e : MotorEvent)
    (later : List MotorEvent) (split : s.events = before ++ e :: later) : Licensed before e := by
  obtain ⟨service, lawful⟩ := h.lawful.at_event before e ⟨later, by rw [split]; simp⟩
  exact lawful before e rfl

theorem armed_after_fault (before after : List MotorEvent)
    (no_command : ∀ speed, .setCommand true speed ∉ after) :
    armed (before ++ .takeEvent SchMotorEventId.fault.code :: after) = none := by
  induction after using List.reverseRecOn with
  | nil => exact History.latest_of_write _ _ _ _ _ (by simp [arms])
  | append_singleton after e ih =>
    have disarmed := ih fun speed mem => no_command speed (List.mem_append_left _ mem)
    rw [← List.cons_append, ← List.append_assoc, armed, History.latest_append_singleton]
    cases e with
    | setCommand enable speed =>
      have off : enable = false := by
        cases enable with
        | false => rfl
        | true => exact absurd (by simp) (no_command speed)
      rw [off]
      rfl
    | takeEvent eventId =>
      by_cases fault : eventId = SchMotorEventId.fault.code
      · simp [arms, fault]
      · rw [armed] at disarmed
        simpa [arms, fault] using disarmed
    | _ => exact disarmed

theorem exists_command (events : List MotorEvent) (speed : BitVec 16)
    (arm : armed events = some speed) :
    ∃ earlier since, events = earlier ++ .setCommand true speed :: since ∧
      (∀ enable other, .setCommand enable other ∉ since) ∧
      .takeEvent SchMotorEventId.fault.code ∉ since := by
  obtain ⟨earlier, e, since, split, wrote, silent⟩ :=
    History.exists_writer arms none events (some speed) arm (by simp)
  have command : e = .setCommand true speed := by
    cases e with
    | setCommand enable other =>
      cases enable with
      | false => simp [arms] at wrote
      | true => simpa [arms] using wrote
    | takeEvent eventId => by_cases fault : eventId = SchMotorEventId.fault.code <;>
        simp [arms, fault] at wrote
    | _ => simp [arms] at wrote
  refine ⟨earlier, since, by rw [split, command], fun enable other mem => ?_, fun mem => ?_⟩
  · have none_written := silent _ mem
    simp [arms] at none_written
  · have none_written := silent _ mem
    simp [arms] at none_written

theorem Latching.faultLatched (h : Latching false s) : FaultLatched s.events where
  latched before after later split no_command := by
    -- a call in `after` splits it, and what is before the call leaves the drive disarmed
    have disarmed (e : MotorEvent) (mem : e ∈ after) : ∃ seen, armed seen = none ∧
        Licensed seen e := by
      obtain ⟨first, rest, here⟩ := List.append_of_mem mem
      refine ⟨before ++ .takeEvent SchMotorEventId.fault.code :: first, ?_, ?_⟩
      · refine armed_after_fault before first fun speed command => no_command speed ?_
        rw [here]
        exact List.mem_append_left _ command
      · refine h.licensed _ e (rest ++ later) ?_
        rw [split, here]
        simp
    constructor
    · intro mem
      obtain ⟨seen, off, licensed⟩ := disarmed _ mem
      have on := licensed rfl
      rw [off] at on
      cases on
    · intro speed mem
      obtain ⟨seen, off, on, -⟩ := disarmed _ mem
      rw [off] at on
      cases on
  commanded before speed later split := by
    obtain ⟨arm, last⟩ := h.licensed before _ later split
    obtain ⟨sofar, rfl⟩ := List.getLast?_eq_some_iff.mp last
    rw [armed, History.latest_of_no_write _ _ _ _ rfl] at arm
    obtain ⟨earlier, since, same, no_command, no_fault⟩ := exists_command sofar speed arm
    exact ⟨earlier, since, by rw [same]; simp, no_command, no_fault⟩

/-- The latch holds in every history, with any interrupts preempting the runs. -/
theorem motor_fault_latched (service : SchMotorSupervisionService σ w) (hal : SchMotorHal σ)
    (feedbackStorage eventStorage : Option (List Byte))
    (feedbackCapacity eventCapacity maxFeedbackItems maxEvents : BitVec w) (env : σ)
    (fire : σ → List SchMotorEventId × σ) (calls : List MotorCall)
    (ok : (serviceInit u16 sample service (some hal) feedbackStorage feedbackCapacity
      eventStorage eventCapacity maxFeedbackItems maxEvents).1 = true) :
    FaultLatched (calls.foldl (motorPreemptedStep u16 sample fire) (World.start
      (serviceInit u16 sample service (some hal) feedbackStorage feedbackCapacity
        eventStorage eventCapacity maxFeedbackItems maxEvents).2 env)).events := by
  have start : Latching false (World.start (serviceInit u16 sample service (some hal)
      feedbackStorage feedbackCapacity eventStorage eventCapacity maxFeedbackItems
      maxEvents).2 env) := by
    unfold serviceInit at ok ⊢
    dsimp only at ok ⊢
    split_ifs at ok ⊢ with bad
    simp only [Bool.or_eq_true, not_or, Bool.not_eq_true, Option.isNone_eq_false_iff] at bad
    exact ⟨World.throughout_start _ _ fun before e split => by simp at split, rfl,
      bad.1.1.1, bad.1.1.2⟩
  exact (History.invariant _ _ (fun _ c h => h.step fire c) _ start calls).faultLatched

section Example

/-- Commanded at 100 rpm, and then a fault: the run after it applies the command before it
pops the fault, the next one does not. -/
def faultedMotor : MotorWorld Unit 16 :=
  [MotorCall.setCommand true 100, .isrFault, .run, .isrFeedback, .run].foldl
    (motorPreemptedStep Layout.word16 feedbackLayout fun _ => ([], ()))
    (World.start quietMotorInit.2 ())

theorem motor_fault_latched_two_runs :
    FaultLatched faultedMotor.events ∧ .setTargetSpeedRpm 100 ∈ faultedMotor.events ∧
      .takeEvent SchMotorEventId.fault.code ∈ faultedMotor.events :=
  ⟨motor_fault_latched blankMotor quietMotor (some [0, 0, 0, 0]) (some [0, 0]) 1 1 1 1 ()
    (fun _ => ([], ())) [.setCommand true 100, .isrFault, .run, .isrFeedback, .run] (by decide),
    by decide, by decide⟩

end Example

end SchMotor

end SchedulerLib.Services
