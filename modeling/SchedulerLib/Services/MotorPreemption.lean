import SchedulerLib.IsrBuffer.Channel
import SchedulerLib.Services.MotorLatch

/-!
The two queues of the motor service under preemption. Both are channels, and a run answers each
fault event it takes: before anything but an interrupt happens, the drive is switched off. With
the latch, a fault is answered by as many runs as its place in the queue needs, or a queue's worth
of later interrupts has pushed it out.
-/

namespace SchedulerLib.Services

open Lib IsrBuffer

def MotorCall.isRun : MotorCall → Bool
  | .run => true
  | _ => false

namespace SchMotor

variable {σ : Type} {w : Nat}

def queued (u16 : Layout (BitVec 16)) :
    Channel (SchMotorSupervisionService σ w) MotorEvent (BitVec 16) w where
  layout := u16
  ring service := service.eventQueue.ring
  limit service := service.maxEventsPerRun
  put
    | .pushEvent id _ => some id.code
    | _ => none
  taken
    | .takeEvent eventId => some eventId
    | _ => none
  apart e _ taken := by
    cases e with
    | takeEvent => rfl
    | _ => cases taken

def sampled (sample : Layout SchMotorFeedback) :
    Channel (SchMotorSupervisionService σ w) MotorEvent SchMotorFeedback w where
  layout := sample
  ring service := service.feedbackRing
  limit service := service.maxFeedbackItemsPerRun
  put
    | .readFeedbackSample read => read
    | _ => none
  taken
    | .takeFeedback feedback => some feedback
    | _ => none
  apart e _ taken := by
    cases e with
    | takeFeedback => rfl
    | _ => cases taken

section Answers

def isInterruptEntry : MotorEvent → Bool
  | .ackIrq | .readFeedbackSample _ | .pushEvent _ _ => true
  | _ => false

/-- The drive is switched off before anything but interrupts. -/
def SwitchedFirst (events : List MotorEvent) : Prop :=
  ∃ l rest, events = l ++ .setEnable false :: rest ∧ ∀ e ∈ l, isInterruptEntry e = true

/-- Every fault that a run took has been answered, except that a run may have one in its hands
(`popped`). -/
def Answered (popped : Bool) (events : List MotorEvent) : Prop :=
  ∀ before after, events = before ++ .takeEvent SchMotorEventId.fault.code :: after →
    SwitchedFirst after ∨ popped = true ∧ ∀ e ∈ after, isInterruptEntry e = true

variable {popped : Bool} {events : List MotorEvent}

theorem SwitchedFirst.append (h : SwitchedFirst events) (later : List MotorEvent) :
    SwitchedFirst (events ++ later) := by
  obtain ⟨l, rest, rfl, interrupts⟩ := h
  exact ⟨l, rest ++ later, by simp, interrupts⟩

theorem fault_of_concat {e : MotorEvent} {before after : List MotorEvent}
    (split : events ++ [e] = before ++ .takeEvent SchMotorEventId.fault.code :: after) :
    (after = [] ∧ e = .takeEvent SchMotorEventId.fault.code) ∨
      ∃ rest, after = rest ++ [e] ∧
        events = before ++ .takeEvent SchMotorEventId.fault.code :: rest := by
  rcases List.eq_nil_or_concat after with rfl | ⟨rest, x, rfl⟩
  · obtain ⟨-, single⟩ := List.append_inj' split rfl
    exact .inl ⟨rfl, by simpa using single⟩
  · rw [List.concat_eq_append, ← List.cons_append, ← List.append_assoc] at split
    obtain ⟨same, single⟩ := List.append_inj' split rfl
    obtain rfl : e = x := by simpa using single
    exact .inr ⟨rest, List.concat_eq_append, same⟩

theorem Answered.concat (h : Answered popped events) (e : MotorEvent)
    (other : e ≠ .takeEvent SchMotorEventId.fault.code)
    (allowed : popped = true → isInterruptEntry e = true) : Answered popped (events ++ [e]) := by
  intro before after split
  rcases fault_of_concat split with ⟨-, new⟩ | ⟨rest, rfl, same⟩
  · exact absurd new other
  · rcases h before rest same with switched | ⟨holding, interrupts⟩
    · exact .inl (switched.append [e])
    · right
      refine ⟨holding, fun x mem => ?_⟩
      rcases List.mem_append.mp mem with old | new
      · exact interrupts x old
      · rw [List.mem_singleton.mp new]
        exact allowed holding

theorem Answered.take (h : Answered false events) (eventId : BitVec 16) :
    Answered (decide (eventId = SchMotorEventId.fault.code)) (events ++ [.takeEvent eventId]) := by
  intro before after split
  rcases fault_of_concat split with ⟨rfl, new⟩ | ⟨rest, rfl, same⟩
  · right
    rw [MotorEvent.takeEvent.injEq] at new
    exact ⟨decide_eq_true new, by simp⟩
  · rcases h before rest same with switched | ⟨holding, -⟩
    · exact .inl (switched.append _)
    · cases holding

theorem Answered.off (h : Answered popped events) :
    Answered false (events ++ [.setEnable false]) := by
  intro before after split
  rcases fault_of_concat split with ⟨-, new⟩ | ⟨rest, rfl, same⟩
  · cases new
  · left
    rcases h before rest same with switched | ⟨-, interrupts⟩
    · exact switched.append _
    · exact ⟨rest, [], rfl, interrupts⟩

end Answers

variable {u16 : Layout (BitVec 16)} {sample : Layout SchMotorFeedback}
  {eventCapacity feedbackCapacity : Nat} {positiveEvents : 0 < eventCapacity}
  {positiveFeedback : 0 < feedbackCapacity}

structure Budgets where
  events : Nat
  feedback : Nat

/-- Both queues carry what their channels say, and all that was in them when the log was `seen` is
among the next `places`. -/
structure Supervised (u16 : Layout (BitVec 16)) (sample : Layout SchMotorFeedback)
    (positiveEvents : 0 < eventCapacity) (positiveFeedback : 0 < feedbackCapacity)
    (budgets : Budgets) (seen : List MotorEvent) (places : Budgets) (popped : Bool)
    (s : MotorWorld σ w) : Prop where
  events : (queued u16).Awaits .dropOldest positiveEvents budgets.events seen places.events s
  feedback : (sampled sample).Awaits .dropOldest positiveFeedback budgets.feedback seen
    places.feedback s
  answered : Answered popped s.events
  setEnable : s.state.hal.setEnable.isSome

variable {budgets places : Budgets} {seen : List MotorEvent} {popped : Bool}
  {s s' : MotorWorld σ w}

theorem Supervised.modify
    (h : Supervised u16 sample positiveEvents positiveFeedback budgets seen places popped s)
    (f : SchMotorSupervisionService σ w → SchMotorSupervisionService σ w)
    (events : (f s.state).eventQueue = s.state.eventQueue)
    (feedback : (f s.state).feedbackRing = s.state.feedbackRing)
    (maxEvents : (f s.state).maxEventsPerRun = s.state.maxEventsPerRun)
    (maxFeedback : (f s.state).maxFeedbackItemsPerRun = s.state.maxFeedbackItemsPerRun)
    (hal : (f s.state).hal = s.state.hal) :
    Supervised u16 sample positiveEvents positiveFeedback budgets seen places popped
      (s.modify f) where
  events := h.events.modify f (congrArg SchEventQueue.ring events) maxEvents
  feedback := h.feedback.modify f feedback maxFeedback
  answered := h.answered
  setEnable := hal ▸ h.setEnable

theorem Supervised.setEnv
    (h : Supervised u16 sample positiveEvents positiveFeedback budgets seen places popped s)
    (env : σ) : Supervised u16 sample positiveEvents positiveFeedback budgets seen places popped
      (s.setEnv env) :=
  ⟨h.events.setEnv env, h.feedback.setEnv env, h.answered, h.setEnable⟩

theorem Supervised.emit
    (h : Supervised u16 sample positiveEvents positiveFeedback budgets seen places popped s)
    (e : MotorEvent) (idleEvents : (queued (σ := σ) (w := w) u16).Idle e)
    (idleFeedback : (sampled (σ := σ) (w := w) sample).Idle e)
    (allowed : popped = true → isInterruptEntry e = true) :
    Supervised u16 sample positiveEvents positiveFeedback budgets seen places popped
      (s.emit e) where
  events := h.events.emit e idleEvents
  feedback := h.feedback.emit e idleFeedback
  answered := by
    rw [World.emit_events]
    refine h.answered.concat e ?_ allowed
    rintro rfl
    cases idleEvents.taken
  setEnable := h.setEnable

theorem Supervised.acknowledge
    (h : Supervised u16 sample positiveEvents positiveFeedback budgets seen places popped s) :
    Supervised u16 sample positiveEvents positiveFeedback budgets seen places popped
      (acknowledge s) := by
  unfold SchMotor.acknowledge
  cases s.state.hal.ackIrq with
  | none => exact h
  | some ack => exact (h.setEnv (ack s.env)).emit .ackIrq ⟨rfl, rfl⟩ ⟨rfl, rfl⟩ fun _ => rfl

theorem Supervised.pushEvent
    (h : Supervised u16 sample positiveEvents positiveFeedback budgets seen places popped s)
    (id : SchMotorEventId) :
    Supervised u16 sample positiveEvents positiveFeedback budgets seen places popped
      (pushEvent u16 id s) := by
  have pushed : Supervised u16 sample positiveEvents positiveFeedback budgets seen places popped
      ((s.modify fun service =>
        { service with eventQueue := (s.state.eventQueue.pushIsr u16 id.code).2 }).emit
          (.pushEvent id (s.state.eventQueue.pushIsr u16 id.code).1)) := by
    refine ⟨?_, ?_, ?_, h.setEnable⟩
    · exact h.events.put (a := id.code) (World.emit_events _ _) rfl rfl rfl
    · exact (h.feedback.modify _ rfl rfl).emit _ ⟨rfl, rfl⟩
    · rw [World.emit_events]
      exact h.answered.concat _ (by simp) fun _ => rfl
  exact pushed.modify (fun service => { service with irqHint := true }) rfl rfl rfl rfl rfl

theorem Supervised.sampleFeedback
    (h : Supervised u16 sample positiveEvents positiveFeedback budgets seen places popped s) :
    Supervised u16 sample positiveEvents positiveFeedback budgets seen places popped
      (sampleFeedback sample s) := by
  unfold SchMotor.sampleFeedback
  cases s.state.hal.readFeedbackSample with
  | none => exact h
  | some readFeedbackSample =>
    have asked := h.setEnv (readFeedbackSample s.env).2
    dsimp only
    cases (readFeedbackSample s.env).1 with
    | none => exact asked.emit (.readFeedbackSample none) ⟨rfl, rfl⟩ ⟨rfl, rfl⟩ fun _ => rfl
    | some read =>
      refine ⟨?_, ?_, ?_, asked.setEnable⟩
      · exact (asked.events.emit (.readFeedbackSample (some read)) ⟨rfl, rfl⟩).modify _ rfl rfl
      · refine asked.feedback.put (e := .readFeedbackSample (some read)) (a := read) ?_ rfl rfl rfl
        rw [World.modify_events, World.emit_events]
      · rw [World.modify_events, World.emit_events]
        exact asked.answered.concat _ (by simp) fun _ => rfl

theorem Supervised.isr
    (h : Supervised u16 sample positiveEvents positiveFeedback budgets seen places popped s)
    (id : SchMotorEventId) :
    Supervised u16 sample positiveEvents positiveFeedback budgets seen places popped
      (isr u16 sample id s) := by
  cases id with
  | feedback => exact h.acknowledge.sampleFeedback.pushEvent .feedback
  | fault => exact h.acknowledge.pushEvent .fault

theorem Supervised.preempted
    (h : Supervised u16 sample positiveEvents positiveFeedback budgets seen places popped s)
    (fire : σ → List SchMotorEventId × σ) :
    Supervised u16 sample positiveEvents positiveFeedback budgets seen places popped
      (preempted u16 sample fire s) :=
  History.invariant (fun s id => SchMotor.isr u16 sample id s)
    (Supervised u16 sample positiveEvents positiveFeedback budgets seen places popped)
    (fun _ id h => h.isr id) _ (h.setEnv (fire s.env).2) (fire s.env).1

theorem Supervised.halSetEnable
    (h : Supervised u16 sample positiveEvents positiveFeedback budgets seen places false s)
    (enable : Bool) :
    Supervised u16 sample positiveEvents positiveFeedback budgets seen places false
      (halSetEnable enable s) := by
  unfold SchMotor.halSetEnable
  cases s.state.hal.setEnable with
  | none => exact h
  | some setEnable =>
    exact (h.setEnv (setEnable enable s.env).2).emit (.setEnable enable) ⟨rfl, rfl⟩ ⟨rfl, rfl⟩
      fun holding => by cases holding

theorem Supervised.halSetTargetSpeedRpm
    (h : Supervised u16 sample positiveEvents positiveFeedback budgets seen places false s)
    (speed : BitVec 16) :
    Supervised u16 sample positiveEvents positiveFeedback budgets seen places false
      (halSetTargetSpeedRpm speed s) := by
  unfold SchMotor.halSetTargetSpeedRpm
  cases s.state.hal.setTargetSpeedRpm with
  | none => exact h
  | some setTargetSpeedRpm =>
    exact (h.setEnv (setTargetSpeedRpm speed s.env).2).emit (.setTargetSpeedRpm speed) ⟨rfl, rfl⟩
      ⟨rfl, rfl⟩ fun holding => by cases holding

theorem Supervised.applyCommand
    (h : Supervised u16 sample positiveEvents positiveFeedback budgets seen places false s) :
    Supervised u16 sample positiveEvents positiveFeedback budgets seen places false
      (applyCommand s) := by
  have enabled := h.halSetEnable s.state.enabled
  unfold SchMotor.applyCommand
  dsimp only
  split_ifs
  · exact enabled.halSetTargetSpeedRpm _
  · exact enabled

theorem Supervised.handleEvent (eventId : BitVec 16)
    (h : Supervised u16 sample positiveEvents positiveFeedback budgets seen places
      (decide (eventId = SchMotorEventId.fault.code)) s) :
    Supervised u16 sample positiveEvents positiveFeedback budgets seen places false
      (handleEvent eventId s) := by
  unfold SchMotor.handleEvent
  split_ifs with fault
  · obtain ⟨setEnable, present⟩ := Option.isSome_iff_exists.mp h.setEnable
    have disabled := (h.modify (fun service => { service with enabled := false }) rfl rfl rfl rfl
      rfl).setEnv (setEnable false s.env).2
    unfold SchMotor.halSetEnable
    rw [World.modify_state, present]
    refine ⟨disabled.events.emit _ ⟨rfl, rfl⟩, disabled.feedback.emit _ ⟨rfl, rfl⟩, ?_,
      disabled.setEnable⟩
    rw [World.emit_events]
    exact disabled.answered.off
  · rwa [decide_eq_false fault] at h

theorem Supervised.drainEvents (fire : σ → List SchMotorEventId × σ) (n : Nat)
    (h : Supervised u16 sample positiveEvents positiveFeedback budgets seen places false s) :
    Supervised u16 sample positiveEvents positiveFeedback budgets seen
      ⟨places.events - n, places.feedback⟩ false
      (drainEvents u16 (SchMotor.preempted u16 sample fire) n s) := by
  induction n generalizing s places with
  | zero => exact h
  | succ n ih =>
    have before := h.preempted fire
    simp only [SchMotor.drainEvents]
    generalize SchMotor.preempted u16 sample fire s = s at before
    cases front : (s.state.eventQueue.popTask u16).1 with
    | none => exact ⟨before.events.missed front _, before.feedback, before.answered,
        before.setEnable⟩
    | some eventId =>
      have taken : Supervised u16 sample positiveEvents positiveFeedback budgets seen
          ⟨places.events - 1, places.feedback⟩ (decide (eventId = SchMotorEventId.fault.code))
          ((s.modify fun service =>
            { service with eventQueue := (s.state.eventQueue.popTask u16).2 }).emit
              (.takeEvent eventId)) := by
        refine ⟨?_, ?_, ?_, before.setEnable⟩
        · exact before.events.take (e := .takeEvent eventId) front (World.emit_events _ _) rfl rfl
            rfl
        · exact (before.feedback.modify _ rfl rfl).emit _ ⟨rfl, rfl⟩
        · rw [World.emit_events]
          exact before.answered.take eventId
      have later := ih ((taken.preempted fire).handleEvent eventId)
      rwa [Nat.sub_sub, Nat.add_comm] at later

theorem Supervised.drainFeedback (fire : σ → List SchMotorEventId × σ) (n : Nat)
    (h : Supervised u16 sample positiveEvents positiveFeedback budgets seen places false s) :
    Supervised u16 sample positiveEvents positiveFeedback budgets seen
      ⟨places.events, places.feedback - n⟩ false
      (drainFeedback sample (SchMotor.preempted u16 sample fire) n s) := by
  induction n generalizing s places with
  | zero => exact h
  | succ n ih =>
    have before := h.preempted fire
    simp only [SchMotor.drainFeedback]
    generalize SchMotor.preempted u16 sample fire s = s at before
    cases front : (s.state.feedbackRing.popAs sample).1 with
    | none => exact ⟨before.events, before.feedback.missed front _, before.answered,
        before.setEnable⟩
    | some feedback =>
      have taken : Supervised u16 sample positiveEvents positiveFeedback budgets seen
          ⟨places.events, places.feedback - 1⟩ false ((s.modify fun service =>
            { service with feedbackRing := (s.state.feedbackRing.popAs sample).2 }).emit
              (.takeFeedback feedback)) := by
        refine ⟨?_, ?_, ?_, before.setEnable⟩
        · exact (before.events.modify _ rfl rfl).emit _ ⟨rfl, rfl⟩
        · exact before.feedback.take (e := .takeFeedback feedback) front (World.emit_events _ _) rfl
            rfl rfl
        · rw [World.emit_events]
          exact before.answered.concat _ (by simp) fun holding => by cases holding
      have later := ih taken
      rwa [Nat.sub_sub, Nat.add_comm] at later

theorem Supervised.supervise (fire : σ → List SchMotorEventId × σ)
    (h : Supervised u16 sample positiveEvents positiveFeedback budgets seen places false s) :
    Supervised u16 sample positiveEvents positiveFeedback budgets seen
      ⟨places.events - budgets.events, places.feedback - budgets.feedback⟩ false
      (supervise u16 sample (SchMotor.preempted u16 sample fire) s) := by
  have applied := (h.preempted fire).applyCommand
  unfold SchMotor.supervise
  dsimp only
  generalize SchMotor.applyCommand _ = s at applied
  have maxEvents : s.state.maxEventsPerRun.toNat = budgets.events := applied.events.budget
  rw [maxEvents]
  have consumed := applied.drainEvents fire budgets.events
  generalize SchMotor.drainEvents u16 _ _ s = s at consumed
  have maxFeedback : s.state.maxFeedbackItemsPerRun.toNat = budgets.feedback :=
    consumed.feedback.budget
  rw [maxFeedback]
  exact consumed.drainFeedback fire budgets.feedback

/-- The early return is taken only after both queues were found empty, each at its own time. -/
theorem Supervised.serviceRun (fire : σ → List SchMotorEventId × σ)
    (h : Supervised u16 sample positiveEvents positiveFeedback budgets seen places false s) :
    Supervised u16 sample positiveEvents positiveFeedback budgets seen
      ⟨places.events - budgets.events, places.feedback - budgets.feedback⟩ false
      (serviceRun u16 sample (SchMotor.preempted u16 sample fire) s) := by
  have cleared := h.modify (fun service => { service with irqHint := false }) rfl rfl rfl rfl rfl
  have gap := cleared.preempted fire
  unfold SchMotor.serviceRun
  dsimp only
  split_ifs with hint feedback events
  · exact cleared.supervise fire
  · exact gap.supervise fire
  · rw [Bool.not_eq_true, Bool.not_eq_false'] at feedback
    have unsampled : Supervised u16 sample positiveEvents positiveFeedback budgets seen
        ⟨places.events, places.feedback - budgets.feedback⟩ false
        (SchMotor.preempted u16 sample fire
          (s.modify fun service => { service with irqHint := false })) :=
      ⟨gap.events, gap.feedback.empty feedback _, gap.answered, gap.setEnable⟩
    have later := unsampled.preempted fire
    exact ⟨later.events.empty (decide_eq_true events) _, later.feedback, later.answered,
      later.setEnable⟩
  · exact (gap.preempted fire).supervise fire

theorem Supervised.setCommand
    (h : Supervised u16 sample positiveEvents positiveFeedback budgets seen places false s)
    (enable : Bool) (speed : BitVec 16) :
    Supervised u16 sample positiveEvents positiveFeedback budgets seen places false
      (setCommand enable speed s) := by
  have commanded := h.modify (fun service =>
    { service with enabled := enable, targetSpeedRpm := speed }) rfl rfl rfl rfl rfl
  exact commanded.emit (.setCommand enable speed) ⟨rfl, rfl⟩ ⟨rfl, rfl⟩
    fun holding => by cases holding

theorem Supervised.reaches {fire : σ → List SchMotorEventId × σ} {n : Nat}
    (h : Supervised u16 sample positiveEvents positiveFeedback budgets seen places false s)
    (reaches : History.Reaches (motorPreemptedStep u16 sample fire) MotorCall.isRun n s s') :
    Supervised u16 sample positiveEvents positiveFeedback budgets seen
      ⟨places.events - n * budgets.events, places.feedback - n * budgets.feedback⟩ false s' := by
  have measured := reaches.measured (m := 0)
    (fun runs s => Supervised u16 sample positiveEvents positiveFeedback budgets seen
      ⟨places.events - runs * budgets.events, places.feedback - runs * budgets.feedback⟩ false s)
    (fun runs s call unmarked before => by
      have interrupt (id : SchMotorEventId) := before.isr id
      cases call with
      | isrFeedback => exact interrupt .feedback
      | isrFault => exact interrupt .fault
      | setCommand enable speed => exact before.setCommand enable speed
      | run => cases unmarked)
    (fun runs s call marked before => by
      cases call with
      | run =>
        have after := before.serviceRun fire
        rwa [Nat.sub_sub, Nat.sub_sub, ← Nat.succ_mul, ← Nat.succ_mul] at after
      | _ => cases marked)
    (by rwa [Nat.zero_mul, Nat.zero_mul, Nat.sub_zero, Nat.sub_zero])
  rwa [Nat.zero_add] at measured

theorem Supervised.all
    (h : Supervised u16 sample positiveEvents positiveFeedback budgets [] places false s) :
    Supervised u16 sample positiveEvents positiveFeedback budgets s.events
      ⟨s.state.eventQueue.size.toNat, s.state.feedbackRing.size.toNat⟩ false s :=
  ⟨h.events.all, h.feedback.all, h.answered, h.setEnable⟩

section Faults

def interrupts (events : List MotorEvent) : List SchMotorEventId :=
  events.filterMap fun
    | .pushEvent id _ => some id
    | _ => none

/-- The drive is switched off and stays off until a command enables it. -/
def SwitchedOff (events : List MotorEvent) : Prop :=
  ∃ earlier rest, events = earlier ++ .setEnable false :: rest ∧
    ∀ next, next <+: rest → (∀ speed, .setCommand true speed ∉ next) →
      .setEnable true ∉ next ∧ ∀ speed, .setTargetSpeedRpm speed ∉ next

/-- After every fault up to `mid` the drive has been switched off, unless as many interrupts as
the event queue holds have come after the fault. -/
def FaultsAnswered (capacity : Nat) (mid fin : MotorWorld σ w) : Prop :=
  ∀ before status after, mid.events = before ++ .pushEvent .fault status :: after →
    let later := fin.events.drop (before.length + 1)
    SwitchedOff later ∨ capacity ≤ (interrupts later).length

theorem length_put (events : List MotorEvent) :
    (events.filterMap (queued (σ := σ) (w := w) u16).put).length = (interrupts events).length := by
  induction events with
  | nil => rfl
  | cons e rest ih =>
    cases e with
    | pushEvent id status => exact congrArg Nat.succ ih
    | _ => exact ih

theorem switchedOff_of_taken {before later : List MotorEvent}
    (answered : Answered false (before ++ later)) (latched : FaultLatched (before ++ later))
    (taken : .takeEvent SchMotorEventId.fault.code ∈ later) : SwitchedOff later := by
  obtain ⟨x, y, rfl⟩ := List.append_of_mem taken
  rw [← List.append_assoc] at answered latched
  rcases answered (before ++ x) y rfl with ⟨l, rest, rfl, entries⟩ | ⟨holding, -⟩
  · refine ⟨x ++ .takeEvent SchMotorEventId.fault.code :: l, rest, by simp, ?_⟩
    rintro next ⟨beyond, rfl⟩ no_command
    have kept := latched.latched (before ++ x) (l ++ .setEnable false :: next) beyond
      (by simp) fun speed mem => ?_
    · exact ⟨fun mem => kept.1 (by simp [mem]), fun speed mem => kept.2 speed (by simp [mem])⟩
    · rcases List.mem_append.mp mem with early | late
      · exact absurd (entries _ early) Bool.false_ne_true
      · rcases List.mem_cons.mp late with same | late
        · cases same
        · exact no_command speed late
  · cases holding

structure MotorBrings (u16 : Layout (BitVec 16)) (sample : Layout SchMotorFeedback)
    (positiveEvents : 0 < eventCapacity) (positiveFeedback : 0 < feedbackCapacity)
    (budgets : Budgets) (n : Nat) (mid fin : MotorWorld σ w) : Prop where
  events : (queued u16).Brings .dropOldest positiveEvents budgets.events n mid fin
  feedback : (sampled sample).Brings .dropOldest positiveFeedback budgets.feedback n mid fin
  answered : Answered false fin.events
  latched : FaultLatched fin.events

/-- What `n` runs achieve. Both queues are accounted for, and runs for all that was queued have
answered every fault and taken every sample so far. -/
structure MotorPasses (u16 : Layout (BitVec 16)) (sample : Layout SchMotorFeedback)
    (positiveEvents : 0 < eventCapacity) (positiveFeedback : 0 < feedbackCapacity)
    (budgets : Budgets) (n : Nat) (mid fin : MotorWorld σ w) : Prop where
  events : (queued u16).Accounted .dropOldest positiveEvents fin
  answered : mid.state.eventQueue.size.toNat ≤ n * budgets.events →
    FaultsAnswered eventCapacity mid fin
  feedback : (sampled sample).Passes .dropOldest positiveFeedback budgets.feedback n mid fin

section Achieved

variable {m n : Nat} {mid fin : MotorWorld σ w}

theorem MotorBrings.fewer
    (h : MotorBrings u16 sample positiveEvents positiveFeedback budgets n mid fin) (le : m ≤ n) :
    MotorBrings u16 sample positiveEvents positiveFeedback budgets m mid fin :=
  ⟨h.events.fewer le, h.feedback.fewer le, h.answered, h.latched⟩

theorem MotorPasses.fewer
    (h : MotorPasses u16 sample positiveEvents positiveFeedback budgets n mid fin) (le : m ≤ n) :
    MotorPasses u16 sample positiveEvents positiveFeedback budgets m mid fin :=
  ⟨h.events, fun enough => h.answered (enough.trans (Nat.mul_le_mul_right _ le)),
    h.feedback.fewer le⟩

theorem MotorBrings.switchedOff
    (h : MotorBrings u16 sample positiveEvents positiveFeedback budgets n mid fin)
    {before later : List MotorEvent} (split : fin.events = before ++ later)
    (taken : SchMotorEventId.fault.code ∈ later.filterMap (queued (σ := σ) (w := w) u16).taken) :
    SwitchedOff later := by
  obtain ⟨e, mem, isTake⟩ := List.mem_filterMap.mp taken
  have same : e = .takeEvent SchMotorEventId.fault.code := by
    cases e with
    | takeEvent eventId => exact congrArg MotorEvent.takeEvent (Option.some.inj isTake)
    | _ => cases isTake
  have answered := h.answered
  have latched := h.latched
  rw [split] at answered latched
  exact switchedOff_of_taken answered latched (same ▸ mem)

theorem MotorBrings.off_or_lost
    (h : MotorBrings u16 sample positiveEvents positiveFeedback budgets n mid fin)
    (enough : mid.state.eventQueue.size.toNat ≤ n * budgets.events) {before after : List MotorEvent}
    {status : SchRingPushStatus} (split : mid.events = before ++ .pushEvent .fault status :: after) :
    SwitchedOff (fin.events.drop (before.length + 1)) ∨
      (before.filterMap (queued (σ := σ) (w := w) u16).put).length ∈
        ((queued (σ := σ) (w := w) u16).replay .dropOldest positiveEvents fin.events).deleted := by
  have waits := h.events
  have enough : ((queued u16).ring mid.state).size.toNat ≤ n * budgets.events := enough
  unfold Channel.Brings at waits
  rw [Nat.sub_eq_zero_of_le enough] at waits
  rcases waits.fate split (e := .pushEvent .fault status) (a := SchMotorEventId.fault.code) rfl with
    ⟨rest, all, taken⟩ | lost
  · left
    have later : fin.events.drop (before.length + 1) = rest := by
      rw [all, List.drop_left' (by simp)]
    rw [later]
    exact h.switchedOff all taken
  · exact .inr lost

theorem MotorBrings.passes
    (h : MotorBrings u16 sample positiveEvents positiveFeedback budgets n mid fin) :
    MotorPasses u16 sample positiveEvents positiveFeedback budgets n mid fin := by
  have events := h.events.passes
  refine ⟨events.accounted, fun enough => ?_, h.feedback.passes⟩
  intro before status after split later
  rcases h.off_or_lost enough split with off | lost
  · exact .inl off
  · right
    -- the lost fault has a queue's worth of interrupts behind it
    have overtaken := Channel.overtaken_of_lost lost
    have ahead : before ++ [.pushEvent .fault status] <+: fin.events := by
      refine List.IsPrefix.trans ?_ h.events.later
      rw [split]
      exact ⟨after, by simp⟩
    obtain ⟨rest, all⟩ := ahead
    have same : later = rest := by
      change fin.events.drop (before.length + 1) = rest
      rw [← all, List.drop_left' (by simp)]
    rw [← all, List.filterMap_append, List.filterMap_append, List.length_append,
      List.length_append] at overtaken
    have one : ([MotorEvent.pushEvent .fault status].filterMap
        (queued (σ := σ) (w := w) u16).put).length = 1 := rfl
    have counted : (rest.filterMap (queued (σ := σ) (w := w) u16).put).length =
      (interrupts rest).length := length_put rest
    rw [same, ← counted]
    omega

end Achieved

theorem Latching.reaches {fire : σ → List SchMotorEventId × σ} {n : Nat} (h : Latching false s)
    (reaches : History.Reaches (motorPreemptedStep u16 sample fire) MotorCall.isRun n s s') :
    Latching false s' := by
  obtain ⟨calls, rfl, -⟩ := reaches
  exact History.invariant (motorPreemptedStep u16 sample fire) (Latching false)
    (fun _ c before => before.step fire c) s h calls

theorem motor_brings (fire : σ → List SchMotorEventId × σ)
    (supervised : Supervised u16 sample positiveEvents positiveFeedback budgets [] ⟨0, 0⟩ false s)
    (latching : Latching false s) :
    History.Achieves (motorPreemptedStep u16 sample fire) MotorCall.isRun s
      (MotorBrings u16 sample positiveEvents positiveFeedback budgets) := by
  intro mid before n earlier fin later
  have arrived := (supervised.reaches earlier).all.reaches later
  exact ⟨arrived.events, arrived.feedback, arrived.answered,
    ((latching.reaches earlier).reaches later).faultLatched⟩

end Faults

section Init

variable (service : SchMotorSupervisionService σ w) (hal : SchMotorHal σ)
  (feedbackMemory eventMemory : List Byte)
  (feedbackSlots eventSlots maxFeedback maxEvents : BitVec w) (env : σ)

theorem serviceInit_supervised (positiveFeedback : 0 < feedbackSlots.toNat)
    (positiveEvents : 0 < eventSlots.toNat)
    (ok : (serviceInit u16 sample service (some hal) (some feedbackMemory) feedbackSlots
      (some eventMemory) eventSlots maxFeedback maxEvents).1 = true)
    (feedbackLength : feedbackMemory.length = feedbackSlots.toNat * sample.size)
    (feedbackFits : feedbackMemory.length < 2 ^ w)
    (eventLength : eventMemory.length = eventSlots.toNat * u16.size)
    (eventFits : eventMemory.length < 2 ^ w) :
    let start := World.start (serviceInit u16 sample service (some hal) (some feedbackMemory)
      feedbackSlots (some eventMemory) eventSlots maxFeedback maxEvents).2 env
    Supervised u16 sample positiveEvents positiveFeedback ⟨maxEvents.toNat, maxFeedback.toNat⟩ []
      ⟨0, 0⟩ false start ∧ Latching false start := by
  unfold serviceInit at ok ⊢
  dsimp only at ok ⊢
  split_ifs at ok ⊢ with bad
  obtain ⟨-, feedback⟩ := initAs_carries sample service.feedbackRing feedbackMemory feedbackSlots
    .dropOldest positiveFeedback feedbackLength feedbackFits
  obtain ⟨-, events⟩ := initAs_carries u16 service.eventQueue.ring eventMemory eventSlots
    .dropOldest positiveEvents eventLength eventFits
  simp only [Bool.or_eq_true, not_or, Bool.not_eq_true, Option.isNone_eq_false_iff] at bad
  constructor
  · refine ⟨Channel.awaits_start env rfl events, Channel.awaits_start env rfl feedback, ?_,
      bad.1.1.1⟩
    intro before after split
    simp [World.start, World.events] at split
  · exact ⟨World.throughout_start _ _ fun before e split => by simp at split, rfl, bad.1.1.1,
      bad.1.1.2⟩

/-- Whatever interrupts preempt the runs, each fault switches the drive off within as many runs as
the event queue needs, to stay off until a command, or a queue's worth of later interrupts has
pushed it out; events and samples are taken in order, and the overwritten ones are counted. -/
theorem motor_faults_answered (fire : σ → List SchMotorEventId × σ)
    (positiveFeedback : 0 < feedbackSlots.toNat) (positiveEvents : 0 < eventSlots.toNat)
    (ok : (serviceInit u16 sample service (some hal) (some feedbackMemory) feedbackSlots
      (some eventMemory) eventSlots maxFeedback maxEvents).1 = true)
    (feedbackLength : feedbackMemory.length = feedbackSlots.toNat * sample.size)
    (feedbackFits : feedbackMemory.length < 2 ^ w)
    (eventLength : eventMemory.length = eventSlots.toNat * u16.size)
    (eventFits : eventMemory.length < 2 ^ w) :
    History.Achieves (motorPreemptedStep u16 sample fire) MotorCall.isRun
      (World.start (serviceInit u16 sample service (some hal) (some feedbackMemory) feedbackSlots
        (some eventMemory) eventSlots maxFeedback maxEvents).2 env)
      (MotorPasses u16 sample positiveEvents positiveFeedback
        ⟨maxEvents.toNat, maxFeedback.toNat⟩) := by
  obtain ⟨supervised, latching⟩ := serviceInit_supervised service hal feedbackMemory eventMemory
    feedbackSlots eventSlots maxFeedback maxEvents env
    positiveFeedback positiveEvents ok feedbackLength feedbackFits eventLength eventFits
  exact (motor_brings fire supervised latching).imp fun _ _ _ brought => brought.passes

section Example

def alwaysFeedback (_ : Unit) : List SchMotorEventId × Unit := ([.feedback], ())

def feedbackMotorStart : MotorWorld Unit 16 :=
  World.start (serviceInit Layout.word16 feedbackLayout blankMotor (some quietMotor)
    (some [0, 0, 0, 0]) 1 (some (List.replicate 16 0)) 8 1 1).2 ()

theorem motor_faults_answered_amid_feedback :
    let mid := [MotorCall.setCommand true 100, .isrFault].foldl
      (motorPreemptedStep Layout.word16 feedbackLayout alwaysFeedback) feedbackMotorStart
    let fin := [MotorCall.run].foldl
      (motorPreemptedStep Layout.word16 feedbackLayout alwaysFeedback) mid
    SwitchedOff (fin.events.drop 2) := by
  intro mid fin
  have served := @motor_faults_answered _ _ Layout.word16 feedbackLayout blankMotor quietMotor
    [0, 0, 0, 0] (List.replicate 16 0) 1 8 1 1 () alwaysFeedback (by decide) (by decide)
    (by decide) (by decide) (by decide) (by decide) (by decide)
  have before : History.Reaches (motorPreemptedStep Layout.word16 feedbackLayout alwaysFeedback)
      MotorCall.isRun 0 feedbackMotorStart mid := ⟨[.setCommand true 100, .isrFault], rfl, by decide⟩
  have after : History.Reaches (motorPreemptedStep Layout.word16 feedbackLayout alwaysFeedback)
      MotorCall.isRun 1 mid fin := ⟨[.run], rfl, by decide⟩
  have passed := served mid 0 1 before fin after
  rcases passed.answered (by decide) [.setCommand true 100] .ok [] (by decide) with off | crowded
  · exact off
  · exact absurd crowded (by decide)

end Example

end Init

end SchMotor

end SchedulerLib.Services
