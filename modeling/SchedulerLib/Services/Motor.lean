import SchedulerLib.IsrBuffer.TypedRing
import SchedulerLib.Lib.World

/-!
`motor_supervision_service.c`. As for the other services, the hardware is the
environment behind the HAL callbacks and `gap` is what preempts a run.
-/

namespace SchedulerLib.Services

open Lib IsrBuffer

inductive SchMotorEventId where
  | feedback
  | fault
  deriving DecidableEq, Repr

def SchMotorEventId.code : SchMotorEventId → BitVec 16
  | .feedback => 1
  | .fault => 2

/-- `currentMa` is the two's complement of the signed sample. -/
structure SchMotorFeedback where
  speedRpm : BitVec 16
  currentMa : BitVec 16
  deriving DecidableEq, Repr

structure SchMotorHal (σ : Type) where
  ackIrq : Option (σ → σ)
  readFeedbackSample : Option (σ → Option SchMotorFeedback × σ)
  setEnable : Option (Bool → σ → Bool × σ)
  setTargetSpeedRpm : Option (BitVec 16 → σ → Bool × σ)

structure SchMotorSupervisionService (σ : Type) (w : Nat) where
  hal : SchMotorHal σ
  feedbackRing : SchSpscRing w
  eventQueue : SchEventQueue w
  targetSpeedRpm : BitVec 16
  enabled : Bool
  irqHint : Bool
  maxFeedbackItemsPerRun : BitVec w
  maxEventsPerRun : BitVec w

inductive MotorEvent where
  | ackIrq
  | readFeedbackSample (sample : Option SchMotorFeedback)
  | pushEvent (id : SchMotorEventId) (status : SchRingPushStatus)
  | setCommand (enable : Bool) (targetSpeedRpm : BitVec 16)
  | setEnable (enable : Bool)
  | setTargetSpeedRpm (targetSpeedRpm : BitVec 16)
  | takeEvent (eventId : BitVec 16)
  | takeFeedback (sample : SchMotorFeedback)
  deriving DecidableEq, Repr

abbrev MotorWorld (σ : Type) (w : Nat) := World (SchMotorSupervisionService σ w) MotorEvent σ

namespace SchMotor

variable {σ : Type} {w : Nat} (u16 : Layout (BitVec 16)) (sample : Layout SchMotorFeedback)

def serviceInit (service : SchMotorSupervisionService σ w) (hal : Option (SchMotorHal σ))
    (feedbackStorage : Option (List Byte)) (feedbackCapacity : BitVec w)
    (eventStorage : Option (List Byte)) (eventCapacity : BitVec w)
    (maxFeedbackItemsPerRun maxEventsPerRun : BitVec w) :
    Bool × SchMotorSupervisionService σ w :=
  match hal with
  | none => (false, service)
  | some hal =>
    if hal.setEnable.isNone || hal.setTargetSpeedRpm.isNone ||
        decide (maxFeedbackItemsPerRun = 0#w) || decide (maxEventsPerRun = 0#w) then
      (false, service)
    else
      let feedback := service.feedbackRing.initAs sample feedbackStorage feedbackCapacity .dropOldest
      let events := service.eventQueue.init u16 eventStorage eventCapacity .dropOldest
      (feedback.1 && events.1,
        { hal := hal
          feedbackRing := feedback.2
          eventQueue := events.2
          targetSpeedRpm := 0
          enabled := false
          irqHint := false
          maxFeedbackItemsPerRun := maxFeedbackItemsPerRun
          maxEventsPerRun := maxEventsPerRun })

def setCommand (enable : Bool) (targetSpeedRpm : BitVec 16) (s : MotorWorld σ w) :
    MotorWorld σ w :=
  (s.modify fun service =>
    { service with enabled := enable, targetSpeedRpm := targetSpeedRpm }).emit
      (.setCommand enable targetSpeedRpm)

def acknowledge (s : MotorWorld σ w) : MotorWorld σ w :=
  match s.state.hal.ackIrq with
  | none => s
  | some ack => (s.setEnv (ack s.env)).emit .ackIrq

/-- The end of both interrupt handlers: queue the event and raise the hint. -/
def pushEvent (id : SchMotorEventId) (s : MotorWorld σ w) : MotorWorld σ w :=
  let r := s.state.eventQueue.pushIsr u16 id.code
  ((s.modify fun service => { service with eventQueue := r.2 }).emit (.pushEvent id r.1)).modify
    fun service => { service with irqHint := true }

def sampleFeedback (s : MotorWorld σ w) : MotorWorld σ w :=
  match s.state.hal.readFeedbackSample with
  | none => s
  | some readFeedbackSample =>
    let r := readFeedbackSample s.env
    let s := (s.setEnv r.2).emit (.readFeedbackSample r.1)
    match r.1 with
    | none => s
    | some read => s.modify fun service =>
      { service with feedbackRing := (service.feedbackRing.pushAs sample read).2 }

def isrFeedback (s : MotorWorld σ w) : MotorWorld σ w :=
  pushEvent u16 .feedback (sampleFeedback sample (acknowledge s))

def isrFault (s : MotorWorld σ w) : MotorWorld σ w :=
  pushEvent u16 .fault (acknowledge s)

def halSetEnable (enable : Bool) (s : MotorWorld σ w) : MotorWorld σ w :=
  match s.state.hal.setEnable with
  | none => s
  | some setEnable => (s.setEnv (setEnable enable s.env).2).emit (.setEnable enable)

def halSetTargetSpeedRpm (targetSpeedRpm : BitVec 16) (s : MotorWorld σ w) : MotorWorld σ w :=
  match s.state.hal.setTargetSpeedRpm with
  | none => s
  | some setTargetSpeedRpm =>
    (s.setEnv (setTargetSpeedRpm targetSpeedRpm s.env).2).emit (.setTargetSpeedRpm targetSpeedRpm)

/-- The command part of a run: `enabled` and the speed are read where they are used. -/
def applyCommand (s : MotorWorld σ w) : MotorWorld σ w :=
  let s := halSetEnable s.state.enabled s
  if s.state.enabled then halSetTargetSpeedRpm s.state.targetSpeedRpm s else s

def handleEvent (eventId : BitVec 16) (s : MotorWorld σ w) : MotorWorld σ w :=
  if eventId = SchMotorEventId.fault.code then
    halSetEnable false (s.modify fun service => { service with enabled := false })
  else s

def drainEvents (gap : MotorWorld σ w → MotorWorld σ w) :
    Nat → MotorWorld σ w → MotorWorld σ w
  | 0, s => s
  | n + 1, s =>
    let s := gap s
    let r := s.state.eventQueue.popTask u16
    match r.1 with
    | none => s
    | some eventId =>
      let s := (s.modify fun service => { service with eventQueue := r.2 }).emit
        (.takeEvent eventId)
      drainEvents gap n (handleEvent eventId (gap s))

def drainFeedback (gap : MotorWorld σ w → MotorWorld σ w) :
    Nat → MotorWorld σ w → MotorWorld σ w
  | 0, s => s
  | n + 1, s =>
    let s := gap s
    let r := s.state.feedbackRing.popAs sample
    match r.1 with
    | none => s
    | some feedback =>
      drainFeedback gap n
        ((s.modify fun service => { service with feedbackRing := r.2 }).emit
          (.takeFeedback feedback))

def supervise (gap : MotorWorld σ w → MotorWorld σ w) (s : MotorWorld σ w) : MotorWorld σ w :=
  let s := applyCommand (gap s)
  let s := drainEvents u16 gap s.state.maxEventsPerRun.toNat s
  drainFeedback sample gap s.state.maxFeedbackItemsPerRun.toNat s

def serviceRun (gap : MotorWorld σ w → MotorWorld σ w) (s : MotorWorld σ w) : MotorWorld σ w :=
  let hadIrqHint := s.state.irqHint
  let s := s.modify fun service => { service with irqHint := false }
  if hadIrqHint then supervise u16 sample gap s
  else
    let s := gap s
    if !s.state.feedbackRing.isEmpty then supervise u16 sample gap s
    else
      let s := gap s
      if s.state.eventQueue.size = 0#w then s else supervise u16 sample gap s

end SchMotor

inductive MotorCall where
  | isrFeedback
  | isrFault
  | setCommand (enable : Bool) (targetSpeedRpm : BitVec 16)
  | run
  deriving DecidableEq, Repr

def MotorCall.isInterrupt : MotorCall → Bool
  | .isrFeedback | .isrFault => true
  | .setCommand .. | .run => false

def motorStep {σ : Type} {w : Nat} (u16 : Layout (BitVec 16)) (sample : Layout SchMotorFeedback)
    (s : MotorWorld σ w) : MotorCall → MotorWorld σ w
  | .isrFeedback => SchMotor.isrFeedback u16 sample s
  | .isrFault => SchMotor.isrFault u16 s
  | .setCommand enable targetSpeedRpm => SchMotor.setCommand enable targetSpeedRpm s
  | .run => SchMotor.serviceRun u16 sample id s

end SchedulerLib.Services
