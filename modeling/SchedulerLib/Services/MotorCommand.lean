import SchedulerLib.Services.MotorRings

/-!
When a command reaches the motor. A run applies the stored command first of all, but only
a run with work to do: the early return looks at the interrupt side alone, so a command
set on a quiet service waits for the next interrupt.
-/

namespace SchedulerLib.Services.SchMotor

open Lib IsrBuffer

variable {σ : Type} {w : Nat} {u16 : Layout (BitVec 16)} {sample : Layout SchMotorFeedback}
  {q : Fifo (BitVec 16)} {f : Fifo SchMotorFeedback} {s : MotorWorld σ w}

def Applies (enable : Bool) (targetSpeedRpm : BitVec 16) (events : List MotorEvent) : Prop :=
  .setEnable enable ∈ events ∧ (enable = true → .setTargetSpeedRpm targetSpeedRpm ∈ events)

instance (enable : Bool) (targetSpeedRpm : BitVec 16) (events : List MotorEvent) :
    Decidable (Applies enable targetSpeedRpm events) :=
  inferInstanceAs (Decidable (_ ∧ _))

theorem commandTrace_applies (enable : Bool) (targetSpeedRpm : BitVec 16)
    (later : List MotorEvent) :
    Applies enable targetSpeedRpm (commandTrace enable targetSpeedRpm ++ later) := by
  constructor
  · simp [commandTrace]
  · rintro rfl
    simp [commandTrace]

theorem runTrace_applies_iff (service : SchMotorSupervisionService σ w) (q : Fifo (BitVec 16))
    (f : Fifo SchMotorFeedback) :
    Applies service.enabled service.targetSpeedRpm (runTrace service q f) ↔
      HasWork service.irqHint q f := by
  unfold runTrace
  split_ifs with work
  · simp only [List.append_assoc, commandTrace_applies, work]
  · simp [Applies, work]

theorem Ready.setCommand (h : Ready u16 sample q f s) (enable : Bool)
    (targetSpeedRpm : BitVec 16) : Ready u16 sample q f (setCommand enable targetSpeedRpm s) :=
  ⟨h.events, h.policy, h.feedback, h.setEnable, h.setTargetSpeedRpm⟩

theorem Ready.applies_iff (h : Ready u16 sample q f s) (enable : Bool)
    (targetSpeedRpm : BitVec 16) :
    Applies enable targetSpeedRpm (World.eventsSince (SchMotor.setCommand enable targetSpeedRpm s)
        (SchMotor.serviceRun u16 sample id (SchMotor.setCommand enable targetSpeedRpm s))) ↔
      HasWork s.state.irqHint q f := by
  obtain ⟨-, events⟩ := (h.setCommand enable targetSpeedRpm).serviceRun
  rw [World.eventsSince_of_events _ _ _ events]
  exact runTrace_applies_iff (SchMotor.setCommand enable targetSpeedRpm s).state q f

section Example

def quietMotor : SchMotorHal Unit where
  ackIrq := none
  readFeedbackSample := none
  setEnable := some fun _ s => (true, s)
  setTargetSpeedRpm := some fun _ s => (true, s)

def blankMotor : SchMotorSupervisionService Unit 16 where
  hal := ⟨none, none, none, none⟩
  feedbackRing := ⟨none, 0, 0, 0, 0, 0, 0, .dropNewest⟩
  eventQueue := ⟨⟨none, 0, 0, 0, 0, 0, 0, .dropNewest⟩⟩
  targetSpeedRpm := 0
  enabled := false
  irqHint := false
  maxFeedbackItemsPerRun := 0
  maxEventsPerRun := 0

def feedbackLayout : Layout SchMotorFeedback :=
  (Layout.word16.pair Layout.word16).record (fun b => (b.speedRpm, b.currentMa))
    (fun x => ⟨x.1, x.2⟩) fun _ => rfl

def quietMotorInit : Bool × SchMotorSupervisionService Unit 16 :=
  serviceInit Layout.word16 feedbackLayout blankMotor (some quietMotor) (some [0, 0, 0, 0]) 1
    (some [0, 0]) 1 1 1

end Example

end SchedulerLib.Services.SchMotor
