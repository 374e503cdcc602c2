import SchedulerLib.Scheduler.Hosting
import SchedulerLib.Services.EepromPreemption
import SchedulerLib.Services.MotorPreemption
import SchedulerLib.Services.UartReceive

/-!
The services with rings of their own as tasks of the scheduler. What their runs achieve, whatever
preempts them, they achieve as tasks in a number of periods.
-/

namespace SchedulerLib.Services

open Lib History IsrBuffer Scheduler

variable {σ E : Type} {w : Nat}

section Started

def SchUart.Started (u16 : Layout (BitVec 16)) (rxCapacity maxRxItems : BitVec w)
    (s : UartWorld σ w) : Prop :=
  ∃ (service : SchUartService σ w) (hal : SchUartHal σ) (rxMemory : List Byte)
      (txStorage : Option (List Byte)) (txCapacity maxTxItems : BitVec w) (env : σ),
    let made := SchUart.serviceInit u16 service (some hal) (some rxMemory) rxCapacity txStorage
      txCapacity maxRxItems maxTxItems
    made.1 = true ∧ rxMemory.length = rxCapacity.toNat * u16.size ∧ rxMemory.length < 2 ^ w ∧
      s = World.start made.2 env

def SchI2cEeprom.Started (u16 : Layout (BitVec 16)) (descriptor : Layout SchEepromRequest)
    (completionCapacity maxRequests maxCompletions : BitVec w) (s : EepromWorld σ w) : Prop :=
  ∃ (service : SchI2cEepromService σ w) (hal : SchI2cEepromHal σ)
      (requestMemory completionMemory : List Byte) (requestCapacity : BitVec w) (env : σ),
    let made := SchI2cEeprom.serviceInit u16 descriptor service (some hal) (some requestMemory)
      requestCapacity (some completionMemory) completionCapacity maxRequests maxCompletions
    made.1 = true ∧ requestMemory.length = requestCapacity.toNat * descriptor.size ∧
      requestMemory.length < 2 ^ w ∧
      completionMemory.length = completionCapacity.toNat * u16.size ∧
      completionMemory.length < 2 ^ w ∧ s = World.start made.2 env

def SchMotor.Started (u16 : Layout (BitVec 16)) (sample : Layout SchMotorFeedback)
    (feedbackSlots eventSlots maxFeedback maxEvents : BitVec w) (s : MotorWorld σ w) : Prop :=
  ∃ (service : SchMotorSupervisionService σ w) (hal : SchMotorHal σ)
      (feedbackMemory eventMemory : List Byte) (env : σ),
    let made := SchMotor.serviceInit u16 sample service (some hal) (some feedbackMemory)
      feedbackSlots (some eventMemory) eventSlots maxFeedback maxEvents
    made.1 = true ∧ feedbackMemory.length = feedbackSlots.toNat * sample.size ∧
      feedbackMemory.length < 2 ^ w ∧ eventMemory.length = eventSlots.toNat * u16.size ∧
      eventMemory.length < 2 ^ w ∧ s = World.start made.2 env

theorem SchUart.Started.brings {u16 : Layout (BitVec 16)} {rxCapacity maxRxItems : BitVec w}
    {s : UartWorld σ w} (h : SchUart.Started u16 rxCapacity maxRxItems s)
    (positive : 0 < rxCapacity.toNat) (fire : σ → List UartEntry × σ) :
    Achieves (uartPreemptedStep u16 fire) UartCall.isRun s
      ((SchUart.received u16).Brings .dropOldest positive maxRxItems.toNat) := by
  obtain ⟨service, hal, rxMemory, txStorage, txCapacity, maxTxItems, env, ok, length, fits, rfl⟩ := h
  exact (SchUart.serves_received u16 positive maxRxItems.toNat fire).brings
    (SchUart.serviceInit_receiving service hal rxMemory txStorage rxCapacity txCapacity maxRxItems
      maxTxItems env positive ok length fits)

theorem SchI2cEeprom.Started.brings {u16 : Layout (BitVec 16)}
    {descriptor : Layout SchEepromRequest}
    {completionCapacity maxRequests maxCompletions : BitVec w} {s : EepromWorld σ w}
    (h : SchI2cEeprom.Started u16 descriptor completionCapacity maxRequests maxCompletions s)
    (positive : 0 < completionCapacity.toNat) (fire : σ → List EepromEntry × σ) :
    Achieves (SchI2cEeprom.preemptedStep u16 descriptor fire) EepromCall.isRun s fun n mid fin =>
      SchI2cEeprom.RequestsPass descriptor maxRequests.toNat n mid fin ∧
        (SchI2cEeprom.completed u16).Brings .dropOldest positive maxCompletions.toNat n mid fin := by
  obtain ⟨service, hal, requestMemory, completionMemory, requestCapacity, env, ok, requestLength,
    requestFits, completionLength, completionFits, rfl⟩ := h
  obtain ⟨budget, submitting⟩ := SchI2cEeprom.serviceInit_submitting service hal requestMemory
    completionMemory requestCapacity completionCapacity maxRequests maxCompletions env ok
    requestLength requestFits
  have completing := SchI2cEeprom.serviceInit_completing service hal requestMemory completionMemory
    requestCapacity completionCapacity maxRequests maxCompletions env positive ok completionLength
    completionFits
  intro mid before n earlier fin later
  have requests := (SchI2cEeprom.requests_achieved fire submitting mid before n earlier fin later).1
  rw [budget] at requests
  exact ⟨requests, (SchI2cEeprom.serves_completed u16 descriptor positive maxCompletions.toNat
    fire).brings completing mid before n earlier fin later⟩

theorem SchMotor.Started.brings {u16 : Layout (BitVec 16)} {sample : Layout SchMotorFeedback}
    {feedbackSlots eventSlots maxFeedback maxEvents : BitVec w} {s : MotorWorld σ w}
    (h : SchMotor.Started u16 sample feedbackSlots eventSlots maxFeedback maxEvents s)
    (positiveFeedback : 0 < feedbackSlots.toNat) (positiveEvents : 0 < eventSlots.toNat)
    (fire : σ → List SchMotorEventId × σ) :
    Achieves (motorPreemptedStep u16 sample fire) MotorCall.isRun s
      (SchMotor.MotorBrings u16 sample positiveEvents positiveFeedback
        ⟨maxEvents.toNat, maxFeedback.toNat⟩) := by
  obtain ⟨service, hal, feedbackMemory, eventMemory, env, ok, feedbackLength, feedbackFits,
    eventLength, eventFits, rfl⟩ := h
  obtain ⟨supervised, latching⟩ := SchMotor.serviceInit_supervised service hal feedbackMemory
    eventMemory feedbackSlots eventSlots maxFeedback maxEvents env positiveFeedback positiveEvents
    ok feedbackLength feedbackFits eventLength eventFits
  exact SchMotor.motor_brings fire supervised latching

end Started

section Hosted

variable {cfg : Config} {port : Port E} {fn ctx : Address} {clock : E → Nat} {costs : Costs}

/-- The latency of the services with a task that keeps up with its releases. What is in the queues
at some moment is through when as many periods are over as it fills budgets: received bytes are
taken, requests offered and completions taken, and faults have switched the drive off, unless
a queue's worth of later items has pushed them out. -/
theorem hosted_services_in_time (timed : Timed cfg port clock costs) (u16 : Layout (BitVec 16))
    (descriptor : Layout SchEepromRequest) (sample : Layout SchMotorFeedback) :
    (∀ (view : E → UartWorld σ w) (fire : σ → List UartEntry × σ) (rxCapacity maxRxItems : BitVec w)
        (env : E) (positive : 0 < rxCapacity.toNat),
      Hosts cfg port (uartPreemptedStep u16 fire) UartCall.isRun view fn ctx →
      SchUart.Started u16 rxCapacity maxRxItems (view env) →
      AchievesInTime cfg port costs clock (uartPreemptedStep u16 fire) UartCall.isRun view fn ctx
        ((SchUart.received u16).Passes .dropOldest positive maxRxItems.toNat) env) ∧
    (∀ (view : E → EepromWorld σ w) (fire : σ → List EepromEntry × σ)
        (completionCapacity maxRequests maxCompletions : BitVec w) (env : E)
        (positive : 0 < completionCapacity.toNat),
      Hosts cfg port (SchI2cEeprom.preemptedStep u16 descriptor fire) EepromCall.isRun view fn ctx →
      SchI2cEeprom.Started u16 descriptor completionCapacity maxRequests maxCompletions (view env) →
      AchievesInTime cfg port costs clock (SchI2cEeprom.preemptedStep u16 descriptor fire)
        EepromCall.isRun view fn ctx (fun n mid fin =>
          SchI2cEeprom.RequestsPass descriptor maxRequests.toNat n mid fin ∧
            (SchI2cEeprom.completed u16).Passes .dropOldest positive maxCompletions.toNat n mid fin)
        env) ∧
    (∀ (view : E → MotorWorld σ w) (fire : σ → List SchMotorEventId × σ)
        (feedbackSlots eventSlots maxFeedback maxEvents : BitVec w) (env : E)
        (positiveFeedback : 0 < feedbackSlots.toNat) (positiveEvents : 0 < eventSlots.toNat),
      Hosts cfg port (motorPreemptedStep u16 sample fire) MotorCall.isRun view fn ctx →
      SchMotor.Started u16 sample feedbackSlots eventSlots maxFeedback maxEvents (view env) →
      AchievesInTime cfg port costs clock (motorPreemptedStep u16 sample fire) MotorCall.isRun view
        fn ctx (SchMotor.MotorPasses u16 sample positiveEvents positiveFeedback
          ⟨maxEvents.toNat, maxFeedback.toNat⟩) env) := by
  refine ⟨?_, ?_, ?_⟩
  · intro view fire rxCapacity maxRxItems env positive hosts started
    exact hosts.achieves_in_time timed (fun m n v v' le h => h.fewer le)
      ((started.brings positive fire).imp fun _ _ _ brought => brought.passes)
  · intro view fire completionCapacity maxRequests maxCompletions env positive hosts started
    exact hosts.achieves_in_time timed (fun m n v v' le h => ⟨h.1.fewer le, h.2.fewer le⟩)
      ((started.brings positive fire).imp fun _ _ _ brought => ⟨brought.1, brought.2.passes⟩)
  · intro view fire feedbackSlots eventSlots maxFeedback maxEvents env positiveFeedback
      positiveEvents hosts started
    exact hosts.achieves_in_time timed (fun m n v v' le h => h.fewer le)
      ((started.brings positiveFeedback positiveEvents fire).imp fun _ _ _ brought =>
        brought.passes)

end Hosted

section Example

abbrev BoardEnv := Nat × UartWorld (BitVec 16 × Bool) 16 × EepromWorld Bool 16 × MotorWorld Unit 16

def boardUart : UartWorld (BitVec 16 × Bool) 16 → UartCall → UartWorld (BitVec 16 × Bool) 16 :=
  uartPreemptedStep Layout.word16 SchUart.oneMoreByte

def boardEeprom : EepromWorld Bool 16 → EepromCall → EepromWorld Bool 16 :=
  SchI2cEeprom.preemptedStep Layout.word16 SchI2cEeprom.requestLayout
    SchI2cEeprom.completeWhileBusy

def noInterrupt (_ : Unit) : List SchMotorEventId × Unit := ([], ())

def boardMotor : MotorWorld Unit 16 → MotorCall → MotorWorld Unit 16 :=
  motorPreemptedStep Layout.word16 SchMotor.feedbackLayout noInterrupt

/-- The services are the tasks 1, 2 and 3. While the board idles, a byte, a request, a completion
and a fault arrive. -/
def boardPort : Port BoardEnv where
  time env := (env.1, env.1 + 1, env.2)
  task fn ctx env := .ret (env.1 + 4,
    if fn = 1 ∧ ctx = 9 then boardUart env.2.1 .run else env.2.1,
    if fn = 2 ∧ ctx = 9 then boardEeprom env.2.2.1 .run else env.2.2.1,
    if fn = 3 ∧ ctx = 9 then boardMotor env.2.2.2 .run else env.2.2.2)
  traceHook _ _ _ _ _ env := (env.1 + 1, env.2)
  idle env := (env.1 + 100, boardUart env.2.1 .isrRx,
    boardEeprom (boardEeprom env.2.2.1 (.enqueueRequest (some ⟨16, 4, true⟩))) .isrComplete,
    boardMotor env.2.2.2 .isrFault)

def boardStart : BoardEnv :=
  (0, World.start (SchUart.serviceInit Layout.word16 SchUart.blankCountingUart
      (some SchUart.countingUart) (some (List.replicate 16 0)) 8 (some [0, 0]) 1 8 1).2 (7, true),
    World.start (SchI2cEeprom.serviceInit Layout.word16 SchI2cEeprom.requestLayout
      SchI2cEeprom.blankEeprom (some SchI2cEeprom.busyOnce) (some (List.replicate 10 0)) 2
      (some (List.replicate 18 0)) 9 2 9).2 true,
    World.start (SchMotor.serviceInit Layout.word16 SchMotor.feedbackLayout SchMotor.blankMotor
      (some SchMotor.quietMotor) (some [0, 0, 0, 0]) 1 (some (List.replicate 8 0)) 4 1 4).2 ())

theorem boardPort_hosts :
    Hosts ⟨false, false⟩ boardPort boardUart UartCall.isRun (fun env => env.2.1) 1 9 ∧
    Hosts ⟨false, false⟩ boardPort boardEeprom EepromCall.isRun (fun env => env.2.2.1) 2 9 ∧
    Hosts ⟨false, false⟩ boardPort boardMotor MotorCall.isRun (fun env => env.2.2.2) 3 9 := by
  refine ⟨⟨fun _ => Reaches.refl _, fun _ _ _ _ _ _ => Reaches.refl _, fun _ => ⟨[.isrRx], rfl, rfl⟩,
      fun _ => ⟨[.run], rfl, rfl⟩, fun fn ctx w other => ?_⟩,
    ⟨fun _ => Reaches.refl _, fun _ _ _ _ _ _ => Reaches.refl _,
      fun _ => ⟨[.enqueueRequest (some ⟨16, 4, true⟩), .isrComplete], rfl, rfl⟩,
      fun _ => ⟨[.run], rfl, rfl⟩, fun fn ctx w other => ?_⟩,
    ⟨fun _ => Reaches.refl _, fun _ _ _ _ _ _ => Reaches.refl _, fun _ => ⟨[.isrFault], rfl, rfl⟩,
      fun _ => ⟨[.run], rfl, rfl⟩, fun fn ctx w other => ?_⟩⟩
  · have same : ((boardPort.task fn ctx w.env).exec ⟨false, false⟩ boardPort w).env.2.1 =
        w.env.2.1 := if_neg other
    rw [same]
    exact Reaches.refl _
  · have same : ((boardPort.task fn ctx w.env).exec ⟨false, false⟩ boardPort w).env.2.2.1 =
        w.env.2.2.1 := if_neg other
    rw [same]
    exact Reaches.refl _
  · have same : ((boardPort.task fn ctx w.env).exec ⟨false, false⟩ boardPort w).env.2.2.2 =
        w.env.2.2.2 := if_neg other
    rw [same]
    exact Reaches.refl _

def boardCosts : Costs := ⟨1, 1, 100, fun _ _ => 4⟩

theorem boardPort_timed : Timed ⟨false, false⟩ boardPort Prod.fst boardCosts where
  now _ := rfl
  read env := ⟨Nat.le_succ env.1, le_refl _⟩
  hook _ _ _ _ _ env := ⟨Nat.le_succ env.1, le_refl _⟩
  idle env := ⟨Nat.le_add_right env.1 100, le_refl _⟩
  callback fn ctx w := by
    have unread : Takes Prod.fst 0 w w := Elapses.refl w
    have acted := unread.setEnv (w.env.1 + 4, ((boardPort.task fn ctx w.env).exec ⟨false, false⟩
      boardPort w).env.2) (Nat.le_add_right w.env.1 4) (le_refl _)
    rw [Nat.zero_add] at acted
    exact acted

/-- The main loop registers the tasks 1, 2 and 3 and runs eight times. -/
def boardTask (fn : Address) : Call BoardEnv := .addTask ⟨fn, 9, 160, 40, 0⟩

def fourRuns {E : Type} : List (Call E) := [.run, .run, .run, .run]

set_option maxRecDepth 4000 in
theorem uart_keepsUp : KeepsUp ⟨false, false⟩ boardPort boardCosts Prod.fst boardStart []
    (boardTask 1) ([boardTask 2, boardTask 3] ++ fourRuns ++ fourRuns)
    ⟨0, ⟨1, 9, 160, 40, 0⟩, 0⟩ 0 116 :=
  ⟨by decide +kernel, ⟨by decide, by decide, by decide⟩, by unfold Returns; decide +kernel,
    by unfold Begins; decide +kernel, by decide +kernel, by decide⟩

set_option maxRecDepth 4000 in
theorem eeprom_keepsUp : KeepsUp ⟨false, false⟩ boardPort boardCosts Prod.fst boardStart
    [boardTask 1] (boardTask 2) ([boardTask 3] ++ fourRuns ++ fourRuns)
    ⟨1, ⟨2, 9, 160, 40, 0⟩, 1⟩ 0 116 :=
  ⟨by decide +kernel, ⟨by decide, by decide, by decide⟩, by unfold Returns; decide +kernel,
    by unfold Begins; decide +kernel, by decide +kernel, by decide⟩

set_option maxRecDepth 4000 in
theorem motor_keepsUp : KeepsUp ⟨false, false⟩ boardPort boardCosts Prod.fst boardStart
    [boardTask 1, boardTask 2] (boardTask 3) (fourRuns ++ fourRuns)
    ⟨2, ⟨3, 9, 160, 40, 0⟩, 2⟩ 0 116 :=
  ⟨by decide +kernel, ⟨by decide, by decide, by decide⟩, by unfold Returns; decide +kernel,
    by unfold Begins; decide +kernel, by decide +kernel, by decide⟩

theorem boardUart_started : SchUart.Started Layout.word16 (8 : BitVec 16) 8 boardStart.2.1 :=
  ⟨SchUart.blankCountingUart, SchUart.countingUart, List.replicate 16 0, some [0, 0], 1, 1,
    (7, true), by decide, by decide, by decide, rfl⟩

theorem boardEeprom_started : SchI2cEeprom.Started Layout.word16 SchI2cEeprom.requestLayout
    (9 : BitVec 16) 2 9 boardStart.2.2.1 :=
  ⟨SchI2cEeprom.blankEeprom, SchI2cEeprom.busyOnce, List.replicate 10 0, List.replicate 18 0, 2,
    true, by decide, by decide, by decide, by decide, by decide, rfl⟩

theorem boardMotor_started : SchMotor.Started Layout.word16 SchMotor.feedbackLayout
    (1 : BitVec 16) 4 1 4 boardStart.2.2.2 :=
  ⟨SchMotor.blankMotor, SchMotor.quietMotor, [0, 0, 0, 0], List.replicate 8 0, (),
    by decide, by decide, by decide, by decide, by decide, rfl⟩

theorem board_tended {V C : Type} (step : V → C → V) (mark : C → Bool) (view : BoardEnv → V) :
    Tended ⟨false, false⟩ boardPort step mark view (World.start Sch.init boardStart)
      ([boardTask 1, boardTask 2, boardTask 3] ++ fourRuns ++ fourRuns) :=
  tended_of_no_elapse fun env => by simp [boardTask, fourRuns]

def boardMid : BoardEnv :=
  (history ⟨false, false⟩ boardPort boardStart
    (boardTask 1 :: boardTask 2 :: boardTask 3 :: fourRuns)).env

def boardFin : BoardEnv :=
  (history ⟨false, false⟩ boardPort boardStart
    (boardTask 1 :: boardTask 2 :: boardTask 3 :: (fourRuns ++ fourRuns))).env

set_option maxRecDepth 4000 in
/-- Within four runs, the bytes so far have been taken, the requests offered and the faults
answered. -/
theorem hosted_services_in_time_board :
    (SchUart.received Layout.word16).Prompt .dropOldest (show 0 < (8 : BitVec 16).toNat by decide)
        boardMid.2.1 boardFin.2.1 ∧
      SchI2cEeprom.accepted boardMid.2.2.1.events <+: SchI2cEeprom.tried boardFin.2.2.1.events ∧
      SchMotor.FaultsAnswered 4 boardMid.2.2.2 boardFin.2.2.2 := by
  obtain ⟨uartHosted, eepromHosted, motorHosted⟩ := boardPort_hosts
  unfold boardMid boardFin
  refine ⟨?_, ?_, ?_⟩
  · have passes := (hosted_services_in_time boardPort_timed Layout.word16
      SchI2cEeprom.requestLayout SchMotor.feedbackLayout).1 (fun env => env.2.1)
      SchUart.oneMoreByte 8 8 boardStart (by decide) uartHosted boardUart_started []
      (boardTask 1) ([boardTask 2, boardTask 3] ++ fourRuns) fourRuns ⟨0, ⟨1, 9, 160, 40, 0⟩, 0⟩
      0 116 336 1 rfl rfl uart_keepsUp (board_tended _ _ _) (by decide +kernel) (by decide)
      (by decide +kernel)
    simp only [List.cons_append, List.nil_append] at passes
    exact passes.prompt (by decide +kernel)
  · have passes := (hosted_services_in_time boardPort_timed Layout.word16
      SchI2cEeprom.requestLayout SchMotor.feedbackLayout).2.1 (fun env => env.2.2.1)
      SchI2cEeprom.completeWhileBusy 9 2 9 boardStart (by decide) eepromHosted boardEeprom_started
      [boardTask 1] (boardTask 2) ([boardTask 3] ++ fourRuns) fourRuns
      ⟨1, ⟨2, 9, 160, 40, 0⟩, 1⟩ 0 116 336 1 rfl rfl eeprom_keepsUp (board_tended _ _ _)
      (by decide +kernel) (by decide) (by decide +kernel)
    simp only [List.cons_append, List.nil_append] at passes
    exact passes.1.prompt (by decide +kernel)
  · have passes := (hosted_services_in_time boardPort_timed Layout.word16
      SchI2cEeprom.requestLayout SchMotor.feedbackLayout).2.2 (fun env => env.2.2.2)
      noInterrupt 1 4 1 4 boardStart (by decide) (by decide) motorHosted boardMotor_started
      [boardTask 1, boardTask 2] (boardTask 3) fourRuns fourRuns ⟨2, ⟨3, 9, 160, 40, 0⟩, 2⟩ 0 116
      336 1 rfl rfl motor_keepsUp (board_tended _ _ _) (by decide +kernel) (by decide)
      (by decide +kernel)
    simp only [List.cons_append, List.nil_append] at passes
    exact passes.answered (by decide +kernel)

end Example

end SchedulerLib.Services
