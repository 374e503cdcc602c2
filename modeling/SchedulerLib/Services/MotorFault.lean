import SchedulerLib.Services.MotorCommand

/-!
What becomes of a fault interrupt. Its event stands in the queue behind the events that
came before it until a run consumes it, and consuming it disables the motor; only the
overflow of a queue whose oldest event it has become can take it away.
-/

namespace SchedulerLib.Services.SchMotor

open Lib IsrBuffer

variable {σ : Type} {w : Nat} {u16 : Layout (BitVec 16)} {sample : Layout SchMotorFeedback}
  {q : Fifo (BitVec 16)} {f : Fifo SchMotorFeedback} {s : MotorWorld σ w}

/-- The fault raised before the calls `after` is lost to the drop-oldest overflow: when the
`capacity`-th interrupt since then arrives, the fault's event is the oldest of a full queue. -/
def FaultDiscarded (u16 : Layout (BitVec 16)) (sample : Layout SchMotorFeedback)
    (capacity : Nat) (raised : MotorWorld σ w) (after : List MotorCall) : Prop :=
  ∃ done c, done ++ [c] <+: after ∧ c.isInterrupt = true ∧
    (done ++ [c]).countP MotorCall.isInterrupt = capacity ∧
    ∃ behind, (done.foldl (motorStep u16 sample) raised).state.eventQueue.ring.items u16 =
        SchMotorEventId.fault.code :: behind ∧
      behind.length + 1 = capacity

def FaultWaiting (q : Fifo (BitVec 16)) (later : Nat) : Prop :=
  ∃ ahead behind, q.items = ahead ++ SchMotorEventId.fault.code :: behind ∧ behind.length = later

theorem push_fault_waiting (q : Fifo (BitVec 16)) (policy : q.policy = .dropOldest) :
    FaultWaiting (q.push SchMotorEventId.fault.code) 0 := by
  by_cases room : q.items.length < q.capacity
  · exact ⟨q.items, [], (q.push_of_room _ room).1, rfl⟩
  · have full : q.items.length = q.capacity := by
      have := q.bounded
      omega
    obtain ⟨out, -⟩ := q.push_of_dropOldest SchMotorEventId.fault.code full policy
    exact ⟨q.items.tail, [], by rw [Fifo.push_items, Fifo.kept, out], rfl⟩

theorem FaultWaiting.push {later : Nat} (h : FaultWaiting q later) (policy : q.policy = .dropOldest)
    (eventId : BitVec 16) :
    FaultWaiting (q.push eventId) (later + 1) ∨ ∃ behind,
      q.items = SchMotorEventId.fault.code :: behind ∧ behind.length = later ∧
        later + 1 = q.capacity := by
  obtain ⟨ahead, behind, items, length⟩ := h
  by_cases room : q.items.length < q.capacity
  · refine Or.inl ⟨ahead, behind ++ [eventId], ?_, by simp [length]⟩
    rw [(q.push_of_room eventId room).1, items, List.append_assoc, List.cons_append]
  · have full : q.items.length = q.capacity := by
      have := q.bounded
      omega
    obtain ⟨out, -⟩ := q.push_of_dropOldest eventId full policy
    cases ahead with
    | nil =>
      refine Or.inr ⟨behind, items, length, ?_⟩
      rw [← full, items, ← length]
      simp
    | cons first ahead =>
      refine Or.inl ⟨ahead, behind ++ [eventId], ?_, by simp [length]⟩
      rw [Fifo.push_items, Fifo.kept, out, items]
      simp

theorem FaultWaiting.skip {later : Nat} (h : FaultWaiting q later) (n : Nat) :
    SchMotorEventId.fault.code ∈ q.items.take n ∨ FaultWaiting (q.skip n) later := by
  obtain ⟨ahead, behind, items, length⟩ := h
  by_cases reached : ahead.length < n
  · left
    have next : n - ahead.length = n - ahead.length - 1 + 1 := by omega
    rw [items, List.take_append, next, List.take_succ_cons]
    simp
  · right
    refine ⟨ahead.drop n, behind, ?_, length⟩
    rw [Fifo.skip_items, items, List.drop_append_of_le_length (by omega)]

theorem disables_of_consumed (service : SchMotorSupervisionService σ w)
    (h : SchMotorEventId.fault.code ∈ q.items.take service.maxEventsPerRun.toNat) :
    .setEnable false ∈ runTrace service q f := by
  have work : HasWork service.irqHint q f :=
    Or.inr (Or.inr (List.ne_nil_of_mem (List.mem_of_mem_take h)))
  rw [runTrace, if_pos work]
  simp only [List.mem_append, List.mem_flatMap]
  exact Or.inl (Or.inr ⟨_, h, by simp [consumeTrace]⟩)

def FaultTracked (u16 : Layout (BitVec 16)) (sample : Layout SchMotorFeedback) (capacity : Nat)
    (raised : MotorWorld σ w) (done : List MotorCall) : Prop :=
  let s := done.foldl (motorStep u16 sample) raised
  ∃ q f, Ready u16 sample q f s ∧ q.capacity = capacity ∧ raised.events <+: s.events ∧
    (.setEnable false ∈ World.eventsSince raised s ∨
      FaultDiscarded u16 sample capacity raised done ∨
      FaultWaiting q (done.countP MotorCall.isInterrupt))

theorem mem_eventsSince_of_mem {w₁ w₂ w₃ : MotorWorld σ w} {e : MotorEvent}
    (h : w₁.events <+: w₂.events) (k : w₂.events <+: w₃.events)
    (mem : e ∈ World.eventsSince w₁ w₂) : e ∈ World.eventsSince w₁ w₃ := by
  obtain ⟨l, h⟩ := h
  obtain ⟨m, k⟩ := k
  rw [World.eventsSince_of_events w₁ w₂ l h.symm] at mem
  rw [World.eventsSince_of_events w₁ w₃ (l ++ m) (by rw [← k, ← h, List.append_assoc])]
  exact List.mem_append_left m mem

theorem mem_eventsSince_of_new {w₁ w₂ w₃ : MotorWorld σ w} {e : MotorEvent} {l : List MotorEvent}
    (h : w₁.events <+: w₂.events) (k : w₃.events = w₂.events ++ l) (mem : e ∈ l) :
    e ∈ World.eventsSince w₁ w₃ := by
  obtain ⟨m, h⟩ := h
  rw [World.eventsSince_of_events w₁ w₃ (m ++ l) (by rw [k, ← h, List.append_assoc])]
  exact List.mem_append_right m mem

theorem FaultDiscarded.later {capacity : Nat} {raised : MotorWorld σ w} {done : List MotorCall}
    (h : FaultDiscarded u16 sample capacity raised done) (c : MotorCall) :
    FaultDiscarded u16 sample capacity raised (done ++ [c]) := by
  obtain ⟨first, d, before, rest⟩ := h
  exact ⟨first, d, before.trans (List.prefix_append ..), rest⟩

theorem FaultTracked.step {capacity : Nat} {raised : MotorWorld σ w} {done : List MotorCall}
    (h : FaultTracked u16 sample capacity raised done) (c : MotorCall) :
    FaultTracked u16 sample capacity raised (done ++ [c]) := by
  obtain ⟨q, f, ready, bound, grown, fate⟩ := h
  unfold FaultTracked
  rw [List.foldl_append, List.foldl_cons, List.foldl_nil]
  generalize reached : done.foldl (motorStep u16 sample) raised = s at ready grown fate
  obtain ⟨⟨f', next⟩, grows⟩ := ready.step c
  refine ⟨_, f', next, by cases c <;> exact bound, grown.trans grows, ?_⟩
  rcases fate with disabled | discarded | waiting
  · exact Or.inl (mem_eventsSince_of_mem grown grows disabled)
  · exact Or.inr (Or.inl (discarded.later c))
  · have interrupt (id : SchMotorEventId) (isr : c.isInterrupt = true)
        (pushed : nextEvents s.state.maxEventsPerRun.toNat q c = q.push id.code) :
        FaultDiscarded u16 sample capacity raised (done ++ [c]) ∨
          FaultWaiting (nextEvents s.state.maxEventsPerRun.toNat q c)
            ((done ++ [c]).countP MotorCall.isInterrupt) := by
      have count : (done ++ [c]).countP MotorCall.isInterrupt =
          done.countP MotorCall.isInterrupt + 1 := by
        simp [List.countP_append, isr]
      rw [count, pushed]
      rcases waiting.push ready.policy id.code with behind | ⟨behind, items, length, full⟩
      · exact Or.inr behind
      · refine Or.inl ⟨done, c, List.prefix_rfl, isr, by rw [count, full, bound], behind, ?_, ?_⟩
        · rw [reached, ready.events.items, items]
        · rw [length, full, bound]
    cases c with
    | isrFeedback => exact Or.inr (interrupt .feedback rfl rfl)
    | isrFault => exact Or.inr (interrupt .fault rfl rfl)
    | setCommand enable targetSpeedRpm =>
      refine Or.inr (Or.inr ?_)
      rw [List.countP_append]
      exact waiting
    | run =>
      obtain ⟨-, events⟩ := ready.serviceRun
      rcases waiting.skip s.state.maxEventsPerRun.toNat with consumed | still
      · exact Or.inl (mem_eventsSince_of_new grown events (disables_of_consumed _ consumed))
      · refine Or.inr (Or.inr ?_)
        rw [List.countP_append]
        exact still

theorem isrFault_tracked (h : Ready u16 sample q f s) :
    FaultTracked u16 sample q.capacity (isrFault u16 s) [] := by
  obtain ⟨acked, -⟩ := h.acknowledge
  obtain ⟨pushed, -⟩ := acked.pushEvent .fault
  exact ⟨_, f, pushed, rfl, List.prefix_rfl, Or.inr (Or.inr (push_fault_waiting q h.policy))⟩

theorem FaultDiscarded.capacity_le {capacity : Nat} {raised : MotorWorld σ w}
    {after : List MotorCall} (h : FaultDiscarded u16 sample capacity raised after) :
    capacity ≤ after.countP MotorCall.isInterrupt := by
  obtain ⟨done, c, early, -, count, -⟩ := h
  rw [← count]
  exact early.sublist.countP_le

/-- A fault interrupt before a run that empties the event queue has disabled the motor by
then, unless the overflow discarded its event. -/
theorem motor_fault_disables_or_discarded (service : SchMotorSupervisionService σ w)
    (hal : SchMotorHal σ) (feedbackMemory eventMemory : List Byte)
    (feedbackCapacity eventCapacity maxFeedbackItems maxEvents : BitVec w) (env : σ)
    (ok : (serviceInit u16 sample service (some hal) (some feedbackMemory) feedbackCapacity
      (some eventMemory) eventCapacity maxFeedbackItems maxEvents).1 = true)
    (feedbackLength : feedbackMemory.length = feedbackCapacity.toNat * sample.size)
    (feedbackFits : feedbackMemory.length < 2 ^ w)
    (eventLength : eventMemory.length = eventCapacity.toNat * u16.size)
    (eventFits : eventMemory.length < 2 ^ w) (before after : List MotorCall) :
    let start := World.start (serviceInit u16 sample service (some hal) (some feedbackMemory)
      feedbackCapacity (some eventMemory) eventCapacity maxFeedbackItems maxEvents).2 env
    let raised := (before ++ [MotorCall.isrFault]).foldl (motorStep u16 sample) start
    let last := (after ++ [MotorCall.run]).foldl (motorStep u16 sample) raised
    last.state.eventQueue.ring.items u16 = [] →
      .setEnable false ∈ World.eventsSince raised last ∨
        FaultDiscarded u16 sample eventCapacity.toNat raised (after ++ [.run]) := by
  intro start raised last empty
  obtain ⟨q, f, -, capacity, ready⟩ := serviceInit_ready service hal feedbackMemory eventMemory
    feedbackCapacity eventCapacity maxFeedbackItems maxEvents env ok feedbackLength feedbackFits
    eventLength eventFits
  obtain ⟨q', f', bound, reached⟩ := ready.calls before
  have first : FaultTracked u16 sample eventCapacity.toNat raised [] := by
    have tracked := isrFault_tracked reached
    rw [bound, capacity] at tracked
    rw [show raised = isrFault u16 (before.foldl (motorStep u16 sample) start) by
      simp [raised, motorStep]]
    exact tracked
  have tracked : ∀ done, FaultTracked u16 sample eventCapacity.toNat raised done := by
    intro done
    induction done using List.reverseRecOn with
    | nil => exact first
    | append_singleton done c ih => exact ih.step c
  obtain ⟨q'', f'', last_ready, -, -, fate⟩ := tracked (after ++ [.run])
  rcases fate with disabled | discarded | ⟨ahead, behind, items, -⟩
  · exact Or.inl disabled
  · exact Or.inr discarded
  · rw [last_ready.events.items, items] at empty
    simp at empty

section Example

theorem motor_fault_disables_two_events :
    let start := World.start (serviceInit Layout.word16 feedbackLayout blankMotor (some quietMotor)
      (some [0, 0, 0, 0]) 1 (some [0, 0, 0, 0]) 2 1 2).2 ()
    let raised := [MotorCall.setCommand true 100, .isrFeedback, .isrFault].foldl
      (motorStep Layout.word16 feedbackLayout) start
    .setEnable false ∈ World.eventsSince raised
      ([MotorCall.run].foldl (motorStep Layout.word16 feedbackLayout) raised) := by
  intro start raised
  have fate := @motor_fault_disables_or_discarded Unit 16 Layout.word16 feedbackLayout
    blankMotor quietMotor [0, 0, 0, 0] [0, 0, 0, 0] 1 2 1 2 () (by decide) (by decide)
    (by decide) (by decide) (by decide) [.setCommand true 100, .isrFeedback] [] (by decide)
  rcases fate with disabled | discarded
  · exact disabled
  · exact absurd discarded.capacity_le (by decide)

/-- Room for one event: the feedback event that follows takes the fault's place, the run
empties the queue, and the motor stays enabled. -/
theorem motor_fault_lost :
    quietMotorInit.1 = true ∧
    let raised := [MotorCall.setCommand true 100, .isrFault].foldl
      (motorStep Layout.word16 feedbackLayout) (World.start quietMotorInit.2 ())
    let last := [MotorCall.isrFeedback, .run].foldl (motorStep Layout.word16 feedbackLayout) raised
    last.state.eventQueue.ring.items Layout.word16 = [] ∧
      .setEnable false ∉ World.eventsSince raised last ∧ last.state.enabled = true := by
  decide

end Example

end SchedulerLib.Services.SchMotor
