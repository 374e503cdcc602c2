import SchedulerLib.Services.IrqRecords
import SchedulerLib.Lib.Fifo
import SchedulerLib.Lib.History

/-!
Record delivery under preemption. The log is replayed on a ledger, in which every handler
call keeps its number; at every moment the ring holds the records of the ledger's queue,
and the callbacks invoked are those of the records the ledger popped, except the one
record that a run may be holding.
-/

namespace SchedulerLib.Services

open Lib IsrBuffer

/-- What the handlers of a service do with their arguments, and the classes of its switch. -/
structure IrqHandlers (A T R : Type) where
  tag : A → T
  source : A → BitVec 16
  record : A → R
  eventBit : A → BitVec 32
  classOf : R → Option T
  classOf_record : ∀ call, classOf (record call) = some (tag call)

namespace IrqHandlers

variable {A T R σ : Type} {w : Nat}

def enter (H : IrqHandlers A T R) (layout : Layout R) (call : A) (s : IrqWorld A T R σ w) :
    IrqWorld A T R σ w :=
  IrqService.isrPush layout call (H.tag call) (H.source call) (H.record call) (H.eventBit call) s

def run (H : IrqHandlers A T R) (layout : Layout R) (fire : σ → List A × σ)
    (s : IrqWorld A T R σ w) : IrqWorld A T R σ w :=
  IrqService.run layout H.classOf (IrqService.preempted (H.enter layout) fire) s

def invocations (events : List (IrqEvent A T R)) : List (T × R) :=
  events.filterMap fun
    | .invoke tag record => some (tag, record)
    | _ => none

def held (events : List (IrqEvent A T R)) : Option R :=
  events.foldl (fun record e => match e with
    | .pop record => some record
    | .invoke _ _ => none
    | _ => record) none

/-- The history of the ring: handler calls ordered by their push, and pops. -/
def replay (capacity : Nat) (policy : Fifo.Policy) (positive : 0 < capacity)
    (events : List (IrqEvent A T R)) : Ledger A :=
  events.foldl (fun ledger e => match e with
    | .push call _ => ledger.push call
    | .pop _ => ledger.pop
    | _ => ledger) (Ledger.empty capacity policy positive)

def delivery (H : IrqHandlers A T R) (call : A) : T × R := (H.tag call, H.record call)

@[simp] theorem invocations_append (e f : List (IrqEvent A T R)) :
    invocations (e ++ f) = invocations e ++ invocations f := by
  simp [invocations]

@[simp] theorem invocations_nil : invocations ([] : List (IrqEvent A T R)) = [] := rfl
@[simp] theorem invocations_ackIrq (tag : T) (source : BitVec 16) :
    invocations [(.ackIrq tag source : IrqEvent A T R)] = [] := rfl
@[simp] theorem invocations_push (call : A) (status : SchRingPushStatus) :
    invocations [(.push call status : IrqEvent A T R)] = [] := rfl
@[simp] theorem invocations_pop (record : R) :
    invocations [(.pop record : IrqEvent A T R)] = [] := rfl
@[simp] theorem invocations_invoke (tag : T) (record : R) :
    invocations [(.invoke tag record : IrqEvent A T R)] = [(tag, record)] := rfl

@[simp] theorem held_ackIrq (e : List (IrqEvent A T R)) (tag : T) (source : BitVec 16) :
    held (e ++ [.ackIrq tag source]) = held e := by
  simp [held]
@[simp] theorem held_push (e : List (IrqEvent A T R)) (call : A) (status : SchRingPushStatus) :
    held (e ++ [.push call status]) = held e := by
  simp [held]
@[simp] theorem held_pop (e : List (IrqEvent A T R)) (record : R) :
    held (e ++ [.pop record]) = some record := by
  simp [held]
@[simp] theorem held_invoke (e : List (IrqEvent A T R)) (tag : T) (record : R) :
    held (e ++ [.invoke tag record]) = none := by
  simp [held]

section Replay

variable {capacity : Nat} {policy : Fifo.Policy} {positive : 0 < capacity}

@[simp] theorem replay_ackIrq (e : List (IrqEvent A T R)) (tag : T) (source : BitVec 16) :
    replay capacity policy positive (e ++ [.ackIrq tag source]) =
      replay capacity policy positive e := by
  simp [replay]
@[simp] theorem replay_push (e : List (IrqEvent A T R)) (call : A) (status : SchRingPushStatus) :
    replay capacity policy positive (e ++ [.push call status]) =
      (replay capacity policy positive e).push call := by
  simp [replay]
@[simp] theorem replay_pop (e : List (IrqEvent A T R)) (record : R) :
    replay capacity policy positive (e ++ [.pop record]) =
      (replay capacity policy positive e).pop := by
  simp [replay]
@[simp] theorem replay_invoke (e : List (IrqEvent A T R)) (tag : T) (record : R) :
    replay capacity policy positive (e ++ [.invoke tag record]) =
      replay capacity policy positive e := by
  simp [replay]

end Replay

structure Delivering (H : IrqHandlers A T R) (layout : Layout R) (l : Ledger A)
    (events : List (IrqEvent A T R)) (service : IrqService T R σ w) : Prop where
  carries : Carries layout service.irqRecords (l.queue.map fun x => H.record x.1)
  balanced : l.Balanced
  handled : invocations events ++ (held events).toList.filterMap
      (fun record => (H.classOf record).map fun tag => (tag, record)) =
    l.popped.map fun x => H.delivery x.1
  callbacks : ∀ tag, (service.hal.service tag).isSome

variable {H : IrqHandlers A T R} {layout : Layout R} {l : Ledger A}
  {events : List (IrqEvent A T R)} {service : IrqService T R σ w}

theorem Delivering.ackIrq (h : Delivering H layout l events service) (tag : T)
    (source : BitVec 16) : Delivering H layout l (events ++ [.ackIrq tag source]) service :=
  ⟨h.carries, h.balanced, by simpa using h.handled, h.callbacks⟩

theorem Delivering.push (h : Delivering H layout l events service) (call : A) :
    let r := service.irqRecords.pushAs layout (H.record call)
    Delivering H layout (l.push call) (events ++ [.push call r.1])
      { service with irqRecords := r.2 } where
  carries := by
    have pushed := (h.carries.push (H.record call)).2
    rwa [show H.record call = (fun x : A × Nat => H.record x.1) (call, l.pushed.length) from rfl,
      Fifo.map_push] at pushed
  balanced := h.balanced.push call
  handled := by simpa [Ledger.push] using h.handled
  callbacks := h.callbacks

theorem Delivering.pop (h : Delivering H layout l events service) (free : held events = none)
    (record : R) (front : (service.irqRecords.popAs layout).1 = some record) :
    Delivering H layout l.pop (events ++ [.pop record])
      { service with irqRecords := (service.irqRecords.popAs layout).2 } where
  carries := by
    have popped := h.carries.pop.2
    rwa [Fifo.map_pop] at popped
  balanced := h.balanced.pop
  handled := by
    have first := h.carries.pop.1
    rw [front, Fifo.map_items, List.head?_map] at first
    obtain ⟨x, head, rfl⟩ := Option.map_eq_some_iff.mp first.symm
    obtain ⟨rest, items⟩ := List.head?_eq_some_iff.mp head
    have before := h.handled
    rw [free, Option.toList_none, List.filterMap_nil, List.append_nil] at before
    simp [Ledger.pop, items, before, H.classOf_record, delivery]
  callbacks := h.callbacks

theorem Delivering.invoke (h : Delivering H layout l events service) (tag : T) (record : R)
    (holding : held events = some record) (class_ : H.classOf record = some tag) :
    Delivering H layout l (events ++ [.invoke tag record]) service where
  carries := h.carries
  balanced := h.balanced
  handled := by
    have before := h.handled
    rw [holding, Option.toList_some] at before
    simpa [class_] using before
  callbacks := h.callbacks

section Run

variable {capacity : Nat} {policy : Fifo.Policy} {positive : 0 < capacity}

def Agrees (H : IrqHandlers A T R) (layout : Layout R) (positive : 0 < capacity)
    (policy : Fifo.Policy) (events : List (IrqEvent A T R)) (service : IrqService T R σ w) : Prop :=
  Delivering H layout (replay capacity policy positive events) events service

/-- The agreement holds throughout, and `record` is what a run in progress is holding. -/
structure Tracked (H : IrqHandlers A T R) (layout : Layout R) (positive : 0 < capacity)
    (policy : Fifo.Policy) (record : Option R) (s : IrqWorld A T R σ w) : Prop where
  throughout : World.Throughout (Agrees H layout positive policy) s
  holding : held s.events = record

variable {holding : Option R} {s : IrqWorld A T R σ w}

theorem Tracked.setEnv (h : Tracked H layout positive policy holding s) (env : σ) :
    Tracked H layout positive policy holding (s.setEnv env) :=
  ⟨h.throughout.setEnv env, h.holding⟩

theorem Tracked.setEventBits (h : Tracked H layout positive policy holding s)
    (bits : BitVec 32 → BitVec 32) : Tracked H layout positive policy holding
      (s.modify fun service => { service with eventBits := bits service.eventBits }) :=
  ⟨h.throughout.setState _ ⟨h.throughout.now.carries, h.throughout.now.balanced,
    h.throughout.now.handled, h.throughout.now.callbacks⟩, h.holding⟩

theorem Tracked.acknowledge (h : Tracked H layout positive policy holding s) (tag : T)
    (source : BitVec 16) :
    Tracked H layout positive policy holding (IrqService.acknowledge tag source s) := by
  unfold IrqService.acknowledge
  cases s.state.hal.ackIrq with
  | none => exact h
  | some ack =>
    refine ⟨(h.throughout.setEnv _).emit _ ?_, ?_⟩
    · rw [Agrees, replay_ackIrq]
      exact h.throughout.now.ackIrq tag source
    · rw [World.emit_events, held_ackIrq]
      exact h.holding

theorem Tracked.enter (h : Tracked H layout positive policy holding s) (call : A) :
    Tracked H layout positive policy holding (H.enter layout call s) := by
  have acked := h.acknowledge (H.tag call) (H.source call)
  unfold IrqHandlers.enter IrqService.isrPush
  generalize IrqService.acknowledge (H.tag call) (H.source call) s = s at acked
  refine Tracked.setEventBits ⟨acked.throughout.record _ _ ?_, ?_⟩ (· ||| H.eventBit call)
  · rw [Agrees, replay_push]
    exact acked.throughout.now.push call
  · rw [World.emit_events, held_push]
    exact acked.holding

theorem Tracked.enterAll (h : Tracked H layout positive policy holding s) (calls : List A) :
    Tracked H layout positive policy holding
      (calls.foldl (fun s call => H.enter layout call s) s) :=
  History.invariant _ _ (fun _ call h => h.enter call) s h calls

theorem Tracked.preempted (h : Tracked H layout positive policy holding s)
    (fire : σ → List A × σ) : Tracked H layout positive policy holding
      (IrqService.preempted (H.enter layout) fire s) :=
  (h.setEnv _).enterAll _

theorem Tracked.dispatch (record : R)
    (h : Tracked H layout positive policy (some record) s)
    (known : ∃ call, H.record call = record) :
    Tracked H layout positive policy none (IrqService.dispatch H.classOf record s) := by
  obtain ⟨call, rfl⟩ := known
  obtain ⟨callback, present⟩ := Option.isSome_iff_exists.mp (h.throughout.now.callbacks (H.tag call))
  simp only [IrqService.dispatch, H.classOf_record, present]
  refine ⟨(h.throughout.setEnv _).emit _ ?_, ?_⟩
  · rw [Agrees, replay_invoke]
    exact h.throughout.now.invoke _ _ h.holding (H.classOf_record call)
  · rw [World.emit_events, held_invoke]

theorem Tracked.pop (h : Tracked H layout positive policy none s) (record : R)
    (front : (s.state.irqRecords.popAs layout).1 = some record) :
    Tracked H layout positive policy (some record)
        ((s.modify fun service => { service with
          irqRecords := (s.state.irqRecords.popAs layout).2 }).emit (.pop record)) ∧
      ∃ call, H.record call = record := by
  refine ⟨⟨h.throughout.record _ _ ?_, by rw [World.emit_events, held_pop]⟩, ?_⟩
  · rw [Agrees, replay_pop]
    exact h.throughout.now.pop h.holding record front
  · have first := h.throughout.now.carries.pop.1
    rw [front, Fifo.map_items, List.head?_map] at first
    obtain ⟨x, -, same⟩ := Option.map_eq_some_iff.mp first.symm
    exact ⟨x.1, same⟩

theorem Tracked.drainRecords (fire : σ → List A × σ) (n : Nat)
    (h : Tracked H layout positive policy none s) :
    Tracked H layout positive policy none (IrqService.drainRecords layout H.classOf
      (IrqService.preempted (H.enter layout) fire) n s) := by
  induction n generalizing s with
  | zero => exact h
  | succ n ih =>
    have before := h.preempted fire
    simp only [IrqService.drainRecords]
    generalize IrqService.preempted (H.enter layout) fire s = s at before
    cases front : (s.state.irqRecords.popAs layout).1 with
    | none => exact before
    | some record =>
      obtain ⟨popped, known⟩ := before.pop record front
      exact ih ((popped.preempted fire).dispatch record known)

theorem Tracked.run (fire : σ → List A × σ) (h : Tracked H layout positive policy none s) :
    Tracked H layout positive policy none (H.run layout fire s) := by
  have cleared := h.setEventBits fun _ => 0
  unfold IrqHandlers.run IrqService.run
  dsimp only
  split_ifs with bits empty
  · exact cleared.preempted fire
  · exact (cleared.preempted fire).drainRecords fire _
  · exact cleared.drainRecords fire _

end Run

section Invocations

def isPush : IrqEvent A T R → Bool
  | .push _ _ => true
  | _ => false

/-- A step that invokes nothing, and changes nothing but the environment unless a handler
fired in it. -/
structure Quiet (s s' : IrqWorld A T R σ w) (l : List (IrqEvent A T R)) : Prop where
  events : s'.events = s.events ++ l
  invocations : invocations l = []
  budget : s'.state.maxRecordsPerRun = s.state.maxRecordsPerRun
  unpreempted : l.any isPush = false → s'.state = s.state

theorem acknowledge_quiet (tag : T) (source : BitVec 16) (s : IrqWorld A T R σ w) :
    ∃ l, Quiet s (IrqService.acknowledge tag source s) l := by
  unfold IrqService.acknowledge
  cases s.state.hal.ackIrq with
  | none => exact ⟨[], (List.append_nil _).symm, rfl, rfl, fun _ => rfl⟩
  | some ack => exact ⟨[.ackIrq tag source], World.emit_events _ _, rfl, rfl, fun _ => rfl⟩

variable (H layout)

theorem enter_quiet (call : A) (s : IrqWorld A T R σ w) :
    ∃ l, Quiet s (H.enter layout call s) l ∧ l.any isPush = true := by
  obtain ⟨l, acked⟩ := acknowledge_quiet (H.tag call) (H.source call) s
  refine ⟨l ++ [.push call ((IrqService.acknowledge (H.tag call) (H.source call)
    s).state.irqRecords.pushAs layout (H.record call)).1],
    ⟨?_, ?_, acked.budget, fun none_pushed => ?_⟩, ?_⟩
  · rw [enter, IrqService.isrPush, World.modify_events, World.emit_events, World.modify_events,
      acked.events, List.append_assoc]
  · rw [invocations_append, acked.invocations]
    rfl
  · simp [isPush] at none_pushed
  · simp [isPush]

theorem enterAll_quiet (calls : List A) (s : IrqWorld A T R σ w) :
    ∃ l, Quiet s (calls.foldl (fun s call => H.enter layout call s) s) l := by
  induction calls generalizing s with
  | nil => exact ⟨[], (List.append_nil _).symm, rfl, rfl, fun _ => rfl⟩
  | cons call rest ih =>
    obtain ⟨l, first, pushed⟩ := enter_quiet H layout call s
    obtain ⟨m, later⟩ := ih (H.enter layout call s)
    refine ⟨l ++ m, ?_, ?_, later.budget.trans first.budget, fun none_pushed => ?_⟩
    · rw [List.foldl_cons, later.events, first.events, List.append_assoc]
    · rw [invocations_append, first.invocations, later.invocations, List.append_nil]
    · rw [List.any_append, pushed] at none_pushed
      cases none_pushed

theorem preempted_quiet (fire : σ → List A × σ) (s : IrqWorld A T R σ w) :
    ∃ l, Quiet s (IrqService.preempted (H.enter layout) fire s) l := by
  obtain ⟨l, quiet⟩ := enterAll_quiet H layout (fire s.env).1 (s.setEnv (fire s.env).2)
  exact ⟨l, quiet.events, quiet.invocations, quiet.budget, quiet.unpreempted⟩

variable {H layout} {capacity : Nat} {policy : Fifo.Policy} {positive : 0 < capacity}
  {holding : Option R} {s : IrqWorld A T R σ w}

/-- A stretch of a run with at most `most` invocations, and exactly `exactly` unless a
handler fired in it. -/
def Invokes (most exactly : Nat) (s s' : IrqWorld A T R σ w) : Prop :=
  ∃ l, s'.events = s.events ++ l ∧ (invocations l).length ≤ most ∧
    (l.any isPush = false → (invocations l).length = exactly)

theorem Tracked.dispatch_events (record : R) (h : Tracked H layout positive policy holding s)
    (known : ∃ call, H.record call = record) :
    ∃ tag, (IrqService.dispatch H.classOf record s).events = s.events ++ [.invoke tag record] ∧
      (IrqService.dispatch H.classOf record s).state = s.state := by
  obtain ⟨call, rfl⟩ := known
  obtain ⟨callback, present⟩ := Option.isSome_iff_exists.mp (h.throughout.now.callbacks (H.tag call))
  simp only [IrqService.dispatch, H.classOf_record, present]
  exact ⟨H.tag call, World.emit_events _ _, rfl⟩

theorem Tracked.size_of_pop (h : Tracked H layout positive policy holding s) :
    s.state.irqRecords.size.toNat = match (s.state.irqRecords.popAs layout).1 with
      | none => 0
      | some _ => (s.state.irqRecords.popAs layout).2.size.toNat + 1 := by
  obtain ⟨front, next⟩ := h.throughout.now.carries.pop
  rw [front, h.throughout.now.carries.size_toNat, next.size_toNat, Fifo.pop_items]
  cases ((replay capacity policy positive s.events).queue.map fun x => H.record x.1).items with
  | nil => rfl
  | cons record rest => rfl

theorem invocations_round (before between later : List (IrqEvent A T R)) (tag : T) (record : R)
    (first : invocations before = []) (second : invocations between = []) :
    invocations (before ++ .pop record :: (between ++ .invoke tag record :: later)) =
      (tag, record) :: invocations later := by
  have split : before ++ .pop record :: (between ++ .invoke tag record :: later) =
      before ++ [.pop record] ++ between ++ [.invoke tag record] ++ later := by simp
  rw [split]
  simp only [invocations_append, invocations_pop, invocations_invoke, first, second,
    List.nil_append, List.singleton_append]

theorem Tracked.drainRecords_invokes (fire : σ → List A × σ) (n : Nat)
    (h : Tracked H layout positive policy none s) :
    Invokes n (min n s.state.irqRecords.size.toNat) s (IrqService.drainRecords layout H.classOf
      (IrqService.preempted (H.enter layout) fire) n s) := by
  induction n generalizing s with
  | zero => exact ⟨[], (List.append_nil _).symm, Nat.le_refl 0, fun _ => (Nat.zero_min _).symm⟩
  | succ n ih =>
    obtain ⟨before, first⟩ := preempted_quiet H layout fire s
    have tracked := h.preempted fire
    simp only [IrqService.drainRecords]
    generalize IrqService.preempted (H.enter layout) fire s = s₁ at first tracked
    have size := tracked.size_of_pop
    cases front : (s₁.state.irqRecords.popAs layout).1 with
    | none =>
      rw [front] at size
      refine ⟨before, first.events, by simp [first.invocations], fun none_pushed => ?_⟩
      rw [← first.unpreempted none_pushed, size, first.invocations]
      rfl
    | some record =>
      rw [front] at size
      obtain ⟨popped, known⟩ := tracked.pop record front
      obtain ⟨between, second⟩ := preempted_quiet H layout fire
        ((s₁.modify fun service => { service with
          irqRecords := (s₁.state.irqRecords.popAs layout).2 }).emit (.pop record))
      have holding := popped.preempted fire
      obtain ⟨tag, invoked, same⟩ := holding.dispatch_events record known
      obtain ⟨later, events, most, exactly⟩ := ih (holding.dispatch record known)
      refine ⟨before ++ .pop record :: (between ++ .invoke tag record :: later), ?_, ?_,
        fun none_pushed => ?_⟩
      · rw [events, invoked, second.events, World.emit_events, World.modify_events, first.events]
        simp
      · rw [invocations_round _ _ _ _ _ first.invocations second.invocations, List.length_cons]
        exact Nat.succ_le_succ most
      · simp only [List.any_append, List.any_cons, Bool.or_eq_false_iff] at none_pushed
        obtain ⟨none_before, -, none_between, -, none_later⟩ := none_pushed
        rw [invocations_round _ _ _ _ _ first.invocations second.invocations, List.length_cons,
          exactly none_later, same, second.unpreempted none_between,
          ← first.unpreempted none_before, size, World.emit_state, World.modify_state,
          Nat.succ_min_succ]

theorem Tracked.run_invokes (fire : σ → List A × σ) (h : Tracked H layout positive policy none s) :
    Invokes s.state.maxRecordsPerRun.toNat
      (min s.state.maxRecordsPerRun.toNat s.state.irqRecords.size.toNat) s
      (H.run layout fire s) := by
  have cleared := h.setEventBits fun _ => 0
  have drained := cleared.drainRecords_invokes fire s.state.maxRecordsPerRun.toNat
  unfold IrqHandlers.run IrqService.run
  dsimp only
  split_ifs with bits empty
  · obtain ⟨l, gap⟩ := preempted_quiet H layout fire
      (s.modify fun service => { service with eventBits := 0 })
    refine ⟨l, gap.events, by simp [gap.invocations], fun none_pushed => ?_⟩
    have none_left : s.state.irqRecords.size = 0#w := by
      rw [gap.unpreempted none_pushed] at empty
      exact of_decide_eq_true empty
    rw [none_left, gap.invocations]
    simp
  · obtain ⟨l, gap⟩ := preempted_quiet H layout fire
      (s.modify fun service => { service with eventBits := 0 })
    rw [gap.budget]
    obtain ⟨m, events, most, exactly⟩ := (cleared.preempted fire).drainRecords_invokes fire
      s.state.maxRecordsPerRun.toNat
    refine ⟨l ++ m, ?_, ?_, fun none_pushed => ?_⟩
    · rw [← List.append_assoc, ← World.modify_events s, ← gap.events]
      exact events
    · rw [invocations_append, gap.invocations]
      exact most
    · simp only [List.any_append, Bool.or_eq_false_iff] at none_pushed
      rw [invocations_append, gap.invocations, List.nil_append, exactly none_pushed.2,
        gap.unpreempted none_pushed.1]
      rfl
  · exact drained

end Invocations

section Histories

variable {capacity : Nat} {policy : Fifo.Policy} {positive : 0 < capacity}

/-- The account at one moment. `survived` says that the records handled and those buffered
are all handler calls except the deleted ones, `buffered` that the ledger's queue is what
the ring really holds. -/
structure Accounted (H : IrqHandlers A T R) (layout : Layout R) (positive : 0 < capacity)
    (policy : Fifo.Policy) (events : List (IrqEvent A T R)) (service : IrqService T R σ w) :
    Prop where
  survived : (replay capacity policy positive events).popped ++
    (replay capacity policy positive events).queue.items =
      (replay capacity policy positive events).survivors
  invoked : held events = none → invocations events =
    (replay capacity policy positive events).popped.map fun x => H.delivery x.1
  buffered : service.irqRecords.items layout =
    (replay capacity policy positive events).queue.items.map fun x => H.record x.1
  dropped : service.dropCount =
    BitVec.ofNat w (replay capacity policy positive events).deleted.length

/-- The account holds at every moment of the history, and the run that may follow it
invokes as many callbacks as it should. -/
structure Delivers (H : IrqHandlers A T R) (layout : Layout R) (positive : 0 < capacity)
    (policy : Fifo.Policy) (step : IrqWorld A T R σ w → IrqCall A → IrqWorld A T R σ w)
    (s : IrqWorld A T R σ w) : Prop where
  accounted : World.Throughout (Accounted H layout positive policy) s
  bounded : (invocations (World.eventsSince s (step s .run))).length ≤
    s.state.maxRecordsPerRun.toNat
  unpreempted : (World.eventsSince s (step s .run)).any isPush = false →
    (invocations (World.eventsSince s (step s .run))).length =
      min s.state.maxRecordsPerRun.toNat s.state.irqRecords.size.toNat

theorem Agrees.accounted {events : List (IrqEvent A T R)} {service : IrqService T R σ w}
    (h : Agrees H layout positive policy events service) :
    Accounted H layout positive policy events service where
  survived := h.balanced.survived
  invoked free := by
    have handled := h.handled
    rwa [free, Option.toList_none, List.filterMap_nil, List.append_nil] at handled
  buffered := h.carries.items
  dropped := by
    rw [IrqService.dropCount, h.carries.dropCount_eq, Fifo.map_drops, h.balanced.counted]

variable {s : IrqWorld A T R σ w}

def step (H : IrqHandlers A T R) (layout : Layout R) (fire : σ → List A × σ)
    (s : IrqWorld A T R σ w) : IrqCall A → IrqWorld A T R σ w
  | .isr call => H.enter layout call s
  | .run => H.run layout fire s

theorem Tracked.step (fire : σ → List A × σ) (h : Tracked H layout positive policy none s)
    (call : IrqCall A) : Tracked H layout positive policy none (H.step layout fire s call) := by
  cases call with
  | isr call => exact h.enter call
  | run => exact h.run fire

theorem Tracked.delivers (fire : σ → List A × σ) (h : Tracked H layout positive policy none s) :
    Delivers H layout positive policy (H.step layout fire) s := by
  obtain ⟨l, events, most, exactly⟩ := h.run_invokes fire
  have new : World.eventsSince s (H.step layout fire s .run) = l :=
    World.eventsSince_of_events _ _ _ events
  exact ⟨h.throughout.mono fun _ _ agrees => agrees.accounted, by rw [new]; exact most,
    by rw [new]; exact exactly⟩

theorem init_tracked (service : IrqService T R σ w) (hal : IrqHal T R σ) (memory : List Byte)
    (recordCapacity maxRecords : BitVec w) (policy : Fifo.Policy) (env : σ)
    (positive : 0 < recordCapacity.toNat)
    (ok : (service.init layout (some hal) (some memory) recordCapacity maxRecords
      (modeOf policy)).1 = true)
    (callbacks : ∀ tag, (hal.service tag).isSome)
    (length : memory.length = recordCapacity.toNat * layout.size) (fits : memory.length < 2 ^ w) :
    Tracked H layout positive policy none
      (World.start (service.init layout (some hal) (some memory) recordCapacity maxRecords
        (modeOf policy)).2 env) := by
  unfold IrqService.init at ok ⊢
  dsimp only at ok ⊢
  split_ifs at ok ⊢ with budget
  obtain ⟨-, ring⟩ := initAs_carries layout service.irqRecords memory recordCapacity policy
    positive length fits
  exact ⟨World.throughout_start _ _ ⟨ring, Ledger.balanced_empty _ _ positive, rfl, callbacks⟩,
    rfl⟩

theorem init_delivers (H : IrqHandlers A T R) (layout : Layout R) (service : IrqService T R σ w)
    (hal : IrqHal T R σ) (memory : List Byte) (recordCapacity maxRecords : BitVec w)
    (policy : Fifo.Policy) (env : σ) (positive : 0 < recordCapacity.toNat)
    (fire : σ → List A × σ) (calls : List (IrqCall A))
    (ok : (service.init layout (some hal) (some memory) recordCapacity maxRecords
      (modeOf policy)).1 = true)
    (callbacks : ∀ tag, (hal.service tag).isSome)
    (length : memory.length = recordCapacity.toNat * layout.size) (fits : memory.length < 2 ^ w) :
    Delivers H layout positive policy (H.step layout fire) (calls.foldl (H.step layout fire)
      (World.start (service.init layout (some hal) (some memory) recordCapacity maxRecords
        (modeOf policy)).2 env)) := by
  have start := @init_tracked A T R σ w H layout service hal memory recordCapacity maxRecords
    policy env positive ok callbacks length fits
  exact (History.invariant (H.step layout fire) (Tracked H layout positive policy none)
    (fun _ call h => h.step fire call) _ start calls).delivers fire

end Histories

end IrqHandlers

end SchedulerLib.Services
