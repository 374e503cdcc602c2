import SchedulerLib.Services.Ethernet
import SchedulerLib.Services.IrqDelivery

/-!
Event delivery of the Ethernet service. Seen with its event identifiers as records and its
hint as one event bit, the service is a record service, step by step; the delivery of
records is then the delivery of events.
-/

namespace SchedulerLib.Services.SchEth

open Lib IsrBuffer

variable {σ : Type} {w : Nat} {u16 : Layout (BitVec 16)}

def handlers : IrqHandlers SchEthEventId SchEthEventId (BitVec 16) where
  tag id := id
  source _ := 0
  record := SchEthEventId.code
  eventBit _ := 1
  classOf eventId :=
    if eventId = SchEthEventId.rxReady.code then some .rxReady
    else if eventId = SchEthEventId.txDone.code then some .txDone
    else if eventId = SchEthEventId.linkChange.code then some .linkChange
    else none
  classOf_record id := by cases id <;> rfl

def callbacks (hal : SchEthHal σ) : IrqHal SchEthEventId (BitVec 16) σ where
  ackIrq := hal.ackIrq.map fun ack _ _ => ack
  service
    | .rxReady => hal.fetchRxDescriptor.map fun fetch _ env => ((fetch env).1.isSome, (fetch env).2)
    | .txDone =>
      hal.completeTxDescriptor.map fun complete _ env => ((complete env).1.isSome, (complete env).2)
    | .linkChange => hal.serviceLinkState.map fun serviceLink _ => serviceLink

def recordService (service : SchEthService σ w) : IrqService SchEthEventId (BitVec 16) σ w where
  hal := callbacks service.hal
  irqRecords := service.eventQueue.ring
  eventBits := if service.irqHint then 1 else 0
  maxRecordsPerRun := service.maxEventsPerRun

def recordEvent : EthEvent → IrqEvent SchEthEventId SchEthEventId (BitVec 16)
  | .ackIrq id => .ackIrq id 0
  | .pushEvent id status => .push id status
  | .takeEvent eventId => .pop eventId
  | .fetchRxDescriptor => .invoke .rxReady SchEthEventId.rxReady.code
  | .completeTxDescriptor => .invoke .txDone SchEthEventId.txDone.code
  | .serviceLinkState => .invoke .linkChange SchEthEventId.linkChange.code

def view (s : EthWorld σ w) : IrqWorld SchEthEventId SchEthEventId (BitVec 16) σ w :=
  s.map recordService recordEvent

theorem view_emit (s : EthWorld σ w) (e : EthEvent) :
    view (s.emit e) = (view s).emit (recordEvent e) :=
  World.map_emit recordService recordEvent s e

theorem view_setQueue (s : EthWorld σ w) (queue : SchEventQueue w) :
    view (s.modify fun service => { service with eventQueue := queue }) =
      (view s).modify fun service => { service with irqRecords := queue.ring } := rfl

theorem view_clearHint (s : EthWorld σ w) :
    view (s.modify fun service => { service with irqHint := false }) =
      (view s).modify fun service => { service with eventBits := 0 } := rfl

theorem view_raiseHint (s : EthWorld σ w) :
    view (s.modify fun service => { service with irqHint := true }) =
      (view s).modify fun service => { service with eventBits := service.eventBits ||| 1 } := by
  refine World.map_modify _ _ _ _ _ ?_
  cases hint : s.state.irqHint <;> simp [recordService, hint]

theorem view_acknowledge (id : SchEthEventId) (s : EthWorld σ w) :
    view (acknowledge id s) = IrqService.acknowledge id 0 (view s) := by
  have hal : (view s).state.hal.ackIrq = s.state.hal.ackIrq.map fun ack _ _ => ack := rfl
  unfold acknowledge IrqService.acknowledge
  rw [hal]
  cases s.state.hal.ackIrq with
  | none => rfl
  | some ack => exact view_emit (s.setEnv (ack s.env)) (.ackIrq id)

theorem view_pushEventIsr (id : SchEthEventId) (s : EthWorld σ w) :
    view (pushEventIsr u16 id s) = handlers.enter u16 id (view s) := by
  unfold pushEventIsr IrqHandlers.enter IrqService.isrPush
  rw [show handlers.source id = 0 from rfl, show handlers.tag id = id from rfl,
    ← view_acknowledge]
  generalize acknowledge id s = s
  rw [view_raiseHint, view_emit, view_setQueue]
  rfl

theorem view_isr (id : SchEthEventId) (s : EthWorld σ w) :
    view (isr u16 id s) = handlers.enter u16 id (view s) := by
  cases id <;> exact view_pushEventIsr _ s

theorem view_preempted (fire : σ → List SchEthEventId × σ) (s : EthWorld σ w) :
    view (preempted u16 fire s) = IrqService.preempted (handlers.enter u16) fire (view s) := by
  have all : ∀ (ids : List SchEthEventId) (s : EthWorld σ w),
      view (ids.foldl (fun s id => isr u16 id s) s) =
        ids.foldl (fun s id => handlers.enter u16 id s) (view s) := by
    intro ids
    induction ids with
    | nil => exact fun _ => rfl
    | cons id rest ih =>
      intro s
      rw [List.foldl_cons, List.foldl_cons, ih, view_isr]
  exact all _ _

theorem view_handleEvent (eventId : BitVec 16) (s : EthWorld σ w) :
    view (handleEvent eventId s) = IrqService.dispatch handlers.classOf eventId (view s) := by
  have service : (view s).state.hal = callbacks s.state.hal := rfl
  unfold handleEvent IrqService.dispatch
  rw [service]
  by_cases rx : eventId = SchEthEventId.rxReady.code
  · subst rx
    simp only [if_true, handlers, callbacks, halFetchRxDescriptor]
    cases s.state.hal.fetchRxDescriptor with
    | none => rfl
    | some fetch => exact view_emit (s.setEnv (fetch s.env).2) _
  · by_cases tx : eventId = SchEthEventId.txDone.code
    · subst tx
      simp only [rx, if_false, if_true, handlers, callbacks, halCompleteTxDescriptor]
      cases s.state.hal.completeTxDescriptor with
      | none => rfl
      | some complete =>
        exact view_emit (s.setEnv (complete s.env).2) _
    · by_cases link : eventId = SchEthEventId.linkChange.code
      · subst link
        simp only [rx, tx, if_false, if_true, handlers, callbacks, halServiceLinkState]
        cases s.state.hal.serviceLinkState with
        | none => rfl
        | some serviceLink =>
          exact view_emit (s.setEnv (serviceLink s.env).2) _
      · simp only [rx, tx, link, if_false, handlers]

section Run

variable {gap : EthWorld σ w → EthWorld σ w}
  {gap' : IrqWorld SchEthEventId SchEthEventId (BitVec 16) σ w →
    IrqWorld SchEthEventId SchEthEventId (BitVec 16) σ w}

theorem view_drainEvents (same : ∀ s, view (gap s) = gap' (view s)) (n : Nat) (s : EthWorld σ w) :
    view (drainEvents u16 gap n s) =
      IrqService.drainRecords u16 handlers.classOf gap' n (view s) := by
  induction n generalizing s with
  | zero => rfl
  | succ n ih =>
    simp only [drainEvents, IrqService.drainRecords]
    rw [← same]
    generalize gap s = s
    have queue : (view s).state.irqRecords.popAs u16 =
        ((s.state.eventQueue.popTask u16).1, (s.state.eventQueue.popTask u16).2.ring) := rfl
    rw [queue]
    cases (s.state.eventQueue.popTask u16).1 with
    | none => rfl
    | some eventId =>
      dsimp only
      rw [ih, view_handleEvent, same, view_emit, view_setQueue]
      rfl

theorem view_serviceRun (same : ∀ s, view (gap s) = gap' (view s)) (s : EthWorld σ w) :
    view (serviceRun u16 gap s) = IrqService.run u16 handlers.classOf gap' (view s) := by
  have bits : (view s).state.eventBits = 0 ↔ s.state.irqHint ≠ true := by
    change (if s.state.irqHint then (1 : BitVec 32) else 0) = 0 ↔ _
    cases s.state.irqHint <;> decide
  unfold serviceRun IrqService.run
  dsimp only
  rw [← view_clearHint, ← same]
  by_cases hint : s.state.irqHint = true
  · rw [if_pos hint, if_neg (by rw [bits]; exact not_not_intro hint)]
    exact view_drainEvents same _ _
  · rw [if_neg hint, if_pos (bits.mpr hint)]
    generalize gap (s.modify fun service => { service with irqHint := false }) = s
    by_cases empty : s.state.eventQueue.size = 0#w
    · rw [if_pos empty, if_pos (by exact decide_eq_true empty)]
    · rw [if_neg empty, if_neg (by exact mt of_decide_eq_true empty)]
      exact view_drainEvents same _ _

end Run

theorem view_step (fire : σ → List SchEthEventId × σ) (s : EthWorld σ w)
    (c : IrqCall SchEthEventId) :
    view (ethStep u16 fire s c) = handlers.step u16 fire (view s) c := by
  cases c with
  | isr id => exact view_isr id s
  | run => exact view_serviceRun (view_preempted fire) s

theorem view_calls (fire : σ → List SchEthEventId × σ) (calls : List (IrqCall SchEthEventId))
    (s : EthWorld σ w) :
    view (calls.foldl (ethStep u16 fire) s) = calls.foldl (handlers.step u16 fire) (view s) := by
  induction calls generalizing s with
  | nil => rfl
  | cons c rest ih => rw [List.foldl_cons, List.foldl_cons, ih, view_step]

section Histories

def handled (events : List EthEvent) : List SchEthEventId :=
  events.filterMap fun
    | .fetchRxDescriptor => some .rxReady
    | .completeTxDescriptor => some .txDone
    | .serviceLinkState => some .linkChange
    | _ => none

/-- The event taken last, until its callback is made. -/
def held (events : List EthEvent) : Option (BitVec 16) :=
  events.foldl (fun eventId e => match e with
    | .takeEvent eventId => some eventId
    | .fetchRxDescriptor => none
    | .completeTxDescriptor => none
    | .serviceLinkState => none
    | _ => eventId) none

/-- The history of the queue: handler calls ordered by their push, and pops. -/
def replay (capacity : Nat) (positive : 0 < capacity) (events : List EthEvent) :
    Ledger SchEthEventId :=
  events.foldl (fun ledger e => match e with
    | .pushEvent id _ => ledger.push id
    | .takeEvent _ => ledger.pop
    | _ => ledger) (Ledger.empty capacity .dropOldest positive)

def isPush : EthEvent → Bool
  | .pushEvent _ _ => true
  | _ => false

theorem invocations_recordEvent (events : List EthEvent) :
    IrqHandlers.invocations (events.map recordEvent) =
      (handled events).map fun id => (id, id.code) := by
  rw [IrqHandlers.invocations, handled, List.filterMap_map, List.map_filterMap]
  refine List.filterMap_congr fun e _ => ?_
  cases e <;> rfl

theorem held_recordEvent (events : List EthEvent) :
    IrqHandlers.held (events.map recordEvent) = held events := by
  rw [IrqHandlers.held, held, List.foldl_map]
  refine List.foldl_ext _ _ _ fun eventId e _ => ?_
  cases e <;> rfl

theorem replay_recordEvent (capacity : Nat) (positive : 0 < capacity) (events : List EthEvent) :
    IrqHandlers.replay capacity .dropOldest positive (events.map recordEvent) =
      replay capacity positive events := by
  rw [IrqHandlers.replay, replay, List.foldl_map]
  refine List.foldl_ext _ _ _ fun ledger e _ => ?_
  cases e <;> rfl

theorem isPush_recordEvent (events : List EthEvent) :
    (events.map recordEvent).any IrqHandlers.isPush = events.any isPush := by
  rw [List.any_map]
  congr 1
  funext e
  cases e <;> rfl

/-- The account at one moment: the callbacks made and the events queued are the handler
calls without the deleted ones, and the queue really holds what the ledger's queue does. -/
structure Accounted (u16 : Layout (BitVec 16)) {capacity : Nat} (positive : 0 < capacity)
    (events : List EthEvent) (service : SchEthService σ w) : Prop where
  delivered : held events = none →
    (handled events).map SchEthEventId.code ++ service.eventQueue.ring.items u16 =
      (replay capacity positive events).survivors.map fun x => x.1.code
  called : held events = none →
    handled events = (replay capacity positive events).popped.map Prod.fst
  queued : service.eventQueue.ring.items u16 =
    (replay capacity positive events).queue.items.map fun x => x.1.code
  dropped : service.eventQueue.dropCount =
    BitVec.ofNat w (replay capacity positive events).deleted.length

/-- The account holds throughout, and the run that may follow makes as many callbacks as
it should. -/
structure Delivers (u16 : Layout (BitVec 16)) {capacity : Nat} (positive : 0 < capacity)
    (fire : σ → List SchEthEventId × σ) (s : EthWorld σ w) : Prop where
  accounted : World.Throughout (Accounted u16 positive) s
  bounded : (handled (World.eventsSince s (ethStep u16 fire s .run))).length ≤
    s.state.maxEventsPerRun.toNat
  unpreempted : (World.eventsSince s (ethStep u16 fire s .run)).any isPush = false →
    (handled (World.eventsSince s (ethStep u16 fire s .run))).length =
      min s.state.maxEventsPerRun.toNat s.state.eventQueue.size.toNat

theorem accounted_of_view {capacity : Nat} {positive : 0 < capacity} {events : List EthEvent}
    {service : SchEthService σ w}
    (h : IrqHandlers.Accounted handlers u16 positive .dropOldest (events.map recordEvent)
      (recordService service)) : Accounted u16 positive events service := by
  obtain ⟨survived, invoked, buffered, dropped⟩ := h
  rw [replay_recordEvent] at survived invoked buffered dropped
  rw [held_recordEvent, invocations_recordEvent] at invoked
  have queued : service.eventQueue.ring.items u16 =
      (replay capacity positive events).queue.items.map fun x => x.1.code := buffered
  have called : held events = none →
      handled events = (replay capacity positive events).popped.map Prod.fst := by
    intro free
    have made := congrArg (List.map Prod.fst) (invoked free)
    rw [List.map_map, List.map_map] at made
    exact (List.map_id _).symm.trans made
  refine ⟨fun free => ?_, called, queued, dropped⟩
  rw [called free, queued, ← survived, List.map_append, List.map_map]
  rfl

theorem delivers_of_view {capacity : Nat} {positive : 0 < capacity}
    {fire : σ → List SchEthEventId × σ} {s : EthWorld σ w}
    (h : IrqHandlers.Delivers handlers u16 positive .dropOldest (handlers.step u16 fire)
      (view s)) : Delivers u16 positive fire s := by
  obtain ⟨accounted, bounded, unpreempted⟩ := h
  have seen : World.eventsSince (view s) (handlers.step u16 fire (view s) .run) =
      (World.eventsSince s (ethStep u16 fire s .run)).map recordEvent := by
    rw [← view_step]
    exact World.map_eventsSince recordService recordEvent s _
  rw [seen, invocations_recordEvent, List.length_map] at bounded unpreempted
  rw [isPush_recordEvent] at unpreempted
  exact ⟨accounted.of_map.mono fun _ _ => accounted_of_view, bounded, unpreempted⟩

theorem serviceInit_eq (service : SchEthService σ w) (hal : SchEthHal σ) (memory : List Byte)
    (eventCapacity maxEvents : BitVec w)
    (ok : (serviceInit u16 service (some hal) (some memory) eventCapacity maxEvents).1 = true) :
    ((recordService service).init u16 (some (callbacks hal)) (some memory) eventCapacity
        maxEvents (modeOf .dropOldest)).1 = true ∧
      recordService (serviceInit u16 service (some hal) (some memory) eventCapacity maxEvents).2 =
        ((recordService service).init u16 (some (callbacks hal)) (some memory) eventCapacity
          maxEvents (modeOf .dropOldest)).2 := by
  unfold serviceInit at ok ⊢
  dsimp only at ok ⊢
  split_ifs at ok ⊢ with bad
  have budget : maxEvents ≠ 0#w := by
    intro zero
    simp [zero] at bad
  simp only [IrqService.init, budget, if_false]
  exact ⟨ok, rfl⟩

/-- Whatever interrupts preempt the runs, each event is delivered, queued or counted as
dropped. -/
theorem eth_events_delivered (service : SchEthService σ w) (hal : SchEthHal σ)
    (memory : List Byte) (eventCapacity maxEvents : BitVec w) (env : σ)
    (fire : σ → List SchEthEventId × σ) (calls : List (IrqCall SchEthEventId))
    (positive : 0 < eventCapacity.toNat)
    (ok : (serviceInit u16 service (some hal) (some memory) eventCapacity maxEvents).1 = true)
    (fetch : hal.fetchRxDescriptor.isSome) (complete : hal.completeTxDescriptor.isSome)
    (link : hal.serviceLinkState.isSome)
    (length : memory.length = eventCapacity.toNat * u16.size) (fits : memory.length < 2 ^ w) :
    Delivers u16 positive fire (calls.foldl (ethStep u16 fire) (World.start
      (serviceInit u16 service (some hal) (some memory) eventCapacity maxEvents).2 env)) := by
  obtain ⟨made, same⟩ := serviceInit_eq service hal memory eventCapacity maxEvents ok
  have present : ∀ id, ((callbacks hal).service id).isSome := by
    intro id
    cases id with
    | rxReady => simpa [callbacks] using fetch
    | txDone => simpa [callbacks] using complete
    | linkChange => simpa [callbacks] using link
  refine delivers_of_view ?_
  rw [view_calls, view, World.map_start, same]
  exact IrqHandlers.init_delivers handlers u16 (recordService service) (callbacks hal) memory
    eventCapacity maxEvents .dropOldest env positive fire calls made present length fits

end Histories

section Example

def plain : SchEthHal Bool where
  ackIrq := some fun s => s
  fetchRxDescriptor := some fun s => (some 7, s)
  completeTxDescriptor := some fun s => (none, s)
  serviceLinkState := some fun s => (true, s)

def blank : SchEthService Bool 16 where
  hal := ⟨none, none, none, none⟩
  eventQueue := ⟨⟨none, 0, 0, 0, 0, 0, 0, .dropNewest⟩⟩
  irqHint := false
  maxEventsPerRun := 0

def raiseTx (armed : Bool) : List SchEthEventId × Bool :=
  (if armed then [.txDone] else [], false)

theorem eth_events_delivered_full_queue :
    let s := [IrqCall.isr .rxReady, .run].foldl (ethStep Layout.word16 raiseTx)
      (World.start (serviceInit Layout.word16 blank (some plain) (some [0, 0]) 1 2).2 true)
    handled s.events = [.txDone] ∧ s.state.eventQueue.dropCount = 1 := by
  have delivers := @eth_events_delivered Bool 16 Layout.word16 blank plain [0, 0] 1 2
    true raiseTx [.isr .rxReady, .run] (by decide) (by decide) (by decide) (by decide)
    (by decide) (by decide) (by decide)
  exact ⟨(delivers.accounted.now.called (by decide)).trans (by decide),
    delivers.accounted.now.dropped.trans (by decide)⟩

end Example

end SchedulerLib.Services.SchEth
