import SchedulerLib.Services.EthernetDelivery
import SchedulerLib.Services.HostedRecords
import SchedulerLib.Services.Lossless

/-!
The record services without losses. The records that the interrupt handlers push are the puts of
a channel and those that a run pops are its takes. If arrivals are bounded, then every handler
call is answered by the callback of its class, in order, whichever way a full ring would drop.
-/

namespace SchedulerLib.Services

open Lib History IsrBuffer Scheduler

namespace IrqHandlers

variable {A T R σ : Type} {w : Nat} {H : IrqHandlers A T R} {layout : Layout R} {capacity : Nat}
  {policy : Fifo.Policy} {positive : 0 < capacity} {budget : Nat}

def recorded (H : IrqHandlers A T R) (layout : Layout R) :
    Channel (IrqService T R σ w) (IrqEvent A T R) R w where
  layout := layout
  ring service := service.irqRecords
  limit service := service.maxRecordsPerRun
  put
    | .push call _ => some (H.record call)
    | _ => none
  taken
    | .pop record => some record
    | _ => none
  apart e _ taken := by
    cases e with
    | pop => rfl
    | _ => cases taken

section Buffering

variable {seen : List (IrqEvent A T R)} {places : Nat} {s s' : IrqWorld A T R σ w}

abbrev Buffering (H : IrqHandlers A T R) (layout : Layout R) (policy : Fifo.Policy)
    (positive : 0 < capacity) (budget : Nat) (seen : List (IrqEvent A T R)) (places : Nat)
    (s : IrqWorld A T R σ w) : Prop :=
  (H.recorded layout).Awaits policy positive budget seen places s

theorem buffering_enter (h : Buffering H layout policy positive budget seen places s) (call : A) :
    Buffering H layout policy positive budget seen places (H.enter layout call s) := by
  have acked : Buffering H layout policy positive budget seen places
      (IrqService.acknowledge (H.tag call) (H.source call) s) := by
    unfold IrqService.acknowledge
    cases s.state.hal.ackIrq with
    | none => exact h
    | some ack =>
      exact (h.setEnv (ack (H.tag call) (H.source call) s.env)).emit
        (.ackIrq (H.tag call) (H.source call)) ⟨rfl, rfl⟩
  unfold IrqHandlers.enter IrqService.isrPush
  generalize IrqService.acknowledge (H.tag call) (H.source call) s = s at acked
  refine Channel.Awaits.put (e := .push call (s.state.irqRecords.pushAs layout (H.record call)).1)
    (a := H.record call) acked ?_ rfl rfl rfl
  rw [World.modify_events, World.emit_events, World.modify_events]

theorem buffering_preempted (h : Buffering H layout policy positive budget seen places s)
    (fire : σ → List A × σ) : Buffering H layout policy positive budget seen places
      (IrqService.preempted (H.enter layout) fire s) :=
  History.invariant (fun s call => H.enter layout call s)
    (Buffering H layout policy positive budget seen places) (fun _ call h => buffering_enter h call)
    _ (h.setEnv (fire s.env).2) (fire s.env).1

theorem buffering_dispatch (h : Buffering H layout policy positive budget seen places s)
    (record : R) : Buffering H layout policy positive budget seen places
      (IrqService.dispatch H.classOf record s) := by
  unfold IrqService.dispatch
  cases H.classOf record with
  | none => exact h
  | some tag =>
    dsimp only
    cases s.state.hal.service tag with
    | none => exact h
    | some callback =>
      exact (h.setEnv (callback record s.env).2).emit (.invoke tag record) ⟨rfl, rfl⟩

theorem buffering_drainRecords (fire : σ → List A × σ) (n : Nat)
    (h : Buffering H layout policy positive budget seen places s) :
    Buffering H layout policy positive budget seen (places - n) (IrqService.drainRecords layout
      H.classOf (IrqService.preempted (H.enter layout) fire) n s) := by
  induction n generalizing s places with
  | zero => exact h
  | succ n ih =>
    have before := buffering_preempted h fire
    simp only [IrqService.drainRecords]
    generalize IrqService.preempted (H.enter layout) fire s = s at before
    cases front : (s.state.irqRecords.popAs layout).1 with
    | none => exact before.missed front _
    | some record =>
      have taken : Buffering H layout policy positive budget seen (places - 1)
          ((s.modify fun service => { service with
            irqRecords := (s.state.irqRecords.popAs layout).2 }).emit (.pop record)) :=
        before.take (e := .pop record) front (World.emit_events _ _) rfl rfl rfl
      have later := ih (buffering_dispatch (buffering_preempted taken fire) record)
      rwa [Nat.sub_sub, Nat.add_comm] at later

theorem buffering_run (fire : σ → List A × σ)
    (h : Buffering H layout policy positive budget seen places s) :
    Buffering H layout policy positive budget seen (places - budget) (H.run layout fire s) := by
  have cleared := h.modify (fun service => { service with eventBits := 0 }) rfl rfl
  have gap := buffering_preempted cleared fire
  unfold IrqHandlers.run IrqService.run
  dsimp only
  split_ifs with bits empty
  · exact gap.empty empty (places - budget)
  · have limit := gap.budget
    dsimp only [recorded] at limit
    rw [limit]
    exact buffering_drainRecords fire budget gap
  · have limit := cleared.budget
    dsimp only [recorded] at limit
    rw [limit]
    exact buffering_drainRecords fire budget cleared

theorem serves_recorded (H : IrqHandlers A T R) (layout : Layout R) (positive : 0 < capacity)
    (budget : Nat) (fire : σ → List A × σ) :
    (H.recorded (σ := σ) (w := w) layout).Serves policy positive (H.step layout fire)
      IrqCall.isRun budget where
  keeps seen places s call unmarked h := by
    cases call with
    | isr call => exact buffering_enter h call
    | run => cases unmarked
  advances seen places s call isMarked h := by
    cases call with
    | isr call => cases isMarked
    | run => exact buffering_run fire h

end Buffering

section Dispatched

variable {mid fin : IrqWorld A T R σ w} {n : Nat}

def called (events : List (IrqEvent A T R)) : List A :=
  events.filterMap fun
    | .push call _ => some call
    | _ => none

/-- Every handler call up to `mid` has been answered by the callback of its class, in order. -/
def Dispatched (H : IrqHandlers A T R) (mid fin : IrqWorld A T R σ w) : Prop :=
  (called mid.events).map H.delivery <+: invocations fin.events

theorem replay_called (events : List (IrqEvent A T R)) :
    (replay capacity policy positive events).pushed = called events := by
  induction events using List.reverseRecOn with
  | nil => rfl
  | append_singleton events e ih =>
    unfold called at ih ⊢
    cases e with
    | ackIrq tag source => simpa using ih
    | push call status => simpa [Ledger.push] using ih
    | pop record => simpa [Ledger.pop] using ih
    | invoke tag record => simpa using ih

theorem replay_recorded (events : List (IrqEvent A T R)) :
    (H.recorded (σ := σ) (w := w) layout).replay policy positive events =
      (replay capacity policy positive events).map H.record := by
  induction events using List.reverseRecOn with
  | nil => rfl
  | append_singleton events e ih =>
    rw [Channel.replay_append, List.foldl_cons, List.foldl_nil, ih]
    cases e with
    | ackIrq tag source => rw [replay_ackIrq]; rfl
    | push call status => rw [replay_push, ← Ledger.map_push]; rfl
    | pop record => rw [replay_pop, ← Ledger.map_pop]; rfl
    | invoke tag record => rw [replay_invoke]; rfl

/-- What `n` runs achieve: records come forward, and what was popped has been dispatched. -/
structure RecordsBring (H : IrqHandlers A T R) (layout : Layout R) (policy : Fifo.Policy)
    (positive : 0 < capacity) (budget n : Nat) (mid fin : IrqWorld A T R σ w) : Prop where
  forward : (H.recorded layout).Brings policy positive budget n mid fin
  tracked : Tracked H layout positive policy none fin

theorem RecordsBring.fewer {m : Nat}
    (h : RecordsBring H layout policy positive budget n mid fin) (le : m ≤ n) :
    RecordsBring H layout policy positive budget m mid fin :=
  ⟨h.forward.fewer le, h.tracked⟩

theorem RecordsBring.dispatched (h : RecordsBring H layout policy positive budget n mid fin)
    (size : ((H.recorded layout).ring mid.state).size.toNat ≤ n * budget)
    (none_lost : ((H.recorded (σ := σ) (w := w) layout).replay policy positive
      fin.events).deleted = []) : Dispatched H mid fin := by
  have taken := h.forward.popped_past size List.prefix_rfl none_lost
  rw [replay_recorded] at taken none_lost
  have account := h.tracked.throughout.now
  have handled := account.handled
  rw [h.tracked.holding, Option.toList_none, List.filterMap_nil, List.append_nil] at handled
  have survived := account.balanced.survived
  have all : (replay capacity policy positive fin.events).survivors =
      (called fin.events).zipIdx := by
    have none_deleted : (replay capacity policy positive fin.events).deleted = [] := none_lost
    simp [Ledger.survivors, none_deleted, replay_called]
  rw [all] at survived
  have in_order : (replay capacity policy positive fin.events).popped.map Prod.fst <+:
      called fin.events := by
    rw [← List.zipIdx_map_fst 0 (called fin.events), ← survived, List.map_append]
    exact List.prefix_append _ _
  have earlier : called mid.events <+: called fin.events := h.forward.later.filterMap _
  have records : mid.events.filterMap (H.recorded (σ := σ) (w := w) layout).put =
      (called mid.events).map H.record := by
    rw [called, List.map_filterMap]
    refine List.filterMap_congr fun e _ => ?_
    cases e <;> rfl
  have enough : (called mid.events).length ≤
      ((replay capacity policy positive fin.events).popped.map Prod.fst).length := by
    rw [records, List.length_map] at taken
    rw [List.length_map]
    simpa [Ledger.map] using taken
  have through := List.prefix_of_prefix_length_le earlier in_order enough
  have invoked : invocations fin.events =
      ((replay capacity policy positive fin.events).popped.map Prod.fst).map H.delivery := by
    rw [handled, List.map_map]
    rfl
  rw [Dispatched, invoked]
  exact through.map H.delivery

end Dispatched

section Start

variable {fire : σ → List A × σ}

theorem init_buffering {recordCapacity maxRecords : BitVec w} {s : IrqWorld A T R σ w}
    (h : Fresh layout recordCapacity maxRecords policy s) (positive : 0 < recordCapacity.toNat) :
    Buffering H layout policy positive maxRecords.toNat [] 0 s := by
  obtain ⟨service, hal, memory, env, ok, -, length, fits, rfl⟩ := h
  unfold IrqService.init at ok ⊢
  dsimp only at ok ⊢
  split_ifs at ok ⊢
  obtain ⟨-, carries⟩ := initAs_carries layout service.irqRecords memory recordCapacity policy
    positive length fits
  exact Channel.awaits_start env rfl carries

theorem Fresh.brings {recordCapacity maxRecords : BitVec w} {s : IrqWorld A T R σ w}
    (h : Fresh layout recordCapacity maxRecords policy s) (positive : 0 < recordCapacity.toNat) :
    Achieves (H.step layout fire) IrqCall.isRun s
      (RecordsBring H layout policy positive maxRecords.toNat) := by
  intro mid before n earlier fin later
  refine ⟨(serves_recorded H layout positive maxRecords.toNat fire).brings
    (init_buffering h positive) mid before n earlier fin later, ?_⟩
  exact ((h.awaits positive).reaches (earlier.trans later)).tracked

variable {E : Type} {cfg : Config} {port : Port E} {fn ctx : Address} {clock : E → Nat}
  {costs : Costs} {view : E → IrqWorld A T R σ w} {env : E} {recordCapacity maxRecords : BitVec w}

theorem records_lossless (positive : 0 < recordCapacity.toNat)
    (hosts : Hosts cfg port (H.step layout fire) IrqCall.isRun view fn ctx)
    (timed : Timed cfg port clock costs)
    (fresh : Fresh layout recordCapacity maxRecords policy (view env)) :
    LosslessInTime cfg port costs clock (H.recorded layout) (H.step layout fire) IrqCall.isRun view
      fn ctx recordCapacity.toNat maxRecords.toNat (Dispatched H) env :=
  lossless_in_time hosts timed (fresh.brings positive) (fun _ _ _ _ le h => h.fewer le)
    (fun _ _ _ h => h.forward) fun _ _ _ h size none_lost => h.dispatched size none_lost

end Start

end IrqHandlers

namespace SchEth

variable {σ : Type} {w : Nat} {u16 : Layout (BitVec 16)}

theorem recordEvent_injective : Function.Injective recordEvent := by
  intro e e' same
  cases e <;> cases e' <;> simp_all [recordEvent]

def queued (u16 : Layout (BitVec 16)) : Channel (SchEthService σ w) EthEvent (BitVec 16) w :=
  (handlers.recorded u16).comap recordService recordEvent

def called (events : List EthEvent) : List SchEthEventId :=
  events.filterMap fun
    | .pushEvent id _ => some id
    | _ => none

/-- Every handler call up to `mid` has been answered by the callback for its event, in order. -/
def Dispatched (mid fin : EthWorld σ w) : Prop :=
  called mid.events <+: handled fin.events

theorem dispatched_of_view {mid fin : EthWorld σ w}
    (h : IrqHandlers.Dispatched handlers (view mid) (view fin)) : Dispatched mid fin := by
  have pushes : IrqHandlers.called (mid.events.map recordEvent) = called mid.events := by
    rw [IrqHandlers.called, called, List.filterMap_map]
    refine List.filterMap_congr fun e _ => ?_
    cases e <;> rfl
  unfold IrqHandlers.Dispatched view at h
  rw [World.map_events, World.map_events, invocations_recordEvent, pushes] at h
  have ids := h.map Prod.fst
  rw [List.map_map, List.map_map] at ids
  rwa [Dispatched, ← List.map_id (called mid.events), ← List.map_id (handled fin.events)]

def Started (u16 : Layout (BitVec 16)) (eventCapacity maxEvents : BitVec w) (s : EthWorld σ w) :
    Prop :=
  ∃ (service : SchEthService σ w) (hal : SchEthHal σ) (memory : List Byte) (env : σ),
    let made := serviceInit u16 service (some hal) (some memory) eventCapacity maxEvents
    made.1 = true ∧ (∀ id, ((callbacks hal).service id).isSome) ∧
      memory.length = eventCapacity.toNat * u16.size ∧ memory.length < 2 ^ w ∧
      s = World.start made.2 env

theorem Started.fresh {eventCapacity maxEvents : BitVec w} {s : EthWorld σ w}
    (h : Started u16 eventCapacity maxEvents s) :
    IrqHandlers.Fresh (A := SchEthEventId) u16 eventCapacity maxEvents .dropOldest (view s) := by
  obtain ⟨service, hal, memory, env, ok, callbacks, length, fits, rfl⟩ := h
  obtain ⟨made, same⟩ := serviceInit_eq service hal memory eventCapacity maxEvents ok
  refine ⟨recordService service, SchEth.callbacks hal, memory, env, made, callbacks, length, fits,
    ?_⟩
  rw [view, World.map_start, same]

def EventsBring (u16 : Layout (BitVec 16)) {capacity : Nat} (positive : 0 < capacity)
    (budget n : Nat) (mid fin : EthWorld σ w) : Prop :=
  IrqHandlers.RecordsBring handlers u16 .dropOldest positive budget n (view mid) (view fin)

theorem reaches_view {fire : σ → List SchEthEventId × σ} {n : Nat} {s s' : EthWorld σ w}
    (h : Reaches (ethStep u16 fire) IrqCall.isRun n s s') :
    Reaches (handlers.step u16 fire) IrqCall.isRun n (view s) (view s') := by
  obtain ⟨calls, rfl, counted⟩ := h
  exact ⟨calls, view_calls fire calls s, counted⟩

theorem Started.brings {fire : σ → List SchEthEventId × σ} {eventCapacity maxEvents : BitVec w}
    {s : EthWorld σ w} (h : Started u16 eventCapacity maxEvents s)
    (positive : 0 < eventCapacity.toNat) : Achieves (ethStep u16 fire) IrqCall.isRun s
      (EventsBring u16 positive maxEvents.toNat) :=
  fun _ before n earlier _ later => h.fresh.brings positive _ before n (reaches_view earlier) _
    (reaches_view later)

theorem EventsBring.queued {capacity : Nat} {positive : 0 < capacity} {budget n : Nat}
    {mid fin : EthWorld σ w} (h : EventsBring u16 positive budget n mid fin) :
    (SchEth.queued u16).Brings .dropOldest positive budget n mid fin := by
  have forward := IrqHandlers.RecordsBring.forward h
  unfold Channel.Brings view at forward
  rw [World.map_events] at forward
  exact (Channel.comap_awaits recordEvent_injective).mpr forward

section Hosted

variable {E : Type} {cfg : Config} {port : Port E} {fn ctx : Address} {clock : E → Nat}
  {costs : Costs} {view : E → EthWorld σ w} {env : E} {fire : σ → List SchEthEventId × σ}
  {eventCapacity maxEvents : BitVec w}

theorem events_lossless (positive : 0 < eventCapacity.toNat)
    (hosts : Hosts cfg port (ethStep u16 fire) IrqCall.isRun view fn ctx)
    (timed : Timed cfg port clock costs)
    (started : Started u16 eventCapacity maxEvents (view env)) :
    LosslessInTime cfg port costs clock (queued u16) (ethStep u16 fire) IrqCall.isRun view fn ctx
      eventCapacity.toNat maxEvents.toNat Dispatched env := by
  refine lossless_in_time hosts timed (started.brings positive)
    (fun _ _ _ _ le h => IrqHandlers.RecordsBring.fewer h le) (fun _ _ _ h => h.queued)
    fun n v v' h size none_lost =>
      dispatched_of_view (IrqHandlers.RecordsBring.dispatched h size ?_)
  have same : (queued u16).replay .dropOldest positive v'.events =
      (handlers.recorded (σ := σ) (w := w) u16).replay .dropOldest positive
        (v'.events.map recordEvent) := Channel.comap_replay v'.events
  rw [SchEth.view, World.map_events, ← same]
  exact none_lost

end Hosted

end SchEth

section Services

variable {σ E : Type} {w : Nat} {cfg : Config} {port : Port E} {fn ctx : Address}
  {clock : E → Nat} {costs : Costs}

/-- Bounded arrivals lose no interrupt. If no stretch of as many periods as a full ring needs, and a
run, brings more records or events than the ring holds, then each is taken in order, and every
interrupt up to some moment has been answered by the callback of its class when those periods are
over, whichever way a full ring would drop. -/
theorem hosted_interrupts_lossless (timed : Timed cfg port clock costs)
    (fsi : Layout SchFsiIrqRecord) (ipc : Layout SchIpcIrqRecord) (u16 : Layout (BitVec 16)) :
    (∀ (view : E → FsiWorld σ w) (fire : σ → List FsiIsr × σ) (capacity maxRecords : BitVec w)
        (policy : Fifo.Policy) (env : E), 0 < capacity.toNat →
      Hosts cfg port (fsiStep fsi fire) IrqCall.isRun view fn ctx →
      SchFsi.Started fsi capacity maxRecords policy (view env) →
      LosslessInTime cfg port costs clock (SchFsi.handlers.recorded fsi) (fsiStep fsi fire)
        IrqCall.isRun view fn ctx capacity.toNat maxRecords.toNat
        (IrqHandlers.Dispatched SchFsi.handlers) env) ∧
    (∀ (view : E → IpcWorld σ w) (fire : σ → List IpcIsr × σ) (capacity maxRecords : BitVec w)
        (policy : Fifo.Policy) (env : E), 0 < capacity.toNat →
      Hosts cfg port (ipcStep ipc fire) IrqCall.isRun view fn ctx →
      SchIpc.Started ipc capacity maxRecords policy (view env) →
      LosslessInTime cfg port costs clock (SchIpc.handlers.recorded ipc) (ipcStep ipc fire)
        IrqCall.isRun view fn ctx capacity.toNat maxRecords.toNat
        (IrqHandlers.Dispatched SchIpc.handlers) env) ∧
    (∀ (view : E → EthWorld σ w) (fire : σ → List SchEthEventId × σ)
        (eventCapacity maxEvents : BitVec w) (env : E), 0 < eventCapacity.toNat →
      Hosts cfg port (ethStep u16 fire) IrqCall.isRun view fn ctx →
      SchEth.Started u16 eventCapacity maxEvents (view env) →
      LosslessInTime cfg port costs clock (SchEth.queued u16) (ethStep u16 fire) IrqCall.isRun view
        fn ctx eventCapacity.toNat maxEvents.toNat SchEth.Dispatched env) := by
  refine ⟨?_, ?_, ?_⟩
  · intro view fire capacity maxRecords policy env positive hosts started
    rw [fsiStep_eq] at hosts ⊢
    exact IrqHandlers.records_lossless positive hosts timed started.fresh
  · intro view fire capacity maxRecords policy env positive hosts started
    rw [ipcStep_eq] at hosts ⊢
    exact IrqHandlers.records_lossless positive hosts timed started.fresh
  · intro view fire eventCapacity maxEvents env positive hosts started
    exact SchEth.events_lossless positive hosts timed started

end Services

section Example

def roomyFsi : Nat × FsiWorld Bool 16 :=
  (0, World.start (SchFsi.serviceInit fsiLayout blankRecords (some plainFsi)
    (some (List.replicate 48 0)) 6 6 .dropOldest).2 true)

def roomyIpc : Nat × IpcWorld Bool 16 :=
  (0, World.start (SchIpc.serviceInit ipcLayout blankRecords (some plainIpc)
    (some (List.replicate 48 0)) 6 6 .dropNewest).2 true)

def roomyEth : Nat × EthWorld Bool 16 :=
  (0, World.start (SchEth.serviceInit Layout.word16 SchEth.blank (some SchEth.plain)
    (some (List.replicate 12 0)) 6 6).2 true)

theorem roomyFsi_started : SchFsi.Started fsiLayout 6 6 .dropOldest roomyFsi.2 :=
  ⟨blankRecords, plainFsi, List.replicate 48 0, true, by decide, by rintro ⟨⟩ <;> rfl, by decide,
    by decide, rfl⟩

theorem roomyIpc_started : SchIpc.Started ipcLayout 6 6 .dropNewest roomyIpc.2 :=
  ⟨blankRecords, plainIpc, List.replicate 48 0, true, by decide, by rintro ⟨⟩ <;> rfl, by decide,
    by decide, rfl⟩

theorem roomyEth_started : SchEth.Started Layout.word16 6 6 roomyEth.2 :=
  ⟨SchEth.blank, SchEth.plain, List.replicate 12 0, true, by decide, by rintro ⟨⟩ <;> rfl, by decide,
    by decide, rfl⟩

def ethPort : Port (Nat × EthWorld Bool 16) :=
  sleepPort (ethStep Layout.word16 SchEth.raiseTx) .rxReady

theorem ethPort_hosts : Hosts ⟨false, false⟩ ethPort (ethStep Layout.word16 SchEth.raiseTx)
    IrqCall.isRun Prod.snd 1 2 :=
  sleepPort_hosts _ _ _

def sleepTask {V : Type} : Call (Nat × V) := .addTask ⟨1, 2, 150, 40, 0⟩

def sleepCosts : Costs := ⟨1, 1, 100, fun _ ctx => ctx⟩

theorem sleepTask_tended {V V' C : Type} (port : Port (Nat × V)) (step : V' → C → V')
    (mark : C → Bool) (view : Nat × V → V') (env : Nat × V) : Tended ⟨false, false⟩ port step mark
      view (World.start Sch.init env) (sleepTask :: (fourRuns ++ fourRuns)) :=
  tended_of_no_elapse fun env => by simp [sleepTask, fourRuns]

set_option maxRecDepth 4000 in
theorem roomyFsi_keepsUp : KeepsUp ⟨false, false⟩ fsiPort sleepCosts Prod.fst roomyFsi [] sleepTask
    (fourRuns ++ fourRuns) ⟨0, ⟨1, 2, 150, 40, 0⟩, 0⟩ 0 104 :=
  ⟨by decide +kernel, ⟨by decide, by decide, by decide⟩, by unfold Returns; decide +kernel,
    by unfold Begins; decide +kernel, by decide +kernel, by decide⟩

set_option maxRecDepth 4000 in
theorem roomyIpc_keepsUp : KeepsUp ⟨false, false⟩ ipcPort sleepCosts Prod.fst roomyIpc [] sleepTask
    (fourRuns ++ fourRuns) ⟨0, ⟨1, 2, 150, 40, 0⟩, 0⟩ 0 104 :=
  ⟨by decide +kernel, ⟨by decide, by decide, by decide⟩, by unfold Returns; decide +kernel,
    by unfold Begins; decide +kernel, by decide +kernel, by decide⟩

set_option maxRecDepth 4000 in
theorem roomyEth_keepsUp : KeepsUp ⟨false, false⟩ ethPort sleepCosts Prod.fst roomyEth [] sleepTask
    (fourRuns ++ fourRuns) ⟨0, ⟨1, 2, 150, 40, 0⟩, 0⟩ 0 104 :=
  ⟨by decide +kernel, ⟨by decide, by decide, by decide⟩, by unfold Returns; decide +kernel,
    by unfold Begins; decide +kernel, by decide +kernel, by decide⟩

set_option maxRecDepth 4000 in
theorem roomyFsi_bounded : BoundedArrivals ⟨false, false⟩ fsiPort
    (SchFsi.handlers.recorded fsiLayout) Prod.snd 6 (1 * 150 + 104)
    (history ⟨false, false⟩ fsiPort roomyFsi [sleepTask]) (fourRuns ++ fourRuns) :=
  bounded_of_rate 2 101 (by decide +kernel) (by decide) (by decide +kernel) (by decide)

set_option maxRecDepth 4000 in
theorem roomyIpc_bounded : BoundedArrivals ⟨false, false⟩ ipcPort
    (SchIpc.handlers.recorded ipcLayout) Prod.snd 6 (1 * 150 + 104)
    (history ⟨false, false⟩ ipcPort roomyIpc [sleepTask]) (fourRuns ++ fourRuns) :=
  bounded_of_rate 2 101 (by decide +kernel) (by decide) (by decide +kernel) (by decide)

set_option maxRecDepth 4000 in
theorem roomyEth_bounded : BoundedArrivals ⟨false, false⟩ ethPort
    (SchEth.queued Layout.word16) Prod.snd 6 (1 * 150 + 104)
    (history ⟨false, false⟩ ethPort roomyEth [sleepTask]) (fourRuns ++ fourRuns) :=
  bounded_of_rate 2 101 (by decide +kernel) (by decide) (by decide +kernel) (by decide)

set_option maxRecDepth 4000 in
/-- More arrives in eight runs than the rings hold. What arrived in the first four, while the board
slept or in the middle of a run, has been answered. -/
theorem hosted_interrupts_lossless_sleeping :
    (6 < arrived (SchFsi.handlers.recorded fsiLayout)
        (history ⟨false, false⟩ fsiPort roomyFsi (sleepTask :: (fourRuns ++ fourRuns))).env.2 ∧
      IrqHandlers.Dispatched SchFsi.handlers
        (history ⟨false, false⟩ fsiPort roomyFsi (sleepTask :: fourRuns)).env.2
        (history ⟨false, false⟩ fsiPort roomyFsi (sleepTask :: (fourRuns ++ fourRuns))).env.2) ∧
    (6 < arrived (SchIpc.handlers.recorded ipcLayout)
        (history ⟨false, false⟩ ipcPort roomyIpc (sleepTask :: (fourRuns ++ fourRuns))).env.2 ∧
      IrqHandlers.Dispatched SchIpc.handlers
        (history ⟨false, false⟩ ipcPort roomyIpc (sleepTask :: fourRuns)).env.2
        (history ⟨false, false⟩ ipcPort roomyIpc (sleepTask :: (fourRuns ++ fourRuns))).env.2) ∧
    (6 < arrived (SchEth.queued Layout.word16)
        (history ⟨false, false⟩ ethPort roomyEth (sleepTask :: (fourRuns ++ fourRuns))).env.2 ∧
      SchEth.Dispatched (history ⟨false, false⟩ ethPort roomyEth (sleepTask :: fourRuns)).env.2
        (history ⟨false, false⟩ ethPort roomyEth (sleepTask :: (fourRuns ++ fourRuns))).env.2) := by
  let r : Registration := ⟨0, ⟨1, 2, 150, 40, 0⟩, 0⟩
  refine ⟨⟨by decide +kernel, ?_⟩, ⟨by decide +kernel, ?_⟩, by decide +kernel, ?_⟩
  · have timed : Timed ⟨false, false⟩ fsiPort Prod.fst sleepCosts := sleepPort_timed _ _ _
    have lossless := (hosted_interrupts_lossless timed fsiLayout ipcLayout Layout.word16).1 Prod.snd
      (raiseOnce (.error 4 9)) 6 6 .dropOldest roomyFsi (by decide) fsiPort_hosts roomyFsi_started
      [] sleepTask fourRuns fourRuns r 0 104 310 1 rfl rfl roomyFsi_keepsUp (by decide)
      (sleepTask_tended _ _ _ _ _) (by decide) (by decide +kernel) roomyFsi_bounded
    simp only [List.nil_append] at lossless
    exact lossless.2 (by decide +kernel) (by decide) (by decide +kernel)
  · have timed : Timed ⟨false, false⟩ ipcPort Prod.fst sleepCosts := sleepPort_timed _ _ _
    have lossless := (hosted_interrupts_lossless timed fsiLayout ipcLayout Layout.word16).2.1 Prod.snd
      (raiseOnce (.notify 4 9 2)) 6 6 .dropNewest roomyIpc (by decide) ipcPort_hosts roomyIpc_started
      [] sleepTask fourRuns fourRuns r 0 104 310 1 rfl rfl roomyIpc_keepsUp (by decide)
      (sleepTask_tended _ _ _ _ _) (by decide) (by decide +kernel) roomyIpc_bounded
    simp only [List.nil_append] at lossless
    exact lossless.2 (by decide +kernel) (by decide) (by decide +kernel)
  · have timed : Timed ⟨false, false⟩ ethPort Prod.fst sleepCosts := sleepPort_timed _ _ _
    have lossless := (hosted_interrupts_lossless timed fsiLayout ipcLayout Layout.word16).2.2 Prod.snd
      SchEth.raiseTx 6 6 roomyEth (by decide) ethPort_hosts roomyEth_started [] sleepTask fourRuns
      fourRuns r 0 104 310 1 rfl rfl roomyEth_keepsUp (by decide) (sleepTask_tended _ _ _ _ _)
      (by decide) (by decide +kernel) roomyEth_bounded
    simp only [List.nil_append] at lossless
    exact lossless.2 (by decide +kernel) (by decide) (by decide +kernel)

end Example

end SchedulerLib.Services
