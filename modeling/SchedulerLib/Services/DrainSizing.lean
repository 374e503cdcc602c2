import SchedulerLib.Services.RecordDelivery
import SchedulerLib.Services.EthernetDelivery
import SchedulerLib.Lib.Backlog

/-!
How large a queue has to be. With no interrupt during a run, a run pops as many records as
its budget allows, whatever the HAL does with them; so the queue of a service is a queue
served in rounds, and obeys the law of one.
-/

namespace SchedulerLib.Services

open Lib IsrBuffer

variable {A T R σ : Type} {w : Nat}

/-- The law for a service: in round `k` the interrupts `rounds k` occur, and then a run. -/
def DrainLaw {S : Type} (step : S → IrqCall A → S) (noDrops : S → Prop) (size : S → Nat)
    (capacity budget : Nat) (rounds : Nat → List A) (start : S) : Prop :=
  SizingLaw capacity budget (fun k => (rounds k).length)
    (fun n => noDrops (afterRounds (fun call s => step s (.isr call)) (fun s => step s .run)
      rounds start n))
    (fun j => size (beforeServe (fun call s => step s (.isr call)) (fun s => step s .run)
      rounds start j))

def NoDrops (events : List (IrqEvent A T R)) : Prop :=
  ∀ call status, .push call status ∈ events → status = .ok

theorem noDrops_append (events : List (IrqEvent A T R)) (e : IrqEvent A T R)
    (silent : IrqHandlers.isPush e = false) : NoDrops (events ++ [e]) ↔ NoDrops events := by
  unfold NoDrops
  simp only [List.mem_append, List.mem_singleton]
  constructor
  · exact fun h call status mem => h call status (Or.inl mem)
  · rintro h call status (mem | rfl)
    · exact h call status mem
    · cases silent

theorem noDrops_append_push (events : List (IrqEvent A T R)) (call : A)
    (status : SchRingPushStatus) :
    NoDrops (events ++ [.push call status]) ↔ NoDrops events ∧ status = .ok := by
  unfold NoDrops
  simp only [List.mem_append, List.mem_singleton]
  constructor
  · exact fun h => ⟨fun c s mem => h c s (Or.inl mem), h call status (Or.inr rfl)⟩
  · rintro ⟨h, ok⟩ c s (mem | same)
    · exact h c s mem
    · cases same
      exact ok

/-- The ring carries `q`, and a drop of the queue shows in the log. -/
structure Loaded (layout : Layout R) (budget : Nat) (q : Fifo R) (s : IrqWorld A T R σ w) :
    Prop where
  ring : Carries layout s.state.irqRecords q
  budget : s.state.maxRecordsPerRun.toNat = budget
  drops : q.drops = 0 ↔ NoDrops s.events

section Calls

variable {H : IrqHandlers A T R} {layout : Layout R} {budget : Nat} {q : Fifo R}
  {s : IrqWorld A T R σ w} {fire : σ → List A × σ}

theorem Loaded.setEnv (h : Loaded layout budget q s) (env : σ) :
    Loaded layout budget q (s.setEnv env) := ⟨h.ring, h.budget, h.drops⟩

theorem Loaded.emit (h : Loaded layout budget q s) (e : IrqEvent A T R)
    (silent : IrqHandlers.isPush e = false) : Loaded layout budget q (s.emit e) :=
  ⟨h.ring, h.budget, by rw [World.emit_events, noDrops_append _ _ silent, h.drops]⟩

theorem Loaded.acknowledge (h : Loaded layout budget q s) (tag : T) (source : BitVec 16) :
    Loaded layout budget q (IrqService.acknowledge tag source s) := by
  unfold IrqService.acknowledge
  cases s.state.hal.ackIrq with
  | none => exact h
  | some ack => exact (h.setEnv _).emit _ rfl

theorem Loaded.enter (h : Loaded layout budget q s) (call : A) :
    Loaded layout budget (q.push (H.record call)) (H.enter layout call s) := by
  have acked := h.acknowledge (H.tag call) (H.source call)
  unfold IrqHandlers.enter IrqService.isrPush
  generalize IrqService.acknowledge (H.tag call) (H.source call) s = s at acked
  obtain ⟨status, next⟩ := acked.ring.push (H.record call)
  refine ⟨next, acked.budget, ?_⟩
  rw [World.modify_events, World.emit_events, World.modify_events, noDrops_append_push, status,
    ← acked.drops]
  cases out : q.outcome with
  | stored => simp [Fifo.push, out, statusOf]
  | droppedNewest => simp [Fifo.push, out, statusOf]
  | droppedOldest => simp [Fifo.push, out, statusOf]

theorem Loaded.preempted (h : Loaded layout budget q s) (calm : ∀ env, (fire env).1 = []) :
    Loaded layout budget q (IrqService.preempted (H.enter layout) fire s) := by
  unfold IrqService.preempted
  rw [calm]
  exact h.setEnv _

theorem Loaded.dispatch (h : Loaded layout budget q s) (record : R) :
    Loaded layout budget q (IrqService.dispatch H.classOf record s) := by
  unfold IrqService.dispatch
  cases H.classOf record with
  | none => exact h
  | some tag =>
    dsimp only
    cases s.state.hal.service tag with
    | none => exact h
    | some callback => exact (h.setEnv _).emit _ rfl

theorem Loaded.drainRecords (calm : ∀ env, (fire env).1 = []) (n : Nat)
    (h : Loaded layout budget q s) :
    Loaded layout budget (q.skip n) (IrqService.drainRecords layout H.classOf
      (IrqService.preempted (H.enter layout) fire) n s) := by
  induction n generalizing q s with
  | zero => exact h
  | succ n ih =>
    have before : Loaded layout budget q (IrqService.preempted (H.enter layout) fire s) :=
      h.preempted calm
    simp only [IrqService.drainRecords]
    generalize IrqService.preempted (H.enter layout) fire s = s at before
    obtain ⟨front, next⟩ := before.ring.pop
    cases items : q.items with
    | nil =>
      rw [front, items, q.skip_of_nil _ items]
      exact before
    | cons record rest =>
      rw [front, items, ← q.pop_skip]
      have popped : Loaded layout budget q.pop ((s.modify fun service =>
          { service with irqRecords := (s.state.irqRecords.popAs layout).2 }).emit
            (.pop record)) := by
        refine ⟨next, before.budget, ?_⟩
        rw [World.emit_events, noDrops_append _ _ rfl]
        exact before.drops
      exact ih ((popped.preempted calm).dispatch record)

theorem Loaded.run (h : Loaded layout budget q s) (calm : ∀ env, (fire env).1 = []) :
    Loaded layout budget (q.skip budget) (H.run layout fire s) := by
  have cleared : Loaded layout budget q
      (s.modify fun service => { service with eventBits := 0 }) := ⟨h.ring, h.budget, h.drops⟩
  have waited : Loaded layout budget q (IrqService.preempted (H.enter layout) fire
      (s.modify fun service => { service with eventBits := 0 })) := cleared.preempted calm
  unfold IrqHandlers.run IrqService.run
  dsimp only
  split_ifs with bits empty
  · rw [q.skip_of_nil _ (waited.ring.isEmpty_iff.mp empty)]
    exact waited
  · rw [waited.budget]
    exact waited.drainRecords calm budget
  · rw [cleared.budget]
    exact cleared.drainRecords calm budget

theorem Loaded.drainLaw (h : Loaded layout budget q s) (calm : ∀ env, (fire env).1 = [])
    (rounds : Nat → List A) (empty : q.items = []) (unspoiled : q.drops = 0) :
    DrainLaw (H.step layout fire) (fun s => NoDrops s.events)
      (fun s => s.state.irqRecords.size.toNat) q.capacity budget rounds s := by
  have related (n : Nat) :
      Loaded layout budget (q.served budget H.record rounds n)
          (afterRounds (fun call s => H.step layout fire s (.isr call))
            (fun s => H.step layout fire s .run) rounds s n) ∧
        Loaded layout budget (q.waiting budget H.record rounds n)
          (beforeServe (fun call s => H.step layout fire s (.isr call))
            (fun s => H.step layout fire s .run) rounds s n) :=
    rounds_related (Loaded layout budget) (fun call _ _ h => h.enter call)
      (fun _ _ h => h.run calm) q s h n
  exact (Fifo.sizingLaw budget H.record rounds empty unspoiled).congr
    (fun n => (related n).1.drops) (fun j => ((related j).2.ring.size_toNat).symm)

theorem init_loaded (service : IrqService T R σ w) (hal : IrqHal T R σ) (memory : List Byte)
    (recordCapacity maxRecords : BitVec w) (policy : Fifo.Policy) (env : σ)
    (ok : (service.init layout (some hal) (some memory) recordCapacity maxRecords
      (modeOf policy)).1 = true)
    (length : memory.length = recordCapacity.toNat * layout.size) (fits : memory.length < 2 ^ w) :
    ∃ positive, Loaded layout maxRecords.toNat (Fifo.empty recordCapacity.toNat policy positive)
      (World.start (E := IrqEvent A T R) (service.init layout (some hal) (some memory)
        recordCapacity maxRecords (modeOf policy)).2 env) := by
  unfold IrqService.init at ok ⊢
  dsimp only at ok ⊢
  split_ifs at ok ⊢ with budget
  obtain ⟨positive, ring⟩ := initAs_success layout service.irqRecords memory recordCapacity policy
    ok length fits
  exact ⟨positive, ring, rfl, iff_of_true rfl fun call status mem => by cases mem⟩

theorem init_drainLaw (H : IrqHandlers A T R) (service : IrqService T R σ w) (hal : IrqHal T R σ)
    (memory : List Byte) (recordCapacity maxRecords : BitVec w) (policy : Fifo.Policy) (env : σ)
    (rounds : Nat → List A) (calm : ∀ env, (fire env).1 = [])
    (ok : (service.init layout (some hal) (some memory) recordCapacity maxRecords
      (modeOf policy)).1 = true)
    (length : memory.length = recordCapacity.toNat * layout.size) (fits : memory.length < 2 ^ w) :
    DrainLaw (H.step layout fire) (fun s => NoDrops s.events)
      (fun s => s.state.irqRecords.size.toNat) recordCapacity.toNat maxRecords.toNat rounds
      (World.start (service.init layout (some hal) (some memory) recordCapacity maxRecords
        (modeOf policy)).2 env) := by
  obtain ⟨positive, loaded⟩ := init_loaded service hal memory recordCapacity maxRecords policy env
    ok length fits
  exact loaded.drainLaw calm rounds rfl rfl

end Calls

namespace SchEth

variable {u16 : Layout (BitVec 16)}

def NoDrops (events : List EthEvent) : Prop :=
  ∀ id status, .pushEvent id status ∈ events → status = .ok

theorem noDrops_recordEvent (events : List EthEvent) :
    Services.NoDrops (events.map recordEvent) ↔ NoDrops events := by
  unfold Services.NoDrops NoDrops
  constructor
  · intro h id status mem
    exact h id status (List.mem_map_of_mem mem)
  · intro h id status mem
    obtain ⟨e, logged, same⟩ := List.mem_map.mp mem
    cases e with
    | pushEvent id' status' =>
      obtain ⟨rfl, rfl⟩ : id' = id ∧ status' = status := by simpa [recordEvent] using same
      exact h id' status' logged
    | _ => cases same

theorem drainLaw_of_view {fire : σ → List SchEthEventId × σ} {capacity budget : Nat}
    {rounds : Nat → List SchEthEventId} {s : EthWorld σ w}
    (h : DrainLaw (handlers.step u16 fire) (fun s => Services.NoDrops s.events)
      (fun s => s.state.irqRecords.size.toNat) capacity budget rounds (view s)) :
    DrainLaw (ethStep u16 fire) (fun s => NoDrops s.events)
      (fun s => s.state.eventQueue.size.toNat) capacity budget rounds s := by
  have related (n : Nat) :
      view (afterRounds (fun id s => ethStep u16 fire s (.isr id))
          (fun s => ethStep u16 fire s .run) rounds s n) =
        afterRounds (fun id t => handlers.step u16 fire t (.isr id))
          (fun t => handlers.step u16 fire t .run) rounds (view s) n ∧
      view (beforeServe (fun id s => ethStep u16 fire s (.isr id))
          (fun s => ethStep u16 fire s .run) rounds s n) =
        beforeServe (fun id t => handlers.step u16 fire t (.isr id))
          (fun t => handlers.step u16 fire t .run) rounds (view s) n :=
    rounds_related (fun s t => view s = t) (fun id s t same => by rw [view_step, same])
      (fun s t same => by rw [view_step, same]) s (view s) rfl n
  refine SizingLaw.congr h (fun n => ?_) (fun j => ?_)
  · rw [← (related n).1, view]
    dsimp only
    rw [World.map_events]
    exact noDrops_recordEvent _
  · rw [← (related j).2]
    rfl

end SchEth

/-- Every service drops nothing exactly while no run of rounds demands more than the capacity,
and until then its backlog is the greatest demand. -/
theorem drained_queues_obey_law (fsi : Layout SchFsiIrqRecord) (ipc : Layout SchIpcIrqRecord)
    (u16 : Layout (BitVec 16)) :
    (∀ (service : SchFsiService σ w) (hal : SchFsiHal σ) (memory : List Byte)
        (capacity maxRecords : BitVec w) (policy : Fifo.Policy) (env : σ)
        (fire : σ → List FsiIsr × σ) (rounds : Nat → List FsiIsr),
      (∀ env, (fire env).1 = []) →
      (SchFsi.serviceInit fsi service (some hal) (some memory) capacity maxRecords
        (modeOf policy)).1 = true →
      memory.length = capacity.toNat * fsi.size → memory.length < 2 ^ w →
      DrainLaw (fsiStep fsi fire) (fun s => NoDrops s.events)
        (fun s => s.state.irqRecords.size.toNat) capacity.toNat maxRecords.toNat rounds
        (World.start (SchFsi.serviceInit fsi service (some hal) (some memory) capacity
          maxRecords (modeOf policy)).2 env)) ∧
    (∀ (service : SchIpcService σ w) (hal : SchIpcHal σ) (memory : List Byte)
        (capacity maxRecords : BitVec w) (policy : Fifo.Policy) (env : σ)
        (fire : σ → List IpcIsr × σ) (rounds : Nat → List IpcIsr),
      (∀ env, (fire env).1 = []) →
      (SchIpc.serviceInit ipc service (some hal) (some memory) capacity maxRecords
        (modeOf policy)).1 = true →
      memory.length = capacity.toNat * ipc.size → memory.length < 2 ^ w →
      DrainLaw (ipcStep ipc fire) (fun s => NoDrops s.events)
        (fun s => s.state.irqRecords.size.toNat) capacity.toNat maxRecords.toNat rounds
        (World.start (SchIpc.serviceInit ipc service (some hal) (some memory) capacity
          maxRecords (modeOf policy)).2 env)) ∧
    (∀ (service : SchEthService σ w) (hal : SchEthHal σ) (memory : List Byte)
        (capacity maxEvents : BitVec w) (env : σ)
        (fire : σ → List SchEthEventId × σ) (rounds : Nat → List SchEthEventId),
      (∀ env, (fire env).1 = []) →
      (SchEth.serviceInit u16 service (some hal) (some memory) capacity maxEvents).1 = true →
      memory.length = capacity.toNat * u16.size → memory.length < 2 ^ w →
      DrainLaw (ethStep u16 fire) (fun s => SchEth.NoDrops s.events)
        (fun s => s.state.eventQueue.size.toNat) capacity.toNat maxEvents.toNat rounds
        (World.start (SchEth.serviceInit u16 service (some hal) (some memory) capacity
          maxEvents).2 env)) := by
  refine ⟨?_, ?_, ?_⟩
  · intro service hal memory capacity maxRecords policy env fire rounds calm ok length fits
    rw [fsiStep_eq]
    exact init_drainLaw SchFsi.handlers service hal.callbacks memory capacity maxRecords policy env
      rounds calm ok length fits
  · intro service hal memory capacity maxRecords policy env fire rounds calm ok length fits
    rw [ipcStep_eq]
    exact init_drainLaw SchIpc.handlers service hal.callbacks memory capacity maxRecords policy env
      rounds calm ok length fits
  · intro service hal memory capacity maxEvents env fire rounds calm ok length fits
    obtain ⟨made, same⟩ := SchEth.serviceInit_eq service hal memory capacity maxEvents ok
    refine SchEth.drainLaw_of_view ?_
    rw [SchEth.view, World.map_start, same]
    exact init_drainLaw SchEth.handlers (SchEth.recordService service) (SchEth.callbacks hal)
      memory capacity maxEvents .dropOldest env rounds calm made length fits

section Example

def threeAtOnce {A : Type} (call : A) (k : Nat) : List A :=
  if k = 0 then [call, call, call] else []

def calmly {A : Type} (env : Bool) : List A × Bool := ([], env)

theorem demand_threeAtOnce {A : Type} (call : A) :
    demand 1 (fun k => (threeAtOnce call k).length) 0 0 = 3 := by
  rw [demand_self]
  rfl

theorem drained_queues_obey_law_three_at_once :
    ¬ NoDrops (afterRounds (fun call s => fsiStep fsiLayout calmly s (.isr call))
      (fun s => fsiStep fsiLayout calmly s .run) (threeAtOnce (.rx 3 8 1))
      (World.start (SchFsi.serviceInit fsiLayout blankRecords (some plainFsi)
        (some (List.replicate 16 0)) 2 1 .dropOldest).2 true : FsiWorld Bool 16) 1).events ∧
    NoDrops (afterRounds (fun call s => ipcStep ipcLayout calmly s (.isr call))
      (fun s => ipcStep ipcLayout calmly s .run) (threeAtOnce (.fault 3 8 1))
      (World.start (SchIpc.serviceInit ipcLayout blankRecords (some plainIpc)
        (some (List.replicate 24 0)) 3 1 .dropNewest).2 true : IpcWorld Bool 16) 1).events ∧
    SchEth.NoDrops (afterRounds (fun call s => ethStep Layout.word16 calmly s (.isr call))
      (fun s => ethStep Layout.word16 calmly s .run) (threeAtOnce .linkChange)
      (World.start (SchEth.serviceInit Layout.word16 SchEth.blank (some SchEth.plain)
        (some (List.replicate 6 0)) 3 1).2 true : EthWorld Bool 16) 1).events := by
  obtain ⟨fsi, ipc, eth⟩ := @drained_queues_obey_law Bool 16 fsiLayout ipcLayout
    Layout.word16
  have two := fsi blankRecords plainFsi (List.replicate 16 0) 2 1 .dropOldest true calmly
    (threeAtOnce (.rx 3 8 1)) (fun _ => rfl) (by decide) (by decide) (by decide)
  have three := ipc blankRecords plainIpc (List.replicate 24 0) 3 1 .dropNewest true calmly
    (threeAtOnce (.fault 3 8 1)) (fun _ => rfl) (by decide) (by decide) (by decide)
  have events := eth SchEth.blank SchEth.plain (List.replicate 6 0) 3 1 true calmly
    (threeAtOnce .linkChange) (fun _ => rfl) (by decide) (by decide) (by decide)
  refine ⟨fun clean => ?_, (three.clean_iff 1).mpr ?_, (events.clean_iff 1).mpr ?_⟩
  · have fits := (two.clean_iff 1).mp clean 0 0 (Nat.le_refl 0) Nat.zero_lt_one
    exact absurd (demand_threeAtOnce (FsiIsr.rx 3 8 1) ▸ fits) (by decide)
  · intro i j le lt
    obtain ⟨rfl, rfl⟩ : i = 0 ∧ j = 0 := by omega
    exact (demand_threeAtOnce (IpcIsr.fault 3 8 1)).le
  · intro i j le lt
    obtain ⟨rfl, rfl⟩ : i = 0 ∧ j = 0 := by omega
    exact (demand_threeAtOnce SchEthEventId.linkChange).le

end Example

end SchedulerLib.Services
