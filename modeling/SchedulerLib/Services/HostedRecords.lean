import SchedulerLib.Scheduler.Hosting
import SchedulerLib.Scheduler.Schedulability
import SchedulerLib.Services.RecordDelivery

/-!
A record service as a task of the scheduler. Every callback of the task is one run of the
service, so a record among the first in the ring is handled after as many callbacks as its
place needs, whatever interrupts come in between. If the task keeps up with its releases,
that is a time.
-/

namespace SchedulerLib.Services

open Lib History IsrBuffer Scheduler

def IrqCall.isRun {A : Type} : IrqCall A → Bool
  | .isr _ => false
  | .run => true

namespace IrqHandlers

variable {A T R σ : Type} {w : Nat} {H : IrqHandlers A T R} {layout : Layout R} {capacity : Nat}
  {policy : Fifo.Policy} {positive : 0 < capacity}

section Awaits

/-- The pushes `xs` are among the next `places` records, as far as they have not left the ring
already. -/
structure Awaits (H : IrqHandlers A T R) (layout : Layout R) (positive : 0 < capacity)
    (policy : Fifo.Policy) (budget : Nat) (xs : List (A × Nat)) (record : Option R) (places : Nat)
    (s : IrqWorld A T R σ w) : Prop where
  tracked : Tracked H layout positive policy record s
  budget : s.state.maxRecordsPerRun.toNat = budget
  soon : ∀ x ∈ xs, (replay capacity policy positive s.events).Soon places x
  safe : policy = .dropNewest → ∀ x ∈ xs, (replay capacity policy positive s.events).Safe x

variable {budget places : Nat} {xs : List (A × Nat)} {record : Option R} {s s' : IrqWorld A T R σ w}

theorem Awaits.elsewhere (h : Awaits H layout positive policy budget xs record places s)
    {record' : Option R} (tracked : Tracked H layout positive policy record' s')
    (settings : s'.state.maxRecordsPerRun = s.state.maxRecordsPerRun)
    (same : replay capacity policy positive s'.events = replay capacity policy positive s.events) :
    Awaits H layout positive policy budget xs record' places s' where
  tracked := tracked
  budget := by rw [settings, h.budget]
  soon := by
    rw [same]
    exact h.soon
  safe := by
    rw [same]
    exact h.safe

theorem Awaits.acknowledge (h : Awaits H layout positive policy budget xs record places s) (tag : T)
    (source : BitVec 16) :
    Awaits H layout positive policy budget xs record places
      (IrqService.acknowledge tag source s) := by
  have tracked := h.tracked.acknowledge tag source
  unfold IrqService.acknowledge at tracked ⊢
  cases ack : s.state.hal.ackIrq with
  | none => exact h
  | some acked =>
    rw [ack] at tracked
    refine h.elsewhere tracked rfl ?_
    rw [World.emit_events, replay_ackIrq, World.setEnv_events]

theorem Awaits.enter (h : Awaits H layout positive policy budget xs record places s) (call : A) :
    Awaits H layout positive policy budget xs record places (H.enter layout call s) := by
  have acked := h.acknowledge (H.tag call) (H.source call)
  have tracked := h.tracked.enter call
  unfold IrqHandlers.enter IrqService.isrPush at tracked ⊢
  generalize IrqService.acknowledge (H.tag call) (H.source call) s = s at acked tracked
  have balanced := acked.tracked.throughout.now.balanced
  refine ⟨tracked, acked.budget, fun x mem => ?_, fun policy x mem => ?_⟩
  · rw [World.modify_events, World.emit_events, replay_push]
    exact (acked.soon x mem).push balanced call
  · rw [World.modify_events, World.emit_events, replay_push]
    exact (acked.safe policy x mem).push call

theorem Awaits.preempted (h : Awaits H layout positive policy budget xs record places s)
    (fire : σ → List A × σ) : Awaits H layout positive policy budget xs record places
      (IrqService.preempted (H.enter layout) fire s) :=
  History.invariant (fun s call => H.enter layout call s)
    (Awaits H layout positive policy budget xs record places) (fun _ call h => h.enter call)
    (s.setEnv (fire s.env).2) (h.elsewhere (h.tracked.setEnv _) rfl rfl) (fire s.env).1

theorem Awaits.dispatch {held : R}
    (h : Awaits H layout positive policy budget xs (some held) places s)
    (known : ∃ call, H.record call = held) :
    Awaits H layout positive policy budget xs none places
      (IrqService.dispatch H.classOf held s) := by
  obtain ⟨tag, invoked, same⟩ := h.tracked.dispatch_events held known
  refine h.elsewhere (h.tracked.dispatch held known) (by rw [same]) ?_
  rw [invoked, replay_invoke]

theorem Awaits.pop (h : Awaits H layout positive policy budget xs none places s) (front : R)
    (first : (s.state.irqRecords.popAs layout).1 = some front) :
    Awaits H layout positive policy budget xs (some front) (places - 1)
        ((s.modify fun service => { service with
          irqRecords := (s.state.irqRecords.popAs layout).2 }).emit (.pop front)) ∧
      ∃ call, H.record call = front := by
  obtain ⟨tracked, known⟩ := h.tracked.pop front first
  refine ⟨⟨tracked, h.budget, fun x mem => ?_, fun policy x mem => ?_⟩, known⟩
  · rw [World.emit_events, World.modify_events, replay_pop]
    exact (h.soon x mem).pop h.tracked.throughout.now.balanced
  · rw [World.emit_events, World.modify_events, replay_pop]
    exact (h.safe policy x mem).pop

theorem Awaits.empty (h : Awaits H layout positive policy budget xs record places s)
    (empty : s.state.irqRecords.size.toNat = 0) (fewer : Nat) :
    Awaits H layout positive policy budget xs record fewer s := by
  have none_left : (replay capacity policy positive s.events).queue.items = [] := by
    have size := h.tracked.throughout.now.carries.size_toNat
    rw [empty, Fifo.map_items, List.length_map] at size
    exact List.length_eq_zero_iff.mp size.symm
  refine ⟨h.tracked, h.budget, fun x mem => Ledger.Soon.mono ?_ (Nat.zero_le fewer), h.safe⟩
  refine Ledger.Soon.of_not_mem (h.soon x mem).offered fun listed => ?_
  rw [none_left] at listed
  cases listed

theorem Awaits.drainRecords (fire : σ → List A × σ) (n : Nat)
    (h : Awaits H layout positive policy budget xs none places s) :
    Awaits H layout positive policy budget xs none (places - n) (IrqService.drainRecords layout
      H.classOf (IrqService.preempted (H.enter layout) fire) n s) := by
  induction n generalizing s places with
  | zero => exact h
  | succ n ih =>
    have before := h.preempted fire
    simp only [IrqService.drainRecords]
    generalize IrqService.preempted (H.enter layout) fire s = s at before
    cases first : (s.state.irqRecords.popAs layout).1 with
    | none =>
      have size := before.tracked.size_of_pop
      rw [first] at size
      exact before.empty size _
    | some front =>
      obtain ⟨popped, known⟩ := before.pop front first
      have later := ih ((popped.preempted fire).dispatch known)
      rwa [Nat.sub_sub, Nat.add_comm] at later

theorem Awaits.run (fire : σ → List A × σ)
    (h : Awaits H layout positive policy budget xs none places s) :
    Awaits H layout positive policy budget xs none (places - budget) (H.run layout fire s) := by
  have cleared := h.elsewhere (h.tracked.setEventBits fun _ => 0) rfl rfl
  have gap := cleared.preempted fire
  unfold IrqHandlers.run IrqService.run
  dsimp only
  split_ifs with bits empty
  · exact gap.empty (congrArg BitVec.toNat (of_decide_eq_true empty)) _
  · rw [gap.budget]
    exact gap.drainRecords fire budget
  · rw [World.modify_state, h.budget]
    exact cleared.drainRecords fire budget

theorem Awaits.reaches {fire : σ → List A × σ} {n : Nat}
    (h : Awaits H layout positive policy budget xs none places s)
    (reaches : Reaches (H.step layout fire) IrqCall.isRun n s s') :
    Awaits H layout positive policy budget xs none (places - n * budget) s' := by
  have measured := reaches.measured (m := 0)
    (fun runs s => Awaits H layout positive policy budget xs none (places - runs * budget) s)
    (fun runs s call unmarked before => by
      cases call with
      | isr call => exact before.enter call
      | run => cases unmarked)
    (fun runs s call marked before => by
      cases call with
      | isr call => cases marked
      | run =>
        have after := before.run fire
        rwa [Nat.sub_sub, ← Nat.succ_mul] at after)
    (by rwa [Nat.zero_mul, Nat.sub_zero])
  rwa [Nat.zero_add] at measured

theorem replay_policy (events : List (IrqEvent A T R)) :
    (replay capacity policy positive events).queue.policy = policy := by
  induction events using List.reverseRecOn with
  | nil => rfl
  | append_singleton events e ih =>
    cases e with
    | ackIrq tag source => rwa [replay_ackIrq]
    | push call status => rwa [replay_push, Ledger.push, Fifo.push_policy]
    | pop record => rwa [replay_pop, Ledger.pop, Fifo.pop_policy]
    | invoke tag record => rwa [replay_invoke]

theorem Awaits.front (h : Awaits H layout positive policy budget [] none places s) (ahead : Nat) :
    Awaits H layout positive policy budget
      ((replay capacity policy positive s.events).queue.items.take ahead) none ahead s := by
  have balanced := h.tracked.throughout.now.balanced
  have survivor : ∀ x ∈ (replay capacity policy positive s.events).queue.items.take ahead,
      x ∈ (replay capacity policy positive s.events).survivors := fun x mem => by
    rw [← balanced.survived]
    exact List.mem_append_right _ (List.mem_of_mem_take mem)
  refine ⟨h.tracked, h.budget, fun x mem => ⟨List.mem_of_mem_filter (survivor x mem), fun _ => mem⟩,
    fun newest x mem => ?_⟩
  obtain ⟨offered, spared⟩ := List.mem_filter.mp (survivor x mem)
  exact ⟨offered, of_decide_eq_true spared, (replay_policy s.events).trans newest⟩

end Awaits

section Handled

/-- The callbacks invoked are those of the records popped, and the push `x` is one of them unless
a later one cost it its place. -/
structure Handled (H : IrqHandlers A T R) (positive : 0 < capacity) (policy : Fifo.Policy)
    (events : List (IrqEvent A T R)) (x : A × Nat) : Prop where
  invoked : invocations events =
    (replay capacity policy positive events).popped.map fun x => H.delivery x.1
  done : x ∈ (replay capacity policy positive events).popped ∨
    policy = .dropOldest ∧ x.2 ∈ (replay capacity policy positive events).deleted

variable {budget places : Nat} {xs : List (A × Nat)} {s : IrqWorld A T R σ w}

theorem Awaits.handled (h : Awaits H layout positive policy budget xs none 0 s) :
    ∀ x ∈ xs, Handled H positive policy s.events x := fun x mem => by
  have account := h.tracked.throughout.now
  refine ⟨account.accounted.invoked h.tracked.holding, ?_⟩
  have soon := h.soon x mem
  rcases account.balanced.lost_or_popped soon.offered soon.gone with lost | popped
  · cases kind : policy with
    | dropNewest =>
      subst kind
      exact absurd lost (h.safe rfl x mem).spared
    | dropOldest =>
      subst kind
      exact Or.inr ⟨rfl, lost⟩
  · exact Or.inl popped

end Handled

section Hosted

variable {E : Type} {cfg : Config} {port : Port E} {view : E → IrqWorld A T R σ w}
  {fn ctx : Address} {budget : Nat} {fire : σ → List A × σ} {env : E}

/-- The service as the component of a task. Its account is right at every moment, and the records
that come first in the ring are through after as many callbacks as they need. -/
def ClearsRecords (cfg : Config) (port : Port E) (H : IrqHandlers A T R) (layout : Layout R)
    (positive : 0 < capacity) (policy : Fifo.Policy)
    (step : IrqWorld A T R σ w → IrqCall A → IrqWorld A T R σ w) (view : E → IrqWorld A T R σ w)
    (fn ctx : Address) (budget : Nat) (env : E) : Prop :=
  ∀ before later : List (Call E),
    Tended cfg port step IrqCall.isRun view (World.start Sch.init env) (before ++ later) →
    let mid := history cfg port env before
    let fin := history cfg port env (before ++ later)
    Accounted H layout positive policy (view fin.env).events (view fin.env).state ∧
      ∀ x ∈ (replay capacity policy positive (view mid.env).events).queue.items.take
          (callsOf fn ctx (World.since mid fin) * budget),
        Handled H positive policy (view fin.env).events x

theorem brings_forward (hosts : Hosts cfg port (H.step layout fire) IrqCall.isRun view fn ctx)
    (start : Awaits H layout positive policy budget [] none 0 (view env))
    (before later : List (Call E))
    (tended : Tended cfg port (H.step layout fire) IrqCall.isRun view (World.start Sch.init env)
      (before ++ later)) :
    let mid := history cfg port env before
    let fin := history cfg port env (before ++ later)
    ∃ l, fin.log = mid.log ++ l ∧ Awaits H layout positive policy budget
      ((replay capacity policy positive (view mid.env).events).queue.items.take
        (callsOf fn ctx l * budget)) none 0 (view fin.env) := by
  intro mid fin
  obtain ⟨early, late⟩ := tended.split
  obtain ⟨_, _, reaches⟩ := hosts.calls before early (Hosted.refl _)
  have waiting := start.reaches reaches
  rw [Nat.zero_sub] at waiting
  obtain ⟨l, log, further⟩ := hosts.calls later late (Hosted.refl _)
  rw [← List.foldl_append] at log further
  have arrived := (waiting.front (callsOf fn ctx l * budget)).reaches further
  rw [Nat.sub_self] at arrived
  exact ⟨l, log, arrived⟩

theorem clears_records (hosts : Hosts cfg port (H.step layout fire) IrqCall.isRun view fn ctx)
    (start : Awaits H layout positive policy budget [] none 0 (view env)) :
    ClearsRecords cfg port H layout positive policy (H.step layout fire) view fn ctx budget
      env := by
  intro before later tended mid fin
  obtain ⟨l, log, arrived⟩ := brings_forward hosts start before later tended
  rw [World.since_of_log _ _ l log]
  exact ⟨arrived.tracked.throughout.now.accounted, arrived.handled⟩

variable {clock : E → Nat} {costs : Costs}

/-- A task that keeps up with its releases: the records that come first in the ring at `start` are
through when as many periods are over as they need. -/
def ClearsInTime (cfg : Config) (port : Port E) (costs : Costs) (clock : E → Nat)
    (H : IrqHandlers A T R) (positive : 0 < capacity) (policy : Fifo.Policy)
    (step : IrqWorld A T R σ w → IrqCall A → IrqWorld A T R σ w) (view : E → IrqWorld A T R σ w)
    (fn ctx : Address) (budget : Nat) (env : E) : Prop :=
  ∀ (before : List (Call E)) (c : Call E) (early late : List (Call E)) (r : Registration),
    r ∈ registrationsIn cfg port (history cfg port env before) c →
    r.request.fn = fn → r.request.ctx = ctx →
    0 < r.period → r.period ≤ 2 ^ 31 → r.delay ≤ 2 ^ 31 →
    Tended cfg port step IrqCall.isRun view (World.start Sch.init env)
      (before ++ c :: (early ++ late)) →
    ∀ gap wait start count : Nat,
      let w := history cfg port env (before ++ [c])
      let us := runs cfg port w (early ++ late)
      let mid := history cfg port env (before ++ c :: early)
      let fin := history cfg port env (before ++ c :: (early ++ late))
      Returns port clock gap us → Begins port r wait us →
      costs.load cfg fin.state + gap ≤ wait → wait < r.period →
      (∀ t ∈ entryTimes port (runs cfg port w early), t ≤ start) → r.first ≤ start + r.period →
      (∃ t ∈ (entryTimes port us).getLast?, start + count * r.period ≤ t) →
      ∀ x ∈ (replay capacity policy positive (view mid.env).events).queue.items.take
          (count * budget), Handled H positive policy (view fin.env).events x

theorem clears_in_time (hosts : Hosts cfg port (H.step layout fire) IrqCall.isRun view fn ctx)
    (timed : Timed cfg port clock costs)
    (start : Awaits H layout positive policy budget [] none 0 (view env)) :
    ClearsInTime cfg port costs clock H positive policy (H.step layout fire) view fn ctx budget
      env := by
  intro before c early late r added own with_ctx positive' period delay tended gap wait begin count
    w us mid fin returns begins fits short entered near later x mem
  subst own with_ctx
  have all : ∀ calls, before ++ c :: calls = before ++ [c] ++ calls := fun calls => by
    rw [List.append_assoc, List.singleton_append]
  obtain ⟨paced, answers⟩ := timed.answers env before c added ⟨positive', period, delay⟩
    (early ++ late) returns begins fits short
  obtain ⟨l, log, called⟩ := calls_since (history_settled cfg port env (before ++ [c])) positive'
    paced short answers entered near later
  rw [← history_append, ← history_append, ← all, ← all] at log
  have split : before ++ c :: (early ++ late) = before ++ c :: early ++ late := by simp
  rw [split] at tended
  obtain ⟨l', log', arrived⟩ := brings_forward hosts start (before ++ c :: early) late tended
  rw [← split] at log' arrived
  obtain rfl : l = l' := List.append_cancel_left (log.symm.trans log')
  exact arrived.handled x ((List.take_subset_take_left _ (Nat.mul_le_mul_right budget called)) mem)

def Fresh (layout : Layout R) (recordCapacity maxRecords : BitVec w) (policy : Fifo.Policy)
    (s : IrqWorld A T R σ w) : Prop :=
  ∃ (service : IrqService T R σ w) (hal : IrqHal T R σ) (memory : List Byte) (env : σ),
    (service.init layout (some hal) (some memory) recordCapacity maxRecords
        (modeOf policy)).1 = true ∧
      (∀ tag, (hal.service tag).isSome) ∧
      memory.length = recordCapacity.toNat * layout.size ∧ memory.length < 2 ^ w ∧
      s = World.start (service.init layout (some hal) (some memory) recordCapacity maxRecords
        (modeOf policy)).2 env

theorem Fresh.awaits {recordCapacity maxRecords : BitVec w} {s : IrqWorld A T R σ w}
    (h : Fresh layout recordCapacity maxRecords policy s) (positive : 0 < recordCapacity.toNat) :
    Awaits H layout positive policy maxRecords.toNat [] none 0 s := by
  obtain ⟨service, hal, memory, env, ok, callbacks, length, fits, rfl⟩ := h
  refine ⟨init_tracked service hal memory recordCapacity maxRecords policy env positive ok
    callbacks length fits, ?_, by simp, by simp⟩
  unfold IrqService.init at ok ⊢
  dsimp only at ok ⊢
  split_ifs at ok ⊢
  rfl

end Hosted

end IrqHandlers

open IrqHandlers

section Services

variable {σ E : Type} {w : Nat} {cfg : Config} {port : Port E} {fn ctx : Address}

def SchFsi.Started (layout : Layout SchFsiIrqRecord) (capacity maxRecords : BitVec w)
    (policy : Fifo.Policy) (s : FsiWorld σ w) : Prop :=
  ∃ (service : SchFsiService σ w) (hal : SchFsiHal σ) (memory : List Byte) (env : σ),
    let made := SchFsi.serviceInit layout service (some hal) (some memory) capacity maxRecords
      (modeOf policy)
    made.1 = true ∧ (∀ tag, (hal.callbacks.service tag).isSome) ∧
      memory.length = capacity.toNat * layout.size ∧ memory.length < 2 ^ w ∧
      s = World.start made.2 env

def SchIpc.Started (layout : Layout SchIpcIrqRecord) (capacity maxRecords : BitVec w)
    (policy : Fifo.Policy) (s : IpcWorld σ w) : Prop :=
  ∃ (service : SchIpcService σ w) (hal : SchIpcHal σ) (memory : List Byte) (env : σ),
    let made := SchIpc.serviceInit layout service (some hal) (some memory) capacity maxRecords
      (modeOf policy)
    made.1 = true ∧ (∀ tag, (hal.callbacks.service tag).isSome) ∧
      memory.length = capacity.toNat * layout.size ∧ memory.length < 2 ^ w ∧
      s = World.start made.2 env

theorem SchFsi.Started.fresh {layout : Layout SchFsiIrqRecord} {capacity maxRecords : BitVec w}
    {policy : Fifo.Policy} {s : FsiWorld σ w}
    (h : SchFsi.Started layout capacity maxRecords policy s) :
    Fresh layout capacity maxRecords policy s := by
  obtain ⟨service, hal, memory, env, started⟩ := h
  exact ⟨service, hal.callbacks, memory, env, started⟩

theorem SchIpc.Started.fresh {layout : Layout SchIpcIrqRecord} {capacity maxRecords : BitVec w}
    {policy : Fifo.Policy} {s : IpcWorld σ w}
    (h : SchIpc.Started layout capacity maxRecords policy s) :
    Fresh layout capacity maxRecords policy s := by
  obtain ⟨service, hal, memory, env, started⟩ := h
  exact ⟨service, hal.callbacks, memory, env, started⟩

section Example

/-- A board that sleeps until the next interrupt when it has nothing to do, and runs the service
`step` in the task 1 with the context 2. -/
def sleepPort {V A : Type} (step : V → IrqCall A → V) (call : A) : Port (Nat × V) where
  time env := (env.1, env.1 + 1, env.2)
  task fn ctx env := .ret (env.1 + ctx, if fn = 1 ∧ ctx = 2 then step env.2 .run else env.2)
  traceHook _ _ _ _ _ env := (env.1 + 1, env.2)
  idle env := (env.1 + 100, step env.2 (.isr call))

theorem sleepPort_hosts {V A : Type} (cfg : Config) (step : V → IrqCall A → V) (call : A) :
    Hosts cfg (sleepPort step call) step IrqCall.isRun Prod.snd 1 2 where
  read env := Reaches.refl env.2
  hook _ _ _ _ _ env := Reaches.refl env.2
  idle env := ⟨[.isr call], rfl, rfl⟩
  own w := ⟨[.run], rfl, rfl⟩
  others fn ctx w other := by
    have same : (((sleepPort step call).task fn ctx w.env).exec cfg (sleepPort step call) w).env.2 =
        w.env.2 := if_neg other
    rw [same]
    exact Reaches.refl w.env.2

theorem sleepPort_timed {V A : Type} (cfg : Config) (step : V → IrqCall A → V) (call : A) :
    Timed cfg (sleepPort step call) Prod.fst ⟨1, 1, 100, fun _ ctx => ctx⟩ where
  now _ := rfl
  read env := ⟨Nat.le_succ env.1, le_refl _⟩
  hook _ _ _ _ _ env := ⟨Nat.le_succ env.1, le_refl _⟩
  idle env := ⟨Nat.le_add_right env.1 100, le_refl _⟩
  callback fn ctx w := by
    have unread : Takes Prod.fst 0 w w := Elapses.refl w
    have acted := unread.setEnv
      (w.env.1 + ctx, if fn = 1 ∧ ctx = 2 then step w.env.2 .run else w.env.2)
      (Nat.le_add_right w.env.1 ctx) (le_refl _)
    rw [Nat.zero_add] at acted
    exact acted

def sleepyFsi : Nat × FsiWorld Bool 16 :=
  (0, World.start (SchFsi.serviceInit fsiLayout blankRecords (some plainFsi)
    (some (List.replicate 8 0)) 1 2 .dropOldest).2 false)

def sleepyIpc : Nat × IpcWorld Bool 16 :=
  (0, World.start (SchIpc.serviceInit ipcLayout blankRecords (some plainIpc)
    (some (List.replicate 8 0)) 1 2 .dropNewest).2 false)

theorem sleepyFsi_started : SchFsi.Started fsiLayout 1 2 .dropOldest sleepyFsi.2 :=
  ⟨blankRecords, plainFsi, List.replicate 8 0, false, by decide, by rintro ⟨⟩ <;> rfl, by decide,
    by decide, rfl⟩

theorem sleepyIpc_started : SchIpc.Started ipcLayout 1 2 .dropNewest sleepyIpc.2 :=
  ⟨blankRecords, plainIpc, List.replicate 8 0, false, by decide, by rintro ⟨⟩ <;> rfl, by decide,
    by decide, rfl⟩

def fsiPort : Port (Nat × FsiWorld Bool 16) :=
  sleepPort (fsiStep fsiLayout (raiseOnce (.error 4 9))) (.rx 3 8 1)

def ipcPort : Port (Nat × IpcWorld Bool 16) :=
  sleepPort (ipcStep ipcLayout (raiseOnce (.notify 4 9 2))) (.fault 3 8 1)

theorem fsiPort_hosts : Hosts ⟨false, false⟩ fsiPort (fsiStep fsiLayout (raiseOnce (.error 4 9)))
    IrqCall.isRun Prod.snd 1 2 :=
  sleepPort_hosts _ _ _

theorem ipcPort_hosts : Hosts ⟨false, false⟩ ipcPort (ipcStep ipcLayout (raiseOnce (.notify 4 9 2)))
    IrqCall.isRun Prod.snd 1 2 :=
  sleepPort_hosts _ _ _

end Example

/-- Either record service as the component of a task: after every history of scheduler calls its
account is right, and the callbacks of the task bring its records through, as many for each
callback as its budget. -/
theorem hosted_records_cleared (fsi : Layout SchFsiIrqRecord) (ipc : Layout SchIpcIrqRecord) :
    (∀ (view : E → FsiWorld σ w) (fire : σ → List FsiIsr × σ) (capacity maxRecords : BitVec w)
        (policy : Fifo.Policy) (env : E) (positive : 0 < capacity.toNat),
      Hosts cfg port (fsiStep fsi fire) IrqCall.isRun view fn ctx →
      SchFsi.Started fsi capacity maxRecords policy (view env) →
      ClearsRecords cfg port SchFsi.handlers fsi positive policy (fsiStep fsi fire) view fn ctx
        maxRecords.toNat env) ∧
    (∀ (view : E → IpcWorld σ w) (fire : σ → List IpcIsr × σ) (capacity maxRecords : BitVec w)
        (policy : Fifo.Policy) (env : E) (positive : 0 < capacity.toNat),
      Hosts cfg port (ipcStep ipc fire) IrqCall.isRun view fn ctx →
      SchIpc.Started ipc capacity maxRecords policy (view env) →
      ClearsRecords cfg port SchIpc.handlers ipc positive policy (ipcStep ipc fire) view fn ctx
        maxRecords.toNat env) := by
  constructor
  · intro view fire capacity maxRecords policy env positive hosts started
    rw [fsiStep_eq] at hosts ⊢
    exact clears_records hosts (started.fresh.awaits positive)
  · intro view fire capacity maxRecords policy env positive hosts started
    rw [ipcStep_eq] at hosts ⊢
    exact clears_records hosts (started.fresh.awaits positive)

theorem hosted_records_cleared_sleeping :
    Handled SchFsi.handlers (show 0 < (1 : BitVec 16).toNat by decide) .dropOldest
      (history ⟨false, false⟩ fsiPort sleepyFsi
        ([.addTask ⟨1, 2, 150, 40, 0⟩, .run] ++ [.run])).env.2.events (.rx 3 8 1, 0) ∧
    Handled SchIpc.handlers (show 0 < (1 : BitVec 16).toNat by decide) .dropNewest
      (history ⟨false, false⟩ ipcPort sleepyIpc
        ([.addTask ⟨1, 2, 150, 40, 0⟩, .run] ++ [.run])).env.2.events (.fault 3 8 1, 0) := by
  constructor
  · have cleared := (hosted_records_cleared fsiLayout ipcLayout).1 Prod.snd
      (raiseOnce (.error 4 9)) 1 2 .dropOldest sleepyFsi (by decide) fsiPort_hosts
      sleepyFsi_started [.addTask ⟨1, 2, 150, 40, 0⟩, .run] [.run]
      (by refine ⟨?_, ?_, ?_, trivial⟩ <;> (intro env same; cases same))
    exact cleared.2 (.rx 3 8 1, 0) (by decide +kernel)
  · have cleared := (hosted_records_cleared fsiLayout ipcLayout).2 Prod.snd
      (raiseOnce (.notify 4 9 2)) 1 2 .dropNewest sleepyIpc (by decide) ipcPort_hosts
      sleepyIpc_started [.addTask ⟨1, 2, 150, 40, 0⟩, .run] [.run]
      (by refine ⟨?_, ?_, ?_, trivial⟩ <;> (intro env same; cases same))
    exact cleared.2 (.fault 3 8 1, 0) (by decide +kernel)

/-- The latency of either record service: with a task that keeps up with its releases, records
that wait in the ring are through within as many periods as they fill budgets. -/
theorem hosted_records_in_time {clock : E → Nat} {costs : Costs}
    (timed : Timed cfg port clock costs) (fsi : Layout SchFsiIrqRecord)
    (ipc : Layout SchIpcIrqRecord) :
    (∀ (view : E → FsiWorld σ w) (fire : σ → List FsiIsr × σ) (capacity maxRecords : BitVec w)
        (policy : Fifo.Policy) (env : E) (positive : 0 < capacity.toNat),
      Hosts cfg port (fsiStep fsi fire) IrqCall.isRun view fn ctx →
      SchFsi.Started fsi capacity maxRecords policy (view env) →
      ClearsInTime cfg port costs clock SchFsi.handlers positive policy (fsiStep fsi fire) view fn
        ctx maxRecords.toNat env) ∧
    (∀ (view : E → IpcWorld σ w) (fire : σ → List IpcIsr × σ) (capacity maxRecords : BitVec w)
        (policy : Fifo.Policy) (env : E) (positive : 0 < capacity.toNat),
      Hosts cfg port (ipcStep ipc fire) IrqCall.isRun view fn ctx →
      SchIpc.Started ipc capacity maxRecords policy (view env) →
      ClearsInTime cfg port costs clock SchIpc.handlers positive policy (ipcStep ipc fire) view fn
        ctx maxRecords.toNat env) := by
  constructor
  · intro view fire capacity maxRecords policy env positive hosts started
    rw [fsiStep_eq] at hosts ⊢
    exact clears_in_time hosts timed (started.fresh.awaits positive)
  · intro view fire capacity maxRecords policy env positive hosts started
    rw [ipcStep_eq] at hosts ⊢
    exact clears_in_time hosts timed (started.fresh.awaits positive)

theorem hosted_records_in_time_sleeping :
    Handled SchFsi.handlers (show 0 < (1 : BitVec 16).toNat by decide) .dropOldest
      (history ⟨false, false⟩ fsiPort sleepyFsi
        ([] ++ .addTask ⟨1, 2, 150, 40, 0⟩ :: ([.run] ++ [.run, .run]))).env.2.events
      (.rx 3 8 1, 0) ∧
    Handled SchIpc.handlers (show 0 < (1 : BitVec 16).toNat by decide) .dropNewest
      (history ⟨false, false⟩ ipcPort sleepyIpc
        ([] ++ .addTask ⟨1, 2, 150, 40, 0⟩ :: ([.run] ++ [.run, .run]))).env.2.events
      (.fault 3 8 1, 0) := by
  let r : Registration := ⟨0, ⟨1, 2, 150, 40, 0⟩, 0⟩
  constructor
  · have timed : Timed ⟨false, false⟩ fsiPort Prod.fst ⟨1, 1, 100, fun _ ctx => ctx⟩ :=
      sleepPort_timed _ _ _
    have cleared := (hosted_records_in_time timed fsiLayout ipcLayout).1 Prod.snd
      (raiseOnce (.error 4 9)) 1 2 .dropOldest sleepyFsi (by decide) fsiPort_hosts
      sleepyFsi_started [] (.addTask ⟨1, 2, 150, 40, 0⟩) [.run] [.run, .run] r (by decide +kernel)
      rfl rfl (by decide) (by decide) (by decide)
      (by refine ⟨?_, ?_, ?_, ?_, trivial⟩ <;> (intro env same; cases same))
      0 104 1 1 (by unfold Returns; decide +kernel) (by unfold Begins; decide +kernel)
      (by decide +kernel) (by decide) (by decide +kernel) (by decide) (by decide +kernel)
    exact cleared (.rx 3 8 1, 0) (by decide +kernel)
  · have timed : Timed ⟨false, false⟩ ipcPort Prod.fst ⟨1, 1, 100, fun _ ctx => ctx⟩ :=
      sleepPort_timed _ _ _
    have cleared := (hosted_records_in_time timed fsiLayout ipcLayout).2 Prod.snd
      (raiseOnce (.notify 4 9 2)) 1 2 .dropNewest sleepyIpc (by decide) ipcPort_hosts
      sleepyIpc_started [] (.addTask ⟨1, 2, 150, 40, 0⟩) [.run] [.run, .run] r (by decide +kernel)
      rfl rfl (by decide) (by decide) (by decide)
      (by refine ⟨?_, ?_, ?_, ?_, trivial⟩ <;> (intro env same; cases same))
      0 104 1 1 (by unfold Returns; decide +kernel) (by unfold Begins; decide +kernel)
      (by decide +kernel) (by decide) (by decide +kernel) (by decide) (by decide +kernel)
    exact cleared (.fault 3 8 1, 0) (by decide +kernel)

end Services

end SchedulerLib.Services
