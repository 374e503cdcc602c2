import Mathlib.Algebra.BigOperators.Group.Multiset.Basic
import SchedulerLib.IsrBuffer.RingPreemption
import SchedulerLib.Lib.PreemptionRules
import SchedulerLib.Services.RecordDelivery

/-!
The record services statement by statement. Interrupt handlers may preempt a run and each
other between any two statements outside the critical sections, those inside the ring's
functions among them; the delivery of records does not depend on it. A test of a HAL pointer
and the call through it are one statement, as nothing writes the HAL after the init.
-/

namespace SchedulerLib.Services

open Lib IsrBuffer

abbrev IrqMemory (T R σ : Type) (w : Nat) := IrqService T R σ w × σ

/-- The statements that handlers and runs are made of, on a memory `X`. -/
structure IrqStatements (M X A T R : Type) (w : Nat) where
  ackIrq (tag : T) (source : BitVec 16) : Prog M X Unit
  pushRecord (call : A) : Prog M X SchRingPushStatus
  orEventBits (bits : BitVec 32) : Prog M X Unit
  takeEventBits : Prog M X (BitVec 32)
  isEmpty : Prog M X Bool
  maxRecordsPerRun : Prog M X (BitVec w)
  popRecord : Prog M X (Option R)
  service (tag : T) (record : R) : Prog M X Unit

namespace IrqStatements

variable {M X A T R : Type} {w : Nat}

def isrPush (st : IrqStatements M X A T R w) (H : IrqHandlers A T R) (call : A) :
    Prog M X Unit := do
  st.ackIrq (H.tag call) (H.source call)
  let _ ← st.pushRecord call
  st.orEventBits (H.eventBit call)

def dispatch (st : IrqStatements M X A T R w) (H : IrqHandlers A T R) (record : R) :
    Prog M X Unit :=
  match H.classOf record with
  | none => pure ()
  | some tag => st.service tag record

def drainRecords (st : IrqStatements M X A T R w) (H : IrqHandlers A T R) : Nat → Prog M X Unit
  | 0 => pure ()
  | n + 1 => do
    match ← st.popRecord with
    | none => pure ()
    | some record => do
      st.dispatch H record
      drainRecords st H n

/-- The condition under which a run returns at once; `&&` asks the ring only without bits. -/
def idle (st : IrqStatements M X A T R w) (pendingEventBits : BitVec 32) : Prog M X Bool :=
  if pendingEventBits = 0 then st.isEmpty else pure false

def run (st : IrqStatements M X A T R w) (H : IrqHandlers A T R) : Prog M X Unit := do
  let pendingEventBits ← st.takeEventBits
  let idle ← st.idle pendingEventBits
  if idle then pure ()
  else do
    let maxRecords ← st.maxRecordsPerRun
    st.drainRecords H maxRecords.toNat

def runs (st : IrqStatements M X A T R w) (H : IrqHandlers A T R) : Nat → Prog M X Unit
  | 0 => pure ()
  | n + 1 => do
    st.run H
    runs st H n

structure RunRelated {Y : Type} (rel : ∀ {α : Type}, Prog M X α → Prog M Y α → Prop)
    (st : IrqStatements M X A T R w) (st' : IrqStatements M Y A T R w) : Prop where
  takeEventBits : rel st.takeEventBits st'.takeEventBits
  isEmpty : rel st.isEmpty st'.isEmpty
  maxRecordsPerRun : rel st.maxRecordsPerRun st'.maxRecordsPerRun
  popRecord : rel st.popRecord st'.popRecord
  service : ∀ tag record, rel (st.service tag record) (st'.service tag record)

structure Related {Y : Type} (rel : ∀ {α : Type}, Prog M X α → Prog M Y α → Prop)
    (st : IrqStatements M X A T R w) (st' : IrqStatements M Y A T R w) : Prop
    extends RunRelated rel st st' where
  ackIrq : ∀ tag source, rel (st.ackIrq tag source) (st'.ackIrq tag source)
  pushRecord : ∀ call, rel (st.pushRecord call) (st'.pushRecord call)
  orEventBits : ∀ bits, rel (st.orEventBits bits) (st'.orEventBits bits)

def Each (st : IrqStatements M X A T R w) (P : ∀ {α : Type}, Prog M X α → Prop) : Prop :=
  Related (fun p _ => P p) st st

section Related

variable {Y : Type} {rel : ∀ {α : Type}, Prog M X α → Prog M Y α → Prop}
  {st : IrqStatements M X A T R w} {st' : IrqStatements M Y A T R w} (H : IrqHandlers A T R)

theorem Related.isrPush (h : Related rel st st') (c : Prog.Congruent rel) (call : A) :
    rel (st.isrPush H call) (st'.isrPush H call) :=
  c.bind (h.ackIrq _ _) fun _ => c.bind (h.pushRecord call) fun _ => h.orEventBits _

theorem RunRelated.drainRecords (h : RunRelated rel st st') (c : Prog.Congruent rel) (n : Nat) :
    rel (st.drainRecords H n) (st'.drainRecords H n) := by
  induction n with
  | zero => exact c.ret ()
  | succ n ih =>
    refine c.bind h.popRecord fun popped => ?_
    cases popped with
    | none => exact c.ret ()
    | some record =>
      refine c.bind ?_ fun _ => ih
      unfold IrqStatements.dispatch
      cases H.classOf record with
      | none => exact c.ret ()
      | some tag => exact h.service tag record

theorem RunRelated.run (h : RunRelated rel st st') (c : Prog.Congruent rel) :
    rel (st.run H) (st'.run H) := by
  refine c.bind h.takeEventBits fun pending => c.bind ?_ fun idle => ?_
  · unfold IrqStatements.idle
    by_cases none_pending : pending = 0
    · rw [if_pos none_pending, if_pos none_pending]
      exact h.isEmpty
    · rw [if_neg none_pending, if_neg none_pending]
      exact c.ret false
  · cases idle with
    | true => exact c.ret ()
    | false => exact c.bind h.maxRecordsPerRun fun maxRecords => h.drainRecords H c _

theorem RunRelated.runs (h : RunRelated rel st st') (c : Prog.Congruent rel) (n : Nat) :
    rel (st.runs H n) (st'.runs H n) := by
  induction n with
  | zero => exact c.ret ()
  | succ n ih => exact c.bind (h.run H c) fun _ => ih

end Related

end IrqStatements

namespace IrqHandlers

variable {M A T R σ : Type} {w : Nat}

def ringField : Field (IrqMemory T R σ w) (SchSpscRing w) where
  get s := s.1.irqRecords
  set ring s := ({ s.1 with irqRecords := ring }, s.2)
  get_set _ _ := rfl
  set_get _ := rfl
  set_set _ _ _ := rfl

def acknowledged (tag : T) (source : BitVec 16) (s : IrqMemory T R σ w) : IrqMemory T R σ w :=
  match s.1.hal.ackIrq with
  | none => s
  | some ack => (s.1, ack tag source s.2)

def serviced (tag : T) (record : R) (s : IrqMemory T R σ w) : IrqMemory T R σ w :=
  match s.1.hal.service tag with
  | none => s
  | some callback => (s.1, (callback record s.2).2)

def code (H : IrqHandlers A T R) (layout : Layout R) :
    IrqStatements M (IrqMemory T R σ w) A T R w where
  ackIrq tag source := .write (acknowledged tag source)
  pushRecord call :=
    (RingCode.pushIsr (some (layout.toBytes (H.record call)))).inside ringField
  orEventBits bits := .enter fun state => do
    let eventBits ← .read fun s => s.1.eventBits
    .write fun s => ({ s.1 with eventBits := eventBits ||| bits }, s.2)
    .exitCritical state
  takeEventBits := .enter fun state => do
    let pending ← .read fun s => s.1.eventBits
    .write fun s => ({ s.1 with eventBits := 0 }, s.2)
    .exitCritical state
    pure pending
  isEmpty := RingCode.isEmpty.inside ringField
  maxRecordsPerRun := .read fun s => s.1.maxRecordsPerRun
  popRecord := do
    let block ← RingCode.popTask.inside ringField
    pure (block.map layout.ofBytes)
  service tag record := .write (serviced tag record)

def steps (H : IrqHandlers A T R) (layout : Layout R) :
    IrqStatements M (IrqMemory T R σ w) A T R w where
  ackIrq tag source := .atomic fun s => ((), acknowledged tag source s)
  pushRecord call := .atomic (ringField.apply fun ring => ring.pushAs layout (H.record call))
  orEventBits bits := .atomic fun s => ((), { s.1 with eventBits := s.1.eventBits ||| bits }, s.2)
  takeEventBits := .atomic fun s => (s.1.eventBits, { s.1 with eventBits := 0 }, s.2)
  isEmpty := .atomic (ringField.apply fun ring => (ring.isEmpty, ring))
  maxRecordsPerRun := .atomic fun s => (s.1.maxRecordsPerRun, s)
  popRecord := .atomic (ringField.apply fun ring => ring.popAs layout)
  service tag record := .atomic fun s => ((), serviced tag record s)

def logged (H : IrqHandlers A T R) (layout : Layout R) :
    IrqStatements M (IrqWorld A T R σ w) A T R w where
  ackIrq tag source := .atomic fun s => ((), IrqService.acknowledge tag source s)
  pushRecord call := .atomic fun s =>
    let r := s.state.irqRecords.pushAs layout (H.record call)
    (r.1, (s.modify fun service => { service with irqRecords := r.2 }).emit (.push call r.1))
  orEventBits bits := .atomic fun s =>
    ((), s.modify fun service => { service with eventBits := service.eventBits ||| bits })
  takeEventBits := .atomic fun s =>
    (s.state.eventBits, s.modify fun service => { service with eventBits := 0 })
  isEmpty := .atomic fun s => (s.state.irqRecords.isEmpty, s)
  maxRecordsPerRun := .atomic fun s => (s.state.maxRecordsPerRun, s)
  popRecord := .atomic fun s =>
    let r := s.state.irqRecords.popAs layout
    match r.1 with
    | none => (none, s)
    | some record =>
      (some record, (s.modify fun service => { service with irqRecords := r.2 }).emit (.pop record))
  service tag record := .atomic fun s => ((),
    match s.state.hal.service tag with
    | none => s
    | some callback => (s.setEnv (callback record s.env).2).emit (.invoke tag record))

section Steps

variable {I : Type} {port : Masking M I} {handler : I → Prog M (IrqMemory T R σ w) Unit}

/-- Each statement of the code is one step, under handlers that leave the ring's
configuration alone. -/
theorem code_implements (H : IrqHandlers A T R) (layout : Layout R)
    (kept : Prog.Stable port handler fun s => (ringField.get s).config) :
    (H.code layout).Related (fun p q => Prog.Implements port handler p q) (H.steps layout) where
  ackIrq _ _ := Prog.Implements.refl _
  pushRecord _ := RingCode.pushIsr_implements kept _
  orEventBits _ := Prog.Implements.critical fun _ _ => rfl
  takeEventBits := Prog.Implements.critical fun _ _ => rfl
  isEmpty := RingCode.isEmpty_implements kept
  maxRecordsPerRun := Prog.Implements.refl _
  popRecord := (RingCode.popTask_implements kept).bind fun _ => Prog.Implements.refl _
  service _ _ := Prog.Implements.refl _

theorem steps_keep_config (H : IrqHandlers A T R) (layout : Layout R) :
    (H.steps (M := M) (σ := σ) (w := w) layout).Each fun p =>
      p.Within fun s t => (ringField.get t).config = (ringField.get s).config where
  ackIrq tag source := fun s => by
    refine ⟨?_, trivial⟩
    unfold acknowledged
    dsimp only
    cases s.1.hal.ackIrq <;> rfl
  pushRecord call := fun s => ⟨SchSpscRing.config_pushIsr _ _, trivial⟩
  orEventBits _ := fun _ => ⟨rfl, trivial⟩
  takeEventBits := fun _ => ⟨rfl, trivial⟩
  isEmpty := fun _ => ⟨rfl, trivial⟩
  maxRecordsPerRun := fun _ => ⟨rfl, trivial⟩
  popRecord := fun s => ⟨SchSpscRing.config_popTask _, trivial⟩
  service tag record := fun s => by
    refine ⟨?_, trivial⟩
    unfold serviced
    dsimp only
    cases s.1.hal.service tag <;> rfl

theorem steps_unmasked (H : IrqHandlers A T R) (layout : Layout R) :
    (H.steps (M := M) (σ := σ) (w := w) layout).Each fun p => p.Unmasked where
  ackIrq _ _ := fun _ => trivial
  pushRecord _ := fun _ => trivial
  orEventBits _ := fun _ => trivial
  takeEventBits := fun _ => trivial
  isEmpty := fun _ => trivial
  maxRecordsPerRun := fun _ => trivial
  popRecord := fun _ => trivial
  service _ _ := fun _ => trivial

theorem code_runs (H : IrqHandlers A T R) (layout : Layout R) (calls : I → A) (n : Nat)
    {m m' : M} {s s' : IrqMemory T R σ w} {taken : List I}
    (run : Prog.Runs port (fun i => (H.code layout).isrPush H (calls i)) ((H.code layout).runs H n)
      m s taken () m' s') :
    m' = m ∧ Prog.Runs port (fun i => (H.steps layout).isrPush H (calls i))
      ((H.steps layout).runs H n) m s taken () m' s' := by
  have kept : Prog.Stable port (fun i => (H.steps (M := M) layout).isrPush H (calls i))
      fun s : IrqMemory T R σ w => (ringField.get s).config :=
    Prog.stable_of_steps fun i =>
      (steps_keep_config H layout).isrPush H (Prog.within_congruent _) (calls i)
  have implemented := H.code_implements layout kept
  have congruent := Prog.implements_congruent port
    fun i => (H.steps (M := M) (σ := σ) (w := w) layout).isrPush H (calls i)
  have replaced := run.replace fun i => implemented.isrPush H congruent (calls i)
  have stepped := implemented.runs H congruent n m s taken () m' s' replaced
  have unmasked := steps_unmasked (M := M) (σ := σ) (w := w) H layout
  exact ⟨stepped.unmasked (fun i => unmasked.isrPush H Prog.unmasked_congruent (calls i))
    (unmasked.runs H Prog.unmasked_congruent n), stepped⟩

def unlogged (s : IrqWorld A T R σ w) : IrqMemory T R σ w := (s.state, s.env)

theorem steps_logged (H : IrqHandlers A T R) (layout : Layout R) :
    (H.steps layout).Related (fun p q => Prog.Records (M := M) unlogged p q)
      (H.logged (σ := σ) (w := w) layout) where
  ackIrq tag source := by
    refine Prog.Records.atomic (fun _ => rfl) fun s => ?_
    unfold acknowledged IrqService.acknowledge unlogged
    cases s.state.hal.ackIrq <;> rfl
  pushRecord call := Prog.Records.atomic (fun _ => rfl) fun _ => rfl
  orEventBits bits := Prog.Records.atomic (fun _ => rfl) fun _ => rfl
  takeEventBits := Prog.Records.atomic (fun _ => rfl) fun _ => rfl
  isEmpty := Prog.Records.atomic (fun _ => rfl) fun _ => rfl
  maxRecordsPerRun := Prog.Records.atomic (fun _ => rfl) fun _ => rfl
  popRecord := by
    refine Prog.Records.atomic (fun s => ?_) fun s => ?_
    · cases front : (s.state.irqRecords.popAs layout).1 with
      | none => simp [front, unlogged, Field.apply, ringField]
      | some record => simp [front, unlogged, Field.apply, ringField]
    · cases front : (s.state.irqRecords.popAs layout).1 with
      | none =>
        simp [front, unlogged, Field.apply, ringField, SchSpscRing.popAs_none layout front]
      | some record => simp [front, unlogged, Field.apply, ringField]
  service tag record := by
    refine Prog.Records.atomic (fun _ => rfl) fun s => ?_
    unfold serviced unlogged
    dsimp only
    cases s.state.hal.service tag <;> rfl

end Steps

section Pushes

def pushes (events : List (IrqEvent A T R)) : List A :=
  events.filterMap fun
    | .push call _ => some call
    | _ => none

def pushed (s : IrqWorld A T R σ w) : Multiset A := pushes s.events

theorem pushed_emit (s : IrqWorld A T R σ w) (e : IrqEvent A T R) :
    pushed (s.emit e) = pushed s + (pushes [e] : Multiset A) := by
  rw [pushed, World.emit_events, pushes, List.filterMap_append, ← Multiset.coe_add]
  rfl

theorem isrPush_gains (H : IrqHandlers A T R) (layout : Layout R) (call : A) :
    ((H.logged (M := M) (σ := σ) (w := w) layout).isrPush H call).Gains pushed {call} := by
  have acked : ((H.logged (M := M) (σ := σ) (w := w) layout).ackIrq (H.tag call)
      (H.source call)).Gains pushed 0 := by
    refine Prog.gains_atomic fun s => ?_
    unfold IrqService.acknowledge
    cases s.state.hal.ackIrq with
    | none => exact (add_zero _).symm
    | some ack => exact pushed_emit _ _
  have own : ((H.logged (M := M) (σ := σ) (w := w) layout).pushRecord call).Gains pushed
      {call} := Prog.gains_atomic fun s => pushed_emit _ _
  have marked : ((H.logged (M := M) (σ := σ) (w := w) layout).orEventBits
      (H.eventBit call)).Gains pushed 0 := Prog.gains_atomic fun s => (add_zero _).symm
  have all := acked.bind fun _ => own.bind fun _ => marked
  rwa [zero_add, add_zero] at all

theorem run_gains (H : IrqHandlers A T R) (layout : Layout R) :
    (H.logged (M := M) (σ := σ) (w := w) layout).RunRelated
      (fun p _ => p.Gains pushed 0) (H.logged (M := M) (σ := σ) (w := w) layout) where
  takeEventBits := Prog.gains_atomic fun s => (add_zero _).symm
  isEmpty := Prog.gains_atomic fun s => (add_zero _).symm
  maxRecordsPerRun := Prog.gains_atomic fun s => (add_zero _).symm
  popRecord := by
    refine Prog.gains_atomic fun s => ?_
    dsimp only
    cases (s.state.irqRecords.popAs layout).1 with
    | none => exact (add_zero _).symm
    | some record => exact pushed_emit _ _
  service tag record := by
    refine Prog.gains_atomic fun s => ?_
    dsimp only
    cases s.state.hal.service tag with
    | none => exact (add_zero _).symm
    | some callback => exact pushed_emit _ _

theorem runs_pushes {I : Type} {port : Masking M I} (H : IrqHandlers A T R) (layout : Layout R)
    (calls : I → A) (n : Nat) {m m' : M} {s s' : IrqWorld A T R σ w} {taken : List I}
    (run : Prog.Runs port (fun i => (H.logged layout).isrPush H (calls i))
      ((H.logged layout).runs H n) m s taken () m' s') (fresh : s.events = []) :
    (pushes s'.events).Perm (taken.map calls) := by
  have gained := run.gains (fun i => isrPush_gains H layout (calls i))
    ((run_gains H layout).runs H (Prog.gains_congruent pushed) n)
  have each : (taken.map fun i => ({calls i} : Multiset A)).sum = (taken.map calls : List A) := by
    have whole := Multiset.sum_map_singleton ((taken.map calls : List A) : Multiset A)
    rwa [Multiset.map_coe, Multiset.sum_coe, List.map_map] at whole
  have none_before : pushed s = 0 := by
    rw [pushed, fresh]
    rfl
  rw [each, none_before, zero_add, zero_add] at gained
  exact Multiset.coe_eq_coe.mp gained

end Pushes

section Serving

variable {capacity : Nat} {policy : Fifo.Policy} {positive : 0 < capacity}

def effect (hal : IrqHal T R σ) (env : σ) : IrqEvent A T R → σ
  | .ackIrq tag source => (hal.ackIrq.map fun ack => ack tag source env).getD env
  | .push _ _ => env
  | .pop _ => env
  | .invoke tag record => ((hal.service tag).map fun callback => (callback record env).2).getD env

/-- A service with the HAL `hal` and at most `invoked` callback invocations so far, whose
surroundings are what the logged HAL calls made of `env`. -/
structure Serving (H : IrqHandlers A T R) (layout : Layout R) (positive : 0 < capacity)
    (policy : Fifo.Policy) (hal : IrqHal T R σ) (budget : BitVec w) (env : σ)
    (holding : Option R) (invoked : Nat) (s : IrqWorld A T R σ w) : Prop where
  tracked : Tracked H layout positive policy holding s
  callbacks : s.state.hal = hal
  budget : s.state.maxRecordsPerRun = budget
  surroundings : s.env = s.events.foldl (effect hal) env
  invoked : (invocations s.events).length ≤ invoked

variable {H : IrqHandlers A T R} {layout : Layout R} {hal : IrqHal T R σ} {budget : BitVec w}
  {env : σ} {holding : Option R} {invoked : Nat} {s : IrqWorld A T R σ w}

theorem Serving.acknowledge (h : Serving H layout positive policy hal budget env holding invoked s)
    (tag : T) (source : BitVec 16) : Serving H layout positive policy hal budget env holding invoked
      (IrqService.acknowledge tag source s) := by
  have tracked := h.tracked.acknowledge tag source
  unfold IrqService.acknowledge at tracked ⊢
  cases ack : s.state.hal.ackIrq with
  | none => exact h
  | some f =>
    rw [ack] at tracked
    refine ⟨tracked, h.callbacks, h.budget, ?_, ?_⟩
    · have same : hal.ackIrq = some f := by rw [← h.callbacks, ack]
      simp [effect, same, ← h.surroundings]
    · simpa using h.invoked

theorem Serving.push (h : Serving H layout positive policy hal budget env holding invoked s)
    (call : A) : Serving H layout positive policy hal budget env holding invoked
      ((s.modify fun service => { service with
        irqRecords := (s.state.irqRecords.pushAs layout (H.record call)).2 }).emit
          (.push call (s.state.irqRecords.pushAs layout (H.record call)).1)) where
  tracked := by
    refine ⟨h.tracked.throughout.record _ _ ?_, ?_⟩
    · rw [Agrees, replay_push]
      exact h.tracked.throughout.now.push call
    · rw [World.emit_events, held_push]
      exact h.tracked.holding
  callbacks := h.callbacks
  budget := h.budget
  surroundings := by
    rw [World.emit_events, List.foldl_append]
    exact h.surroundings
  invoked := by simpa using h.invoked

theorem Serving.setEventBits
    (h : Serving H layout positive policy hal budget env holding invoked s)
    (bits : BitVec 32 → BitVec 32) :
    Serving H layout positive policy hal budget env holding invoked
      (s.modify fun service => { service with eventBits := bits service.eventBits }) :=
  ⟨h.tracked.setEventBits bits, h.callbacks, h.budget, h.surroundings, h.invoked⟩

theorem Serving.pop (h : Serving H layout positive policy hal budget env none invoked s)
    (record : R) (front : (s.state.irqRecords.popAs layout).1 = some record) :
    Serving H layout positive policy hal budget env (some record) invoked
        ((s.modify fun service => { service with
          irqRecords := (s.state.irqRecords.popAs layout).2 }).emit (.pop record)) ∧
      ∃ call, H.record call = record := by
  obtain ⟨tracked, known⟩ := h.tracked.pop record front
  refine ⟨⟨tracked, h.callbacks, h.budget, ?_, by simpa using h.invoked⟩, known⟩
  rw [World.emit_events, List.foldl_append]
  exact h.surroundings

theorem Serving.dispatch (record : R)
    (h : Serving H layout positive policy hal budget env (some record) invoked s)
    (known : ∃ call, H.record call = record) :
    Serving H layout positive policy hal budget env none (invoked + 1)
      (IrqService.dispatch H.classOf record s) := by
  have tracked := h.tracked.dispatch record known
  unfold IrqService.dispatch at tracked ⊢
  obtain ⟨call, rfl⟩ := known
  rw [H.classOf_record] at tracked ⊢
  obtain ⟨callback, present⟩ := Option.isSome_iff_exists.mp
    (h.tracked.throughout.now.callbacks (H.tag call))
  dsimp only at tracked ⊢
  rw [present] at tracked ⊢
  refine ⟨tracked, h.callbacks, h.budget, ?_, ?_⟩
  · have same : hal.service (H.tag call) = some callback := by rw [← h.callbacks, present]
    simp [effect, same, ← h.surroundings]
  · simpa using h.invoked

theorem isrPush_within (call : A) : Prog.Within (M := M)
    (fun s t => Serving H layout positive policy hal budget env holding invoked s →
      Serving H layout positive policy hal budget env holding invoked t)
    ((H.logged (σ := σ) layout).isrPush H call) := by
  refine Prog.Within.bind (fun s => ⟨fun h => h.acknowledge _ _, trivial⟩) fun _ => ?_
  refine Prog.Within.bind (fun s => ⟨fun h => h.push call, trivial⟩) fun _ => ?_
  exact fun s => ⟨fun h => h.setEventBits (· ||| H.eventBit call), trivial⟩

variable {I : Type} {port : Masking M I} {calls : I → A}

theorem serving_kept (port : Masking M I) (calls : I → A) (H : IrqHandlers A T R)
    (layout : Layout R) (positive : 0 < capacity) (policy : Fifo.Policy) (hal : IrqHal T R σ)
    (budget : BitVec w) (env : σ) (holding : Option R) (invoked : Nat) :
    Prog.Kept port (fun i => (H.logged layout).isrPush H (calls i))
      (Serving H layout positive policy hal budget env holding invoked) :=
  Prog.kept_of_steps fun i => isrPush_within (calls i)

def Serves (H : IrqHandlers A T R) (layout : Layout R) (positive : 0 < capacity)
    (policy : Fifo.Policy) (hal : IrqHal T R σ) (budget : BitVec w) (env : σ)
    (port : Masking M I) (calls : I → A) (p : Prog M (IrqWorld A T R σ w) Unit) (c c' : Nat) :
    Prop :=
  Prog.Holds port (fun i => (H.logged layout).isrPush H (calls i))
    (Serving H layout positive policy hal budget env none c) p fun _ =>
      Serving H layout positive policy hal budget env none c'

theorem Serving.mono {c c' : Nat} (h : Serving H layout positive policy hal budget env holding c s)
    (le : c ≤ c') : Serving H layout positive policy hal budget env holding c' s :=
  ⟨h.tracked, h.callbacks, h.budget, h.surroundings, h.invoked.trans le⟩

theorem serves_nothing {c c' : Nat} (le : c ≤ c') :
    Serves H layout positive policy hal budget env port calls (pure ()) c c' :=
  (Prog.holds_ret (serving_kept port calls H layout positive policy hal budget env none c) ()).imp
    fun _ _ after => after.2.mono le

theorem serves_dispatch (record : R) (c : Nat) :
    Prog.Holds port (fun i => (H.logged layout).isrPush H (calls i))
      (fun s => Serving H layout positive policy hal budget env (some record) c s ∧
        ∃ call, H.record call = record)
      ((H.logged layout).dispatch H record) fun _ =>
        Serving H layout positive policy hal budget env none (c + 1) := by
  have before := (serving_kept port calls H layout positive policy hal budget env (some record)
    c).and_const (∃ call, H.record call = record)
  intro m s taken a m' s' run ⟨h, known⟩
  have class_ : ∃ tag, H.classOf record = some tag := by
    obtain ⟨call, rfl⟩ := known
    exact ⟨_, H.classOf_record call⟩
  obtain ⟨tag, class_⟩ := class_
  rw [IrqStatements.dispatch, class_] at run
  refine Prog.holds_atomic before
    (fun _ => serving_kept port calls H layout positive policy hal budget env none (c + 1))
    (fun s h => ?_) m s taken a m' s' run ⟨h, known⟩
  have dispatched := h.1.dispatch record h.2
  unfold IrqService.dispatch at dispatched
  rwa [class_] at dispatched

theorem serves_drainRecords (n c : Nat) :
    Serves H layout positive policy hal budget env port calls
      ((H.logged layout).drainRecords H n) c (c + n) := by
  induction n generalizing c with
  | zero => exact serves_nothing (Nat.le_refl c)
  | succ n ih =>
    have kept := serving_kept port calls H layout positive policy hal budget env
    let Popped (popped : Option R) (s : IrqWorld A T R σ w) : Prop :=
      match popped with
      | none => Serving H layout positive policy hal budget env none c s
      | some record => Serving H layout positive policy hal budget env (some record) c s ∧
          ∃ call, H.record call = record
    have popped_kept : ∀ popped, Prog.Kept port (fun i => (H.logged layout).isrPush H (calls i))
        (Popped popped) := by
      intro popped
      cases popped with
      | none => exact kept none c
      | some record => exact (kept (some record) c).and_const _
    have pop : Prog.Holds port (fun i => (H.logged layout).isrPush H (calls i))
        (Serving H layout positive policy hal budget env none c) (H.logged layout).popRecord
        Popped := by
      refine Prog.holds_atomic (kept none c) popped_kept fun s h => ?_
      cases front : (s.state.irqRecords.popAs layout).1 with
      | none =>
        simp only [front]
        exact h
      | some record =>
        simp only [front]
        exact h.pop record front
    refine pop.bind fun popped => ?_
    cases popped with
    | none => exact serves_nothing (Nat.le_add_right c (n + 1))
    | some record =>
      refine (serves_dispatch record c).bind fun _ => ?_
      have rest := ih (c + 1)
      rwa [Nat.add_assoc, Nat.add_comm 1 n] at rest

theorem serves_run (c : Nat) :
    Serves H layout positive policy hal budget env port calls ((H.logged layout).run H) c
      (c + budget.toNat) := by
  have kept := serving_kept port calls H layout positive policy hal budget env none c
  have cleared : Prog.Holds port (fun i => (H.logged layout).isrPush H (calls i))
      (Serving H layout positive policy hal budget env none c) (H.logged layout).takeEventBits
      fun _ => Serving H layout positive policy hal budget env none c :=
    Prog.holds_atomic kept (fun _ => kept) fun s h => h.setEventBits fun _ => 0
  refine cleared.bind fun pending => ?_
  have asked : Prog.Holds port (fun i => (H.logged layout).isrPush H (calls i))
      (Serving H layout positive policy hal budget env none c) ((H.logged layout).idle pending)
      fun _ => Serving H layout positive policy hal budget env none c := by
    unfold IrqStatements.idle
    split_ifs
    · exact Prog.holds_atomic kept (fun _ => kept) fun s h => h
    · exact (Prog.holds_ret kept false).imp fun _ _ after => after.2
  refine asked.bind fun idle => ?_
  cases idle with
  | true => exact serves_nothing (Nat.le_add_right c _)
  | false =>
    have read : Prog.Holds port (fun i => (H.logged layout).isrPush H (calls i))
        (Serving H layout positive policy hal budget env none c)
        (H.logged layout).maxRecordsPerRun fun maxRecords s =>
          Serving H layout positive policy hal budget env none c s ∧ maxRecords = budget :=
      Prog.holds_atomic kept (fun _ => kept.and_const _) fun s h => ⟨h, h.budget⟩
    refine read.bind fun maxRecords => ?_
    intro m s taken a m' s' run ⟨h, same⟩
    subst same
    exact serves_drainRecords maxRecords.toNat c m s taken a m' s' run h

theorem serves_runs (n c : Nat) :
    Serves H layout positive policy hal budget env port calls ((H.logged layout).runs H n) c
      (c + n * budget.toNat) := by
  induction n generalizing c with
  | zero => exact serves_nothing (Nat.le_add_right c _)
  | succ n ih =>
    refine (serves_run c).bind fun _ => ?_
    have rest := ih (c + budget.toNat)
    rwa [Nat.add_assoc, Nat.add_comm budget.toNat, ← Nat.succ_mul] at rest

theorem init_preempted (H : IrqHandlers A T R) (layout : Layout R) (service : IrqService T R σ w)
    (hal : IrqHal T R σ) (memory : List Byte) (recordCapacity maxRecords : BitVec w)
    (policy : Fifo.Policy) (env : σ) (positive : 0 < recordCapacity.toNat)
    (ok : (service.init layout (some hal) (some memory) recordCapacity maxRecords
      (modeOf policy)).1 = true)
    (callbacks : ∀ tag, (hal.service tag).isSome)
    (length : memory.length = recordCapacity.toNat * layout.size) (fits : memory.length < 2 ^ w)
    (port : Masking M I) (calls : I → A) (n : Nat) {m m' : M} {s' : IrqMemory T R σ w}
    {taken : List I}
    (run : Prog.Runs port (fun i => (H.code layout).isrPush H (calls i)) ((H.code layout).runs H n)
      m ((service.init layout (some hal) (some memory) recordCapacity maxRecords
        (modeOf policy)).2, env) taken () m' s') :
    m' = m ∧ ∃ s : IrqWorld A T R σ w, unlogged s = s' ∧
      (pushes s.events).Perm (taken.map calls) ∧
      Serving H layout positive policy hal maxRecords env none (n * maxRecords.toNat) s := by
  have tracked := @init_tracked A T R σ w H layout service hal memory recordCapacity maxRecords
    policy env positive ok callbacks length fits
  obtain ⟨restored, stepped⟩ := H.code_runs layout calls n run
  have congruent := Prog.records_congruent (M := M) (unlogged (A := A) (T := T) (R := R) (σ := σ)
    (w := w))
  obtain ⟨s, logged_run, seen⟩ := stepped.recorded
    (fun i => (H.steps_logged layout).isrPush H congruent (calls i))
    ((H.steps_logged layout).runs H congruent n)
    (t := World.start (service.init layout (some hal) (some memory) recordCapacity maxRecords
      (modeOf policy)).2 env) rfl
  refine ⟨restored, s, seen, runs_pushes H layout calls n logged_run rfl, ?_⟩
  have served : Serves H layout positive policy hal maxRecords env port calls
      ((H.logged layout).runs H n) 0 (0 + n * maxRecords.toNat) := serves_runs n 0
  rw [Nat.zero_add] at served
  refine served _ _ _ _ _ _ logged_run ⟨tracked, ?_, ?_, rfl, Nat.le_refl 0⟩
  · unfold IrqService.init at ok ⊢
    dsimp only at ok ⊢
    split_ifs at ok ⊢
    rfl
  · unfold IrqService.init at ok ⊢
    dsimp only at ok ⊢
    split_ifs at ok ⊢
    rfl

end Serving

/-- The account of `n` runs that start with the interrupt state `m` and the surroundings `env`,
enter handlers with the calls `taken` and end with `m'` and `s'`: a log of which the surroundings
saw exactly the HAL calls in their order, which has one push for each handler, and in which the
delivery of records is accounted for at every entry. -/
structure DeliversPreempted {capacity : Nat} (H : IrqHandlers A T R) (layout : Layout R)
    (positive : 0 < capacity) (policy : Fifo.Policy) (hal : IrqHal T R σ) (budget : BitVec w)
    (env : σ) (n : Nat) (taken : List A) (m m' : M) (s' : IrqMemory T R σ w) : Prop where
  restored : m' = m
  explained : ∃ s : IrqWorld A T R σ w, unlogged s = s' ∧
    s.env = s.events.foldl (effect hal) env ∧ (pushes s.events).Perm taken ∧
    held s.events = none ∧
    (invocations s.events).length ≤ n * budget.toNat ∧
    World.Throughout (Accounted H layout positive policy) s

theorem init_delivers_preempted {I : Type} (H : IrqHandlers A T R) (layout : Layout R)
    (service : IrqService T R σ w) (hal : IrqHal T R σ) (memory : List Byte)
    (recordCapacity maxRecords : BitVec w) (policy : Fifo.Policy) (env : σ)
    (positive : 0 < recordCapacity.toNat)
    (ok : (service.init layout (some hal) (some memory) recordCapacity maxRecords
      (modeOf policy)).1 = true)
    (callbacks : ∀ tag, (hal.service tag).isSome)
    (length : memory.length = recordCapacity.toNat * layout.size) (fits : memory.length < 2 ^ w)
    (port : Masking M I) (calls : I → A) (n : Nat) (taken : List I) (m m' : M)
    (s' : IrqMemory T R σ w)
    (run : Prog.Runs port (fun i => (H.code layout).isrPush H (calls i)) ((H.code layout).runs H n)
      m ((service.init layout (some hal) (some memory) recordCapacity maxRecords
        (modeOf policy)).2, env) taken () m' s') :
    DeliversPreempted H layout positive policy hal maxRecords env n (taken.map calls) m m' s' := by
  obtain ⟨restored, s, seen, one_each, served⟩ := init_preempted H layout service hal memory
    recordCapacity maxRecords policy env positive ok callbacks length fits port calls n run
  exact ⟨restored, s, seen, served.surroundings, one_each, served.tracked.holding, served.invoked,
    served.tracked.throughout.mono fun _ _ agrees => agrees.accounted⟩

end IrqHandlers

open IrqHandlers

end SchedulerLib.Services
