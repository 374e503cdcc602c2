import SchedulerLib.IsrBuffer.Channel
import SchedulerLib.Scheduler.Hosting
import SchedulerLib.Services.HostedServices

/-!
Bounded arrivals. A full ring is served within a number of periods. If no stretch of this length
brings more items than the ring holds, then nothing is ever lost, and what was put is taken when
the periods are over; for the motor this means that every fault switches the drive off.
-/

namespace SchedulerLib.Services

open Lib History IsrBuffer Scheduler

section General

variable {σ ρ S Ev α C : Type} {w : Nat} {cfg : Config} {port : Port σ} {clock : σ → Nat}
  {costs : Costs} {c : Channel S Ev α w} {capacity : Nat} {policy : Fifo.Policy}
  {positive : 0 < capacity} {budget : Nat} {step : World S Ev ρ → C → World S Ev ρ}
  {mark : C → Bool} {view : σ → World S Ev ρ} {fn ctx : Address} {env : σ}

/-- No stretch of `calls` whose runs are entered within `width` brings more items than the ring
holds. -/
def BoundedArrivals (cfg : Config) (port : Port σ) (c : Channel S Ev α w) (view : σ → World S Ev ρ)
    (capacity width : Nat) (start : SchWorld σ) (calls : List (Call σ)) : Prop :=
  ∀ early mid late, calls = early ++ mid ++ late →
    Within port width (runs cfg port (early.foldl (Scheduler.step cfg port) start) mid) →
    ((view ((early ++ mid).foldl (Scheduler.step cfg port) start).env).events.filterMap
        c.put).length ≤
      ((view (early.foldl (Scheduler.step cfg port) start).env).events.filterMap c.put).length +
        capacity

theorem refilled_in_time (hosts : Hosts cfg port step mark view fn ctx)
    (timed : Timed cfg port clock costs)
    (brings : Achieves step mark (view env) (c.Brings policy positive budget))
    {before early late : List (Call σ)} {x : Call σ} {r : Registration}
    {gap wait start n : Nat} (own : r.request.fn = fn) (with_ctx : r.request.ctx = ctx)
    (keeps : KeepsUp cfg port costs clock env before x (early ++ late) r gap wait)
    (tended : Tended cfg port step mark view (World.start Sch.init env)
      (before ++ x :: (early ++ late)))
    (served : capacity ≤ n * budget)
    (entered : ∀ t ∈ entryTimes port (runs cfg port (history cfg port env (before ++ [x])) early),
      t ≤ start)
    (near : r.first ≤ start + r.period)
    (reached : ∃ t ∈ (entryTimes port (runs cfg port (history cfg port env (before ++ [x]))
      (early ++ late))).getLast?, start + n * r.period ≤ t)
    {p : List Ev} (later : (view (history cfg port env (before ++ x :: (early ++ late))).env).events
      <+: p)
    (none_lost : (c.replay policy positive p).deleted = [])
    (full : (c.replay policy positive p).queue.items.length = capacity) :
    ((view (history cfg port env (before ++ x :: early)).env).events.filterMap c.put).length +
      capacity ≤ (p.filterMap c.put).length := by
  have brought := hosts.achieves_in_time timed (fun m n v v' le h => h.fewer le) brings before x
    early late r gap wait start n own with_ctx keeps tended entered near reached
  rw [← List.cons_append, ← List.append_assoc] at tended
  obtain ⟨_, until_mid⟩ := hosts.from_start tended.split.1
  have size := (brings _ _ _ (Reaches.refl _) _ until_mid).size_le
  have taken := brought.popped_past (size.trans served) later none_lost
  have whole := Channel.popped_length_add none_lost
  omega

theorem nothing_lost (hosts : Hosts cfg port step mark view fn ctx)
    (timed : Timed cfg port clock costs)
    (brings : Achieves step mark (view env) (c.Brings policy positive budget))
    {before later : List (Call σ)} {x : Call σ} {r : Registration} {gap wait n : Nat}
    (own : r.request.fn = fn) (with_ctx : r.request.ctx = ctx)
    (keeps : KeepsUp cfg port costs clock env before x later r gap wait)
    (prompt : r.delay ≤ r.period)
    (tended : Tended cfg port step mark view (World.start Sch.init env) (before ++ x :: later))
    (served : capacity ≤ n * budget)
    (quiet : (view (history cfg port env (before ++ [x])).env).events.filterMap c.put = [])
    (bounded : BoundedArrivals cfg port c view capacity (n * r.period + wait)
      (history cfg port env (before ++ [x])) later) :
    (c.replay policy positive
      (view (history cfg port env (before ++ x :: later)).env).events).deleted = [] := by
  have all (calls : List (Call σ)) : history cfg port env (before ++ x :: calls) =
      calls.foldl (Scheduler.step cfg port) (history cfg port env (before ++ [x])) := by
    rw [← List.singleton_append, ← List.append_assoc, history_append]
  by_contra lost
  obtain ⟨p, e, a, met, put, none_lost, full⟩ := Channel.first_loss lost
  have whole := Channel.popped_length_add none_lost
  have one_more : ((p ++ [e]).filterMap c.put).length = (p.filterMap c.put).length + 1 := by
    rw [List.filterMap_append, List.length_append]
    simp [put]
  -- the call that brings the front of the full ring
  obtain ⟨k, front⟩ : ∃ k, (p.filterMap c.put).length = k + capacity :=
    ⟨(p.filterMap c.put).length - capacity, by omega⟩
  have put_later : k < ((view (history cfg port env (before ++ x :: later)).env).events.filterMap
      c.put).length := by
    have shown := (met.filterMap c.put).length_le
    omega
  obtain ⟨early, y, rest, rfl, fresh, arrived⟩ := exists_crossing
    (fun calls => k < ((view (history cfg port env (before ++ x :: calls)).env).events.filterMap
      c.put).length) (by rw [quiet]; exact Nat.not_lt_zero k) put_later
  have some_runs : 0 < n := by
    rcases Nat.eq_zero_or_pos n with rfl | more
    · omega
    · exact more
  obtain ⟨near, far, rfl, within, ends⟩ := keeps.window timed prompt some_runs
  have few := bounded early (y :: near) far (by simp) within
  rw [← all, ← all] at few
  have regroup : before ++ x :: (early ++ y :: (near ++ far)) =
      before ++ x :: (early ++ y :: near) ++ far := by simp
  rw [regroup] at tended met
  obtain ⟨_, until_near⟩ := hosts.from_start tended.split.1
  obtain ⟨_, onwards⟩ := hosts.between tended
  have grown := (brings _ _ _ until_near _ onwards).later
  rcases List.prefix_or_prefix_of_prefix met grown with within_stretch | beyond
  · -- the loss falls into the stretch, which brings too little for it
    have shown := (within_stretch.filterMap c.put).length_le
    omega
  · rcases List.prefix_concat_iff.mp beyond with same | earlier
    · rw [same] at few
      omega
    · rcases ends with rfl | reached
      · rw [List.append_nil] at met
        have longer := met.length_le
        have shorter := earlier.length_le
        rw [List.length_append, List.length_singleton] at longer
        omega
      · -- by then the front has been taken
        have split : early ++ y :: near = early ++ [y] ++ near := by simp
        have split' : early ++ y :: (near ++ far) = early ++ y :: near ++ far := by simp
        rw [split'] at keeps
        have kept := keeps.earlier
        rw [split] at kept reached earlier
        have until_stretch := tended.split.1
        rw [split] at until_stretch
        have start := kept.earlier.le_lastEntry timed
        have offset : r.first = r.time + r.delay := rfl
        have refilled := refilled_in_time hosts timed brings own with_ctx kept until_stretch served
          start.2 (by omega) reached earlier none_lost full
        omega

/-- A component whose ring has bounded arrivals, with a task that keeps up with its releases. It
loses nothing, and achieves `Q` when the periods are over in which `n` runs serve a full ring. -/
def LosslessInTime (cfg : Config) (port : Port σ) (costs : Costs) (clock : σ → Nat)
    (c : Channel S Ev α w) (step : World S Ev ρ → C → World S Ev ρ) (mark : C → Bool)
    (view : σ → World S Ev ρ) (fn ctx : Address) (capacity budget : Nat)
    (Q : World S Ev ρ → World S Ev ρ → Prop) (env : σ) : Prop :=
  ∀ (before : List (Call σ)) (x : Call σ) (early late : List (Call σ)) (r : Registration)
      (gap wait start n : Nat), r.request.fn = fn → r.request.ctx = ctx →
    KeepsUp cfg port costs clock env before x (early ++ late) r gap wait → r.delay ≤ r.period →
    Tended cfg port step mark view (World.start Sch.init env) (before ++ x :: (early ++ late)) →
    capacity ≤ n * budget →
    let registered := history cfg port env (before ++ [x])
    let mid := view (history cfg port env (before ++ x :: early)).env
    let fin := view (history cfg port env (before ++ x :: (early ++ late))).env
    (view registered.env).events.filterMap c.put = [] →
    BoundedArrivals cfg port c view capacity (n * r.period + wait) registered (early ++ late) →
    c.Kept fin ∧
      ((∀ t ∈ entryTimes port (runs cfg port registered early), t ≤ start) →
        r.first ≤ start + r.period →
        (∃ t ∈ (entryTimes port (runs cfg port registered (early ++ late))).getLast?,
          start + n * r.period ≤ t) → Q mid fin)

theorem lossless_in_time (hosts : Hosts cfg port step mark view fn ctx)
    (timed : Timed cfg port clock costs) {B : Nat → World S Ev ρ → World S Ev ρ → Prop}
    {Q : World S Ev ρ → World S Ev ρ → Prop} (achieves : Achieves step mark (view env) B)
    (fewer : ∀ m n v v', m ≤ n → B n v v' → B m v v')
    (brings : ∀ n v v', B n v v' → c.Brings policy positive budget n v v')
    (delivers : ∀ n v v', B n v v' → (c.ring v.state).size.toNat ≤ n * budget →
      (c.replay policy positive v'.events).deleted = [] → Q v v') :
    LosslessInTime cfg port costs clock c step mark view fn ctx capacity budget Q env := by
  intro before x early late r gap wait begin n own with_ctx keeps prompt tended served registered
    mid fin quiet bounded
  have all_brings := achieves.imp brings
  have none_lost := nothing_lost hosts timed all_brings own with_ctx keeps prompt tended served quiet
    bounded
  obtain ⟨_, until_end⟩ := hosts.from_start tended
  have account := (all_brings _ _ _ (Reaches.refl _) _ until_end).accounted
  refine ⟨account.kept none_lost, fun entered near later => ?_⟩
  have brought := hosts.achieves_in_time timed fewer achieves before x early late r gap wait begin n
    own with_ctx keeps tended entered near later
  have split : before ++ x :: (early ++ late) = before ++ x :: early ++ late := by simp
  rw [split] at tended
  obtain ⟨_, until_mid⟩ := hosts.from_start tended.split.1
  have size := (all_brings _ _ _ (Reaches.refl _) _ until_mid).size_le
  exact delivers n _ _ brought (size.trans served) none_lost

section Rate

variable {rate gap width : Nat} {start : SchWorld σ} {calls early late : List (Call σ)}

def arrived (c : Channel S Ev α w) (s : World S Ev ρ) : Nat :=
  (s.events.filterMap c.put).length

def Rated (cfg : Config) (port : Port σ) (c : Channel S Ev α w) (view : σ → World S Ev ρ)
    (rate : Nat) : SchWorld σ → List (Call σ) → Prop
  | _, [] => True
  | start, x :: rest =>
    arrived c (view (Scheduler.step cfg port start x).env) ≤
        arrived c (view start.env) + (runs cfg port start [x]).length * rate ∧
      Rated cfg port c view rate (Scheduler.step cfg port start x) rest

instance Rated.decidable : ∀ (start : SchWorld σ) (calls : List (Call σ)),
    Decidable (Rated cfg port c view rate start calls)
  | _, [] => .isTrue trivial
  | start, x :: rest =>
    have : Decidable (Rated cfg port c view rate (Scheduler.step cfg port start x) rest) :=
      Rated.decidable (Scheduler.step cfg port start x) rest
    inferInstanceAs (Decidable (_ ∧ _))

theorem Rated.split (h : Rated cfg port c view rate start (early ++ late)) :
    Rated cfg port c view rate start early ∧
      Rated cfg port c view rate (early.foldl (Scheduler.step cfg port) start) late := by
  induction early generalizing start with
  | nil => exact ⟨trivial, h⟩
  | cons x rest ih =>
    obtain ⟨first, later⟩ := h
    exact ⟨⟨first, (ih later).1⟩, (ih later).2⟩

theorem Rated.arrived_le (h : Rated cfg port c view rate start calls) :
    arrived c (view (calls.foldl (Scheduler.step cfg port) start).env) ≤
      arrived c (view start.env) + (runs cfg port start calls).length * rate := by
  induction calls generalizing start with
  | nil => exact Nat.le_add_right _ _
  | cons x rest ih =>
    obtain ⟨first, later⟩ := h
    have grown := ih later
    rw [← List.singleton_append, runs_append, List.length_append, Nat.add_mul]
    simp only [List.singleton_append, List.foldl_cons, List.foldl_nil] at grown ⊢
    omega

variable (rate gap) in
theorem bounded_of_rate (rated : Rated cfg port c view rate start calls) (positive : 0 < gap)
    (apart : (entryTimes port (runs cfg port start calls)).IsChain fun s u => s + gap ≤ u)
    (room : (width / gap + 1) * rate ≤ capacity) :
    BoundedArrivals cfg port c view capacity width start calls := by
  rintro early mid late rfl within
  have brought := rated.split.1.split.2.arrived_le
  rw [runs_append, runs_append, entryTimes_append, entryTimes_append] at apart
  have few := ReleaseGrid.length_of_within positive _ apart.left_of_append.right_of_append within
  rw [entryTimes, List.length_map] at few
  have most := (Nat.mul_le_mul_right rate few).trans room
  rw [← List.foldl_append] at brought
  exact brought.trans (Nat.add_le_add_left most _)

end Rate

end General

section Services

variable {σ E : Type} {w : Nat} {cfg : Config} {port : Port E} {fn ctx : Address}
  {clock : E → Nat} {costs : Costs}

def Delivered {S Ev α ρ : Type} (c : Channel S Ev α w) (mid fin : World S Ev ρ) : Prop :=
  mid.events.filterMap c.put <+: fin.events.filterMap c.taken

def SchMotor.FaultsOff (mid fin : MotorWorld σ w) : Prop :=
  ∀ before status after, mid.events = before ++ .pushEvent .fault status :: after →
    SwitchedOff (fin.events.drop (before.length + 1))

theorem SchMotor.MotorBrings.faultsOff {u16 : Layout (BitVec 16)} {sample : Layout SchMotorFeedback}
    {eventCapacity feedbackCapacity : Nat} {positiveEvents : 0 < eventCapacity}
    {positiveFeedback : 0 < feedbackCapacity} {budgets : Budgets} {n : Nat} {mid fin : MotorWorld σ w}
    (h : MotorBrings u16 sample positiveEvents positiveFeedback budgets n mid fin)
    (size : mid.state.eventQueue.size.toNat ≤ n * budgets.events)
    (none_lost : ((queued (σ := σ) (w := w) u16).replay .dropOldest positiveEvents
      fin.events).deleted = []) : FaultsOff mid fin := by
  intro before status after split
  rcases h.off_or_lost size split with off | lost
  · exact off
  · rw [none_lost] at lost
    cases lost

/-- Bounded arrivals lose nothing. For each drop-oldest ring of a service that a periodic task runs:
if no stretch of as many periods as a full ring needs, and a run, brings more items than the ring
holds, then none is ever overwritten, all are taken in order, and what is put has been taken when
those periods are over; with the motor's event queue every fault has then switched the drive
off. -/
theorem hosted_services_lossless (timed : Timed cfg port clock costs) (u16 : Layout (BitVec 16))
    (descriptor : Layout SchEepromRequest) (sample : Layout SchMotorFeedback) :
    (∀ (view : E → UartWorld σ w) (fire : σ → List UartEntry × σ) (rxCapacity maxRxItems : BitVec w)
        (env : E), 0 < rxCapacity.toNat →
      Hosts cfg port (uartPreemptedStep u16 fire) UartCall.isRun view fn ctx →
      SchUart.Started u16 rxCapacity maxRxItems (view env) →
      LosslessInTime cfg port costs clock (SchUart.received u16) (uartPreemptedStep u16 fire)
        UartCall.isRun view fn ctx rxCapacity.toNat maxRxItems.toNat
        (Delivered (SchUart.received u16)) env) ∧
    (∀ (view : E → EepromWorld σ w) (fire : σ → List EepromEntry × σ)
        (completionCapacity maxRequests maxCompletions : BitVec w) (env : E),
      0 < completionCapacity.toNat →
      Hosts cfg port (SchI2cEeprom.preemptedStep u16 descriptor fire) EepromCall.isRun view fn ctx →
      SchI2cEeprom.Started u16 descriptor completionCapacity maxRequests maxCompletions (view env) →
      LosslessInTime cfg port costs clock (SchI2cEeprom.completed u16)
        (SchI2cEeprom.preemptedStep u16 descriptor fire) EepromCall.isRun view fn ctx
        completionCapacity.toNat maxCompletions.toNat (Delivered (SchI2cEeprom.completed u16))
        env) ∧
    (∀ (view : E → MotorWorld σ w) (fire : σ → List SchMotorEventId × σ)
        (feedbackSlots eventSlots maxFeedback maxEvents : BitVec w) (env : E),
      0 < feedbackSlots.toNat → 0 < eventSlots.toNat →
      Hosts cfg port (motorPreemptedStep u16 sample fire) MotorCall.isRun view fn ctx →
      SchMotor.Started u16 sample feedbackSlots eventSlots maxFeedback maxEvents (view env) →
      LosslessInTime cfg port costs clock (SchMotor.sampled sample)
        (motorPreemptedStep u16 sample fire) MotorCall.isRun view fn ctx feedbackSlots.toNat
        maxFeedback.toNat (Delivered (SchMotor.sampled sample)) env ∧
      LosslessInTime cfg port costs clock (SchMotor.queued u16) (motorPreemptedStep u16 sample fire)
        MotorCall.isRun view fn ctx eventSlots.toNat maxEvents.toNat
        (fun mid fin => Delivered (SchMotor.queued u16) mid fin ∧ SchMotor.FaultsOff mid fin)
        env) := by
  refine ⟨?_, ?_, ?_⟩
  · intro view fire rxCapacity maxRxItems env positive hosts started
    exact lossless_in_time hosts timed (started.brings positive fire)
      (fun m n v v' le h => h.fewer le) (fun n v v' h => h)
      fun n v v' h size none_lost => h.delivered size none_lost
  · intro view fire completionCapacity maxRequests maxCompletions env positive hosts started
    exact lossless_in_time hosts timed ((started.brings positive fire).imp fun _ _ _ h => h.2)
      (fun m n v v' le h => h.fewer le) (fun n v v' h => h)
      fun n v v' h size none_lost => h.delivered size none_lost
  · intro view fire feedbackSlots eventSlots maxFeedback maxEvents env positiveFeedback
      positiveEvents hosts started
    have brings := started.brings positiveFeedback positiveEvents fire
    constructor
    · exact lossless_in_time hosts timed brings (fun m n v v' le h => h.fewer le)
        (fun n v v' h => h.feedback) fun n v v' h size none_lost => h.feedback.delivered size none_lost
    · exact lossless_in_time hosts timed brings (fun m n v v' le h => h.fewer le)
        (fun n v v' h => h.events) fun n v v' h size none_lost =>
          ⟨h.events.delivered size none_lost, h.faultsOff size none_lost⟩

end Services

section Example

set_option maxRecDepth 4000 in
theorem board_bounded :
    BoundedArrivals ⟨false, false⟩ boardPort (SchUart.received Layout.word16) (fun env => env.2.1) 8
        (1 * 160 + 116) (history ⟨false, false⟩ boardPort boardStart [boardTask 1])
        ([boardTask 2, boardTask 3] ++ fourRuns ++ fourRuns) ∧
      BoundedArrivals ⟨false, false⟩ boardPort (SchI2cEeprom.completed Layout.word16)
        (fun env => env.2.2.1) 9 (1 * 160 + 116)
        (history ⟨false, false⟩ boardPort boardStart [boardTask 1, boardTask 2])
        ([boardTask 3] ++ fourRuns ++ fourRuns) ∧
      BoundedArrivals ⟨false, false⟩ boardPort (SchMotor.queued Layout.word16)
        (fun env => env.2.2.2) 4 (1 * 160 + 116)
        (history ⟨false, false⟩ boardPort boardStart [boardTask 1, boardTask 2, boardTask 3])
        (fourRuns ++ fourRuns) := by
  refine ⟨?_, ?_, ?_⟩
  · exact bounded_of_rate 2 101 (by decide +kernel) (by decide) (by decide +kernel) (by decide)
  · exact bounded_of_rate 3 101 (by decide +kernel) (by decide) (by decide +kernel) (by decide)
  · exact bounded_of_rate 1 101 (by decide +kernel) (by decide) (by decide +kernel) (by decide)

set_option maxRecDepth 4000 in
/-- More arrives on the board than its rings hold. Nothing is lost, and the faults of the first
four runs have switched the drive off. -/
theorem hosted_services_lossless_board :
    (8 < arrived (SchUart.received Layout.word16) boardFin.2.1 ∧
        (SchUart.received Layout.word16).Kept boardFin.2.1) ∧
      (9 < arrived (SchI2cEeprom.completed Layout.word16) boardFin.2.2.1 ∧
        (SchI2cEeprom.completed Layout.word16).Kept boardFin.2.2.1) ∧
      (4 < arrived (SchMotor.queued Layout.word16) boardFin.2.2.2 ∧
        (SchMotor.queued Layout.word16).Kept boardFin.2.2.2) ∧
      SchMotor.FaultsOff boardMid.2.2.2 boardFin.2.2.2 := by
  obtain ⟨uartHosted, eepromHosted, motorHosted⟩ := boardPort_hosts
  obtain ⟨fewBytes, fewCompletions, fewFaults⟩ := board_bounded
  unfold boardMid boardFin
  refine ⟨⟨by decide +kernel, ?_⟩, ⟨by decide +kernel, ?_⟩, ?_⟩
  · have lossless := (hosted_services_lossless boardPort_timed Layout.word16
      SchI2cEeprom.requestLayout SchMotor.feedbackLayout).1 (fun env => env.2.1)
      SchUart.oneMoreByte 8 8 boardStart (by decide) uartHosted boardUart_started []
      (boardTask 1) ([boardTask 2, boardTask 3] ++ fourRuns) fourRuns ⟨0, ⟨1, 9, 160, 40, 0⟩, 0⟩
      0 116 336 1 rfl rfl uart_keepsUp (by decide) (board_tended _ _ _) (by decide)
      (by decide +kernel) fewBytes
    simp only [List.cons_append, List.nil_append] at lossless
    exact lossless.1
  · have lossless := (hosted_services_lossless boardPort_timed Layout.word16
      SchI2cEeprom.requestLayout SchMotor.feedbackLayout).2.1 (fun env => env.2.2.1)
      SchI2cEeprom.completeWhileBusy 9 2 9 boardStart (by decide) eepromHosted boardEeprom_started
      [boardTask 1] (boardTask 2) ([boardTask 3] ++ fourRuns) fourRuns
      ⟨1, ⟨2, 9, 160, 40, 0⟩, 1⟩ 0 116 336 1 rfl rfl eeprom_keepsUp (by decide)
      (board_tended _ _ _) (by decide) (by decide +kernel) fewCompletions
    simp only [List.cons_append, List.nil_append] at lossless
    exact lossless.1
  · have lossless := ((hosted_services_lossless boardPort_timed Layout.word16
      SchI2cEeprom.requestLayout SchMotor.feedbackLayout).2.2 (fun env => env.2.2.2)
      noInterrupt 1 4 1 4 boardStart (by decide) (by decide) motorHosted
      boardMotor_started).2 [boardTask 1, boardTask 2] (boardTask 3) fourRuns fourRuns
      ⟨2, ⟨3, 9, 160, 40, 0⟩, 2⟩ 0 116 336 1 rfl rfl motor_keepsUp (by decide) (board_tended _ _ _)
      (by decide) (by decide +kernel) fewFaults
    simp only [List.cons_append, List.nil_append] at lossless
    have off := lossless.2 (by decide +kernel) (by decide) (by decide +kernel)
    exact ⟨⟨by decide +kernel, lossless.1⟩, off.2⟩

end Example

end SchedulerLib.Services
