import Mathlib.Computability.Language
import SchedulerLib.Scheduler.HandOver

/-!
The trace against what was called. Trace events and calls of a run together are a word of a
small regular language in which every callback stands between the two events for it. Each
timestamp is the time read last, so that timestamps are in order if the clock is.
-/

namespace SchedulerLib.Scheduler

open Lib
open scoped Computability

/-- What the hook sees, and the calls that it is to be told of. -/
inductive Shown where
  | trace (event : SchTraceEvent) (taskId : Int)
  | callback (phase : Phase) (id : Fin schMaxTasks)
  | returned (phase : Phase) (id : Fin schMaxTasks)
  | idle
  deriving DecidableEq, Repr

def SchEvent.shown : SchEvent → Option Shown
  | .trace event taskId _ => some (.trace event taskId)
  | .callback phase id _ _ => some (.callback phase id)
  | .returned phase id => some (.returned phase id)
  | .idle => some .idle
  | _ => none

def shown (events : List SchEvent) : List Shown := events.filterMap SchEvent.shown

def bracketed (phase : Phase) (id : Fin schMaxTasks) : List Shown :=
  [.trace .taskStart id, .callback phase id, .returned phase id, .trace .taskEnd id]

def misses : Language Shown := {word | ∃ i : Fin schMaxTasks, word = [.trace .taskMiss i]}

def turns : Language Shown := {word | ∃ i : Fin schMaxTasks, word = bracketed .periodic i ∨
  word = bracketed .periodic i ++ [.trace .taskOverrun i]}

def background : Language Shown := {word | ∃ i, word = bracketed .background i}

def idling : Language Shown := {word | word = [.trace .idle (-1), .idle]}

def runLanguage : Language Shown := misses∗ * turns∗ * (background + idling)

theorem kstar_concat {α : Type} {L : Language α} {x y : List α} (front : x ∈ L∗) (last : y ∈ L) :
    x ++ y ∈ L∗ :=
  kstar_mul_le_kstar (a := L) (Language.append_mem_mul front last)

section Matched

def Shown.started : Shown → Option Int
  | .trace .taskStart id => some id
  | _ => none

def Shown.ended : Shown → Option Int
  | .trace .taskEnd id => some id
  | _ => none

def Shown.called : Shown → Option Int
  | .callback _ id => some id
  | _ => none

structure Matched (word : List Shown) : Prop where
  started : word.filterMap Shown.started = word.filterMap Shown.called
  ended : word.filterMap Shown.ended = word.filterMap Shown.called

theorem Matched.append {x y : List Shown} (h : Matched x) (k : Matched y) : Matched (x ++ y) := by
  refine ⟨?_, ?_⟩
  · rw [List.filterMap_append, List.filterMap_append, h.started, k.started]
  · rw [List.filterMap_append, List.filterMap_append, h.ended, k.ended]

theorem matched_kstar {L : Language Shown} (each : ∀ word ∈ L, Matched word) {word : List Shown}
    (h : word ∈ L∗) : Matched word := by
  obtain ⟨parts, rfl, mem⟩ := Language.mem_kstar.mp h
  induction parts with
  | nil => exact ⟨rfl, rfl⟩
  | cons part rest ih =>
    obtain ⟨first, later⟩ := List.forall_mem_cons.mp mem
    exact (each part first).append (ih later (Language.join_mem_kstar later))

theorem bracketed_matched (phase : Phase) (id : Fin schMaxTasks) :
    Matched (bracketed phase id) := ⟨rfl, rfl⟩

theorem matched_of_run {word : List Shown} (h : word ∈ runLanguage) : Matched word := by
  obtain ⟨front, ⟨missed, hmissed, executed, hexecuted, rfl⟩, last, hlast, rfl⟩ :=
    Language.mem_mul.mp h
  refine Matched.append (Matched.append (matched_kstar ?_ hmissed) (matched_kstar ?_ hexecuted)) ?_
  · rintro word ⟨i, rfl⟩
    exact ⟨rfl, rfl⟩
  · rintro word ⟨i, rfl | rfl⟩
    · exact bracketed_matched .periodic i
    · exact (bracketed_matched .periodic i).append ⟨rfl, rfl⟩
  · rcases hlast with ⟨i, rfl⟩ | rfl
    · exact bracketed_matched .background i
    · exact ⟨rfl, rfl⟩

end Matched

def SchEvent.timestamp : SchEvent → Option (BitVec 32)
  | .trace _ _ timestamp => some timestamp
  | _ => none

def timestamps (events : List SchEvent) : List (BitVec 32) := events.filterMap SchEvent.timestamp

def latestTime (events : List SchEvent) : Nat := History.latest SchEvent.reading 0 events

/-- The true times read last before each event of the trace. -/
def stamps (events : List SchEvent) : List Nat :=
  History.observations SchEvent.reading (fun e => e.timestamp.isSome) 0 events

def Stamped (events : List SchEvent) : Prop :=
  timestamps events = (stamps events).map (BitVec.ofNat 32)

theorem Stamped.concat {events : List SchEvent} (h : Stamped events) (e : SchEvent)
    (own : ∀ timestamp, e.timestamp = some timestamp →
      timestamp = BitVec.ofNat 32 (latestTime events)) : Stamped (events ++ [e]) := by
  rw [Stamped, timestamps, List.filterMap_append, stamps, History.observations_append_singleton,
    List.map_append]
  refine congrArg₂ _ h ?_
  cases stamp : e.timestamp with
  | none => rw [List.filterMap_cons_none stamp]; rfl
  | some timestamp =>
    rw [List.filterMap_cons_some stamp, own timestamp stamp]
    rfl

theorem nowTicks_latest {σ : Type} (port : Port σ) (w : SchWorld σ) :
    (nowTicks port w).1 = BitVec.ofNat 32 (latestTime (nowTicks port w).2.events) := by
  have latest := History.latest_of_write SchEvent.reading 0 (w.setEnv (port.time w.env).2).events
    (.nowTicks (port.time w.env).1) _ rfl
  rw [nowTicks, World.emit_events, latestTime, latest]

def SchEvent.uninstalls : SchEvent → Bool
  | .setTraceHook hook _ => hook == 0
  | _ => false

variable {σ : Type}

/-- As long as the hook stays installed, `labels` are shown; timestamps are right anyway. -/
structure Shows (labels : List Shown) (w w' : SchWorld σ) : Prop where
  log : ∃ l, w'.log = w.log ++ l ∧ (w.state.traceHook ≠ 0 →
    (∀ x ∈ l, x.1.uninstalls = false) →
      shown (l.map Prod.fst) = labels ∧ w'.state.traceHook ≠ 0)
  stamped : Stamped w.events → Stamped w'.events

namespace Shows

variable {labels labels' : List Shown} {w₀ w w₁ w₂ w₃ : SchWorld σ}

theorem refl (w : SchWorld σ) : Shows [] w w :=
  ⟨⟨[], (List.append_nil _).symm, fun hook _ => ⟨rfl, hook⟩⟩, id⟩

theorem trans (h : Shows labels w₁ w₂) (k : Shows labels' w₂ w₃) :
    Shows (labels ++ labels') w₁ w₃ := by
  obtain ⟨l, log, seen⟩ := h.log
  obtain ⟨m, log', seen'⟩ := k.log
  refine ⟨⟨l ++ m, ?_, fun hook stays => ?_⟩, k.stamped ∘ h.stamped⟩
  · exact World.log_trans log log'
  · obtain ⟨first, hook'⟩ := seen hook fun x mem => stays x (List.mem_append_left _ mem)
    obtain ⟨second, hook''⟩ := seen' hook' fun x mem => stays x (List.mem_append_right _ mem)
    refine ⟨?_, hook''⟩
    rw [List.map_append, shown, List.filterMap_append]
    exact congrArg₂ _ first second

theorem setEnv (h : Shows labels w₀ w) (env : σ) : Shows labels w₀ (w.setEnv env) :=
  ⟨h.log, h.stamped⟩

theorem setState (h : Shows labels w₀ w) (s : Sch) (same : s.traceHook = w.state.traceHook) :
    Shows labels w₀ (w.setState s) := by
  obtain ⟨l, log, seen⟩ := h.log
  refine ⟨⟨l, log, fun hook stays => ?_⟩, h.stamped⟩
  rw [World.setState_state, same]
  exact seen hook stays

theorem setStats (h : Shows labels w₀ w) (i : Fin schMaxTasks) (stats : SchTaskStats) :
    Shows labels w₀ (w.modify fun s => s.setStats i stats) :=
  h.setState (w.state.setStats i stats) rfl

theorem emit (h : Shows labels w₀ w) (e : SchEvent)
    (own : ∀ timestamp, e.timestamp = some timestamp →
      timestamp = BitVec.ofNat 32 (latestTime w.events)) :
    Shows (labels ++ e.shown.toList) w₀ (w.emit e) := by
  refine h.trans ⟨⟨[(e, w.state)], rfl, fun hook _ => ⟨?_, hook⟩⟩, fun stamped => ?_⟩
  · cases visible : e.shown <;> simp [shown, visible]
  · rw [World.emit_events]
    exact stamped.concat e own

theorem unseen (h : Shows labels w₀ w) (e : SchEvent) (invisible : e.shown = none) :
    Shows labels w₀ (w.emit e) := by
  have more := h.emit e fun timestamp stamp => by
    cases e with
    | trace => cases invisible
    | _ => cases stamp
  rwa [invisible, Option.toList_none, List.append_nil] at more

theorem withstands (cfg : Config) : Withstands cfg (Shows labels w₀) where
  setEnv _ env h := h.setEnv env
  read _ time h := h.unseen (.nowTicks time) rfl
  refuse _ request error _ h := h.unseen (.refused request error) rfl
  register v r _ h := by
    refine Shows.unseen (h.setState (v.state.register cfg r.id r.task) ?_)
      (.added r.id r.request r.time) rfl
    unfold Sch.register
    split_ifs <;> rfl
  resetStats v h :=
    (h.setState { v.state with stats := fun _ => statsClearSlot } rfl).unseen .resetStats rfl
  setTraceHook v hook userCtx h := by
    obtain ⟨l, log, seen⟩ := h.log
    refine ⟨⟨l ++ [(.setTraceHook hook userCtx, (setTraceHook hook userCtx v).state)], ?_,
      fun installed stays => ⟨?_, ?_⟩⟩, fun stamped => ?_⟩
    · rw [← List.append_assoc, ← log]
      rfl
    · obtain ⟨first, -⟩ := seen installed fun x mem => stays x (List.mem_append_left _ mem)
      rw [List.map_append, shown, List.filterMap_append]
      exact (List.append_nil _).trans first
    · have kept := stays _ (List.mem_append_right l List.mem_cons_self)
      exact beq_eq_false_iff_ne.mp kept
    · rw [Scheduler.setTraceHook, World.emit_events]
      exact (h.stamped stamped).concat _ fun timestamp stamp => by cases stamp

section Pieces

variable (stats : Bool) (port : Port σ)

theorem nowTicks (h : Shows labels w₀ w) : Shows labels w₀ (nowTicks port w).2 :=
  (withstands ⟨true, true⟩).nowTicks port h

theorem traceEmit (h : Shows labels w₀ w) (event : SchTraceEvent) (taskId : Int)
    (timestamp : BitVec 32) (own : timestamp = BitVec.ofNat 32 (latestTime w.events)) :
    Shows (labels ++ [.trace event taskId]) w₀ (traceEmit port event taskId timestamp w) := by
  unfold Scheduler.traceEmit
  split_ifs with removed
  · obtain ⟨l, log, seen⟩ := h.log
    exact ⟨⟨l, log, fun hook stays => absurd removed (seen hook stays).2⟩, h.stamped⟩
  · exact (h.setEnv _).emit (.trace event taskId timestamp) fun other same => by
      cases same
      exact own

theorem traceNow (h : Shows labels w₀ w) (event : SchTraceEvent) (taskId : Int) :
    Shows (labels ++ [.trace event taskId]) w₀
      (traceNow ⟨stats, true⟩ port event taskId w) :=
  (h.nowTicks port).traceEmit port event taskId _ (nowTicks_latest port w)

theorem statsBegin (h : Shows labels w₀ w) (i : Fin schMaxTasks) :
    Shows labels w₀ (statsBegin ⟨stats, true⟩ port i w).2 := by
  unfold Scheduler.statsBegin
  split_ifs
  · exact (h.nowTicks port).setStats i _
  · exact h

theorem statsEnd (h : Shows labels w₀ w) (i : Fin schMaxTasks) (execStart : BitVec 32) :
    Shows labels w₀ (statsEnd ⟨stats, true⟩ port i execStart w) := by
  unfold Scheduler.statsEnd
  split_ifs
  · exact Shows.unseen ((h.nowTicks port).setStats i
      (((Scheduler.nowTicks port w).2.state.stats i).account (Scheduler.nowTicks port w).1))
      (.completed i execStart _) rfl
  · exact h

theorem callTask (h : Shows labels w₀ w) (phase : Phase) (i : Fin schMaxTasks)
    (fn ctx : Address) : Shows (labels ++ [.callback phase i] ++ [.returned phase i]) w₀
      (callTask ⟨stats, true⟩ port phase i fn ctx w) := by
  have called := h.emit (.callback phase i fn ctx) fun _ stamp => by cases stamp
  exact ((withstands ⟨stats, true⟩).exec port _ called).emit (.returned phase i)
    fun _ stamp => by cases stamp

theorem checkOverrun (h : Shows labels w₀ w) (i : Fin schMaxTasks) (period : BitVec 32) :
    Shows labels w₀ (checkOverrun ⟨stats, true⟩ port i period w) ∨
      Shows (labels ++ [.trace .taskOverrun i]) w₀
        (checkOverrun ⟨stats, true⟩ port i period w) := by
  have read := h.nowTicks port
  have latest := nowTicks_latest port w
  unfold Scheduler.checkOverrun
  dsimp only
  by_cases late : period ≠ 0 ∧ timeReached (Scheduler.nowTicks port w).1
      ((Scheduler.nowTicks port w).2.state.tasks i).nextRelease = true
  · refine Or.inr ?_
    rw [if_pos late, if_pos rfl]
    split_ifs
    · exact (read.setStats i _).traceEmit port _ _ _ latest
    · exact read.traceEmit port _ _ _ latest
  · rw [if_neg late]
    exact Or.inl read

theorem executePeriodic (h : Shows labels w₀ w) (now : BitVec 32) (i : Fin schMaxTasks) :
    ∃ turn ∈ turns, Shows (labels ++ turn) w₀ (executePeriodic ⟨stats, true⟩ port now i w) := by
  have released := h.setState (w.state.release now i) rfl
  have begun := (released.statsBegin stats port i).traceNow stats port .taskStart i
  have called := begun.callTask stats port .periodic i (w.state.tasks i).fn (w.state.tasks i).ctx
  have ended := (called.statsEnd stats port i (Scheduler.statsBegin ⟨stats, true⟩ port i
    (w.modify fun s => s.release now i)).1).traceNow stats port .taskEnd i
  simp only [List.append_assoc, List.cons_append, List.nil_append] at ended
  rcases ended.checkOverrun stats port i (w.state.tasks i).periodTicks with checked | late
  · exact ⟨_, ⟨i, Or.inl rfl⟩, checked⟩
  · rw [List.append_assoc] at late
    exact ⟨_, ⟨i, Or.inr rfl⟩, late⟩

theorem runPeriodic (h : Shows labels w₀ w) (now : BitVec 32) (n : Nat) :
    ∃ word ∈ turns∗, Shows (labels ++ word) w₀ (runPeriodic ⟨stats, true⟩ port now n w) := by
  refine runPeriodic_keeps ⟨stats, true⟩ port
    (fun v => ∃ word ∈ turns∗, Shows (labels ++ word) w₀ v) now n w ?_ ?_
  · exact ⟨[], Language.nil_mem_kstar _, by rwa [List.append_nil]⟩
  · rintro v i - ⟨word, earlier, before⟩
    obtain ⟨turn, one, shows⟩ := before.executePeriodic stats port now i
    rw [List.append_assoc] at shows
    exact ⟨word ++ turn, kstar_concat earlier one, shows⟩

theorem runIdle (h : Shows labels w₀ w) :
    ∃ word ∈ idling, Shows (labels ++ word) w₀ (runIdle ⟨stats, true⟩ port w) := by
  have traced := h.traceNow stats port .idle schInvalidTaskId
  have idle := (traced.setEnv (port.idle (Scheduler.traceNow ⟨stats, true⟩ port .idle
    schInvalidTaskId w).env)).emit .idle fun _ stamp => by cases stamp
  rw [List.append_assoc] at idle
  exact ⟨_, rfl, idle⟩

theorem executeBackground (h : Shows labels w₀ w) (i : Fin schMaxTasks) (fn ctx : Address) :
    ∃ word ∈ background,
      Shows (labels ++ word) w₀ (executeBackground ⟨stats, true⟩ port i fn ctx w) := by
  have begun := (h.traceNow stats port .taskStart i).statsBegin stats port i
  have called := begun.callTask stats port .background i fn ctx
  have ended := (called.statsEnd stats port i (Scheduler.statsBegin ⟨stats, true⟩ port i
    (Scheduler.traceNow ⟨stats, true⟩ port .taskStart i w)).1).traceNow stats port .taskEnd i
  simp only [List.append_assoc, List.cons_append, List.nil_append] at ended
  exact ⟨_, ⟨i, rfl⟩, ended⟩

theorem runBackground (h : Shows labels w₀ w) :
    ∃ word ∈ background + idling,
      Shows (labels ++ word) w₀ (runBackground ⟨stats, true⟩ port w) := by
  have selected : Shows labels w₀ (w.setState (selectBackgroundTask w.state).2) := by
    refine h.setState _ ?_
    unfold selectBackgroundTask
    dsimp only
    split <;> rfl
  refine runBackground_keeps ⟨stats, true⟩ port (Shows labels w₀)
    (fun v => ∃ word ∈ background + idling, Shows (labels ++ word) w₀ v) w selected
    (fun v before => ?_) fun v i _ before => ?_
  · obtain ⟨word, idle, shows⟩ := before.runIdle stats port
    exact ⟨word, Or.inr idle, shows⟩
  · obtain ⟨word, executed, shows⟩ := before.executeBackground stats port i _ _
    exact ⟨word, Or.inl executed, shows⟩

end Pieces

theorem shown_eq (h : Shows labels w₁ w₂) (installed : w₁.state.traceHook ≠ 0)
    (stays : ∀ x ∈ World.since w₁ w₂, x.1.uninstalls = false) :
    shown (World.eventsSince w₁ w₂) = labels ∧ w₂.state.traceHook ≠ 0 := by
  obtain ⟨l, log, seen⟩ := h.log
  rw [World.since_of_log _ _ l log] at stays
  rw [World.eventsSince_of_log _ _ l log]
  exact seen installed stays

end Shows

structure ShowsMisses (labels : List Shown) (now : BitVec 32) (w w' : SchWorld σ) : Prop where
  current : now = BitVec.ofNat 32 (latestTime w'.events)
  shows : ∃ word ∈ misses∗, Shows (labels ++ word) w w'

section Mark

variable {labels : List Shown} {now : BitVec 32} {w₀ w : SchWorld σ} (stats : Bool)
  (port : Port σ)

theorem traceEmit_latest (event : SchTraceEvent) (taskId : Int) (timestamp : BitVec 32)
    (w : SchWorld σ) : latestTime (traceEmit port event taskId timestamp w).events =
      latestTime w.events := by
  unfold traceEmit
  split_ifs
  · rfl
  · rw [World.emit_events, latestTime, History.latest_of_no_write _ _ _ _ rfl]
    rfl

theorem ShowsMisses.noteMiss (h : ShowsMisses labels now w₀ w) (i : Fin schMaxTasks) :
    ShowsMisses labels now w₀ (noteMiss ⟨stats, true⟩ port now i w) := by
  refine noteMiss_keeps ⟨stats, true⟩ port (ShowsMisses labels now w₀) now i w h
    (fun v old => ?_) fun v old => ?_
  · obtain ⟨word, only, shows⟩ := old.shows
    exact ⟨old.current, word, only, shows.setStats i _⟩
  · obtain ⟨word, only, shows⟩ := old.shows
    refine ⟨?_, word ++ [.trace .taskMiss i], kstar_concat only ⟨i, rfl⟩, ?_⟩
    · rw [traceEmit_latest]
      exact old.current
    · rw [← List.append_assoc]
      exact shows.traceEmit port .taskMiss i now old.current

theorem ShowsMisses.markSlot (h : ShowsMisses labels now w₀ w) (i : Fin schMaxTasks) :
    ShowsMisses labels now w₀ (markSlot ⟨stats, true⟩ port now w i) := by
  have noted := h.noteMiss stats port i
  unfold Scheduler.markSlot
  dsimp only
  split_ifs
  · exact h
  · generalize Scheduler.noteMiss _ _ _ _ _ = v at noted ⊢
    obtain ⟨word, only, shows⟩ := noted.shows
    exact ⟨noted.current, word, only,
      shows.setState (v.state.setTask i { v.state.tasks i with pending := true }) rfl⟩
  · exact h

theorem ShowsMisses.markPeriodicReady (h : ShowsMisses labels now w₀ w) :
    ShowsMisses labels now w₀ (markPeriodicReady ⟨stats, true⟩ port now w) :=
  markPeriodicReady_keeps ⟨stats, true⟩ port (ShowsMisses labels now w₀) now w h
    fun _ i old => old.markSlot stats port i

end Mark

section Calls

variable (stats : Bool) (port : Port σ)

theorem run_shows (w : SchWorld σ) :
    ∃ word ∈ runLanguage, Shows word w (run ⟨stats, true⟩ port w) := by
  have read : ShowsMisses [] (nowTicks port w).1 w (nowTicks port w).2 :=
    ⟨nowTicks_latest port w, [], Language.nil_mem_kstar _, (Shows.refl w).nowTicks port⟩
  obtain ⟨first, missed, marked⟩ := (read.markPeriodicReady stats port).shows
  obtain ⟨second, executed, looped⟩ := marked.runPeriodic stats port (nowTicks port w).1 schMaxTasks
  obtain ⟨third, last, done⟩ := looped.runBackground stats port
  exact ⟨_, Language.append_mem_mul (Language.append_mem_mul missed executed) last, done⟩

theorem step_shows (w : SchWorld σ) (c : Call σ) :
    ∃ labels, Shows labels w (step ⟨stats, true⟩ port w c) := by
  have outside : Withstands ⟨stats, true⟩ (Shows [] w) := Shows.withstands ⟨stats, true⟩
  have none_shown := Shows.refl w
  cases c with
  | elapse env => exact ⟨[], outside.setEnv w env none_shown⟩
  | addTask request => exact ⟨[], outside.addTask port none_shown request⟩
  | enableTask taskId enable => exact ⟨[], none_shown⟩
  | resetStats => exact ⟨[], outside.resetStats w none_shown⟩
  | setTraceHook hook userCtx => exact ⟨[], outside.setTraceHook w hook userCtx none_shown⟩
  | run =>
    obtain ⟨word, -, shows⟩ := run_shows stats port w
    exact ⟨word, shows⟩

theorem steps_show (w : SchWorld σ) (calls : List (Call σ)) :
    ∃ labels, Shows labels w (calls.foldl (step ⟨stats, true⟩ port) w) := by
  induction calls generalizing w with
  | nil => exact ⟨[], Shows.refl w⟩
  | cons c rest ih =>
    obtain ⟨first, shows⟩ := step_shows stats port w c
    obtain ⟨later, shows'⟩ := ih (step ⟨stats, true⟩ port w c)
    exact ⟨first ++ later, shows.trans shows'⟩

theorem runs_shown (w : SchWorld σ) (calls : List (Call σ)) (installed : w.state.traceHook ≠ 0)
    (stays : ∀ x ∈ World.since w (calls.foldl (step ⟨stats, true⟩ port) w),
      x.1.uninstalls = false) :
    ∀ u ∈ runs ⟨stats, true⟩ port w calls, shown (World.eventsSince u.1 u.2) ∈ runLanguage := by
  induction calls generalizing w with
  | nil => exact fun u mem => by cases mem
  | cons c rest ih =>
    obtain ⟨first, shows⟩ := step_shows stats port w c
    obtain ⟨later, shows'⟩ := steps_show stats port (step ⟨stats, true⟩ port w c) rest
    obtain ⟨l, log, -⟩ := shows.log
    obtain ⟨m, log', -⟩ := shows'.log
    rw [List.foldl_cons, World.since_append log log'] at stays
    have stays₁ := fun x mem => stays x (List.mem_append_left _ mem)
    have stays₂ := fun x mem => stays x (List.mem_append_right _ mem)
    have rest_shown := ih _ (shows.shown_eq installed stays₁).2 stays₂
    by_cases isRun : c = .run
    · subst isRun
      obtain ⟨word, shape, shows⟩ := run_shows stats port w
      refine List.forall_mem_cons.mpr ⟨?_, rest_shown⟩
      rw [(shows.shown_eq installed stays₁).1]
      exact shape
    · rw [runs_cons_of_ne ⟨stats, true⟩ port w c rest isRun]
      exact rest_shown

theorem history_stamped (env : σ) (calls : List (Call σ)) :
    Stamped (history ⟨stats, true⟩ port env calls).events := by
  obtain ⟨labels, shows⟩ := steps_show stats port (World.start Sch.init env) calls
  exact shows.stamped rfl

end Calls

/-- With the hook in place, a run shows a word of its language, in which the starts and ends are
those of the callbacks; and in any history the timestamps are true times, as far as 32 bits go,
which are in order if the clock is. -/
theorem trace_faithful (stats : Bool) (port : Port σ) (env : σ) (before later : List (Call σ)) :
    let w := history ⟨stats, true⟩ port env before
    let w' := history ⟨stats, true⟩ port env (before ++ later)
    (w.state.traceHook ≠ 0 → (∀ x ∈ World.since w w', x.1.uninstalls = false) →
      ∀ u ∈ runs ⟨stats, true⟩ port w later,
        shown (World.eventsSince u.1 u.2) ∈ runLanguage ∧
          Matched (shown (World.eventsSince u.1 u.2))) ∧
      timestamps w'.events = (stamps w'.events).map (BitVec.ofNat 32) ∧
      ((readings w'.events).Pairwise (· ≤ ·) → (stamps w'.events).Pairwise (· ≤ ·)) := by
  intro w w'
  refine ⟨fun installed stays u mem => ?_, history_stamped stats port env _, fun ordered => ?_⟩
  · have split : w' = later.foldl (step ⟨stats, true⟩ port) w := history_append ..
    rw [split] at stays
    have shape := runs_shown stats port w later installed stays u mem
    exact ⟨shape, matched_of_run shape⟩
  · refine (History.observations_sorted SchEvent.reading 0 _ w'.events ?_).1
    exact List.pairwise_cons.mpr ⟨fun time _ => Nat.zero_le time, ordered⟩

/-- A task of period 10 that takes 15 ticks, over a wrap of the counter: it overruns, and the
run idles. -/
theorem trace_faithful_slow :
    let calls : List (Call Nat) := [.setTraceHook 1 0, .addTask ⟨1, 0, 10, 0, 0⟩]
    let w := history ⟨true, true⟩ slowPort (2 ^ 32 - 5) calls
    let w' := history ⟨true, true⟩ slowPort (2 ^ 32 - 5) (calls ++ [.run])
    shown (World.eventsSince w (run ⟨true, true⟩ slowPort w)) ∈ runLanguage ∧
      shown (World.eventsSince w (run ⟨true, true⟩ slowPort w)) = bracketed .periodic 0 ++
        [.trace .taskOverrun 0, .trace .idle (-1), .idle] ∧
      timestamps w'.events = [0xfffffffb, 10, 10, 10] ∧
      (stamps w'.events).Pairwise (· ≤ ·) := by
  intro calls w w'
  obtain ⟨shape, -, ordered⟩ := trace_faithful true slowPort (2 ^ 32 - 5) calls [.run]
  have shows := shape (by decide +kernel) (by decide +kernel) (w, run ⟨true, true⟩ slowPort w)
    (List.mem_singleton.mpr rfl)
  dsimp only at shows
  exact ⟨shows.1, by decide +kernel, by decide +kernel, ordered (by decide +kernel)⟩

end SchedulerLib.Scheduler
