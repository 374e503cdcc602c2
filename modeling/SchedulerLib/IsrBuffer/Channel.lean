import SchedulerLib.IsrBuffer.TypedRing
import SchedulerLib.Lib.Fifo
import SchedulerLib.Lib.History
import SchedulerLib.Lib.World
import Mathlib.Data.List.Induction

/-!
A channel is a ring in the state of a component, with the entries of the component's log that
put an item into it or take one out. The log is replayed on a ledger, in which every item keeps
the number of its put; the ring holds what the ledger's queue holds, and every take takes the
front of it. Items at the front of the ring are awaited: after as many takes as they need they
have been taken, or overtaken by a ring's worth of later items.
-/

namespace SchedulerLib.IsrBuffer

open Lib

/-- Where the ring is, how much of it a run takes, and what the log entries move. -/
structure Channel (S E α : Type) (w : Nat) where
  layout : Layout α
  ring : S → SchSpscRing w
  limit : S → BitVec w
  put : E → Option α
  taken : E → Option α
  apart : ∀ e a, taken e = some a → put e = none

namespace Channel

variable {S E α σ : Type} {w : Nat} (c : Channel S E α w) {capacity : Nat} {policy : Fifo.Policy}
  {positive : 0 < capacity}

structure Idle (e : E) : Prop where
  put : c.put e = none
  taken : c.taken e = none

def move (l : Ledger α) (e : E) : Ledger α :=
  match c.put e with
  | some a => l.push a
  | none => if (c.taken e).isSome then l.pop else l

def replay (policy : Fifo.Policy) (positive : 0 < capacity) (events : List E) : Ledger α :=
  events.foldl c.move (Ledger.empty capacity policy positive)

section Replay

variable {c} {events : List E} {e : E} {a : α}

theorem replay_append (events later : List E) :
    c.replay policy positive (events ++ later) =
      later.foldl c.move (c.replay policy positive events) :=
  List.foldl_append

theorem replay_idle (events : List E) {later : List E} (idle : ∀ e ∈ later, c.Idle e) :
    c.replay policy positive (events ++ later) = c.replay policy positive events := by
  induction later generalizing events with
  | nil => rw [List.append_nil]
  | cons e rest ih =>
    obtain ⟨put, taken⟩ := idle e List.mem_cons_self
    have same : c.move (c.replay policy positive events) e = c.replay policy positive events := by
      rw [move, put, taken]
      rfl
    rw [replay_append, List.foldl_cons, same, ← replay_append]
    exact ih events fun x mem => idle x (List.mem_cons_of_mem e mem)

theorem replay_put (events : List E) (put : c.put e = some a) :
    c.replay policy positive (events ++ [e]) = (c.replay policy positive events).push a := by
  rw [replay_append, List.foldl_cons, List.foldl_nil, move, put]

theorem replay_taken (events : List E) (taken : c.taken e = some a) :
    c.replay policy positive (events ++ [e]) = (c.replay policy positive events).pop := by
  rw [replay_append, List.foldl_cons, List.foldl_nil, move, c.apart e a taken, taken]
  rfl

theorem replay_capacity (events : List E) :
    (c.replay policy positive events).queue.capacity = capacity := by
  induction events using List.reverseRecOn with
  | nil => rfl
  | append_singleton events e ih =>
    rw [replay_append, List.foldl_cons, List.foldl_nil, move]
    cases c.put e with
    | some a => exact ih
    | none => split_ifs <;> exact ih

theorem replay_sound (events : List E) : (c.replay policy positive events).Sound policy := by
  induction events using List.reverseRecOn with
  | nil => exact Ledger.sound_empty capacity policy positive
  | append_singleton events e ih =>
    rw [replay_append, List.foldl_cons, List.foldl_nil, move]
    cases c.put e with
    | some a => exact ih.push a
    | none =>
      split_ifs
      · exact ih.pop
      · exact ih

end Replay

section Takes

variable {c} {events later : List E} {e : E} {a : α}

def Consistent (c : Channel S E α w) (policy : Fifo.Policy) (positive : 0 < capacity)
    (events : List E) : Prop :=
  ∀ before e a, before ++ [e] <+: events → c.taken e = some a →
    (c.replay policy positive before).queue.items.head?.map Prod.fst = some a

theorem Consistent.concat (h : c.Consistent policy positive events)
    (next : ∀ a, c.taken e = some a →
      (c.replay policy positive events).queue.items.head?.map Prod.fst = some a) :
    c.Consistent policy positive (events ++ [e]) := by
  intro before x a early taken
  rcases List.prefix_concat_iff.mp early with same | earlier
  · obtain ⟨rfl, single⟩ := List.append_inj' same rfl
    obtain rfl : x = e := by simpa using single
    exact next a taken
  · exact h before x a earlier taken

theorem Consistent.idle (h : c.Consistent policy positive events)
    (idle : ∀ e ∈ later, c.Idle e) : c.Consistent policy positive (events ++ later) := by
  induction later using List.reverseRecOn with
  | nil => rwa [List.append_nil]
  | append_singleton later e ih =>
    have before := ih fun x mem => idle x (List.mem_append_left _ mem)
    rw [← List.append_assoc]
    refine before.concat fun a taken => ?_
    have silent := (idle e (List.mem_append_right _ List.mem_cons_self)).taken
    rw [silent] at taken
    cases taken

theorem pushed_append (events later : List E) :
    (c.replay policy positive (events ++ later)).pushed =
      (c.replay policy positive events).pushed ++ later.filterMap c.put := by
  induction later using List.reverseRecOn with
  | nil => simp
  | append_singleton later e ih =>
    rw [← List.append_assoc, replay_append, List.foldl_cons, List.foldl_nil, List.filterMap_append,
      ← List.append_assoc, ← ih, move]
    cases put : c.put e with
    | some a => simp [Ledger.push, put]
    | none => split_ifs <;> simp [Ledger.pop, put]

theorem replay_pushed (events : List E) :
    (c.replay policy positive events).pushed = events.filterMap c.put :=
  pushed_append [] events

theorem popped_append (h : c.Consistent policy positive (events ++ later)) :
    ∃ l, (c.replay policy positive (events ++ later)).popped =
        (c.replay policy positive events).popped ++ l ∧ l.map Prod.fst = later.filterMap c.taken := by
  induction later using List.reverseRecOn with
  | nil => exact ⟨[], by simp, rfl⟩
  | append_singleton later e ih =>
    rw [← List.append_assoc] at h ⊢
    obtain ⟨l, popped, same⟩ := ih fun before x a early => h before x a
      (early.trans (List.prefix_append _ _))
    rw [List.filterMap_append, ← same]
    cases taken : c.taken e with
    | some a =>
      have front := h (events ++ later) e a List.prefix_rfl taken
      obtain ⟨x, first, rfl⟩ := Option.map_eq_some_iff.mp front
      obtain ⟨rest, items⟩ := List.head?_eq_some_iff.mp first
      refine ⟨l ++ [x], ?_, by simp [taken]⟩
      rw [replay_taken _ taken, Ledger.pop, popped, items, List.append_assoc]
      rfl
    | none =>
      refine ⟨l, ?_, by simp [taken]⟩
      rw [replay_append, List.foldl_cons, List.foldl_nil, move, taken, ← popped]
      cases c.put e <;> rfl

end Takes

section Account

/-- The account of a channel. Items taken and items in the ring are all that was put, in order,
but the deleted ones; those are the drops of the ring. -/
structure Accounted (c : Channel S E α w) (policy : Fifo.Policy) (positive : 0 < capacity)
    (s : World S E σ) : Prop where
  offered : (c.replay policy positive s.events).pushed = s.events.filterMap c.put
  taken : s.events.filterMap c.taken = (c.replay policy positive s.events).popped.map Prod.fst
  buffered : (c.ring s.state).items c.layout =
    (c.replay policy positive s.events).queue.items.map Prod.fst
  survived : (c.replay policy positive s.events).popped ++
      (c.replay policy positive s.events).queue.items =
    (c.replay policy positive s.events).survivors
  dropped : (c.ring s.state).dropCount =
    BitVec.ofNat w (c.replay policy positive s.events).deleted.length

/-- Every item put before the moment `mid`, with the number of its put, has been taken, unless a
ring's worth of items was put behind it. -/
def Prompt (c : Channel S E α w) (policy : Fifo.Policy) (positive : 0 < capacity)
    (mid fin : World S E σ) : Prop :=
  ∀ x ∈ (mid.events.filterMap c.put).zipIdx,
    x ∈ (c.replay policy positive fin.events).popped ∨
      x.2 + capacity < (fin.events.filterMap c.put).length

end Account

section Awaits

/-- The ring holds what the log says, and all that had been put when the log was `seen` is among
the next `places` items to be taken, as far as it has not left the ring already. -/
structure Awaits (c : Channel S E α w) (policy : Fifo.Policy) (positive : 0 < capacity)
    (budget : Nat) (seen : List E) (places : Nat) (s : World S E σ) : Prop where
  later : seen <+: s.events
  carries : Carries c.layout (c.ring s.state)
    ((c.replay policy positive s.events).queue.map Prod.fst)
  consistent : c.Consistent policy positive s.events
  soon : ∀ x ∈ (c.replay policy positive seen).pushed.zipIdx,
    (c.replay policy positive s.events).Soon places x
  budget : (c.limit s.state).toNat = budget

variable {c} {budget : Nat} {seen : List E} {places : Nat} {s s' : World S E σ} {e : E} {a : α}

theorem awaits_start {state : S} (env : σ) (settings : (c.limit state).toNat = budget)
    (carries : Carries c.layout (c.ring state) (Fifo.empty capacity policy positive)) :
    c.Awaits policy positive budget [] 0 (World.start state env) where
  later := List.prefix_rfl
  carries := carries
  consistent before x _ early := absurd (List.prefix_nil.mp early) (by simp)
  soon x mem := by cases mem
  budget := settings

theorem Awaits.accounted (h : c.Awaits policy positive budget seen places s) :
    c.Accounted policy positive s where
  offered := replay_pushed s.events
  taken := by
    have consistent := h.consistent
    rw [← List.nil_append s.events] at consistent
    obtain ⟨l, popped, same⟩ := popped_append consistent
    rw [List.nil_append] at popped
    rw [popped, ← same]
    rfl
  buffered := h.carries.items
  survived := (replay_sound s.events).balanced.survived
  dropped := by
    rw [h.carries.dropCount_eq, Fifo.map_drops, (replay_sound s.events).balanced.counted]

theorem Awaits.aside (h : c.Awaits policy positive budget seen places s) {l : List E}
    (events : s'.events = s.events ++ l) (idle : ∀ e ∈ l, c.Idle e)
    (ring : c.ring s'.state = c.ring s.state) (limit : c.limit s'.state = c.limit s.state) :
    c.Awaits policy positive budget seen places s' where
  later := by
    rw [events]
    exact h.later.trans (List.prefix_append _ _)
  carries := by
    rw [events, replay_idle _ idle, ring]
    exact h.carries
  consistent := by
    rw [events]
    exact h.consistent.idle idle
  soon := by
    rw [events, replay_idle _ idle]
    exact h.soon
  budget := limit ▸ h.budget

theorem Awaits.modify (h : c.Awaits policy positive budget seen places s) (f : S → S)
    (ring : c.ring (f s.state) = c.ring s.state) (limit : c.limit (f s.state) = c.limit s.state) :
    c.Awaits policy positive budget seen places (s.modify f) :=
  h.aside (List.append_nil _).symm (fun e mem => by cases mem) ring limit

theorem Awaits.setEnv (h : c.Awaits policy positive budget seen places s) (env : σ) :
    c.Awaits policy positive budget seen places (s.setEnv env) :=
  h.aside (List.append_nil _).symm (fun e mem => by cases mem) rfl rfl

theorem Awaits.emit (h : c.Awaits policy positive budget seen places s) (e : E)
    (idle : c.Idle e) : c.Awaits policy positive budget seen places (s.emit e) :=
  h.aside (World.emit_events s e) (fun _ mem => List.mem_singleton.mp mem ▸ idle) rfl rfl

theorem Awaits.put (h : c.Awaits policy positive budget seen places s)
    (events : s'.events = s.events ++ [e]) (put : c.put e = some a)
    (ring : c.ring s'.state = ((c.ring s.state).pushAs c.layout a).2)
    (limit : c.limit s'.state = c.limit s.state) :
    c.Awaits policy positive budget seen places s' where
  later := by
    rw [events]
    exact h.later.trans (List.prefix_append _ _)
  carries := by
    have pushed := (h.carries.push a).2
    have same := Fifo.map_push Prod.fst (c.replay policy positive s.events).queue
      (a, (c.replay policy positive s.events).pushed.length)
    rw [events, replay_put _ put, ring]
    rwa [same] at pushed
  consistent := by
    rw [events]
    refine h.consistent.concat fun b taken => ?_
    rw [c.apart e b taken] at put
    cases put
  soon x mem := by
    rw [events, replay_put _ put]
    exact (h.soon x mem).push (replay_sound s.events).balanced a
  budget := limit ▸ h.budget

theorem Awaits.take (h : c.Awaits policy positive budget seen places s)
    (front : ((c.ring s.state).popAs c.layout).1 = some a)
    (events : s'.events = s.events ++ [e]) (taken : c.taken e = some a)
    (ring : c.ring s'.state = ((c.ring s.state).popAs c.layout).2)
    (limit : c.limit s'.state = c.limit s.state) :
    c.Awaits policy positive budget seen (places - 1) s' where
  later := by
    rw [events]
    exact h.later.trans (List.prefix_append _ _)
  carries := by
    have popped := h.carries.pop.2
    rw [Fifo.map_pop] at popped
    rw [events, replay_taken _ taken, ring]
    exact popped
  consistent := by
    rw [events]
    refine h.consistent.concat fun b same => ?_
    have first := h.carries.pop.1
    rw [front, Fifo.map_items, List.head?_map] at first
    rw [← first, ← taken, same]
  soon x mem := by
    rw [events, replay_taken _ taken]
    exact (h.soon x mem).pop (replay_sound s.events).balanced
  budget := limit ▸ h.budget

theorem Awaits.empty (h : c.Awaits policy positive budget seen places s)
    (empty : (c.ring s.state).isEmpty = true) (fewer : Nat) :
    c.Awaits policy positive budget seen fewer s := by
  have none_left : (c.replay policy positive s.events).queue.items = [] := by
    have items := h.carries.isEmpty_iff.mp empty
    rwa [Fifo.map_items, List.map_eq_nil_iff] at items
  refine ⟨h.later, h.carries, h.consistent, fun x mem => Ledger.Soon.mono ?_ (Nat.zero_le fewer),
    h.budget⟩
  refine Ledger.Soon.of_not_mem (h.soon x mem).offered fun listed => ?_
  rw [none_left] at listed
  cases listed

theorem Awaits.missed (h : c.Awaits policy positive budget seen places s)
    (missed : ((c.ring s.state).popAs c.layout).1 = none) (fewer : Nat) :
    c.Awaits policy positive budget seen fewer s := by
  refine h.empty (h.carries.isEmpty_iff.mpr ?_) fewer
  have front := h.carries.pop.1
  rw [missed] at front
  exact List.head?_eq_none_iff.mp front.symm

theorem Awaits.mono (h : c.Awaits policy positive budget seen places s) {further : Nat}
    (le : places ≤ further) : c.Awaits policy positive budget seen further s :=
  ⟨h.later, h.carries, h.consistent, fun x mem => (h.soon x mem).mono le, h.budget⟩

theorem Awaits.size_le (h : c.Awaits policy positive budget seen places s) :
    (c.ring s.state).size.toNat ≤ capacity := by
  have bounded := (c.replay policy positive s.events).queue.bounded
  rw [replay_capacity] at bounded
  rwa [h.carries.size_toNat, Fifo.map_items, List.length_map]

theorem Awaits.all (h : c.Awaits policy positive budget [] places s) :
    c.Awaits policy positive budget s.events (c.ring s.state).size.toNat s := by
  refine ⟨List.prefix_rfl, h.carries, h.consistent, fun x mem => ⟨mem, fun listed => ?_⟩, h.budget⟩
  rw [h.carries.size_toNat, Fifo.map_items, List.length_map, List.take_length]
  exact listed

theorem Awaits.fate {mid : World S E σ} (h : c.Awaits policy positive budget mid.events 0 s)
    {before after : List E} (split : mid.events = before ++ e :: after) (put : c.put e = some a) :
    (∃ rest, s.events = before ++ [e] ++ rest ∧ a ∈ rest.filterMap c.taken) ∨
      (before.filterMap c.put).length ∈ (c.replay policy positive s.events).deleted := by
  obtain ⟨tail, grown⟩ := h.later
  have all : s.events = before ++ [e] ++ (after ++ tail) := by
    rw [← grown, split]
    simp
  have listed : (a, (before.filterMap c.put).length) ∈
      (c.replay policy positive mid.events).pushed.zipIdx := by
    rw [replay_pushed, split, List.filterMap_append, List.filterMap_cons, put, List.zipIdx_append,
      Nat.zero_add]
    exact List.mem_append_right _ List.mem_cons_self
  have soon := h.soon _ listed
  have sound : (c.replay policy positive s.events).Sound policy := replay_sound s.events
  rcases sound.balanced.lost_or_popped soon.offered soon.gone with lost | popped
  · exact .inr lost
  · left
    refine ⟨after ++ tail, all, ?_⟩
    have consistent := h.consistent
    rw [all] at consistent
    obtain ⟨l, grows, same⟩ := popped_append consistent
    rw [all, grows, List.mem_append] at popped
    rw [← same]
    rcases popped with earlier | new
    · -- what was popped before has a smaller number
      have before_sound : (c.replay policy positive before).Sound policy := replay_sound before
      rw [replay_put _ put, Ledger.push] at earlier
      have survivor : (a, (before.filterMap c.put).length) ∈
          (c.replay policy positive before).survivors := by
        rw [← before_sound.balanced.survived]
        exact List.mem_append_left _ earlier
      have smaller := Ledger.number_lt _ _ (List.mem_of_mem_filter survivor)
      rw [replay_pushed] at smaller
      exact absurd smaller (lt_irrefl _)
    · exact List.mem_map_of_mem new

theorem overtaken_of_lost {events : List E} {k : Nat}
    (lost : k ∈ (c.replay .dropOldest positive events).deleted) :
    k + capacity < (events.filterMap c.put).length := by
  have sound : (c.replay .dropOldest positive events).Sound .dropOldest := replay_sound events
  have overtaken := sound.overtaken rfl _ lost
  rwa [replay_capacity, replay_pushed] at overtaken

theorem Awaits.prompt {mid : World S E σ}
    (h : c.Awaits .dropOldest positive budget mid.events 0 s) :
    c.Prompt .dropOldest positive mid s := by
  intro x put
  have pushed : (c.replay .dropOldest positive mid.events).pushed = mid.events.filterMap c.put :=
    replay_pushed mid.events
  rw [← pushed] at put
  have soon := h.soon x put
  have sound : (c.replay .dropOldest positive s.events).Sound .dropOldest := replay_sound s.events
  rcases sound.balanced.lost_or_popped soon.offered soon.gone with lost | popped
  · exact .inr (overtaken_of_lost lost)
  · exact .inl popped

end Awaits

section Serves

variable {C : Type}

/-- What `n` runs that take up to `budget` items each achieve. The account is right, and runs for
all that was in the ring have let everything put so far through. -/
structure Passes (c : Channel S E α w) (policy : Fifo.Policy) (positive : 0 < capacity)
    (budget n : Nat) (mid fin : World S E σ) : Prop where
  accounted : c.Accounted policy positive fin
  prompt : (c.ring mid.state).size.toNat ≤ n * budget → c.Prompt policy positive mid fin

structure Serves (c : Channel S E α w) (policy : Fifo.Policy) (positive : 0 < capacity)
    (step : World S E σ → C → World S E σ) (mark : C → Bool) (budget : Nat) : Prop where
  keeps : ∀ seen places s call, mark call = false →
    c.Awaits policy positive budget seen places s →
    c.Awaits policy positive budget seen places (step s call)
  advances : ∀ seen places s call, mark call = true →
    c.Awaits policy positive budget seen places s →
    c.Awaits policy positive budget seen (places - budget) (step s call)

variable {c} {step : World S E σ → C → World S E σ} {mark : C → Bool} {budget n places : Nat}
  {seen : List E} {s s' : World S E σ}

theorem Passes.fewer {m : Nat} (h : c.Passes policy positive budget n s s') (le : m ≤ n) :
    c.Passes policy positive budget m s s' :=
  ⟨h.accounted, fun enough => h.prompt (enough.trans (Nat.mul_le_mul_right budget le))⟩

theorem Serves.reaches (h : c.Serves policy positive step mark budget)
    (reaches : History.Reaches step mark n s s')
    (start : c.Awaits policy positive budget seen places s) :
    c.Awaits policy positive budget seen (places - n * budget) s' := by
  have measured := reaches.measured (m := 0)
    (fun marked s => c.Awaits policy positive budget seen (places - marked * budget) s)
    (fun marked s call unmarked before => h.keeps seen _ s call unmarked before)
    (fun marked s call isMarked before => by
      have after := h.advances seen _ s call isMarked before
      rwa [Nat.sub_sub, ← Nat.succ_mul] at after)
    (by rwa [Nat.zero_mul, Nat.sub_zero])
  rwa [Nat.zero_add] at measured

/-- What was in the ring at `mid` has come forward by `n` budgets. -/
def Brings (c : Channel S E α w) (policy : Fifo.Policy) (positive : 0 < capacity)
    (budget n : Nat) (mid fin : World S E σ) : Prop :=
  c.Awaits policy positive budget mid.events ((c.ring mid.state).size.toNat - n * budget) fin

theorem Serves.brings (h : c.Serves policy positive step mark budget)
    (start : c.Awaits policy positive budget [] 0 s) :
    History.Achieves step mark s (c.Brings policy positive budget) := by
  intro mid before n earlier fin later
  have waiting := h.reaches earlier start
  rw [Nat.zero_sub] at waiting
  exact h.reaches later waiting.all

theorem Brings.fewer {m : Nat} (h : c.Brings policy positive budget n s s') (le : m ≤ n) :
    c.Brings policy positive budget m s s' :=
  h.mono (Nat.sub_le_sub_left (Nat.mul_le_mul_right budget le) _)

theorem Brings.passes (h : c.Brings .dropOldest positive budget n s s') :
    c.Passes .dropOldest positive budget n s s' := by
  refine ⟨h.accounted, fun enough => ?_⟩
  unfold Brings at h
  rw [Nat.sub_eq_zero_of_le enough] at h
  exact h.prompt

end Serves

section Comap

variable {T F C : Type} {f : S → T} {g : E → F}

def comap (c : Channel T F α w) (f : S → T) (g : E → F) : Channel S E α w where
  layout := c.layout
  ring s := c.ring (f s)
  limit s := c.limit (f s)
  put e := c.put (g e)
  taken e := c.taken (g e)
  apart e := c.apart (g e)

variable {c : Channel T F α w} {budget places : Nat} {seen : List E} {s : World S E σ}

theorem comap_replay (events : List E) : (c.comap f g).replay policy positive events =
    c.replay policy positive (events.map g) := by
  rw [replay, replay, List.foldl_map]
  rfl

theorem comap_consistent (events : List E) : (c.comap f g).Consistent policy positive events ↔
    c.Consistent policy positive (events.map g) := by
  constructor
  · intro h before e a early taken
    obtain ⟨rest, split⟩ := early
    obtain ⟨first, later, rfl, front, -⟩ := List.map_eq_append_iff.mp split.symm
    obtain ⟨first, last, rfl, rfl, single⟩ := List.map_eq_append_iff.mp front
    obtain ⟨x, rfl, rfl⟩ := List.map_eq_singleton_iff.mp single
    have next := h first x a (List.prefix_append _ _) taken
    rwa [comap_replay] at next
  · intro h before e a early taken
    rw [comap_replay]
    refine h (before.map g) (g e) a ?_ taken
    rw [← List.map_singleton, ← List.map_append]
    exact early.map g

theorem comap_awaits (injective : Function.Injective g) :
    (c.comap f g).Awaits policy positive budget seen places s ↔
      c.Awaits policy positive budget (seen.map g) places (s.map f g) := by
  constructor
  · rintro ⟨later, carries, consistent, soon, limit⟩
    rw [comap_replay] at carries
    simp only [comap_replay] at soon
    refine ⟨?_, ?_, ?_, ?_, limit⟩
    · rw [World.map_events]
      exact later.map g
    · rw [World.map_events]
      exact carries
    · rw [World.map_events]
      exact (comap_consistent s.events).mp consistent
    · rw [World.map_events]
      exact soon
  · rintro ⟨later, carries, consistent, soon, limit⟩
    rw [World.map_events] at later carries consistent soon
    refine ⟨?_, ?_, (comap_consistent s.events).mpr consistent, ?_, limit⟩
    · exact (List.prefix_map_iff_of_injective injective).mp later
    · rw [comap_replay]
      exact carries
    · simp only [comap_replay]
      exact soon

end Comap

section Lossless

variable {c} {budget n : Nat} {mid s : World S E σ}

theorem soon_later {events : List E} {x : α × Nat}
    (gone : (c.replay policy positive events).Soon 0 x) (later : List E) :
    (c.replay policy positive (events ++ later)).Soon 0 x := by
  induction later using List.reverseRecOn with
  | nil => rwa [List.append_nil]
  | append_singleton later e ih =>
    have sound : (c.replay policy positive (events ++ later)).Sound policy :=
      replay_sound (events ++ later)
    rw [← List.append_assoc, replay_append (events ++ later), List.foldl_cons, List.foldl_nil, move]
    cases c.put e with
    | some a => exact ih.push sound.balanced a
    | none =>
      split_ifs
      · exact ih.pop sound.balanced
      · exact ih

theorem first_loss {events : List E} (lost : (c.replay policy positive events).deleted ≠ []) :
    ∃ p e a, p ++ [e] <+: events ∧ c.put e = some a ∧
      (c.replay policy positive p).deleted = [] ∧
      (c.replay policy positive p).queue.items.length = capacity := by
  induction events using List.reverseRecOn with
  | nil => exact absurd rfl lost
  | append_singleton events e ih =>
    by_cases before : (c.replay policy positive events).deleted = []
    · cases put : c.put e with
      | some a =>
        refine ⟨events, e, a, List.prefix_rfl, put, before, ?_⟩
        have full := (c.replay policy positive events).queue.full_of_not_stored fun stored => by
          rw [replay_put _ put, Ledger.push, before, Ledger.victim, stored] at lost
          exact lost rfl
        rwa [replay_capacity] at full
      | none =>
        have same : (c.replay policy positive (events ++ [e])).deleted =
            (c.replay policy positive events).deleted := by
          rw [replay_append, List.foldl_cons, List.foldl_nil, move, put]
          dsimp only
          split_ifs <;> rfl
        exact absurd (same.trans before) lost
    · obtain ⟨p, x, a, early, met⟩ := ih before
      exact ⟨p, x, a, early.trans (List.prefix_append _ _), met⟩

theorem popped_append_items {events : List E}
    (none_lost : (c.replay policy positive events).deleted = []) :
    (c.replay policy positive events).popped ++ (c.replay policy positive events).queue.items =
      (events.filterMap c.put).zipIdx := by
  have sound : (c.replay policy positive events).Sound policy := replay_sound events
  rw [sound.balanced.survived]
  simp [Ledger.survivors, none_lost, replay_pushed]

theorem popped_length_add {events : List E}
    (none_lost : (c.replay policy positive events).deleted = []) :
    (c.replay policy positive events).popped.length +
      (c.replay policy positive events).queue.items.length = (events.filterMap c.put).length := by
  rw [← List.length_append, popped_append_items none_lost, List.length_zipIdx]

theorem Brings.popped_past (h : c.Brings policy positive budget n mid s)
    (size : (c.ring mid.state).size.toNat ≤ n * budget) {p : List E} (later : s.events <+: p)
    (none_lost : (c.replay policy positive p).deleted = []) :
    (mid.events.filterMap c.put).length ≤ (c.replay policy positive p).popped.length := by
  unfold Brings at h
  rw [Nat.sub_eq_zero_of_le size] at h
  have earlier : mid.events.filterMap c.put <+: p.filterMap c.put :=
    (h.later.trans later).filterMap c.put
  by_contra fewer
  -- the front of the queue was put before `mid`
  have there : (c.replay policy positive p).popped.length < (mid.events.filterMap c.put).length := by
    omega
  have listed : ((mid.events.filterMap c.put)[(c.replay policy positive p).popped.length],
      (c.replay policy positive p).popped.length) ∈
      (c.replay policy positive mid.events).pushed.zipIdx := by
    rw [replay_pushed]
    exact List.mem_zipIdx_iff_getElem?.mpr (List.getElem?_eq_getElem there)
  have soon := h.soon _ listed
  obtain ⟨l, rfl⟩ := later
  refine (soon_later soon l).gone ?_
  have further := there.trans_le earlier.length_le
  have front : ((s.events ++ l).filterMap c.put).zipIdx[
      (c.replay policy positive (s.events ++ l)).popped.length]? =
      some ((mid.events.filterMap c.put)[(c.replay policy positive (s.events ++ l)).popped.length],
        (c.replay policy positive (s.events ++ l)).popped.length) := by
    rw [List.getElem?_zipIdx, List.getElem?_eq_getElem further, earlier.getElem there]
    simp
  rw [← popped_append_items none_lost, List.getElem?_append_right le_rfl] at front
  exact List.mem_of_getElem? front

/-- Nothing has been lost: the items taken and those in the ring are the items put, in order. -/
structure Kept (c : Channel S E α w) (s : World S E σ) : Prop where
  dropped : (c.ring s.state).dropCount = 0#w
  order : s.events.filterMap c.taken ++ (c.ring s.state).items c.layout = s.events.filterMap c.put

theorem Accounted.kept (h : c.Accounted policy positive s)
    (none_lost : (c.replay policy positive s.events).deleted = []) : c.Kept s where
  dropped := by
    rw [h.dropped, none_lost]
    rfl
  order := by
    rw [h.taken, h.buffered, ← List.map_append, popped_append_items none_lost, List.zipIdx_map_fst]

theorem Brings.delivered (h : c.Brings policy positive budget n mid s)
    (size : (c.ring mid.state).size.toNat ≤ n * budget)
    (none_lost : (c.replay policy positive s.events).deleted = []) :
    mid.events.filterMap c.put <+: s.events.filterMap c.taken := by
  have accounted := h.accounted
  have earlier : mid.events.filterMap c.put <+: s.events.filterMap c.put := h.later.filterMap c.put
  have kept := accounted.kept none_lost
  refine List.prefix_of_prefix_length_le earlier (kept.order ▸ List.prefix_append _ _) ?_
  rw [accounted.taken, List.length_map]
  exact h.popped_past size List.prefix_rfl none_lost

end Lossless

end Channel

end SchedulerLib.IsrBuffer
