import Mathlib.Algebra.BigOperators.Group.List.Basic
import Mathlib.Tactic.Abel
import SchedulerLib.Lib.Preemption

/-!
Rules for programs that interrupts preempt. A relation between programs that holds of equal
results and passes through sequences holds of programs built alike from related parts. A
program whose memory records more has every run of the program that records less. What the
handlers keep may be carried from step to step, and what a run adds to a measure is what the
program adds and what the handler of each interrupt taken adds.
-/

namespace SchedulerLib.Lib.Prog

variable {M S T I α β : Type}

structure Congruent (rel : ∀ {α : Type}, Prog M S α → Prog M T α → Prop) : Prop where
  ret : ∀ {α : Type} (a : α), rel (ret a) (ret a)
  bind : ∀ {α β : Type} {p : Prog M S α} {q : Prog M T α} {k : α → Prog M S β}
    {l : α → Prog M T β}, rel p q → (∀ a, rel (k a) (l a)) → rel (p.bind k) (q.bind l)

theorem implements_congruent (port : Masking M I) (handler : I → Prog M S Unit) :
    Congruent fun {_} p q => Implements port handler p q where
  ret a := Implements.refl (Prog.ret a)
  bind := Implements.bind

theorem within_congruent (R : S → S → Prop) :
    Congruent (M := M) fun {_} (p _ : Prog M S _) => p.Within R where
  ret _ := trivial
  bind := Within.bind

theorem unmasked_congruent : Congruent (M := M) fun {_} (p _ : Prog M S _) => p.Unmasked where
  ret _ := trivial
  bind := Unmasked.bind

/-- `q` does what `p` does on what `seen` shows of its memory. -/
inductive Records (seen : T → S) : {α : Type} → Prog M S α → Prog M T α → Prop
  | ret {α : Type} (a : α) : Records seen (ret a) (ret a)
  | step {α : Type} {update : S → S} {record : T → T} {next : S → Prog M S α}
    {next' : T → Prog M T α} (agree : ∀ t, seen (record t) = update (seen t))
    (rest : ∀ t, Records seen (next (seen t)) (next' t)) :
    Records seen (step update next) (step record next')
  | enter {α : Type} {next : M → Prog M S α} {next' : M → Prog M T α}
    (rest : ∀ m, Records seen (next m) (next' m)) : Records seen (enter next) (enter next')
  | exit {α : Type} {token : M} {next : Prog M S α} {next' : Prog M T α}
    (rest : Records seen next next') : Records seen (exit token next) (exit token next')

theorem records_congruent (seen : T → S) :
    Congruent (M := M) fun {_} p q => Records seen p q where
  ret a := Records.ret a
  bind := by
    intro α β p q k l first second
    induction first with
    | ret a => exact second a
    | step agree _ ih => exact Records.step agree ih
    | enter _ ih => exact Records.enter ih
    | exit _ ih => exact Records.exit ih

theorem Records.atomic {seen : T → S} {f : S → β × S} {g : T → β × T}
    (value : ∀ t, (g t).1 = (f (seen t)).1) (memory : ∀ t, seen (g t).2 = (f (seen t)).2) :
    Records (M := M) seen (Prog.atomic f) (Prog.atomic g) :=
  Records.step memory fun t => by
    rw [value]
    exact Records.ret _

theorem Runs.recorded {port : Masking M I} {seen : T → S} {handler : I → Prog M S Unit}
    {handler' : I → Prog M T Unit} (handlers : ∀ i, Records seen (handler i) (handler' i))
    {p : Prog M S α} {q : Prog M T α} {m m' : M} {s s' : S} {taken : List I} {a : α}
    (h : Runs port handler p m s taken a m' s') (same : Records seen p q) {t : T}
    (start : seen t = s) : ∃ t', Runs port handler' q m t taken a m' t' ∧ seen t' = s' := by
  induction h generalizing t with
  | ret a m s =>
    cases same
    exact ⟨t, Runs.ret a m t, start⟩
  | step _ ih =>
    cases same with
    | step agree rest =>
      subst start
      obtain ⟨t', run, last⟩ := ih (rest t) (agree t)
      exact ⟨t', Runs.step run, last⟩
  | enter _ ih =>
    cases same with
    | enter rest =>
      obtain ⟨t', run, last⟩ := ih (rest _) start
      exact ⟨t', Runs.enter run, last⟩
  | exit _ ih =>
    cases same with
    | exit rest =>
      obtain ⟨t', run, last⟩ := ih rest start
      exact ⟨t', Runs.exit run, last⟩
  | interrupt i allowed _ _ first second =>
    obtain ⟨t₁, served, middle⟩ := first (handlers i) start
    obtain ⟨t', run, last⟩ := second same middle
    exact ⟨t', Runs.interrupt i allowed served run, last⟩

section Holds

variable {port : Masking M I} {handler : I → Prog M S Unit}

def Holds (port : Masking M I) (handler : I → Prog M S Unit) (P : S → Prop) (p : Prog M S α)
    (Q : α → S → Prop) : Prop :=
  ∀ m s taken a m' s', Runs port handler p m s taken a m' s' → P s → Q a s'

def Kept (port : Masking M I) (handler : I → Prog M S Unit) (P : S → Prop) : Prop :=
  ∀ i, Holds port handler P (handler i) fun _ => P

theorem kept_of_steps {P : S → Prop}
    (steps : ∀ i, (handler i).Within fun s t => P s → P t) : Kept port handler P :=
  fun i _ _ _ _ _ _ run => run.within (R := fun s t => P s → P t) (fun _ h => h)
    (fun _ _ _ first second h => second (first h)) steps (steps i)

theorem Kept.and_const {P : S → Prop} (h : Kept port handler P) (c : Prop) :
    Kept port handler fun s => P s ∧ c :=
  fun i m s taken a m' s' run before => ⟨h i m s taken a m' s' run before.1, before.2⟩

theorem holds_ret {P : S → Prop} (kept : Kept port handler P) (a : α) :
    Holds port handler P (Prog.ret a) fun b s => b = a ∧ P s := by
  intro m s taken b m' s' run
  generalize e : (Prog.ret a : Prog M S α) = p at run
  induction run with
  | ret =>
    cases e
    exact fun h => ⟨rfl, h⟩
  | step => cases e
  | enter => cases e
  | exit => cases e
  | interrupt i _ served _ _ ih => exact fun h => ih a e (kept i _ _ _ _ _ _ served h)

theorem Holds.imp {P : S → Prop} {p : Prog M S α} {Q R : α → S → Prop}
    (h : Holds port handler P p Q) (weaker : ∀ a s, Q a s → R a s) : Holds port handler P p R :=
  fun m s taken a m' s' run before => weaker a s' (h m s taken a m' s' run before)

theorem Holds.bind {P : S → Prop} {p : Prog M S α} {k : α → Prog M S β} {Q : α → S → Prop}
    {R : β → S → Prop} (first : Holds port handler P p Q)
    (second : ∀ a, Holds port handler (Q a) (k a) R) : Holds port handler P (p.bind k) R := by
  intro m s taken b m' s' run before
  obtain ⟨a, m₁, s₁, during, later, front, back, -⟩ := run.split
  exact second a m₁ s₁ later b m' s' back (first m s during a m₁ s₁ front before)

theorem holds_atomic {P : S → Prop} {Q : α → S → Prop} {f : S → α × S}
    (before : Kept port handler P) (after : ∀ a, Kept port handler (Q a))
    (step : ∀ s, P s → Q (f s).1 (f s).2) : Holds port handler P (Prog.atomic f) Q := by
  intro m s taken a m' s' run
  generalize e : Prog.atomic f = p at run
  induction run with
  | ret => cases e
  | enter => cases e
  | exit => cases e
  | @step _ update next m m' s s' taken a rest =>
    cases e
    intro h
    obtain ⟨rfl, last⟩ := holds_ret (after (f s).1) (f s).1 m (f s).2 taken a m' s' rest (step s h)
    exact last
  | interrupt i _ served _ _ ih => exact fun h => ih after step e (before i _ _ _ _ _ _ served h)

end Holds

section Gains

variable {G : Type} [AddCommMonoid G] {measure : S → G}

/-- On every path, the steps of `p` add `gain` to the measure. -/
def Gains (measure : S → G) : Prog M S α → G → Prop
  | ret _, gain => gain = 0
  | step update next, gain => ∃ now later, gain = now + later ∧
      ∀ s, measure (update s) = measure s + now ∧ (next s).Gains measure later
  | enter next, gain => ∀ m, (next m).Gains measure gain
  | exit _ next, gain => next.Gains measure gain

theorem Gains.bind {p : Prog M S α} {k : α → Prog M S β} {first second : G}
    (h : p.Gains measure first) (rest : ∀ a, (k a).Gains measure second) :
    (p.bind k).Gains measure (first + second) := by
  induction p generalizing first with
  | ret a =>
    obtain rfl : first = 0 := h
    rw [zero_add]
    exact rest a
  | step update next ih =>
    obtain ⟨now, later, rfl, steps⟩ := h
    exact ⟨now, later + second, add_assoc now later second,
      fun s => ⟨(steps s).1, ih s (steps s).2⟩⟩
  | enter next ih => exact fun m => ih m (h m)
  | exit token next ih => exact ih h

theorem gains_atomic {f : S → α × S} {gain : G}
    (adds : ∀ s, measure (f s).2 = measure s + gain) :
    (Prog.atomic f : Prog M S α).Gains measure gain :=
  ⟨gain, 0, (add_zero gain).symm, fun s => ⟨adds s, rfl⟩⟩

theorem gains_congruent (measure : S → G) :
    Congruent (M := M) fun {_} (p _ : Prog M S _) => p.Gains measure 0 where
  ret _ := rfl
  bind first second := by
    have both := first.bind second
    rwa [add_zero] at both

theorem Runs.gains {port : Masking M I} {handler : I → Prog M S Unit} {each : I → G}
    (handlers : ∀ i, (handler i).Gains measure (each i)) {p : Prog M S α} {m m' : M} {s s' : S}
    {taken : List I} {a : α} (h : Runs port handler p m s taken a m' s') {gain : G}
    (own : p.Gains measure gain) :
    measure s' = measure s + gain + (taken.map each).sum := by
  induction h generalizing gain with
  | ret a m s =>
    obtain rfl : gain = 0 := own
    simp
  | @step _ update next m m' s s' taken a _ ih =>
    obtain ⟨now, later, rfl, steps⟩ := own
    rw [ih (steps s).2, (steps s).1, add_assoc (measure s)]
  | @enter _ next m m' s s' taken a _ ih => exact ih (own m)
  | exit _ ih => exact ih own
  | @interrupt _ p m m₁ m' s s₁ s' during later a i allowed _ _ first second =>
    rw [second own, first (handlers i), List.map_cons, List.map_append, List.sum_cons,
      List.sum_append]
    abel

end Gains

end SchedulerLib.Lib.Prog
