import Mathlib.Data.List.Basic
import Mathlib.Tactic.SplitIfs

/-!
Programs that interrupts preempt. A program is made of steps that nothing divides and of
calls of the two hooks around its critical sections. Between any two of these an interrupt
may be taken, unless it is masked; its handler is a program like any other and may itself
be preempted.
-/

namespace SchedulerLib.Lib

/-- A program of one context. `M` is the interrupt state, `S` the memory; what follows a step
is chosen by the memory before it. -/
inductive Prog (M S α : Type) where
  | ret (a : α)
  | step (update : S → S) (next : S → Prog M S α)
  | enter (next : M → Prog M S α)
  | exit (token : M) (next : Prog M S α)

/-- What the hooks do to the interrupt state: entering a critical section raises it, so that
no interrupt is taken, and hands out the state before; exiting restores that state. -/
structure Masking (M I : Type) where
  raise : M → M
  takes : M → I → Bool
  raise_masks : ∀ m i, takes (raise m) i = false

structure Field (S A : Type) where
  get : S → A
  set : A → S → S
  get_set : ∀ a s, get (set a s) = a
  set_get : ∀ s, set (get s) s = s
  set_set : ∀ a b s, set b (set a s) = set b s

def Field.whole (S : Type) : Field S S where
  get := id
  set a _ := a
  get_set _ _ := rfl
  set_get _ := rfl
  set_set _ _ _ := rfl

def Field.apply {S A β : Type} (field : Field S A) (f : A → β × A) (s : S) : β × S :=
  ((f (field.get s)).1, field.set (f (field.get s)).2 s)

namespace Prog

variable {M S A I α β γ : Type}

def bind : Prog M S α → (α → Prog M S β) → Prog M S β
  | ret a, k => k a
  | step update next, k => step update fun s => (next s).bind k
  | enter next, k => enter fun m => (next m).bind k
  | exit token next, k => exit token (next.bind k)

instance : Monad (Prog M S) where
  pure := ret
  bind := bind

@[simp] theorem pure_eq (a : α) : (pure a : Prog M S α) = ret a := rfl
@[simp] theorem bind_eq (p : Prog M S α) (k : α → Prog M S β) : p >>= k = p.bind k := rfl
@[simp] theorem ret_bind (a : α) (k : α → Prog M S β) : (ret a).bind k = k a := rfl

def read (f : S → β) : Prog M S β := step id fun s => ret (f s)

def write (f : S → S) : Prog M S Unit := step f fun _ => ret ()

def atomic (f : S → β × S) : Prog M S β := step (fun s => (f s).2) fun s => ret (f s).1

def both (p q : Prog M S Bool) : Prog M S Bool := p.bind fun b => if b then q else ret false

def either (p q : Prog M S Bool) : Prog M S Bool := p.bind fun b => if b then ret true else q

def exitCritical (token : M) : Prog M S Unit := exit token (ret ())

def inside (field : Field S A) : Prog M A α → Prog M S α
  | ret a => ret a
  | step update next =>
    step (fun s => field.set (update (field.get s)) s) fun s => (next (field.get s)).inside field
  | enter next => enter fun m => (next m).inside field
  | exit token next => exit token (next.inside field)

theorem inside_bind (field : Field S A) (p : Prog M A α) (k : α → Prog M A β) :
    (p.bind k).inside field = (p.inside field).bind fun a => (k a).inside field := by
  induction p with
  | ret a => rfl
  | step update next ih =>
    simp only [bind, inside]
    exact congrArg _ (funext fun s => ih (field.get s))
  | enter next ih =>
    simp only [bind, inside]
    exact congrArg _ (funext ih)
  | exit token next ih =>
    simp only [bind, inside]
    exact congrArg _ ih

theorem inside_both (field : Field S A) (p q : Prog M A Bool) :
    (both p q).inside field = both (p.inside field) (q.inside field) := by
  rw [both, inside_bind, both]
  congr 1
  funext b
  cases b <;> rfl

theorem inside_either (field : Field S A) (p q : Prog M A Bool) :
    (either p q).inside field = either (p.inside field) (q.inside field) := by
  rw [either, inside_bind, either]
  congr 1
  funext b
  cases b <;> rfl

theorem inside_whole (p : Prog M S α) : p.inside (Field.whole S) = p := by
  induction p with
  | ret a => rfl
  | step update next ih => exact congrArg _ (funext ih)
  | enter next ih => exact congrArg _ (funext ih)
  | exit token next ih => exact congrArg _ ih

theorem inside_read (field : Field S A) (f : A → β) :
    ((read f : Prog M A β).inside field) = read fun s => f (field.get s) := by
  simp only [read, inside, id, field.set_get]
  rfl

/-- `p` from `m` and `s` to its end, with the interrupts that are taken on the way, those that
preempt handlers among them, in the order in which their handlers are entered. -/
inductive Runs (port : Masking M I) (handler : I → Prog M S Unit) :
    {α : Type} → Prog M S α → M → S → List I → α → M → S → Prop
  | ret {α : Type} (a : α) (m : M) (s : S) : Runs port handler (ret a) m s [] a m s
  | step {α : Type} {update : S → S} {next : S → Prog M S α} {m m' : M} {s s' : S}
    {taken : List I} {a : α} (rest : Runs port handler (next s) m (update s) taken a m' s') :
    Runs port handler (step update next) m s taken a m' s'
  | enter {α : Type} {next : M → Prog M S α} {m m' : M} {s s' : S} {taken : List I} {a : α}
    (rest : Runs port handler (next m) (port.raise m) s taken a m' s') :
    Runs port handler (enter next) m s taken a m' s'
  | exit {α : Type} {next : Prog M S α} {token m m' : M} {s s' : S} {taken : List I} {a : α}
    (rest : Runs port handler next token s taken a m' s') :
    Runs port handler (exit token next) m s taken a m' s'
  | interrupt {α : Type} {p : Prog M S α} {m m₁ m' : M} {s s₁ s' : S} {during later : List I}
    {a : α} (i : I) (allowed : port.takes m i = true)
    (served : Runs port handler (handler i) m s during () m₁ s₁)
    (rest : Runs port handler p m₁ s₁ later a m' s') :
    Runs port handler p m s (i :: (during ++ later)) a m' s'

def alone (raise : M → M) : Prog M S α → M → S → α × M × S
  | ret a, m, s => (a, m, s)
  | step update next, m, s => (next s).alone raise m (update s)
  | enter next, m, s => (next m).alone raise (raise m) s
  | exit token next, _, s => next.alone raise token s

theorem runs_alone (port : Masking M I) (handler : I → Prog M S Unit) (p : Prog M S α) (m : M)
    (s : S) : Runs port handler p m s [] (p.alone port.raise m s).1
      (p.alone port.raise m s).2.1 (p.alone port.raise m s).2.2 := by
  induction p generalizing m s with
  | ret a => exact Runs.ret a m s
  | step update next ih => exact Runs.step (ih s m (update s))
  | enter next ih => exact Runs.enter (ih m (port.raise m) s)
  | exit token next ih => exact Runs.exit (ih token s)

theorem exists_run (port : Masking M I) (handler : I → Prog M S Unit) (p : Prog M S α) (m : M)
    (s : S) : ∃ a m' s', Runs port handler p m s [] a m' s' :=
  ⟨_, _, _, runs_alone port handler p m s⟩

theorem exists_nested_run (port : Masking M I) (handler : I → Prog M S Unit) (p : Prog M S α)
    (m : M) (s : S) (i j : I) (outer : port.takes m i = true) (inner : port.takes m j = true) :
    ∃ a m' s', Runs port handler p m s [i, j] a m' s' := by
  obtain ⟨_, m₁, s₁, first⟩ := exists_run port handler (handler j) m s
  obtain ⟨_, m₂, s₂, second⟩ := exists_run port handler (handler i) m₁ s₁
  obtain ⟨a, m', s', last⟩ := exists_run port handler p m₂ s₂
  exact ⟨a, m', s', Runs.interrupt i outer (Runs.interrupt j inner first second) last⟩

theorem runs_interrupted (port : Masking M I) (handler : I → Prog M S Unit) (p : Prog M S α)
    (m : M) (s : S) (i : I) (allowed : port.takes m i = true) :
    let before := (handler i).alone port.raise m s
    let after := p.alone port.raise before.2.1 before.2.2
    Runs port handler p m s [i] after.1 after.2.1 after.2.2 :=
  Runs.interrupt i allowed (runs_alone port handler (handler i) m s) (runs_alone port handler p _ _)

/-- Every step of `p` relates the memory before and after it by `R`. -/
def Within (R : S → S → Prop) : Prog M S α → Prop
  | ret _ => True
  | step update next => ∀ s, R s (update s) ∧ (next s).Within R
  | enter next => ∀ m, (next m).Within R
  | exit _ next => next.Within R

def Unmasked : Prog M S α → Prop
  | ret _ => True
  | step _ next => ∀ s, (next s).Unmasked
  | enter _ => False
  | exit _ _ => False

theorem Within.bind {R : S → S → Prop} {p : Prog M S α} {k : α → Prog M S β} (h : p.Within R)
    (rest : ∀ a, (k a).Within R) : (p.bind k).Within R := by
  induction p with
  | ret a => exact rest a
  | step update next ih => exact fun s => ⟨(h s).1, ih s (h s).2⟩
  | enter next ih => exact fun m => ih m (h m)
  | exit token next ih => exact ih h

theorem Unmasked.bind {p : Prog M S α} {k : α → Prog M S β} (h : p.Unmasked)
    (rest : ∀ a, (k a).Unmasked) : (p.bind k).Unmasked := by
  induction p with
  | ret a => exact rest a
  | step update next ih => exact fun s => ih s (h s)
  | enter next => exact h.elim
  | exit token next => exact h.elim

/-- The steps of a program up to its next hook, taken at once. -/
def settle : Prog M S α → S → Prog M S α × S
  | step update next, s => (next s).settle (update s)
  | p, s => (p, s)

@[simp] theorem settle_ret (a : α) (s : S) : (ret a : Prog M S α).settle s = (ret a, s) := rfl
@[simp] theorem settle_exit (token : M) (next : Prog M S α) (s : S) :
    (exit token next).settle s = (exit token next, s) := rfl
@[simp] theorem settle_read (f : S → β) (k : β → Prog M S α) (s : S) :
    ((read f).bind k).settle s = (k (f s)).settle s := rfl
@[simp] theorem settle_write (f : S → S) (k : Unit → Prog M S α) (s : S) :
    ((write f).bind k).settle s = (k ()).settle (f s) := rfl
@[simp] theorem settle_exitCritical (token : M) (k : Unit → Prog M S α) (s : S) :
    ((exitCritical token).bind k).settle s = (exit token (k ()), s) := rfl

theorem settle_bind {p : Prog M S α} {a : α} {s s' : S} (h : p.settle s = (ret a, s'))
    (k : α → Prog M S β) : (p.bind k).settle s = (k a).settle s' := by
  induction p generalizing s with
  | ret b =>
    obtain ⟨rfl, rfl⟩ : b = a ∧ s = s' := by simpa using h
    rfl
  | step update next ih => exact ih s h
  | enter next => simp [settle] at h
  | exit token next => simp at h

theorem settle_inside (field : Field S A) (p : Prog M A α) (s : S) :
    (p.inside field).settle s =
      ((p.settle (field.get s)).1.inside field, field.set (p.settle (field.get s)).2 s) := by
  induction p generalizing s with
  | ret a => simp [inside, field.set_get]
  | step update next ih =>
    have next_step := ih (field.get s) (field.set (update (field.get s)) s)
    rw [field.get_set, field.set_set] at next_step
    exact next_step
  | enter next => simp [inside, settle, field.set_get]
  | exit token next => simp [inside, field.set_get]

section Runs

variable {port : Masking M I} {handler handler' : I → Prog M S Unit}

theorem Runs.bind {p : Prog M S α} {k : α → Prog M S β} {m m₁ m' : M} {s s₁ s' : S}
    {first second : List I} {a : α} {b : β} (h : Runs port handler p m s first a m₁ s₁)
    (rest : Runs port handler (k a) m₁ s₁ second b m' s') :
    Runs port handler (p.bind k) m s (first ++ second) b m' s' := by
  induction h with
  | ret => exact rest
  | step _ ih => exact Runs.step (ih rest)
  | enter _ ih => exact Runs.enter (ih rest)
  | exit _ ih => exact Runs.exit (ih rest)
  | interrupt i allowed served _ _ ih =>
    rw [List.cons_append, List.append_assoc]
    exact Runs.interrupt i allowed served (ih rest)

theorem Runs.split {p : Prog M S α} {k : α → Prog M S β} {m m' : M} {s s' : S} {taken : List I}
    {b : β} (h : Runs port handler (p.bind k) m s taken b m' s') : ∃ a m₁ s₁ first second,
      Runs port handler p m s first a m₁ s₁ ∧ Runs port handler (k a) m₁ s₁ second b m' s' ∧
      taken = first ++ second := by
  generalize e : p.bind k = q at h
  induction h generalizing p with
  | ret b m s =>
    cases p with
    | ret a =>
      exact ⟨a, m, s, [], [], Runs.ret a m s, by rw [← ret_bind a k, e]; exact Runs.ret b m s, rfl⟩
    | step => cases e
    | enter => cases e
    | exit => cases e
  | @step _ update next m m' s s' taken b rest ih =>
    cases p with
    | ret a =>
      exact ⟨a, m, s, [], taken, Runs.ret a m s, by rw [← ret_bind a k, e]; exact Runs.step rest,
        rfl⟩
    | step update' next' =>
      obtain ⟨rfl, rfl⟩ := Prog.step.inj e
      obtain ⟨a, m₁, s₁, first, second, front, back, both⟩ := ih rfl
      exact ⟨a, m₁, s₁, first, second, Runs.step front, back, both⟩
    | enter => cases e
    | exit => cases e
  | @enter _ next m m' s s' taken b rest ih =>
    cases p with
    | ret a =>
      exact ⟨a, m, s, [], taken, Runs.ret a m s, by rw [← ret_bind a k, e]; exact Runs.enter rest,
        rfl⟩
    | step => cases e
    | enter next' =>
      obtain rfl := Prog.enter.inj e
      obtain ⟨a, m₁, s₁, first, second, front, back, both⟩ := ih rfl
      exact ⟨a, m₁, s₁, first, second, Runs.enter front, back, both⟩
    | exit => cases e
  | @exit _ next token m m' s s' taken b rest ih =>
    cases p with
    | ret a =>
      exact ⟨a, m, s, [], taken, Runs.ret a m s, by rw [← ret_bind a k, e]; exact Runs.exit rest,
        rfl⟩
    | step => cases e
    | enter => cases e
    | exit token' next' =>
      obtain ⟨rfl, rfl⟩ := Prog.exit.inj e
      obtain ⟨a, m₁, s₁, first, second, front, back, both⟩ := ih rfl
      exact ⟨a, m₁, s₁, first, second, Runs.exit front, back, both⟩
  | @interrupt _ q m m₀ m' s s₀ s' during later b i allowed served _ _ ih =>
    obtain ⟨a, m₁, s₁, first, second, front, back, rfl⟩ := ih e
    exact ⟨a, m₁, s₁, i :: (during ++ first), second, Runs.interrupt i allowed served front, back,
      by simp⟩

theorem Runs.within {R : S → S → Prop} (refl : ∀ s, R s s)
    (trans : ∀ s t u, R s t → R t u → R s u) (handlers : ∀ i, (handler i).Within R)
    {p : Prog M S α} {m m' : M} {s s' : S} {taken : List I} {a : α}
    (h : Runs port handler p m s taken a m' s') (steps : p.Within R) : R s s' := by
  induction h with
  | ret a m s => exact refl s
  | @step _ update next m m' s s' taken a _ ih => exact trans _ _ _ (steps s).1 (ih (steps s).2)
  | @enter _ next m m' s s' taken a _ ih => exact ih (steps m)
  | exit _ ih => exact ih steps
  | interrupt i _ _ _ first second => exact trans _ _ _ (first (handlers i)) (second steps)

theorem Runs.unmasked (handlers : ∀ i, (handler i).Unmasked) {p : Prog M S α} {m m' : M}
    {s s' : S} {taken : List I} {a : α} (h : Runs port handler p m s taken a m' s')
    (steps : p.Unmasked) : m' = m := by
  induction h with
  | ret => rfl
  | @step _ update next m m' s s' taken a _ ih => exact ih (steps s)
  | enter => exact steps.elim
  | exit => exact steps.elim
  | interrupt i _ _ _ first second => exact (second steps).trans (first (handlers i))

theorem Runs.settled {p : Prog M S α} {m m' : M} {s s' : S} {taken : List I} {a : α}
    (masked : ∀ i, port.takes m i = false) (h : Runs port handler p m s taken a m' s') :
    Runs port handler (p.settle s).1 m (p.settle s).2 taken a m' s' := by
  induction p generalizing s with
  | step update next ih =>
    cases h with
    | step rest => exact ih s rest
    | interrupt i allowed => rw [masked] at allowed; cases allowed
  | ret b => exact h
  | enter next => exact h
  | exit token next => exact h

/-- Everything `p` can do under these interrupts, `q` can do. -/
def Implements (port : Masking M I) (handler : I → Prog M S Unit) (p q : Prog M S α) : Prop :=
  ∀ m s taken a m' s', Runs port handler p m s taken a m' s' →
    Runs port handler q m s taken a m' s'

theorem Implements.refl (p : Prog M S α) : Implements port handler p p := fun _ _ _ _ _ _ h => h

theorem Implements.bind {p q : Prog M S α} {k l : α → Prog M S β}
    (first : Implements port handler p q) (second : ∀ a, Implements port handler (k a) (l a)) :
    Implements port handler (p.bind k) (q.bind l) := by
  intro m s taken b m' s' run
  obtain ⟨a, m₁, s₁, before, after, front, back, rfl⟩ := run.split
  exact (first m s before a m₁ s₁ front).bind (second a m₁ s₁ after b m' s' back)

theorem Runs.replace (h : ∀ i, Implements port handler' (handler i) (handler' i))
    {p : Prog M S α} {m m' : M} {s s' : S} {taken : List I} {a : α}
    (run : Runs port handler p m s taken a m' s') : Runs port handler' p m s taken a m' s' := by
  induction run with
  | ret a m s => exact Runs.ret a m s
  | step _ ih => exact Runs.step ih
  | enter _ ih => exact Runs.enter ih
  | exit _ ih => exact Runs.exit ih
  | interrupt i allowed _ _ first second =>
    exact Runs.interrupt i allowed (h i _ _ _ _ _ _ first) second

def Stable (port : Masking M I) (handler : I → Prog M S Unit) (f : S → β) : Prop :=
  ∀ i m s taken m' s', Runs port handler (handler i) m s taken () m' s' → f s' = f s

theorem Stable.comp {f : S → β} (h : Stable port handler f) (g : β → γ) :
    Stable port handler fun s => g (f s) :=
  fun i m s taken m' s' run => congrArg g (h i m s taken m' s' run)

theorem stable_of_steps {f : S → β} (steps : ∀ i, (handler i).Within fun s t => f t = f s) :
    Stable port handler f := fun i _ _ _ _ _ run =>
  run.within (R := fun s t => f t = f s) (fun _ => rfl)
    (fun _ _ _ first second => second.trans first) steps (steps i)

/-- `p` only looks at what no handler changes: it may as well be done before any of the
interrupts that are taken during it, with the result `f`. -/
def Peeks (port : Masking M I) (handler : I → Prog M S Unit) (p : Prog M S β) (f : S → β) : Prop :=
  ∀ m s taken b m' s', Runs port handler p m s taken b m' s' →
    b = f s ∧ Runs port handler (ret ()) m s taken () m' s'

theorem peeks_ret (b : β) : Peeks port handler (ret b) fun _ => b := by
  intro m s taken b' m' s' run
  generalize e : (Prog.ret b : Prog M S β) = p at run
  induction run with
  | ret b' m s =>
    cases e
    exact ⟨rfl, Runs.ret () m s⟩
  | step => cases e
  | enter => cases e
  | exit => cases e
  | interrupt i allowed served _ _ ih =>
    obtain ⟨value, later⟩ := ih b e
    exact ⟨value, Runs.interrupt i allowed served later⟩

theorem peeks_read {f : S → β} (stable : Stable port handler f) :
    Peeks port handler (read f) f := by
  intro m s taken b m' s' run
  generalize e : (Prog.read f : Prog M S β) = p at run
  induction run with
  | ret => cases e
  | @step _ update next m m' s s' taken b rest =>
    cases e
    exact peeks_ret (f s) m s taken b m' s' rest
  | enter => cases e
  | exit => cases e
  | @interrupt _ p m m₁ m' s s₁ s' during later b i allowed served rest _ ih =>
    obtain ⟨value, idle⟩ := ih stable e
    exact ⟨value.trans (stable i m s during m₁ s₁ served), Runs.interrupt i allowed served idle⟩

theorem Runs.after {p : Prog M S α} {m m₁ m' : M} {s s₁ s' : S} {first second : List I} {a : α}
    (before : Runs port handler (Prog.ret ()) m s first () m₁ s₁)
    (h : Runs port handler p m₁ s₁ second a m' s') :
    Runs port handler p m s (first ++ second) a m' s' :=
  before.bind (k := fun _ => p) h

theorem Stable.idle {f : S → β} (stable : Stable port handler f) {a b : α} {m m' : M} {s s' : S}
    {taken : List I} (h : Runs port handler (Prog.ret a) m s taken b m' s') : f s' = f s := by
  generalize e : (Prog.ret a : Prog M S α) = p at h
  induction h with
  | ret => rfl
  | step => cases e
  | enter => cases e
  | exit => cases e
  | interrupt i _ served _ _ ih => exact (ih e).trans (stable i _ _ _ _ _ served)

theorem Peeks.both {p q : Prog M S Bool} {f g : S → Bool} (first : Peeks port handler p f)
    (second : Peeks port handler q g) (stable : Stable port handler g) :
    Peeks port handler (both p q) fun s => f s && g s := by
  intro m s taken b m' s' run
  obtain ⟨c, m₁, s₁, before, after, front, back, rfl⟩ := run.split
  obtain ⟨rfl, idle⟩ := first m s before c m₁ s₁ front
  cases value : f s with
  | true =>
    rw [value, if_pos rfl] at back
    obtain ⟨same, later⟩ := second m₁ s₁ after b m' s' back
    exact ⟨by simp [same, value, stable.idle idle], idle.after later⟩
  | false =>
    rw [value, if_neg Bool.false_ne_true] at back
    obtain ⟨same, later⟩ := peeks_ret false m₁ s₁ after b m' s' back
    exact ⟨by simp [same, value], idle.after later⟩

theorem Peeks.either {p q : Prog M S Bool} {f g : S → Bool} (first : Peeks port handler p f)
    (second : Peeks port handler q g) (stable : Stable port handler g) :
    Peeks port handler (either p q) fun s => f s || g s := by
  intro m s taken b m' s' run
  obtain ⟨c, m₁, s₁, before, after, front, back, rfl⟩ := run.split
  obtain ⟨rfl, idle⟩ := first m s before c m₁ s₁ front
  cases value : f s with
  | true =>
    rw [value, if_pos rfl] at back
    obtain ⟨same, later⟩ := peeks_ret true m₁ s₁ after b m' s' back
    exact ⟨by simp [same, value], idle.after later⟩
  | false =>
    rw [value, if_neg Bool.false_ne_true] at back
    obtain ⟨same, later⟩ := second m₁ s₁ after b m' s' back
    exact ⟨by simp [same, value, stable.idle idle], idle.after later⟩

/-- A critical section is one step, where `g` holds, which no handler changes. -/
theorem Runs.critical {g : S → Bool} (stable : Stable port handler g) {next : M → Prog M S α}
    {whole : S → α × S}
    (body : ∀ m s, g s = true →
      (next m).settle s = (Prog.exit m (Prog.ret (whole s).1), (whole s).2))
    {m m' : M} {s s' : S} {taken : List I} {a : α}
    (h : Runs port handler (Prog.enter next) m s taken a m' s') (holds : g s = true) :
    Runs port handler (atomic whole) m s taken a m' s' := by
  generalize e : Prog.enter next = p at h
  induction h with
  | ret => cases e
  | step => cases e
  | exit => cases e
  | @enter _ next' m m' s s' taken a rest =>
    cases e
    have settled := rest.settled (port.raise_masks m)
    rw [body m s holds] at settled
    cases settled with
    | exit after => exact Runs.step after
    | interrupt i allowed => rw [port.raise_masks] at allowed; cases allowed
  | @interrupt _ p m m₁ m' s s₁ s' during later a i allowed served _ _ ih =>
    have held : g s₁ = true := (stable i m s during m₁ s₁ served).trans holds
    exact Runs.interrupt i allowed served (ih body held e)

theorem Implements.critical {next : M → Prog M S α} {whole : S → α × S}
    (body : ∀ m s, (next m).settle s = (Prog.exit m (Prog.ret (whole s).1), (whole s).2)) :
    Implements port handler (Prog.enter next) (atomic whole) :=
  fun _ _ _ _ _ _ run => run.critical (g := fun _ => true) (fun _ _ _ _ _ _ _ => rfl)
    (fun m s _ => body m s) rfl

theorem Implements.guarded (field : Field S A) {guard : Prog M A Bool} {g : A → Bool}
    {next : M → Prog M A α} {whole : A → α × A} {refusal : α}
    (peeks : Peeks port handler (guard.inside field) fun s => g (field.get s))
    (stable : Stable port handler fun s => g (field.get s))
    (body : ∀ m a, g a = true →
      (next m).settle a = (Prog.exit m (Prog.ret (whole a).1), (whole a).2))
    (refuses : ∀ a, g a = false → whole a = (refusal, a)) :
    Implements port handler
      ((guard.bind fun ok => if ok then Prog.enter next else Prog.ret refusal).inside field)
      (atomic (field.apply whole)) := by
  intro m s taken a m' s' run
  rw [inside_bind] at run
  obtain ⟨ok, m₁, s₁, before, after, front, back, rfl⟩ := run.split
  obtain ⟨result, idle⟩ := peeks m s before ok m₁ s₁ front
  cases value : g (field.get s) with
  | true =>
    rw [result.trans value, if_pos rfl] at back
    have held : g (field.get s₁) = true := (stable.idle idle).trans value
    refine idle.after (Runs.critical stable (fun m s holds => ?_) back held)
    rw [settle_inside, body m _ holds]
    rfl
  | false =>
    rw [result.trans value, if_neg Bool.false_ne_true] at back
    refine Runs.step ?_
    rw [Field.apply, refuses _ value, field.set_get]
    exact idle.after back

end Runs

end Prog

end SchedulerLib.Lib
