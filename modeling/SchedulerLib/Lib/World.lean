import Mathlib.Data.List.Basic

/-!
A component together with what surrounds it. `state` is the component's own data,
`env` the environment it calls into, and `log` everything it did, each entry with
the state at that moment. The log is never read by the code under study: it is the
record that statements about whole histories are made of.
-/

namespace SchedulerLib.Lib

structure World (S E σ : Type) where
  state : S
  env : σ
  log : List (E × S)

namespace World

variable {S E σ : Type}

def start (s : S) (e : σ) : World S E σ := ⟨s, e, []⟩

def setState (w : World S E σ) (s : S) : World S E σ := { w with state := s }

def modify (w : World S E σ) (f : S → S) : World S E σ := w.setState (f w.state)

def setEnv (w : World S E σ) (e : σ) : World S E σ := { w with env := e }

def emit (w : World S E σ) (e : E) : World S E σ :=
  { w with log := w.log ++ [(e, w.state)] }

def events (w : World S E σ) : List E := w.log.map Prod.fst

def since (w w' : World S E σ) : List (E × S) := w'.log.drop w.log.length

def eventsSince (w w' : World S E σ) : List E := w'.events.drop w.events.length

@[simp] theorem start_state (s : S) (e : σ) : (start s e : World S E σ).state = s := rfl
@[simp] theorem start_env (s : S) (e : σ) : (start s e : World S E σ).env = e := rfl
@[simp] theorem start_log (s : S) (e : σ) : (start s e : World S E σ).log = [] := rfl
@[simp] theorem start_events (s : S) (e : σ) : (start s e : World S E σ).events = [] := rfl

@[simp] theorem setState_state (w : World S E σ) (s : S) : (w.setState s).state = s := rfl
@[simp] theorem setState_env (w : World S E σ) (s : S) : (w.setState s).env = w.env := rfl
@[simp] theorem setState_log (w : World S E σ) (s : S) : (w.setState s).log = w.log := rfl
@[simp] theorem setState_events (w : World S E σ) (s : S) :
    (w.setState s).events = w.events := rfl

@[simp] theorem modify_state (w : World S E σ) (f : S → S) : (w.modify f).state = f w.state := rfl
@[simp] theorem modify_env (w : World S E σ) (f : S → S) : (w.modify f).env = w.env := rfl
@[simp] theorem modify_log (w : World S E σ) (f : S → S) : (w.modify f).log = w.log := rfl
@[simp] theorem modify_events (w : World S E σ) (f : S → S) :
    (w.modify f).events = w.events := rfl

@[simp] theorem setEnv_state (w : World S E σ) (e : σ) : (w.setEnv e).state = w.state := rfl
@[simp] theorem setEnv_env (w : World S E σ) (e : σ) : (w.setEnv e).env = e := rfl
@[simp] theorem setEnv_log (w : World S E σ) (e : σ) : (w.setEnv e).log = w.log := rfl
@[simp] theorem setEnv_events (w : World S E σ) (e : σ) : (w.setEnv e).events = w.events := rfl

@[simp] theorem emit_state (w : World S E σ) (e : E) : (w.emit e).state = w.state := rfl
@[simp] theorem emit_env (w : World S E σ) (e : E) : (w.emit e).env = w.env := rfl
@[simp] theorem emit_log (w : World S E σ) (e : E) :
    (w.emit e).log = w.log ++ [(e, w.state)] := rfl
@[simp] theorem emit_events (w : World S E σ) (e : E) :
    (w.emit e).events = w.events ++ [e] := by
  simp [events]

theorem since_of_log (w w' : World S E σ) (l : List (E × S)) (h : w'.log = w.log ++ l) :
    since w w' = l := by
  simp [since, h]

theorem log_trans {w₁ w₂ w₃ : World S E σ} {l m : List (E × S)} (h : w₂.log = w₁.log ++ l)
    (k : w₃.log = w₂.log ++ m) : w₃.log = w₁.log ++ (l ++ m) := by
  rw [k, h, List.append_assoc]

theorem since_append {w₁ w₂ w₃ : World S E σ} {l m : List (E × S)} (h : w₂.log = w₁.log ++ l)
    (k : w₃.log = w₂.log ++ m) : since w₁ w₃ = since w₁ w₂ ++ since w₂ w₃ := by
  rw [since_of_log w₁ w₂ l h, since_of_log w₂ w₃ m k, since_of_log w₁ w₃ _ (log_trans h k)]

theorem eventsSince_of_events (w w' : World S E σ) (l : List E)
    (h : w'.events = w.events ++ l) : eventsSince w w' = l := by
  simp [eventsSince, h]

theorem eventsSince_of_log (w w' : World S E σ) (l : List (E × S)) (h : w'.log = w.log ++ l) :
    eventsSince w w' = l.map Prod.fst := by
  refine eventsSince_of_events w w' _ ?_
  rw [events, events, h, List.map_append]

section Map

variable {T F : Type} (f : S → T) (g : E → F)

/-- The same history seen through views of the state and of the events. -/
def map (w : World S E σ) : World T F σ where
  state := f w.state
  env := w.env
  log := w.log.map fun x => (g x.1, f x.2)

@[simp] theorem map_state (w : World S E σ) : (w.map f g).state = f w.state := rfl
@[simp] theorem map_events (w : World S E σ) : (w.map f g).events = w.events.map g := by
  simp [events, map]

theorem map_start (s : S) (e : σ) : (start s e : World S E σ).map f g = start (f s) e := rfl

theorem map_emit (w : World S E σ) (e : E) : (w.emit e).map f g = (w.map f g).emit (g e) := by
  simp [emit, map]

theorem map_modify (w : World S E σ) (h : S → S) (k : T → T) (same : f (h w.state) = k (f w.state)) :
    (w.modify h).map f g = (w.map f g).modify k := by
  simp [modify, setState, map, same]

theorem map_eventsSince (w w' : World S E σ) :
    eventsSince (w.map f g) (w'.map f g) = (eventsSince w w').map g := by
  simp [eventsSince]

end Map

theorem concat_split {A : Type} {l before after : List A} {x y : A}
    (split : l ++ [y] = before ++ x :: after) :
    (before = l ∧ x = y ∧ after = []) ∨ ∃ rest, after = rest ++ [y] ∧ l = before ++ x :: rest := by
  rcases List.eq_nil_or_concat after with rfl | ⟨rest, z, rfl⟩
  · obtain ⟨rfl, last⟩ := List.append_inj' split rfl
    exact Or.inl ⟨rfl, (List.cons.inj last).1.symm, rfl⟩
  · have longer : l ++ [y] = (before ++ x :: rest) ++ [z] := by simpa using split
    obtain ⟨older, last⟩ := List.append_inj' longer rfl
    obtain rfl : y = z := (List.cons.inj last).1
    exact Or.inr ⟨rest, List.concat_eq_append, older⟩

/-- `P` of the log and the state holds now, and held at the moment of every entry. -/
structure Throughout (P : List E → S → Prop) (w : World S E σ) : Prop where
  now : P w.events w.state
  always : ∀ before x after, w.log = before ++ x :: after →
    P (before.map Prod.fst ++ [x.1]) x.2

section Throughout

variable {P : List E → S → Prop}

theorem throughout_start (s : S) (e : σ) (h : P [] s) : Throughout P (start s e) where
  now := h
  always before x after hl := by simp at hl

theorem Throughout.setEnv {w : World S E σ} (h : Throughout P w) (e : σ) :
    Throughout P (w.setEnv e) := ⟨h.now, h.always⟩

theorem Throughout.setState {w : World S E σ} (h : Throughout P w) (s : S)
    (hs : P w.events s) : Throughout P (w.setState s) := ⟨hs, h.always⟩

theorem Throughout.record {w : World S E σ} (h : Throughout P w) (s : S) (e : E)
    (hs : P (w.events ++ [e]) s) : Throughout P ((w.setState s).emit e) where
  now := by simpa using hs
  always before x after hl := by
    rcases concat_split hl with ⟨rfl, rfl, -⟩ | ⟨rest, -, older⟩
    · exact hs
    · exact h.always before x rest older

theorem Throughout.emit {w : World S E σ} (h : Throughout P w) (e : E)
    (hs : P (w.events ++ [e]) w.state) : Throughout P (w.emit e) := by
  have := h.record w.state e hs
  exact this

theorem Throughout.of_map {T F : Type} {f : S → T} {g : E → F} {Q : List F → T → Prop}
    {w : World S E σ} (h : Throughout Q (w.map f g)) :
    Throughout (fun events s => Q (events.map g) (f s)) w where
  now := by simpa using h.now
  always before x after hl := by
    have seen : (w.map f g).log = before.map (fun x => (g x.1, f x.2)) ++
        (g x.1, f x.2) :: after.map (fun x => (g x.1, f x.2)) := by
      simp [map, hl]
    have moment := h.always _ _ _ seen
    simpa [Function.comp_def] using moment

theorem Throughout.imp {Q : List E → S → Prop} {w : World S E σ} (h : Throughout P w)
    (weaker : ∀ events s, events <+: w.events → P events s → Q events s) : Throughout Q w where
  now := weaker _ _ List.prefix_rfl h.now
  always before x after hl := by
    refine weaker _ _ ⟨after.map Prod.fst, ?_⟩ (h.always before x after hl)
    simp [events, hl]

theorem Throughout.mono {Q : List E → S → Prop} {w : World S E σ} (h : Throughout P w)
    (weaker : ∀ events s, P events s → Q events s) : Throughout Q w :=
  h.imp fun events s _ => weaker events s

theorem Throughout.and {Q : List E → S → Prop} {w : World S E σ} (h : Throughout P w)
    (k : Throughout Q w) : Throughout (fun events s => P events s ∧ Q events s) w :=
  ⟨⟨h.now, k.now⟩, fun before x after hl => ⟨h.always before x after hl, k.always before x after hl⟩⟩

theorem Throughout.at_event {w : World S E σ} (h : Throughout P w) (before : List E) (e : E)
    (logged : before ++ [e] <+: w.events) : ∃ s, P (before ++ [e]) s := by
  obtain ⟨after, split⟩ := logged
  rw [List.append_assoc, events, eq_comm, List.map_eq_append_iff] at split
  obtain ⟨l, rest, log, rfl, tail⟩ := split
  rw [List.singleton_append, List.map_eq_cons_iff] at tail
  obtain ⟨x, rest', rfl, rfl, -⟩ := tail
  exact ⟨x.2, h.always l x rest' log⟩

end Throughout

/-- `P` of the log so far holds of every entry. -/
def Recorded (P : List (E × S) → E × S → Prop) (w : World S E σ) : Prop :=
  ∀ before x after, w.log = before ++ x :: after → P before x

theorem recorded_start (P : List (E × S) → E × S → Prop) (s : S) (e : σ) :
    Recorded P (start s e) := by
  intro before x after split
  simp at split

theorem Recorded.emit {P : List (E × S) → E × S → Prop} {w : World S E σ} (h : Recorded P w)
    (e : E) (new : P w.log (e, w.state)) : Recorded P (w.emit e) := by
  intro before x after split
  rcases concat_split split with ⟨rfl, rfl, -⟩ | ⟨rest, -, older⟩
  · exact new
  · exact h before x rest older

/-- `R` from every moment to every later one. -/
def Ordered (R : S → S → Prop) (w : World S E σ) : Prop :=
  (w.log.map Prod.snd ++ [w.state]).Pairwise R

section Ordered

variable {R : S → S → Prop} {w : World S E σ}

theorem ordered_start (R : S → S → Prop) (s : S) (e : σ) : Ordered R (start s e : World S E σ) :=
  List.pairwise_singleton R s

theorem Ordered.setState (h : Ordered R w) (trans : ∀ a b c, R a b → R b c → R a c) (s : S)
    (next : R w.state s) : Ordered R (w.setState s) := by
  obtain ⟨old, -, earlier⟩ := List.pairwise_append.mp h
  refine List.pairwise_append.mpr ⟨old, List.pairwise_singleton R s, fun a mem b hb => ?_⟩
  rw [List.mem_singleton.mp hb]
  exact trans a w.state s (earlier a mem w.state List.mem_cons_self) next

theorem Ordered.emit (h : Ordered R w) (refl : R w.state w.state) (e : E) :
    Ordered R (w.emit e) := by
  obtain ⟨-, -, earlier⟩ := List.pairwise_append.mp h
  rw [Ordered, emit_log, emit_state, List.map_append]
  refine List.pairwise_append.mpr ⟨h, List.pairwise_singleton R _, fun a mem b hb => ?_⟩
  rw [List.mem_singleton.mp hb]
  rcases List.mem_append.mp mem with old | now
  · exact earlier a old w.state List.mem_cons_self
  · rw [List.mem_singleton.mp now]
    exact refl

end Ordered

end World

end SchedulerLib.Lib
