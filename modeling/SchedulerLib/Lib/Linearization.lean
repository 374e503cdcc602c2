import SchedulerLib.Lib.Preemption

/-!
Clients of a shared object. A client calls the object's operations one after the other and
may choose each by the answers to those before. Where the code of every operation implements
the operation as one step, each run of a client under interrupts, whose handlers are clients
too, has a serial history: the calls of all of them in one order, in which the object
answered as if it had been called by one of them only.
-/

namespace SchedulerLib.Lib

/-- A client of an object with the calls `C` and the answers `R`. -/
inductive Client (C R α : Type) where
  | done (a : α)
  | call (c : C) (next : R → Client C R α)

structure Served (C R : Type) where
  own : Bool
  call : C
  answer : R

variable {M S T I C R α : Type}

def perform (act : C → S → R × S) (s : S) : List C → List R × S
  | [] => ([], s)
  | c :: rest => ((act c s).1 :: (perform act (act c s).2 rest).1, (perform act (act c s).2 rest).2)

theorem perform_append (act : C → S → R × S) (s : S) (first second : List C) :
    perform act s (first ++ second) =
      ((perform act s first).1 ++ (perform act (perform act s first).2 second).1,
        (perform act (perform act s first).2 second).2) := by
  induction first generalizing s with
  | nil => rfl
  | cons c rest ih => simp only [List.cons_append, perform, ih]

def Simulates (Rel : S → T → Prop) (act : C → S → R × S) (act' : C → T → R × T) : Prop :=
  ∀ c s t, Rel s t → (act c s).1 = (act' c t).1 ∧ Rel (act c s).2 (act' c t).2

namespace Client

def program (code : C → Prog M S R) : Client C R α → Prog M S α
  | done a => .ret a
  | call c next => (code c).bind fun r => (next r).program code

def Answers : Client C R α → List (C × R) → α → Prop
  | done a, [], b => b = a
  | done _, _ :: _, _ => False
  | call _ _, [], _ => False
  | call c next, (d, r) :: rest, b => d = c ∧ (next r).Answers rest b

variable {act : C → S → R × S}

theorem program_within {R' : S → S → Prop} (steps : ∀ c s, R' s (act c s).2)
    (client : Client C R α) :
    (client.program fun c => (Prog.atomic (act c) : Prog M S R)).Within R' := by
  induction client with
  | done a => trivial
  | call c next ih => exact fun s => ⟨steps c s, ih (act c s).1⟩

theorem program_unmasked (client : Client C R α) :
    (client.program fun c => (Prog.atomic (act c) : Prog M S R)).Unmasked := by
  induction client with
  | done a => trivial
  | call c next ih => exact fun s => ih (act c s).1

theorem program_implements {port : Masking M I} {handler : I → Prog M S Unit}
    {code : C → Prog M S R}
    (operations : ∀ c, Prog.Implements port handler (code c) (Prog.atomic (act c)))
    (client : Client C R α) : Prog.Implements port handler (client.program code)
      (client.program fun c => Prog.atomic (act c)) := by
  induction client with
  | done a => exact Prog.Implements.refl _
  | call c next ih => exact (operations c).bind ih

/-- The history of a client on an object that serves one call at a time. `isr` are the
clients that may come between two calls; their calls stand in the history where they came, and
the list before it has them in the order in which they came. -/
inductive Serial (act : C → S → R × S) (isr : I → Client C R Unit) :
    {α : Type} → Client C R α → S → List I → List (Served C R) → α → S → Prop
  | done {α : Type} (a : α) (s : S) : Serial act isr (done a) s [] [] a s
  | call {α : Type} {c : C} {next : R → Client C R α} {s s' : S} {taken : List I}
    {later : List (Served C R)} {a : α}
    (rest : Serial act isr (next (act c s).1) (act c s).2 taken later a s') :
    Serial act isr (call c next) s taken (⟨true, c, (act c s).1⟩ :: later) a s'
  | interrupt {α : Type} {client : Client C R α} {s s₁ s' : S} {nested after : List I}
    {during later : List (Served C R)} {a : α} (i : I)
    (served : Serial act isr (isr i) s nested during () s₁)
    (rest : Serial act isr client s₁ after later a s') :
    Serial act isr client s (i :: (nested ++ after))
      (during.map (fun x => { x with own := false }) ++ later) a s'

variable {isr : I → Client C R Unit}

theorem Serial.performs {client : Client C R α} {s s' : S} {taken : List I}
    {history : List (Served C R)} {a : α} (h : Serial act isr client s taken history a s') :
    perform act s (history.map Served.call) = (history.map Served.answer, s') := by
  induction h with
  | done => rfl
  | call _ ih => simp only [List.map_cons, perform, ih]
  | @interrupt _ _ _ _ _ _ _ during later _ i _ _ first second =>
    have calls : (during.map fun x => ({ x with own := false } : Served C R)).map Served.call =
        during.map Served.call := by simp
    have answers : (during.map fun x => ({ x with own := false } : Served C R)).map
        Served.answer = during.map Served.answer := by simp
    rw [List.map_append, List.map_append, calls, answers, perform_append, first, second]

theorem Serial.answers {client : Client C R α} {s s' : S} {taken : List I}
    {history : List (Served C R)} {a : α} (h : Serial act isr client s taken history a s') :
    client.Answers ((history.filter Served.own).map fun x => (x.call, x.answer)) a := by
  induction h with
  | done => rfl
  | call _ ih => exact ⟨rfl, ih⟩
  | @interrupt _ _ _ _ _ _ _ during later _ i _ _ _ second =>
    have silent : (during.map fun x => ({ x with own := false } : Served C R)).filter
        Served.own = [] := by simp
    rw [List.filter_append, silent, List.nil_append]
    exact second

theorem Serial.simulate {Rel : S → T → Prop} {act' : C → T → R × T} (like : Simulates Rel act act')
    {client : Client C R α} {s s' : S} {taken : List I} {history : List (Served C R)} {a : α}
    (h : Serial act isr client s taken history a s') {t : T} (start : Rel s t) :
    ∃ t', Serial act' isr client t taken history a t' ∧ Rel s' t' := by
  induction h generalizing t with
  | done a s => exact ⟨t, Serial.done a t, start⟩
  | @call _ c next s s' taken later a _ ih =>
    obtain ⟨answer, next_state⟩ := like c s t start
    obtain ⟨t', rest, last⟩ := ih next_state
    rw [answer] at rest ⊢
    exact ⟨t', Serial.call rest, last⟩
  | interrupt i _ _ first second =>
    obtain ⟨t₁, served, middle⟩ := first start
    obtain ⟨t', rest, last⟩ := second middle
    exact ⟨t', Serial.interrupt i served rest, last⟩

theorem serial_of_atomic {port : Masking M I} {client : Client C R α} {m m' : M} {s s' : S}
    {taken : List I} {a : α}
    (run : Prog.Runs port (fun i => (isr i).program fun c => Prog.atomic (act c))
      (client.program fun c => Prog.atomic (act c)) m s taken a m' s') :
    ∃ history, Serial act isr client s taken history a s' := by
  generalize e : (client.program fun c => (Prog.atomic (act c) : Prog M S R)) = p at run
  induction run with
  | @ret _ a m s =>
    cases client with
    | done b =>
      cases e
      exact ⟨[], Serial.done a s⟩
    | call c next => cases e
  | @step _ update next m m' s s' taken a _ ih =>
    cases client with
    | done b => cases e
    | call c next' =>
      cases e
      obtain ⟨history, explained⟩ := ih rfl
      exact ⟨_, explained.call⟩
  | enter =>
    cases client with
    | done b => cases e
    | call c next' => cases e
  | exit =>
    cases client with
    | done b => cases e
    | call c next' => cases e
  | interrupt i _ _ _ first second =>
    obtain ⟨during, handled⟩ := first rfl
    obtain ⟨later, explained⟩ := second e
    exact ⟨_, Serial.interrupt i handled explained⟩

/-- Code that implements its operations makes every run serial, whatever preempts it, and
leaves the interrupt state as it was. The serial history has the interrupts of the run. -/
theorem serial {port : Masking M I} {code : C → Prog M S R}
    (operations : ∀ c, Prog.Implements port (fun i => (isr i).program fun c => Prog.atomic (act c))
      (code c) (Prog.atomic (act c)))
    {client : Client C R α} {m m' : M} {s s' : S} {taken : List I} {a : α}
    (run : Prog.Runs port (fun i => (isr i).program code) (client.program code) m s taken a m'
      s') :
    m' = m ∧ ∃ history, Serial act isr client s taken history a s' := by
  have replaced := run.replace fun i => program_implements operations (isr i)
  have steps := program_implements operations client m s taken a m' s' replaced
  exact ⟨steps.unmasked (fun i => program_unmasked (isr i)) (program_unmasked client),
    serial_of_atomic steps⟩

end Client

end SchedulerLib.Lib
