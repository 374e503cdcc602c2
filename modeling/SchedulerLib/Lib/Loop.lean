import Mathlib.Logic.Function.Iterate

/-!
`while` loops as a relation between the state before and the state after. A loop that does
not terminate relates its state to none.
-/

namespace SchedulerLib.Lib

variable {S : Type} {cond : S → Prop} {body : S → S}

inductive While (cond : S → Prop) (body : S → S) : S → S → Prop
  | done (s : S) (stop : ¬ cond s) : While cond body s s
  | again (s t : S) (go : cond s) (rest : While cond body (body s) t) : While cond body s t

namespace While

theorem functional {s t t' : S} (h : While cond body s t) (h' : While cond body s t') :
    t = t' := by
  induction h with
  | done s stop =>
    cases h' with
    | done => rfl
    | again _ _ go => exact absurd go stop
  | again s t go rest ih =>
    cases h' with
    | done _ stop => exact absurd go stop
    | again _ _ _ rest' => exact ih rest'

theorem stopped {s t : S} (h : While cond body s t) : ¬ cond t := by
  induction h with
  | done s stop => exact stop
  | again s t go rest ih => exact ih

theorem of_iterate (s : S) (n : Nat) (go : ∀ k < n, cond (body^[k] s)) (stop : ¬ cond (body^[n] s)) :
    While cond body s (body^[n] s) := by
  induction n generalizing s with
  | zero => exact done s stop
  | succ n ih =>
    have rest : While cond body (body s) (body^[n] (body s)) :=
      ih (body s) (fun k below => go (k + 1) (Nat.succ_lt_succ below)) stop
    exact again s _ (go 0 (Nat.succ_pos n)) rest

/-- A loop that goes on `n` times and then stops has the `n`-th iterate as its only result. -/
theorem iff_of_iterate (s : S) (n : Nat) (go : ∀ k < n, cond (body^[k] s))
    (stop : ¬ cond (body^[n] s)) (t : S) : While cond body s t ↔ t = body^[n] s := by
  have terminates := of_iterate s n go stop
  constructor
  · intro result
    exact result.functional terminates
  · rintro rfl
    exact terminates

end While

end SchedulerLib.Lib
