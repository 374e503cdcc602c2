import SchedulerLib.Lib.World

/-!
Elapsed time in a `World`. The environment has a clock, and some of the events carry a time.
A step that elapses at most `d` moves the clock forward by no more than that, and the times
that it logs lie between its beginning and its end.
-/

namespace SchedulerLib.Lib

structure Elapses {S E σ : Type} (clock : σ → Nat) (stamp : E → Option Nat) (d : Nat)
    (w w' : World S E σ) : Prop where
  forward : clock w.env ≤ clock w'.env
  bounded : clock w'.env ≤ clock w.env + d
  log : ∃ l, w'.log = w.log ++ l ∧ ∀ t ∈ (l.map Prod.fst).filterMap stamp,
    clock w.env ≤ t ∧ t ≤ clock w'.env

namespace Elapses

variable {S E σ : Type} {clock : σ → Nat} {stamp : E → Option Nat} {d d' : Nat}
  {w w' w₁ w₂ w₃ : World S E σ}

theorem of_same (env : w'.env = w.env) (log : w'.log = w.log) :
    Elapses clock stamp 0 w w' where
  forward := Nat.le_of_eq (by rw [env])
  bounded := Nat.le_of_eq (by rw [env, Nat.add_zero])
  log := ⟨[], by rw [log, List.append_nil], by simp⟩

theorem refl (w : World S E σ) : Elapses clock stamp 0 w w := of_same rfl rfl

theorem mono (h : Elapses clock stamp d w w') (le : d ≤ d') : Elapses clock stamp d' w w' :=
  ⟨h.forward, Nat.le_trans h.bounded (Nat.add_le_add_left le _), h.log⟩

theorem trans (h : Elapses clock stamp d w₁ w₂) (k : Elapses clock stamp d' w₂ w₃) :
    Elapses clock stamp (d + d') w₁ w₃ := by
  obtain ⟨l, log, times⟩ := h.log
  obtain ⟨m, log', times'⟩ := k.log
  have forward := h.forward
  have forward' := k.forward
  have bounded := h.bounded
  have bounded' := k.bounded
  refine ⟨by omega, by omega, l ++ m, World.log_trans log log', fun t mem => ?_⟩
  rw [List.map_append, List.filterMap_append, List.mem_append] at mem
  rcases mem with mem | mem
  · have first := times t mem
    omega
  · have second := times' t mem
    omega

theorem unseen (h : Elapses clock stamp d w₁ w₂) (env : w₃.env = w₂.env)
    (log : w₃.log = w₂.log) : Elapses clock stamp d w₁ w₃ :=
  h.trans (of_same env log)

theorem setEnv (h : Elapses clock stamp d w w') (env : σ) (forward : clock w'.env ≤ clock env)
    (bounded : clock env ≤ clock w'.env + d') :
    Elapses clock stamp (d + d') w (w'.setEnv env) :=
  h.trans ⟨forward, bounded, [], (List.append_nil _).symm, by simp⟩

theorem emit (h : Elapses clock stamp d w w') (e : E) (untimed : stamp e = none) :
    Elapses clock stamp d w (w'.emit e) := by
  have logged : Elapses clock stamp 0 w' (w'.emit e) :=
    ⟨Nat.le_refl _, Nat.le_refl _, [(e, w'.state)], rfl, fun t mem => by simp [untimed] at mem⟩
  exact h.trans logged

/-- The times of any stretch of the log that makes up the step. -/
theorem times (h : Elapses clock stamp d w w') {l : List (E × S)} (log : w'.log = w.log ++ l)
    {t : Nat} (mem : t ∈ (l.map Prod.fst).filterMap stamp) :
    clock w.env ≤ t ∧ t ≤ clock w.env + d := by
  obtain ⟨m, log', times⟩ := h.log
  obtain rfl : l = m := List.append_cancel_left (log.symm.trans log')
  obtain ⟨after, before⟩ := times t mem
  exact ⟨after, Nat.le_trans before h.bounded⟩

end Elapses

end SchedulerLib.Lib
