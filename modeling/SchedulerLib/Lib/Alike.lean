import Mathlib.Order.Defs.Unbundled
import SchedulerLib.Lib.World

/-!
Worlds that cannot be told apart by what is looked at: a view of the state, the events that
are observed, and the environment up to an equivalence. A change that is not looked at
leads to a world alike, and the same change leads from worlds alike to worlds alike.
-/

namespace SchedulerLib.Lib.World

variable {S E σ T A : Type}

structure Alike (R : σ → σ → Prop) (view : S → T) (observe : E → Option A)
    (w w' : World S E σ) : Prop where
  env : R w.env w'.env
  state : view w.state = view w'.state
  seen : w.events.filterMap observe = w'.events.filterMap observe

variable {R : σ → σ → Prop} {view : S → T} {observe : E → Option A} {w w' w₁ w₂ w₃ : World S E σ}

section Equivalence

theorem Alike.refl (equiv : Equivalence R) (w : World S E σ) : Alike R view observe w w :=
  ⟨equiv.refl w.env, rfl, rfl⟩

theorem Alike.symm (equiv : Equivalence R) (h : Alike R view observe w w') :
    Alike R view observe w' w :=
  ⟨equiv.symm h.env, h.state.symm, h.seen.symm⟩

theorem Alike.trans (equiv : Equivalence R) (h : Alike R view observe w₁ w₂)
    (k : Alike R view observe w₂ w₃) : Alike R view observe w₁ w₃ :=
  ⟨equiv.trans h.env k.env, h.state.trans k.state, h.seen.trans k.seen⟩

/-- Worlds alike stay so while each takes a way that is not looked at. -/
theorem Alike.between (equiv : Equivalence R) (h : Alike R view observe w w')
    (k : Alike R view observe w w₁) (k' : Alike R view observe w' w₂) :
    Alike R view observe w₁ w₂ :=
  ((k.symm equiv).trans equiv h).trans equiv k'

theorem alike_setEnv (w : World S E σ) (e : σ) (same : R w.env e) :
    Alike R view observe w (w.setEnv e) :=
  ⟨same, rfl, rfl⟩

theorem alike_modify (equiv : Equivalence R) (w : World S E σ) (f : S → S)
    (same : view w.state = view (f w.state)) : Alike R view observe w (w.modify f) :=
  ⟨equiv.refl w.env, same, rfl⟩

theorem alike_emit (equiv : Equivalence R) (w : World S E σ) (e : E) (unseen : observe e = none) :
    Alike R view observe w (w.emit e) := by
  refine ⟨equiv.refl w.env, rfl, ?_⟩
  rw [emit_events, List.filterMap_append, List.filterMap_cons_none unseen, List.filterMap_nil,
    List.append_nil]

end Equivalence

theorem Alike.setEnv (h : Alike R view observe w w') {e e' : σ} (same : R e e') :
    Alike R view observe (w.setEnv e) (w'.setEnv e') :=
  ⟨same, h.state, h.seen⟩

theorem Alike.modify (h : Alike R view observe w w') (f f' : S → S)
    (same : view (f w.state) = view (f' w'.state)) :
    Alike R view observe (w.modify f) (w'.modify f') :=
  ⟨h.env, same, h.seen⟩

theorem Alike.emit (h : Alike R view observe w w') (e : E) :
    Alike R view observe (w.emit e) (w'.emit e) := by
  refine ⟨h.env, h.state, ?_⟩
  rw [emit_events, emit_events, List.filterMap_append, List.filterMap_append, h.seen]

end SchedulerLib.Lib.World
