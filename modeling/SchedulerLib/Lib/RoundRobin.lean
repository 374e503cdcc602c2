import Mathlib.Data.Fin.Basic
import Mathlib.Data.List.Chain

/-!
Turns on a ring of `n` places. Whoever is present may take a turn, and the next turn goes to
the first one present behind the last. `distance a x` is how far `x` is behind `a` on the
ring; a whole turn of the ring separates `a` from itself.
-/

namespace SchedulerLib.Lib.RoundRobin

variable {n : Nat}

def distance (a x : Fin n) : Nat := if a < x then x.val - a.val else x.val + n - a.val

theorem distance_self (a : Fin n) : distance a a = n := by
  simp [distance]

theorem distance_le (a x : Fin n) : distance a x ≤ n := by
  have := x.isLt
  unfold distance
  split_ifs with behind
  · omega
  · rw [Fin.not_lt, Fin.le_def] at behind
    omega

theorem distance_injective (a : Fin n) {x y : Fin n} (same : distance a x = distance a y) :
    x = y := by
  have hx := x.isLt
  have hy := y.isLt
  have ha := a.isLt
  unfold distance at same
  simp only [Fin.lt_def] at same
  split_ifs at same <;> exact Fin.ext (by omega)

theorem eq_of_whole {a x : Fin n} (whole : n ≤ distance a x) : x = a :=
  distance_injective a (le_antisymm (distance_le a x) whole |>.trans (distance_self a).symm)

theorem distance_of_further {b a y : Fin n} (other : a ≠ b)
    (further : distance b a < distance b y) : distance a y = distance b y - distance b a := by
  have hb := b.isLt
  have ha := a.isLt
  have hy := y.isLt
  have ne : a.val ≠ b.val := Fin.val_ne_of_ne other
  unfold distance at further ⊢
  simp only [Fin.lt_def] at further ⊢
  split_ifs at further ⊢ <;> omega

theorem distance_of_not_further {b a y : Fin n} (near : distance b y ≤ distance b a) :
    distance a y = distance b y + n - distance b a := by
  have hb := b.isLt
  have ha := a.isLt
  have hy := y.isLt
  unfold distance at near ⊢
  simp only [Fin.lt_def] at near ⊢
  split_ifs at near ⊢ <;> omega

theorem distance_pos (a x : Fin n) : 0 < distance a x := by
  have bound := a.isLt
  unfold distance
  split_ifs with behind
  · rw [Fin.lt_def] at behind
    omega
  · omega

structure Next (present : Fin n → Prop) (a x : Fin n) : Prop where
  here : present x
  nearest : ∀ y, present y → distance a x ≤ distance a y

/-- The steps from `b` to `a`, which counts as none when the round has just begun at `b`. -/
def passed (b a : Fin n) : Nat := if a = b then 0 else distance b a

theorem passed_self (b : Fin n) : passed b b = 0 := by
  rw [passed, if_pos rfl]

theorem passed_of_ne {b a : Fin n} (other : a ≠ b) : passed b a = distance b a := by
  rw [passed, if_neg other]

theorem passed_lt (b a : Fin n) : passed b a < distance b b := by
  rw [distance_self]
  by_cases same : a = b
  · rw [same, passed_self]
    exact b.pos
  · rw [passed_of_ne same]
    exact lt_of_le_of_ne (distance_le b a) fun whole => same (eq_of_whole whole.ge)

theorem distance_of_passed {b a y : Fin n} (further : passed b a < distance b y) :
    distance a y = distance b y - passed b a := by
  by_cases same : a = b
  · rw [same, passed_self]
    rfl
  · rw [passed_of_ne same] at further ⊢
    exact distance_of_further same further

theorem distance_of_not_passed {b a y : Fin n} (near : distance b y ≤ passed b a) :
    distance a y = distance b y + n - passed b a := by
  by_cases same : a = b
  · rw [same, passed_self] at near
    exact absurd (distance_pos b y) (by omega)
  · rw [passed_of_ne same] at near ⊢
    exact distance_of_not_further near

section Turns

variable {T : Type} {present : T → Fin n → Prop}

/-- Two consecutive turns: whoever was present still is, and the nearest one follows. -/
structure Succeeds (present : T → Fin n → Prop) (x y : Fin n × T) : Prop where
  next : Next (present y.2) x.1 y.1
  stays : ∀ i, present x.2 i → present y.2 i

theorem Succeeds.advances {b : Fin n} {x y : Fin n × T} (h : Succeeds present x y)
    (waits : present x.2 b) : passed b x.1 < distance b y.1 ∧
      ∀ c, present x.2 c → passed b x.1 < distance b c → distance b y.1 ≤ distance b c := by
  have start := passed_lt b x.1
  have nearest := h.next.nearest b (h.stays b waits)
  rw [distance_of_passed start, distance_self] at nearest
  have onward : passed b x.1 < distance b y.1 := by
    by_contra back
    rw [not_lt] at back
    have positive := distance_pos b y.1
    rw [distance_of_not_passed back] at nearest
    rw [distance_self] at start
    omega
  refine ⟨onward, fun c here further => ?_⟩
  have closer := h.next.nearest c (h.stays c here)
  rw [distance_of_passed onward, distance_of_passed further] at closer
  omega

/-- The turns `between` on the way back to `b`: ever further from `b`, and leaving out nobody
present at the turn `x` whom the round has still to pass. -/
structure Round (present : T → Fin n → Prop) (b : Fin n) (x : Fin n × T)
    (between : List (Fin n × T)) : Prop where
  onward : List.IsChain (· < ·) (passed b x.1 :: between.map fun z => distance b z.1)
  complete : ∀ c, present x.2 c → c ≠ b → passed b x.1 < distance b c →
    c ∈ between.map Prod.fst

theorem Succeeds.closes {b : Fin n} {x y : Fin n × T} (h : Succeeds present x y)
    (waits : present x.2 b) (back : y.1 = b) : Round present b x [] := by
  obtain ⟨-, nearest⟩ := h.advances waits
  refine ⟨List.IsChain.singleton _, fun c here other further => absurd ?_ other⟩
  have far := nearest c here further
  rw [back, distance_self] at far
  exact eq_of_whole far

theorem Succeeds.extends {b : Fin n} {x z : Fin n × T} {between : List (Fin n × T)}
    (h : Succeeds present x z) (waits : present x.2 b) (other : z.1 ≠ b)
    (rest : Round present b z between) : Round present b x (z :: between) := by
  obtain ⟨onward, nearest⟩ := h.advances waits
  have steps := rest.onward
  have complete := rest.complete
  rw [passed_of_ne other] at steps complete
  refine ⟨List.IsChain.cons_cons onward steps, fun c here ne further => ?_⟩
  rcases (nearest c here further).lt_or_eq with beyond | same
  · exact List.mem_cons_of_mem _ (complete c (h.stays c here) ne beyond)
  · rw [← distance_injective b same]
    exact List.mem_cons_self

theorem round_of_chain {b : Fin n} {x y : Fin n × T} {between : List (Fin n × T)}
    (chain : List.IsChain (Succeeds present) (x :: (between ++ [y]))) (waits : present x.2 b)
    (back : y.1 = b) (others : ∀ z ∈ between, z.1 ≠ b) : Round present b x between := by
  induction between generalizing x with
  | nil => exact (List.isChain_cons_cons.mp chain).1.closes waits back
  | cons z between ih =>
    obtain ⟨first, rest⟩ := List.isChain_cons_cons.mp chain
    have later := ih rest (first.stays b waits) fun u mem =>
      others u (List.mem_cons_of_mem _ mem)
    exact first.extends waits (others z List.mem_cons_self) later

/-- Between two consecutive turns of `b` the others take theirs in the order of the ring from
`b` on, and whoever was present at the first of the two is among them. -/
theorem round_of_turns {b : Fin n} {s s' : T} {between : List (Fin n × T)}
    (chain : List.IsChain (Succeeds present) ((b, s) :: (between ++ [(b, s')])))
    (waits : present s b) (others : ∀ z ∈ between, z.1 ≠ b) :
    (between.map fun z => distance b z.1).Pairwise (· < ·) ∧
      ∀ c, present s c → c ≠ b → c ∈ between.map Prod.fst := by
  have round := round_of_chain chain waits rfl others
  have steps := List.isChain_iff_pairwise.mp round.onward
  refine ⟨(List.pairwise_cons.mp steps).2, fun c here other => round.complete c here other ?_⟩
  rw [passed_self]
  exact distance_pos b c

end Turns

end SchedulerLib.Lib.RoundRobin
