import Mathlib.Data.List.ReduceOption
import Mathlib.Data.Set.Card
import Mathlib.Order.Bounds.Basic
import Mathlib.Order.Interval.Finset.Nat
import Mathlib.Tactic.Ring
import Mathlib.Tactic.Linarith

/-!
Points `first + m * period` on an unbounded time line, and the one that is due next
after a given time. `due` is what an ideal timer waits for: the first point while nothing
was observed yet, afterwards the least point after the last observation.
-/

namespace SchedulerLib.Lib.ReleaseGrid

def point (first period m : Nat) : Nat := first + m * period

def nextAfter (first period t : Nat) : Nat :=
  if t < first then first else first + ((t - first) / period + 1) * period

def due (first period : Nat) : Option Nat → Nat
  | none => first
  | some t => nextAfter first period t

variable (first period : Nat)

theorem nextAfter_gt (positive : 0 < period) (t : Nat) : t < nextAfter first period t := by
  unfold nextAfter
  split
  · assumption
  · have division := Nat.div_add_mod (t - first) period
    have rest := Nat.mod_lt (t - first) positive
    have expand : ((t - first) / period + 1) * period =
        period * ((t - first) / period) + period := by ring
    omega

theorem nextAfter_le (t : Nat) : nextAfter first period t ≤ max first (t + period) := by
  unfold nextAfter
  split
  · exact le_max_left _ _
  · have division := Nat.div_mul_le_self (t - first) period
    have expand : ((t - first) / period + 1) * period =
        (t - first) / period * period + period := by ring
    exact le_max_of_le_right (by omega)

theorem nextAfter_point (t : Nat) : ∃ m, nextAfter first period t = point first period m := by
  unfold nextAfter
  split
  · exact ⟨0, by simp [point]⟩
  · exact ⟨(t - first) / period + 1, rfl⟩

theorem first_le_nextAfter (t : Nat) : first ≤ nextAfter first period t := by
  unfold nextAfter
  split <;> omega

theorem nextAfter_le_point (positive : 0 < period) (t m : Nat) (after : t < point first period m) :
    nextAfter first period t ≤ point first period m := by
  unfold nextAfter
  unfold point at after ⊢
  split
  · omega
  · rename_i late
    have strict : (t - first) / period < m :=
      (Nat.div_lt_iff_lt_mul positive).mpr (by omega)
    have scaled := Nat.mul_le_mul_right period strict
    rw [Nat.succ_eq_add_one] at scaled
    omega

theorem isLeast_nextAfter (positive : 0 < period) (t : Nat) :
    IsLeast {x | t < x ∧ ∃ m, point first period m = x} (nextAfter first period t) := by
  refine ⟨⟨nextAfter_gt first period positive t, ?_⟩, ?_⟩
  · obtain ⟨m, hm⟩ := nextAfter_point first period t
    exact ⟨m, hm.symm⟩
  · rintro x ⟨after, m, rfl⟩
    exact nextAfter_le_point first period positive t m after

theorem point_lt_iff (positive : 0 < period) (m n : Nat) :
    point first period m < point first period n ↔ m < n := by
  rw [point, point, Nat.add_lt_add_iff_left, Nat.mul_lt_mul_right positive]

theorem point_mono {m n : Nat} (le : m ≤ n) : point first period m ≤ point first period n :=
  Nat.add_le_add_left (Nat.mul_le_mul_right period le) first

theorem due_point (seen : Option Nat) : ∃ m, due first period seen = point first period m := by
  cases seen with
  | none => exact ⟨0, by simp [due, point]⟩
  | some t => exact nextAfter_point first period t

/-- Some point lies after the last observation and no later than `t` just when the due
point does. -/
theorem exists_point_iff_due_le (positive : 0 < period) (seen : Option Nat) (t : Nat) :
    (∃ m, point first period m ≤ t ∧ ∀ s, seen = some s → s < point first period m) ↔
      due first period seen ≤ t := by
  constructor
  · rintro ⟨m, le, after⟩
    cases seen with
    | none =>
      have base : first ≤ point first period m := Nat.le_add_right _ _
      exact base.trans le
    | some s => exact (nextAfter_le_point first period positive s m (after s rfl)).trans le
  · intro le
    obtain ⟨m, hm⟩ := due_point first period seen
    refine ⟨m, hm ▸ le, ?_⟩
    rintro s rfl
    rw [← hm]
    exact nextAfter_gt first period positive s

theorem catchUp_due (positive : 0 < period) (seen : Option Nat) (t : Nat)
    (late : due first period seen ≤ t) :
    due first period seen + ((t - due first period seen) / period + 1) * period =
      nextAfter first period t := by
  obtain ⟨m, hm⟩ := due_point first period seen
  rw [hm] at late ⊢
  unfold nextAfter
  unfold point at late ⊢
  rw [if_neg (by omega)]
  have shift : t - first = (t - (first + m * period)) + m * period := by omega
  have quotient : (t - first) / period = (t - (first + m * period)) / period + m := by
    rw [shift, Nat.add_mul_div_right _ _ positive]
  rw [quotient]
  ring

theorem due_of_ahead (positive : 0 < period) (seen : Option Nat) (t : Nat)
    (order : ∀ s, seen = some s → s ≤ t) (ahead : t < due first period seen) :
    nextAfter first period t = due first period seen := by
  obtain ⟨m, hm⟩ := due_point first period seen
  apply le_antisymm
  · rw [hm] at ahead ⊢
    exact nextAfter_le_point first period positive t m ahead
  · cases seen with
    | none => exact first_le_nextAfter first period t
    | some s =>
      obtain ⟨n, hn⟩ := nextAfter_point first period t
      have after := nextAfter_gt first period positive t
      rw [hn] at after ⊢
      exact nextAfter_le_point first period positive s n (by have := order s rfl; omega)

section Passed

/-- The number of points up to `t`. -/
def passed (first period t : Nat) : Nat := if t < first then 0 else (t - first) / period + 1

def passedBy (first period : Nat) : Option Nat → Nat
  | none => 0
  | some t => passed first period t

theorem point_le_iff (positive : 0 < period) (t m : Nat) :
    point first period m ≤ t ↔ m < passed first period t := by
  unfold point passed
  split_ifs with early
  · omega
  · rw [Nat.lt_succ_iff, Nat.le_div_iff_mul_le positive]
    omega

theorem ncard_point_le (positive : 0 < period) (t : Nat) :
    {m | point first period m ≤ t}.ncard = passed first period t := by
  have below : {m | point first period m ≤ t} = (Finset.range (passed first period t) : Set Nat) := by
    ext m
    rw [Set.mem_ofPred_eq, point_le_iff first period positive, Finset.mem_coe, Finset.mem_range]
  rw [below, Set.ncard_coe_finset, Finset.card_range]

theorem new_point_iff (positive : 0 < period) (seen : Option Nat) (t m : Nat) :
    (point first period m ≤ t ∧ ∀ s, seen = some s → s < point first period m) ↔
      passedBy first period seen ≤ m ∧ m < passed first period t := by
  rw [point_le_iff first period positive, and_comm]
  refine and_congr_left fun _ => ?_
  cases seen with
  | none => simp [passedBy]
  | some s =>
    have after := point_le_iff first period positive s m
    constructor
    · intro later
      exact not_lt.mp fun before => absurd (after.mpr before) (not_le.mpr (later s rfl))
    · rintro behind s' same
      obtain rfl : s = s' := Option.some.inj same
      exact not_le.mp fun before => absurd (after.mp before) (not_lt.mpr behind)

theorem exists_new_point_iff (positive : 0 < period) (seen : Option Nat) (t : Nat) :
    (∃ m, point first period m ≤ t ∧ ∀ s, seen = some s → s < point first period m) ↔
      passedBy first period seen < passed first period t := by
  constructor
  · rintro ⟨m, new⟩
    obtain ⟨behind, before⟩ := (new_point_iff first period positive seen t m).mp new
    exact behind.trans_lt before
  · intro more
    exact ⟨_, (new_point_iff first period positive seen t _).mpr ⟨le_refl _, more⟩⟩

theorem new_points_subsingleton_iff (positive : 0 < period) (seen : Option Nat) (t : Nat) :
    {m | point first period m ≤ t ∧ ∀ s, seen = some s → s < point first period m}.Subsingleton ↔
      passed first period t ≤ passedBy first period seen + 1 := by
  have new := new_point_iff first period positive seen t
  constructor
  · intro single
    by_contra more
    have both := single ((new (passedBy first period seen)).mpr ⟨le_refl _, by omega⟩)
      ((new (passedBy first period seen + 1)).mpr ⟨Nat.le_succ _, by omega⟩)
    omega
  · intro few m hm n hn
    have hm' := (new m).mp hm
    have hn' := (new n).mp hn
    omega

theorem passed_mono {s t : Nat} (le : s ≤ t) : passed first period s ≤ passed first period t := by
  unfold passed
  split_ifs
  · exact le_refl 0
  · exact Nat.zero_le _
  · omega
  · exact Nat.succ_le_succ (Nat.div_le_div_right (by omega))

theorem passed_le_add (positive : 0 < period) (s d : Nat) :
    passed first period (s + d) ≤ passed first period s + d := by
  by_contra more
  have early := (point_le_iff first period positive (s + d) _).mpr (not_le.mp more)
  have late := mt (point_le_iff first period positive s (passed first period s)).mp (lt_irrefl _)
  have apart : d ≤ d * period := Nat.le_mul_of_pos_right d positive
  have split : (passed first period s + d) * period =
      passed first period s * period + d * period := Nat.add_mul ..
  unfold point at early late
  omega

theorem passed_le_succ (positive : 0 < period) {s t : Nat} (near : t ≤ s + period) :
    passed first period t ≤ passed first period s + 1 := by
  by_contra more
  have early := (point_le_iff first period positive t _).mpr (not_le.mp more)
  have late := mt (point_le_iff first period positive s (passed first period s)).mp (lt_irrefl _)
  have split : (passed first period s + 1) * period =
      passed first period s * period + period := Nat.succ_mul ..
  unfold point at early late
  omega

theorem passed_add_le (positive : 0 < period) {s : Nat} (near : first ≤ s + period) (k : Nat) :
    passed first period s + k ≤ passed first period (s + k * period) := by
  cases k with
  | zero => rw [Nat.zero_mul, Nat.add_zero, Nat.add_zero]
  | succ n =>
    have last : first + passed first period s * period ≤ s + period := by
      cases count : passed first period s with
      | zero => omega
      | succ q =>
        have before := (point_le_iff first period positive s q).mpr (by omega)
        rw [point] at before
        rw [Nat.succ_mul]
        omega
    have split : (passed first period s + n) * period =
        passed first period s * period + n * period := Nat.add_mul ..
    have reached : point first period (passed first period s + n) ≤ s + (n + 1) * period := by
      rw [point, split, Nat.succ_mul]
      omega
    exact (point_le_iff first period positive _ _).mp reached

end Passed

section Observed

/-- The number of the point that an observation at `t` finds new. -/
def newPoint (seen : Option Nat) (t : Nat) : Option Nat :=
  if passedBy first period seen < passed first period t then some (passedBy first period seen)
  else none

def newPoints : Option Nat → List Nat → List (Option Nat)
  | _, [] => []
  | seen, t :: rest => newPoint first period seen t :: newPoints (some t) rest

/-- Observations no more than `wait` apart, of which the first comes before `first + wait`. -/
def Paced (wait : Nat) : Option Nat → List Nat → Prop
  | _, [] => True
  | seen, t :: rest => (seen = none → t < first + wait) ∧
    (∀ s, seen = some s → s ≤ t ∧ t ≤ s + wait) ∧ Paced wait (some t) rest

variable {first period} {wait : Nat} {seen : Option Nat} {t : Nat} {rest : List Nat}

theorem Paced.append {xs ys : List Nat} (h : Paced first wait seen (xs ++ ys)) :
    Paced first wait seen xs ∧ Paced first wait (xs.getLast?.or seen) ys := by
  induction xs generalizing seen with
  | nil => exact ⟨trivial, h⟩
  | cons t rest ih =>
    obtain ⟨begins, goes_on, later⟩ := h
    obtain ⟨front, back⟩ := ih later
    refine ⟨⟨begins, goes_on, front⟩, ?_⟩
    rw [List.getLast?_cons, Option.some_or]
    cases last : rest.getLast? with
    | none =>
      rw [last, Option.none_or] at back
      exact back
    | some l =>
      rw [last, Option.some_or] at back
      exact back

theorem Paced.ge {s : Nat} {ts : List Nat} (h : Paced first wait (some s) ts) :
    ∀ u ∈ ts, s ≤ u := by
  induction ts generalizing s with
  | nil => exact fun u mem => by cases mem
  | cons t rest ih =>
    have after := (h.2.1 s rfl).1
    intro u mem
    rcases List.mem_cons.mp mem with rfl | later
    · exact after
    · exact after.trans (ih h.2.2 u later)

theorem Paced.le_last {ts : List Nat} (h : Paced first wait seen ts) :
    ∀ u ∈ ts, ∀ l ∈ ts.getLast?, u ≤ l := by
  intro u mem l last
  obtain ⟨front, rfl⟩ := List.getLast?_eq_some_iff.mp last
  rcases List.mem_append.mp mem with early | same
  · obtain ⟨before, after, rfl⟩ := List.append_of_mem early
    rw [List.append_assoc, List.cons_append] at h
    exact h.append.2.2.2.ge l (List.mem_append_right _ List.mem_cons_self)
  · exact (List.mem_singleton.mp same).le

theorem Paced.few (h : Paced first wait seen (t :: rest)) (positive : 0 < period)
    (short : wait ≤ period) : passedBy first period seen ≤ passed first period t ∧
      passed first period t ≤ passedBy first period seen + 1 := by
  obtain ⟨begins, goes_on, -⟩ := h
  cases seen with
  | none =>
    have early := begins rfl
    refine ⟨Nat.zero_le _, ?_⟩
    by_contra more
    have second := (point_le_iff first period positive t 1).mpr (by rw [passedBy] at more; omega)
    unfold point at second
    omega
  | some s =>
    obtain ⟨after, near⟩ := goes_on s rfl
    exact ⟨passed_mono first period after, passed_le_succ first period positive (by omega)⟩

theorem Paced.prompt (h : Paced first wait seen (t :: rest)) (positive : 0 < period) {m : Nat}
    (new : newPoint first period seen t = some m) :
    point first period m ≤ t ∧ t < point first period m + wait := by
  obtain ⟨begins, goes_on, -⟩ := h
  unfold newPoint at new
  split_ifs at new with more
  obtain rfl := Option.some.inj new
  refine ⟨(point_le_iff first period positive t _).mpr more, ?_⟩
  cases seen with
  | none =>
    have early := begins rfl
    simpa [passedBy, point] using early
  | some s =>
    have near := (goes_on s rfl).2
    have later := mt (point_le_iff first period positive s _).mp (lt_irrefl _)
    rw [passedBy]
    omega

/-- Observed often enough, the points come one by one and in order. -/
theorem Paced.in_order (positive : 0 < period) (short : wait ≤ period) (times : List Nat)
    (seen : Option Nat) (h : Paced first wait seen times) :
    passedBy first period seen ≤ passedBy first period (times.getLast?.or seen) ∧
      (newPoints first period seen times).reduceOption = List.range' (passedBy first period seen)
        (passedBy first period (times.getLast?.or seen) - passedBy first period seen) := by
  induction times generalizing seen with
  | nil => simp [newPoints]
  | cons t rest ih =>
    obtain ⟨grown, few⟩ := h.few positive short
    obtain ⟨further, numbers⟩ := ih (some t) h.2.2
    have last : (t :: rest).getLast?.or seen = rest.getLast?.or (some t) := by
      rw [List.getLast?_cons]
      cases rest.getLast? <;> rfl
    rw [last]
    rw [passedBy] at further numbers
    refine ⟨grown.trans further, ?_⟩
    rw [newPoints, newPoint]
    generalize passedBy first period (rest.getLast?.or (some t)) = total at further numbers ⊢
    split_ifs with more
    · have next : passed first period t = passedBy first period seen + 1 := by omega
      rw [List.reduceOption_cons_of_some, numbers, next]
      have count : total - passedBy first period seen =
          (total - (passedBy first period seen + 1)) + 1 := by omega
      rw [count, List.range'_succ]
    · have same : passed first period t = passedBy first period seen := by omega
      rw [List.reduceOption_cons_of_none, numbers, same]

end Observed

section Apart

variable {gap width : Nat}

theorem exists_after_gaps (t : Nat) (times : List Nat)
    (apart : (t :: times).IsChain fun s u => s + gap ≤ u) :
    ∃ u ∈ t :: times, t + times.length * gap ≤ u := by
  induction times generalizing t with
  | nil => exact ⟨t, List.mem_cons_self, by simp⟩
  | cons s rest ih =>
    obtain ⟨near, apart'⟩ := List.isChain_cons_cons.mp apart
    obtain ⟨u, mem, after⟩ := ih s apart'
    refine ⟨u, List.mem_cons_of_mem t mem, ?_⟩
    rw [List.length_cons, Nat.succ_mul]
    omega

theorem length_of_within (positive : 0 < gap) (times : List Nat)
    (apart : times.IsChain fun s u => s + gap ≤ u)
    (within : ∀ t ∈ times, ∀ u ∈ times, u ≤ t + width) : times.length ≤ width / gap + 1 := by
  cases times with
  | nil => exact Nat.zero_le _
  | cons t rest =>
    obtain ⟨u, mem, after⟩ := exists_after_gaps t rest apart
    have near := within t List.mem_cons_self u mem
    have few : rest.length ≤ width / gap := (Nat.le_div_iff_mul_le positive).mpr (by omega)
    exact Nat.succ_le_succ few

end Apart

end SchedulerLib.Lib.ReleaseGrid
