import SchedulerLib.Lib.Loop
import SchedulerLib.Scheduler.Cadence

/-!
The release computed by one division against the plain catch-up loop, which adds the period
as long as the release is reached. On the true time line behind the ticks both stop at the
first release after `now`, since a period of at most half the range takes no release that
was reached beyond the part of the range where the comparison says it is ahead.
-/

namespace SchedulerLib.Scheduler

open Lib ReleaseGrid

/-- Ticks that compare as reached are those of times in this order, less than half the range
apart. -/
theorem exists_times {now next : BitVec 32} (reached : timeReached now next = true) :
    ∃ t target : Nat, now = BitVec.ofNat 32 t ∧ next = BitVec.ofNat 32 target ∧
      target ≤ t ∧ t < target + 2 ^ 31 := by
  rw [timeReached, decide_eq_true_iff] at reached
  have near := (HalfRange.toInt_nonneg_iff (w := 31) (now - next)).mp reached
  refine ⟨next.toNat + (now - next).toNat, next.toNat, ?_, ?_, by omega, by omega⟩
  · rw [BitVec.ofNat_add, BitVec.ofNat_toNat, BitVec.ofNat_toNat, BitVec.setWidth_eq,
      BitVec.setWidth_eq, BitVec.add_comm, BitVec.sub_add_cancel]
  · rw [BitVec.ofNat_toNat, BitVec.setWidth_eq]

def addPeriod (period next : BitVec 32) : BitVec 32 := next + period

theorem addPeriod_ofNat (period : BitVec 32) (target : Nat) :
    addPeriod period (BitVec.ofNat 32 target) = BitVec.ofNat 32 (target + period.toNat) := by
  rw [addPeriod, BitVec.ofNat_add target, BitVec.ofNat_toNat, BitVec.setWidth_eq]

theorem addPeriod_iterate (period : BitVec 32) (target n : Nat) :
    (addPeriod period)^[n] (BitVec.ofNat 32 target) =
      BitVec.ofNat 32 (target + n * period.toNat) := by
  induction n with
  | zero => rw [Function.iterate_zero, id, Nat.zero_mul, Nat.add_zero]
  | succ n ih =>
    rw [Function.iterate_succ_apply', ih, addPeriod_ofNat]
    congr 1
    ring

section Late

variable {t target period : Nat}

theorem catchUp_bounds (positive : 0 < period) (late : target ≤ t) :
    t < target + ((t - target) / period + 1) * period ∧
      target + ((t - target) / period + 1) * period ≤ t + period := by
  have next : nextAfter target period t = target + ((t - target) / period + 1) * period :=
    if_neg (not_lt.mpr late)
  have beyond := nextAfter_gt target period positive t
  have within := nextAfter_le target period t
  rw [max_eq_right (by omega)] at within
  rw [← next]
  exact ⟨beyond, within⟩

theorem catchUp_before (positive : 0 < period) (late : target ≤ t) {n : Nat}
    (fewer : n < (t - target) / period + 1) : target + n * period ≤ t := by
  have whole := (Nat.le_div_iff_mul_le positive).mp (Nat.lt_succ_iff.mp fewer)
  omega

end Late

section Reached

variable {now next period : BitVec 32}

theorem toNat_pos_of_ne (positive : period ≠ 0) : 0 < period.toNat := by
  rw [Nat.pos_iff_ne_zero]
  exact fun zero => positive (BitVec.eq_of_toNat_eq zero)

theorem while_of_reached (positive : period ≠ 0) (limit : period.toNat ≤ 2 ^ 31)
    (reached : timeReached now next = true) (r : BitVec 32) :
    While (fun release => timeReached now release = true) (addPeriod period) next r ↔
      r = advanceNextRelease now next period := by
  obtain ⟨t, target, rfl, rfl, late, near⟩ := exists_times reached
  have positive' := toNat_pos_of_ne positive
  obtain ⟨beyond, within⟩ := catchUp_bounds positive' late
  rw [advanceNextRelease_ofNat t target period positive late near, ← addPeriod_iterate]
  refine While.iff_of_iterate _ _ (fun n fewer => ?_) ?_ r
  · have behind := catchUp_before positive' late fewer
    rw [addPeriod_iterate, timeReached_ofNat t _ (by omega) (by omega)]
    exact behind
  · rw [addPeriod_iterate, timeReached_ofNat t _ (by omega) (by omega), not_le]
    exact beyond

theorem while_of_not_reached (ahead : ¬ timeReached now next = true) (r : BitVec 32) :
    While (fun release => timeReached now release = true) (addPeriod period) next r ↔
      r = advanceNextRelease now next period := by
  have stays : advanceNextRelease now next period = next := by
    rw [timeReached, decide_eq_true_iff, not_le] at ahead
    unfold advanceNextRelease
    dsimp only
    rw [if_pos ahead, ite_self]
  rw [stays]
  exact While.iff_of_iterate next 0 (fun n none => absurd none (Nat.not_lt_zero n)) ahead r

theorem releases_not_wrapped (positive : period ≠ 0) (limit : period.toNat ≤ 2 ^ 31)
    (reached : timeReached now next = true) :
    ((now - next) / period + 1).toNat = (now - next).toNat / period.toNat + 1 ∧
      (((now - next) / period + 1) * period).toNat =
        ((now - next).toNat / period.toNat + 1) * period.toNat := by
  have positive' := toNat_pos_of_ne positive
  rw [timeReached, decide_eq_true_iff] at reached
  have lateness := (HalfRange.toInt_nonneg_iff (w := 31) (now - next)).mp reached
  have fewer := Nat.div_le_self (now - next).toNat period.toNat
  obtain ⟨-, within⟩ := catchUp_bounds positive' (Nat.zero_le (now - next).toNat)
  rw [Nat.zero_add, Nat.sub_zero] at within
  have count : ((now - next) / period + 1).toNat = (now - next).toNat / period.toNat + 1 := by
    rw [BitVec.toNat_add, BitVec.toNat_udiv]
    exact Nat.mod_eq_of_lt (by change _ + 1 < _; omega)
  refine ⟨count, ?_⟩
  rw [BitVec.toNat_mul, count]
  exact Nat.mod_eq_of_lt (by omega)

theorem ahead_of_reached (positive : period ≠ 0) (limit : period.toNat ≤ 2 ^ 31)
    (reached : timeReached now next = true) :
    1 ≤ (advanceNextRelease now next period - now).toNat ∧
      (advanceNextRelease now next period - now).toNat ≤ period.toNat := by
  obtain ⟨t, target, rfl, rfl, late, near⟩ := exists_times reached
  obtain ⟨beyond, within⟩ := catchUp_bounds (toNat_pos_of_ne positive) late
  rw [advanceNextRelease_ofNat t target period positive late near]
  obtain ⟨ahead, split⟩ := Nat.exists_eq_add_of_lt beyond
  rw [split, show t + ahead + 1 = ahead + 1 + t by ring, BitVec.ofNat_add, BitVec.add_sub_cancel,
    BitVec.toNat_ofNat, Nat.mod_eq_of_lt (by omega)]
  omega

theorem whole_periods (positive : period ≠ 0) (reached : timeReached now next = true) :
    ∃ n : Nat, advanceNextRelease now next period = next + BitVec.ofNat 32 n * period := by
  obtain ⟨t, target, rfl, rfl, late, near⟩ := exists_times reached
  refine ⟨(t - target) / period.toNat + 1, ?_⟩
  rw [advanceNextRelease_ofNat t target period positive late near,
    HalfRange.ofNat_add_mul (w := 31), BitVec.ofNat_toNat, BitVec.setWidth_eq]

end Reached

/-- The loop `while (sch_time_reached(now, next_release)) next_release += period` terminates
with what `sch_advance_next_release` computes, and with nothing else. -/
theorem advance_eq_loop (now next period : BitVec 32) (positive : 0 < period.toNat)
    (limit : period.toNat ≤ 2 ^ 31) :
    (∀ r, While (fun release => timeReached now release = true) (addPeriod period) next r ↔
      r = advanceNextRelease now next period) ∧
    (timeReached now next = true →
      ((now - next) / period + 1).toNat = (now - next).toNat / period.toNat + 1 ∧
      (((now - next) / period + 1) * period).toNat =
        ((now - next).toNat / period.toNat + 1) * period.toNat ∧
      1 ≤ (advanceNextRelease now next period - now).toNat ∧
      (advanceNextRelease now next period - now).toNat ≤ period.toNat ∧
      ∃ n : Nat, advanceNextRelease now next period = next + BitVec.ofNat 32 n * period) := by
  have positive' : period ≠ 0 := by
    rintro rfl
    exact lt_irrefl _ positive
  constructor
  · intro r
    by_cases reached : timeReached now next = true
    · exact while_of_reached positive' limit reached r
    · exact while_of_not_reached reached r
  · intro reached
    obtain ⟨count, product⟩ := releases_not_wrapped positive' limit reached
    obtain ⟨after, within⟩ := ahead_of_reached positive' limit reached
    exact ⟨count, product, after, within, whole_periods positive' reached⟩

theorem advance_eq_loop_wrap :
    While (fun release => timeReached 5 release = true) (addPeriod 0x80000000#32) 0xfffffff6#32
      0x7ffffff6#32 := by
  obtain ⟨loop, -⟩ := advance_eq_loop 5 0xfffffff6#32 0x80000000#32 (by decide) (by decide)
  exact (loop _).mpr (by decide)

end SchedulerLib.Scheduler
