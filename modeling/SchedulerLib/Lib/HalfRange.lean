import Mathlib.Tactic.Ring
import Mathlib.Tactic.Linarith

/-!
Wrapping counters compared by the sign of their difference. A counter of `w + 1` bits
shows a true time modulo `2 ^ (w + 1)`; the comparison of two readings agrees with the
comparison of the true times exactly as long as these lie within `2 ^ w` of each other.
-/

namespace SchedulerLib.Lib.HalfRange

variable {w : Nat}

def reached (now target : BitVec (w + 1)) : Prop := 0 ≤ (now - target).toInt

instance (now target : BitVec (w + 1)) : Decidable (reached now target) :=
  inferInstanceAs (Decidable (0 ≤ (now - target).toInt))

theorem toInt_nonneg_iff (x : BitVec (w + 1)) : 0 ≤ x.toInt ↔ x.toNat < 2 ^ w := by
  have bound := x.isLt
  rw [BitVec.toInt_eq_toNat_cond]
  rw [pow_succ] at bound ⊢
  split <;> omega

theorem toNat_sub_of_le (now target : Nat) (le : target ≤ now) (near : now < target + 2 ^ w) :
    (BitVec.ofNat (w + 1) now - BitVec.ofNat (w + 1) target).toNat = now - target := by
  have split : now = (now - target) + target := by omega
  have small : now - target < 2 ^ (w + 1) := by
    rw [pow_succ]
    omega
  conv_lhs => rw [split, BitVec.ofNat_add, BitVec.add_sub_cancel]
  rw [BitVec.toNat_ofNat, Nat.mod_eq_of_lt small]

theorem toNat_sub_of_lt (now target : Nat) (lt : now < target)
    (near : target < now + 2 ^ (w + 1)) :
    (BitVec.ofNat (w + 1) now - BitVec.ofNat (w + 1) target).toNat =
      2 ^ (w + 1) - (target - now) := by
  have split : target = (target - now) + now := by omega
  have small : target - now < 2 ^ (w + 1) := by omega
  conv_lhs =>
    rw [split, BitVec.ofNat_add, BitVec.toNat_sub, BitVec.toNat_add, BitVec.toNat_ofNat,
      BitVec.toNat_ofNat, Nat.mod_eq_of_lt small]
  generalize 2 ^ (w + 1) = m at small ⊢
  have low : now % m < m := Nat.mod_lt _ (by omega)
  rcases Nat.lt_or_ge (target - now + now % m) m with fits | wraps
  · rw [Nat.mod_eq_of_lt fits, show m - (target - now + now % m) + now % m = m - (target - now) by
      omega, Nat.mod_eq_of_lt (by omega)]
  · rw [Nat.mod_eq_sub_mod wraps, Nat.mod_eq_of_lt (a := target - now + now % m - m) (by omega),
      show m - (target - now + now % m - m) + now % m = (m - (target - now)) + m by omega,
      Nat.add_mod_right, Nat.mod_eq_of_lt (by omega)]

/-- Within half the range, the sign test reads the order of the true times. -/
theorem reached_iff (now target : Nat) (ahead : target ≤ now + 2 ^ w)
    (behind : now < target + 2 ^ w) :
    reached (BitVec.ofNat (w + 1) now) (BitVec.ofNat (w + 1) target) ↔ target ≤ now := by
  rw [reached, toInt_nonneg_iff]
  have double : 2 ^ (w + 1) = 2 ^ w + 2 ^ w := by ring
  have positive : 0 < 2 ^ w := Nat.two_pow_pos w
  rcases Nat.lt_or_ge now target with early | late
  · rw [toNat_sub_of_lt now target early (by omega)]
    omega
  · rw [toNat_sub_of_le now target late behind]
    omega

/-- A target more than half the range ahead, but less than the whole of it, looks reached. -/
theorem reached_of_far (now target : Nat) (far : now + 2 ^ w < target)
    (near : target < now + 2 ^ (w + 1)) :
    reached (BitVec.ofNat (w + 1) now) (BitVec.ofNat (w + 1) target) := by
  have double : 2 ^ (w + 1) = 2 ^ w + 2 ^ w := by ring
  rw [reached, toInt_nonneg_iff, toNat_sub_of_lt now target (by omega) near]
  omega

theorem ofNat_add_mul (base count step : Nat) :
    BitVec.ofNat (w + 1) (base + count * step) =
      BitVec.ofNat (w + 1) base + BitVec.ofNat (w + 1) count * BitVec.ofNat (w + 1) step := by
  rw [BitVec.ofNat_add, BitVec.ofNat_mul]

end SchedulerLib.Lib.HalfRange
