import Mathlib.Algebra.Ring.Nat
import Mathlib.Data.List.Basic

namespace WrappingClock

/-!
# Clocks that wrap around

A counter of `w` bits shows the time modulo `2 ^ w`.  Two times that are close to each other are
told apart by the difference of what the counter shows.

* `shown` — what the counter shows at a time;
* `sub_of_le`, `sub_of_lt` — the difference, if the second time is not later, and if it is.
-/

variable {w : Nat}

/-- What the counter shows at time `n`. -/
def shown (w n : Nat) : BitVec w := BitVec.ofNat w n

theorem toNat_sub_shown (d e : Nat) :
    (shown w d - shown w e).toNat = (2 ^ w - e % 2 ^ w + d) % 2 ^ w := by
  simp [shown, BitVec.toNat_sub]

/-- The difference to an earlier time is the time that has passed. -/
theorem sub_of_le {d e : Nat} (h : e ≤ d) (hnear : d - e < 2 ^ w) :
    (shown w d - shown w e).toNat = d - e := by
  obtain ⟨k, rfl⟩ := Nat.exists_eq_add_of_le h
  have hmod : e % 2 ^ w ≤ 2 ^ w := Nat.le_of_lt (Nat.mod_lt _ (Nat.two_pow_pos w))
  have hk : k < 2 ^ w := by omega
  have hsum : 2 ^ w - e % 2 ^ w + (e + k) = k + 2 ^ w * (1 + e / 2 ^ w) := by
    have hdiv := Nat.mod_add_div e (2 ^ w)
    rw [Nat.mul_add, Nat.mul_one]
    omega
  rw [toNat_sub_shown, hsum, Nat.add_mul_mod_self_left, Nat.mod_eq_of_lt hk]
  omega

/-- The difference to a later time is as much short of a whole turn as it lies ahead. -/
theorem sub_of_lt {d e : Nat} (h : d < e) (hnear : e - d ≤ 2 ^ w) :
    (shown w d - shown w e).toNat = (2 ^ w - (e - d)) % 2 ^ w := by
  obtain ⟨k, rfl⟩ := Nat.exists_eq_add_of_lt h
  have hmod : (d + k + 1) % 2 ^ w ≤ 2 ^ w := Nat.le_of_lt (Nat.mod_lt _ (Nat.two_pow_pos w))
  have hsum : 2 ^ w - (d + k + 1) % 2 ^ w + d
      = 2 ^ w - (d + k + 1 - d) + 2 ^ w * ((d + k + 1) / 2 ^ w) := by
    have hdiv := Nat.mod_add_div (d + k + 1) (2 ^ w)
    omega
  rw [toNat_sub_shown, hsum, Nat.add_mul_mod_self_left]

end WrappingClock
