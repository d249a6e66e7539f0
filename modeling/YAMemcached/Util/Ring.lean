import Mathlib

/-!
This module contains arithmetic of positions on a ring of `n` places: sums of two positions wrap at
most once, so that a remainder can be traded for a case distinction that `omega` understands.
-/

namespace Ring

theorem mod_eq_ite {a n : Nat} (h : a < n + n)
    : a % n = if a < n then a else a - n := by
  split
  . apply Nat.mod_eq_of_lt
    assumption
  . rw [Nat.mod_eq_sub_mod]
    . apply Nat.mod_eq_of_lt
      omega
    . omega

theorem succ_mod {a n : Nat} (h : a < n)
    : (a + 1) % n = if a + 1 = n then 0 else a + 1 := by
  rw [mod_eq_ite (by omega)]
  split <;> split <;> omega

end Ring
