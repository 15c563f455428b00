import UltraBacktest.Library.Welford
import Mathlib.Algebra.Order.Ring.Pow
import Mathlib.Data.List.Induction
import Mathlib.Tactic.Linarith

/-! Compound growth. Over any sequence of rates the growth at the single rates is at most the
growth at their mean, by induction along the recurrence of the mean. -/

namespace Welford

variable {K : Type*} [Field K] [LinearOrder K] [IsStrictOrderedRing K]

/-- The weighted inequality of the means for one value more. -/
theorem pow_mul_le_pow_succ {x y : K} (hx : 0 ≤ x) (hy : 0 ≤ y) (n : ℕ) :
    x ^ n * y ≤ (x + (y - x) / (n + 1)) ^ (n + 1) := by
  have hn : (0 : K) < n + 1 := by exact_mod_cast n.succ_pos
  rcases hx.eq_or_lt with rfl | hpos
  · cases n with
    | zero => simp
    | succ n =>
        rw [zero_pow n.succ_ne_zero, zero_mul, zero_add, sub_zero]
        exact pow_nonneg (div_nonneg hy hn.le) _
  · -- Bernoulli's inequality for the change relative to `x`.
    have hsmall : -2 ≤ (y - x) / ((n + 1) * x) := by
      rw [le_div_iff₀ (mul_pos hn hpos)]
      have hcast : (1 : K) ≤ n + 1 := by exact_mod_cast Nat.succ_le_succ n.zero_le
      nlinarith
    have hbernoulli := one_add_mul_le_pow hsmall (n + 1)
    have hfactor : x + (y - x) / (n + 1) = x * (1 + (y - x) / ((n + 1) * x)) := by
      field_simp
    have hvalue : x ^ (n + 1) * (1 + (n + 1 : ℕ) * ((y - x) / ((n + 1) * x))) = x ^ n * y := by
      push_cast
      field_simp
      ring
    rw [hfactor, mul_pow, ← hvalue]
    exact mul_le_mul_of_nonneg_left hbernoulli (pow_nonneg hpos.le _)

/-- Growth at the single rates is at most growth at their mean. -/
theorem prod_one_add_le {xs : List K} (h : ∀ x ∈ xs, -1 ≤ x) :
    -1 ≤ mean xs ∧ (xs.map (fun x => 1 + x)).prod ≤ (1 + mean xs) ^ xs.length := by
  induction xs using List.reverseRecOn with
  | nil => simp [mean]
  | append_singleton xs x ih =>
      obtain ⟨hmean, hprod⟩ := ih (fun y hy => h y (List.mem_append_left _ hy))
      have hx : -1 ≤ x := h x (by simp)
      have hn : (0 : K) < xs.length + 1 := by exact_mod_cast xs.length.succ_pos
      constructor
      · have hnext : 1 + mean (xs ++ [x]) =
            (xs.length * (1 + mean xs) + (1 + x)) / (xs.length + 1) := by
          rw [mean_concat]
          field_simp
          ring
        have hnonneg : 0 ≤ 1 + mean (xs ++ [x]) := by
          rw [hnext]
          exact div_nonneg (add_nonneg (mul_nonneg (Nat.cast_nonneg _) (by linarith))
            (by linarith)) hn.le
        linarith
      · rw [mean_concat, List.map_append, List.prod_append, List.length_append,
          List.map_singleton, List.prod_singleton, List.length_singleton]
        have hstep := pow_mul_le_pow_succ (x := 1 + mean xs) (y := 1 + x) (by linarith)
          (by linarith) xs.length
        have hshift : 1 + (mean xs + (x - mean xs) / (xs.length + 1)) =
            1 + mean xs + (1 + x - (1 + mean xs)) / (xs.length + 1) := by ring
        rw [hshift]
        exact (mul_le_mul_of_nonneg_right hprod (by linarith)).trans hstep

end Welford
