import Mathlib.Algebra.BigOperators.Ring.List
import Mathlib.Algebra.Order.BigOperators.Group.List
import Mathlib.Algebra.Order.Field.Basic
import Mathlib.Tactic.FieldSimp
import Mathlib.Tactic.LinearCombination
import Mathlib.Tactic.Ring

/-! Welford's recurrence for the mean and the squared deviations of a sequence, over an
arbitrary field of characteristic zero. -/

namespace Welford

variable {K : Type*} [Field K]

/-- The running aggregates: how many values, their mean, and the sum of their squared
deviations from it. -/
structure Moments (K : Type*) where
  count : ℕ
  mean : K
  m2 : K

/-- One value more. -/
def push (m : Moments K) (x : K) : Moments K where
  count := m.count + 1
  mean := m.mean + (x - m.mean) / (m.count + 1)
  m2 := m.m2 + (x - m.mean) * (x - (m.mean + (x - m.mean) / (m.count + 1)))

/-- The mean of no values is zero. -/
def mean (xs : List K) : K := xs.sum / xs.length

/-- The sum of the squared deviations from the mean. -/
def deviation (xs : List K) : K := (xs.map (fun x => (x - mean xs) ^ 2)).sum

def batch (xs : List K) : Moments K := ⟨xs.length, mean xs, deviation xs⟩

theorem sum_map_sub_sq (xs : List K) (c : K) :
    (xs.map (fun x => (x - c) ^ 2)).sum =
      (xs.map (fun x => x ^ 2)).sum - 2 * c * xs.sum + xs.length * c ^ 2 := by
  induction xs with
  | nil => simp
  | cons x xs ih =>
      simp only [List.map_cons, List.sum_cons, List.length_cons, ih]
      push_cast
      ring

theorem length_mul_mean [CharZero K] (xs : List K) : xs.length * mean xs = xs.sum := by
  cases xs with
  | nil => simp
  | cons x xs =>
      rw [mean]
      have hne : ((x :: xs).length : K) ≠ 0 := Nat.cast_ne_zero.mpr (by simp)
      field_simp

/-- The deviations through the sum of squares. -/
theorem deviation_eq [CharZero K] (xs : List K) :
    deviation xs = (xs.map (fun x => x ^ 2)).sum - xs.length * mean xs ^ 2 := by
  rw [deviation, sum_map_sub_sq]
  linear_combination (2 * mean xs) * length_mul_mean xs

theorem mean_concat [CharZero K] (xs : List K) (x : K) :
    mean (xs ++ [x]) = mean xs + (x - mean xs) / (xs.length + 1) := by
  have hne : (xs.length : K) + 1 ≠ 0 := by exact_mod_cast Nat.succ_ne_zero xs.length
  have hsum := length_mul_mean xs
  rw [mean, List.sum_append, List.sum_singleton, List.length_append, List.length_singleton]
  push_cast
  rw [← hsum]
  field_simp
  ring

theorem batch_concat [CharZero K] (xs : List K) (x : K) :
    batch (xs ++ [x]) = push (batch xs) x := by
  have hlength : ((xs ++ [x]).length : K) = xs.length + 1 := by
    rw [List.length_append, List.length_singleton]
    push_cast
    rfl
  have hmean := mean_concat xs x
  have hnext := length_mul_mean (xs ++ [x])
  rw [hlength, List.sum_append, List.sum_singleton, ← length_mul_mean xs] at hnext
  rw [batch, push]
  simp only [Moments.mk.injEq]
  refine ⟨by simp [batch], hmean, ?_⟩
  change deviation (xs ++ [x]) = deviation xs +
    (x - mean xs) * (x - (mean xs + (x - mean xs) / (xs.length + 1)))
  rw [← hmean, deviation_eq, deviation_eq, hlength, List.map_append, List.sum_append,
    List.map_singleton, List.sum_singleton]
  linear_combination (-mean (xs ++ [x]) - mean xs) * hnext

theorem batch_nil : batch ([] : List K) = ⟨0, 0, 0⟩ := by
  simp [batch, mean, deviation]

theorem deviation_nonneg [LinearOrder K] [IsStrictOrderedRing K] (xs : List K) :
    0 ≤ deviation xs := by
  apply List.sum_nonneg
  intro y hy
  obtain ⟨x, -, rfl⟩ := List.mem_map.mp hy
  exact sq_nonneg _

end Welford
