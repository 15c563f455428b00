import Mathlib.Algebra.Order.Field.Basic
import Mathlib.Order.PartialSups

/-! Drawdowns of a sequence: how far it has fallen from its running peak. A maximum over the
running peaks is a maximum over all pairs. -/

namespace Drawdown

/-- A running supremum in a linear order is the greatest value so far. -/
theorem isGreatest_partialSups {α : Type*} [LinearOrder α] (f : ℕ → α) (n : ℕ) :
    IsGreatest {x | ∃ j ≤ n, x = f j} (partialSups f n) := by
  constructor
  · obtain ⟨j, hj, heq⟩ := exists_partialSups_eq f n
    exact ⟨j, hj, heq⟩
  · rintro x ⟨j, hj, rfl⟩
    exact le_partialSups_of_le f hj

/-- The fall from the running peak. -/
def drop {K : Type*} [LinearOrder K] [Sub K] (e : ℕ → K) (j : ℕ) : K := partialSups e j - e j

theorem drop_zero {K : Type*} [AddCommGroup K] [LinearOrder K] (e : ℕ → K) : drop e 0 = 0 := by
  rw [drop, partialSups_zero, sub_self]

theorem drop_nonneg {K : Type*} [AddCommGroup K] [LinearOrder K] [IsOrderedAddMonoid K]
    (e : ℕ → K) (j : ℕ) : 0 ≤ drop e j :=
  sub_nonneg.mpr (le_partialSups e j)

theorem isGreatest_drop {K : Type*} [AddCommGroup K] [LinearOrder K] [IsOrderedAddMonoid K]
    (e : ℕ → K) (n : ℕ) :
    IsGreatest {x | ∃ i j, i ≤ j ∧ j ≤ n ∧ x = e i - e j} (partialSups (drop e) n) := by
  obtain ⟨⟨j, hj, heq⟩, hupper⟩ := isGreatest_partialSups (drop e) n
  constructor
  · obtain ⟨i, hi, hpeak⟩ := exists_partialSups_eq e j
    refine ⟨i, j, hi, hj, ?_⟩
    rw [heq, drop, hpeak]
  · rintro x ⟨i, k, hi, hk, rfl⟩
    have hle := le_partialSups_of_le e hi
    exact (sub_le_sub_right hle _).trans (hupper ⟨k, hk, rfl⟩)

section Relative

variable {K : Type*} [Field K] [LinearOrder K]

/-- The fall relative to the running peak. -/
def dropRatio (e : ℕ → K) (j : ℕ) : K := drop e j / partialSups e j

theorem partialSups_pos {e : ℕ → K} (h : 0 < e 0) (j : ℕ) : 0 < partialSups e j :=
  h.trans_le (le_partialSups_of_le e (Nat.zero_le j))

variable [IsStrictOrderedRing K]

/-- A fall from a lower start is relatively smaller. -/
theorem sub_div_le_sub_div {a b c : K} (ha : 0 < a) (hab : a ≤ b) (hc : 0 ≤ c) :
    (a - c) / a ≤ (b - c) / b := by
  have hb := ha.trans_le hab
  rw [sub_div, sub_div, div_self ha.ne', div_self hb.ne']
  exact sub_le_sub_left (div_le_div_of_nonneg_left hc ha hab) 1

theorem isGreatest_dropRatio {e : ℕ → K} (h : 0 < e 0) {n : ℕ} (hnonneg : ∀ j ≤ n, 0 ≤ e j) :
    IsGreatest {x | ∃ i j, i ≤ j ∧ j ≤ n ∧ 0 < e i ∧ x = (e i - e j) / e i}
      (partialSups (dropRatio e) n) := by
  obtain ⟨⟨j, hj, heq⟩, hupper⟩ := isGreatest_partialSups (dropRatio e) n
  constructor
  · obtain ⟨i, hi, hpeak⟩ := exists_partialSups_eq e j
    refine ⟨i, j, hi, hj, hpeak ▸ partialSups_pos h j, ?_⟩
    rw [heq, dropRatio, drop, hpeak]
  · rintro x ⟨i, k, hi, hk, hpos, rfl⟩
    have hle := sub_div_le_sub_div hpos (le_partialSups_of_le e hi) (hnonneg k hk)
    exact hle.trans (hupper ⟨k, hk, rfl⟩)

theorem dropRatio_nonneg {e : ℕ → K} (h : 0 < e 0) (j : ℕ) : 0 ≤ dropRatio e j :=
  div_nonneg (drop_nonneg e j) (partialSups_pos h j).le

theorem dropRatio_le_one {e : ℕ → K} (h : 0 < e 0) {j : ℕ} (hj : 0 ≤ e j) :
    dropRatio e j ≤ 1 := by
  rw [dropRatio, drop, div_le_one (partialSups_pos h j)]
  exact sub_le_self _ hj

end Relative

end Drawdown
