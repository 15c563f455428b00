import UltraBacktest.Library.Drawdown
import UltraBacktest.Verification.Performance.Equations
import Mathlib.Algebra.Order.SuccPred.PartialSups
import Mathlib.Data.Nat.SuccPred

/-! Correctness of the drawdowns: one pass with a running peak finds the maximum over all
pairs of updates. -/

namespace UltraBacktest.PerformanceAnalytics

open Drawdown

variable {e : ℕ → ℚ}

/-! ## The running maxima -/

theorem after_peakEquity (h : 0 ≤ e 0) (n : ℕ) : (after e n).peakEquity = partialSups e n := by
  induction n with
  | zero => rw [after_zero, partialSups_zero, takeBaseline]
  | succ n ih => rw [(tracks_after h n).peakEquity, ih, partialSups_add_one]

theorem after_maxDd (h : 0 ≤ e 0) (n : ℕ) : (after e n).maxDd = partialSups (drop e) n := by
  induction n with
  | zero => rw [after_zero, partialSups_zero, drop_zero, takeBaseline]
  | succ n ih =>
      have hnonneg : 0 ≤ (after e n).maxDd :=
        ih ▸ (drop_nonneg e n).trans (le_partialSups (drop e) n)
      rw [(tracks_after h n).maxDd hnonneg, ih, after_peakEquity h, partialSups_add_one (drop e),
        drop, partialSups_add_one e]

theorem after_maxDdPct (h : 0 < e 0) (n : ℕ) :
    (after e n).maxDdPct = partialSups (dropRatio e) n := by
  induction n with
  | zero => rw [after_zero, partialSups_zero, dropRatio, drop_zero, zero_div, takeBaseline]
  | succ n ih =>
      have hnonneg : 0 ≤ (after e n).maxDdPct :=
        ih ▸ (dropRatio_nonneg h n).trans (le_partialSups (dropRatio e) n)
      rw [(tracks_after h.le n).maxDdPct hnonneg, ih, after_peakEquity h.le,
        partialSups_add_one (dropRatio e), dropRatio, drop, partialSups_add_one e]

/-! ## Maxima over pairs -/

theorem maxDrawdownPct_mem_unit (h : 0 < e 0) {n : ℕ} (hnonneg : ∀ j ≤ n, 0 ≤ e j) :
    (after e n).maxDrawdownPct ∈ Set.Icc 0 1 := by
  rw [maxDrawdownPct, after_maxDdPct h]
  obtain ⟨j, hj, heq⟩ := exists_partialSups_eq (dropRatio e) n
  rw [heq]
  exact ⟨dropRatio_nonneg h j, dropRatio_le_one h (hnonneg j hj)⟩

/-- The running peaks are enough for the maxima over all pairs of updates, also where the two
maxima are reached under different peaks. -/
theorem drawdowns_match_history (h : 0 < e 0) (n : ℕ) :
    IsGreatest {x | ∃ i j, i ≤ j ∧ j ≤ n ∧ x = e i - e j} (after e n).maxDrawdown ∧
      IsGreatest {x | ∃ j ≤ n, x = (partialSups e j - e j) / partialSups e j}
        (after e n).maxDrawdownPct ∧
      ((∀ j ≤ n, 0 ≤ e j) →
        IsGreatest {x | ∃ i j, i ≤ j ∧ j ≤ n ∧ 0 < e i ∧ x = (e i - e j) / e i}
          (after e n).maxDrawdownPct ∧
        (after e n).maxDrawdownPct ∈ Set.Icc 0 1) := by
  have hdd : (after e n).maxDrawdown = partialSups (drop e) n := after_maxDd h.le n
  have hddPct : (after e n).maxDrawdownPct = partialSups (dropRatio e) n := after_maxDdPct h n
  refine ⟨hdd ▸ isGreatest_drop e n, hddPct ▸ isGreatest_partialSups (dropRatio e) n, ?_⟩
  intro hnonneg
  exact ⟨hddPct ▸ isGreatest_dropRatio h hnonneg, maxDrawdownPct_mem_unit h hnonneg⟩

/-- The larger fall is from the second peak, the relatively larger one from the first. -/
theorem drawdowns_match_history_two_peaks :
    (after (fun i => [100, 50, 300, 200].getD i 0) 3).maxDrawdown = 100 ∧
      (after (fun i => [100, 50, 300, 200].getD i 0) 3).maxDrawdownPct = 1 / 2 ∧
      ∀ x ∈ {x | ∃ i j, i ≤ j ∧ j ≤ 3 ∧
        x = ([100, 50, 300, 200] : List ℚ).getD i 0 - ([100, 50, 300, 200] : List ℚ).getD j 0},
        x ≤ 100 := by
  have hmatch := drawdowns_match_history (e := fun i => [100, 50, 300, 200].getD i 0)
    (by decide) 3
  have hdd : (after (fun i => [100, 50, 300, 200].getD i 0) 3).maxDrawdown = 100 := by
    decide +kernel
  refine ⟨hdd, by decide +kernel, ?_⟩
  intro x hx
  exact hdd ▸ hmatch.1.2 hx

end UltraBacktest.PerformanceAnalytics
