import UltraBacktest.Library.Growth
import UltraBacktest.Verification.Performance.Drawdown
import UltraBacktest.Verification.Performance.Returns

/-! The figures of one history against each other: the total return is the compound of the
period returns, and it is bounded by their mean and by the drawdown. -/

namespace UltraBacktest.PerformanceAnalytics

open Welford

variable {e : ℕ → ℚ}

theorem after_totalReturn_add_one (h : 0 < e 0) (n : ℕ) :
    1 + (after e n).totalReturn = e n / e 0 := by
  rw [totalReturn, after_initialEquity h.le, after_lastEquity, if_neg (not_le.mpr h), sub_div,
    div_self h.ne', add_sub_cancel]

theorem prod_periodReturns {n : ℕ} (h : ∀ i < n, 0 < e i) (hzero : e 0 ≠ 0) :
    ((periodReturns e n).map (fun r => 1 + r)).prod = e n / e 0 := by
  induction n with
  | zero => exact (div_self hzero).symm
  | succ n ih =>
      have hpos := h n (Nat.lt_succ_self n)
      rw [periodReturns_succ, if_pos hpos, List.map_append, List.prod_append,
        ih (fun i hi => h i (hi.trans (Nat.lt_succ_self n))), List.map_singleton,
        List.prod_singleton, sub_div, div_self hpos.ne', add_sub_cancel]
      field_simp

/-- A period that ends with an equity that is not negative loses at most everything. -/
theorem neg_one_le_periodReturns {n : ℕ} (h : ∀ i ≤ n, 0 < e i) :
    ∀ r ∈ periodReturns e n, -1 ≤ r := by
  induction n with
  | zero => simp [periodReturns, periods]
  | succ n ih =>
      have hpos := h n (Nat.le_succ n)
      rw [periodReturns_succ, if_pos hpos]
      intro r hr
      rcases List.mem_append.mp hr with hr | hr
      · exact ih (fun i hi => h i (hi.trans (Nat.le_succ n))) r hr
      · rw [List.mem_singleton.mp hr, sub_div, div_self hpos.ne']
        have hquot : 0 ≤ e (n + 1) / e n := div_nonneg (h (n + 1) le_rfl).le hpos.le
        linarith

/-- While the equity is positive, the total return compounds the period returns, is at most
the growth at their mean, and loses at most the maximal drawdown. -/
theorem total_return_compounds {n : ℕ} (h : ∀ i ≤ n, 0 < e i) :
    1 + (after e n).totalReturn = ((periodReturns e n).map (fun r => 1 + r)).prod ∧
      1 + (after e n).totalReturn ≤ (1 + (after e n).meanReturn) ^ (after e n).count ∧
      -(after e n).totalReturn ≤ (after e n).maxDrawdownPct := by
  have hfirst := h 0 (Nat.zero_le n)
  have htotal := after_totalReturn_add_one hfirst n
  have hprod := prod_periodReturns (fun i hi => h i hi.le) hfirst.ne'
  have hmoments := after_moments hfirst.le n
  refine ⟨htotal.trans hprod.symm, ?_, ?_⟩
  · have hmean : (after e n).meanReturn = mean (periodReturns e n) :=
      congrArg Moments.mean hmoments
    have hcount : (after e n).count = (periodReturns e n).length :=
      congrArg Moments.count hmoments
    rw [htotal, ← hprod, hmean, hcount]
    exact (prod_one_add_le (neg_one_le_periodReturns h)).2
  · have hloss : -(after e n).totalReturn = (e 0 - e n) / e 0 := by
      rw [sub_div, div_self hfirst.ne', ← htotal]
      ring
    rw [hloss, maxDrawdownPct, after_maxDdPct hfirst]
    exact (Drawdown.isGreatest_dropRatio hfirst (fun j hj => (h j hj).le)).2
      ⟨0, n, Nat.zero_le n, le_rfl, hfirst, rfl⟩

/-- Up by a tenth and down by a tenth: a loss of a hundredth, where the mean is zero. -/
theorem total_return_compounds_up_and_down :
    1 + (after (fun i => [100, 110, 99].getD i 1) 2).totalReturn = 99 / 100 ∧
      99 / 100 ≤ (1 + (after (fun i => [100, 110, 99].getD i 1) 2).meanReturn) ^
        (after (fun i => [100, 110, 99].getD i 1) 2).count ∧
      1 / 100 ≤ (after (fun i => [100, 110, 99].getD i 1) 2).maxDrawdownPct := by
  have hpos : ∀ i ≤ 2, (0 : ℚ) < (fun i => [100, 110, 99].getD i 1) i := by decide +kernel
  obtain ⟨hprod, hmean, hloss⟩ := total_return_compounds hpos
  have htotal : (after (fun i => [100, 110, 99].getD i 1) 2).totalReturn = -1 / 100 := by
    decide +kernel
  rw [htotal] at hprod hmean hloss ⊢
  exact ⟨by norm_num, le_trans (by norm_num) hmean, le_trans (by norm_num) hloss⟩

end UltraBacktest.PerformanceAnalytics
