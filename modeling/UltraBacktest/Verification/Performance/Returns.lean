import UltraBacktest.Verification.Performance.Equations

/-! Correctness of the return statistics: the running aggregates are those of the whole
history. -/

namespace UltraBacktest.PerformanceAnalytics

open Welford

/-! ## The returns of a history -/

/-- The updates so far that measure a return: those whose previous equity is positive. -/
def periods (e : ℕ → ℚ) (n : ℕ) : List ℕ :=
  (List.range' 1 n).filter (fun i => 0 < e (i - 1))

/-- The return of the period that ends with update `i`. -/
def periodReturn (e : ℕ → ℚ) (i : ℕ) : ℚ := (e i - e (i - 1)) / e (i - 1)

def periodReturns (e : ℕ → ℚ) (n : ℕ) : List ℚ := (periods e n).map (periodReturn e)

theorem periodReturns_succ (e : ℕ → ℚ) (n : ℕ) :
    periodReturns e (n + 1) =
      if 0 < e n then periodReturns e n ++ [(e (n + 1) - e n) / e n]
      else periodReturns e n := by
  have hlast : 1 + n - 1 = n := by omega
  rw [periodReturns, periods, List.range'_1_concat, List.filter_append, List.map_append]
  split_ifs with hpos
  · rw [List.filter_singleton, hlast, decide_eq_true hpos]
    simp only [cond_true, List.map_singleton, periodReturn, Nat.add_comm 1 n]
    rfl
  · rw [List.filter_singleton, hlast, decide_eq_false hpos]
    simp only [cond_false, List.map_nil, List.append_nil]
    rfl

/-! ## The running aggregates -/

theorem after_moments {e : ℕ → ℚ} (h : 0 ≤ e 0) (n : ℕ) :
    (after e n).moments = batch (periodReturns e n) := by
  induction n with
  | zero =>
      rw [after_zero]
      exact batch_nil.symm
  | succ n ih =>
      rw [(tracks_after h n).moments, after_lastEquity, ih, periodReturns_succ]
      -- A period without a positive start moves `lastEquity` only.
      split_ifs
      · exact (batch_concat _ _).symm
      · rfl

/-- A nonnegative sum of squares that is not zero is positive. -/
theorem variance?_pos {a : PerformanceAnalytics} (h : 0 ≤ a.m2) :
    ∀ variance ∈ a.variance?, 0 < variance := by
  intro variance hvariance
  rw [variance?] at hvariance
  split_ifs at hvariance with hnone
  · cases hvariance
  · obtain ⟨hcount, hm2⟩ := not_or.mp hnone
    cases hvariance
    have hpos : 0 < a.m2 := lt_of_le_of_ne h (Ne.symm hm2)
    have hperiods : 0 < a.count - 1 := by omega
    exact div_pos hpos (Nat.cast_pos.mpr hperiods)

/-- After every update the statistics are those of the batch definitions, so that the Sharpe
ratio never takes the root of a variance that is not positive. -/
theorem returns_match_history {e : ℕ → ℚ} (h : 0 ≤ e 0) (n : ℕ) :
    (after e n).count = (periods e n).length ∧
      (after e n).meanReturn = mean (periodReturns e n) ∧
      (after e n).m2 = deviation (periodReturns e n) ∧
      0 ≤ (after e n).m2 ∧
      ∀ variance ∈ (after e n).variance?, 0 < variance := by
  have hmoments := after_moments h n
  have hm2 : (after e n).m2 = deviation (periodReturns e n) := congrArg Moments.m2 hmoments
  have hnonneg : 0 ≤ (after e n).m2 := hm2 ▸ deviation_nonneg _
  refine ⟨?_, congrArg Moments.mean hmoments, hm2, hnonneg, variance?_pos hnonneg⟩
  have hcount : (after e n).count = (periodReturns e n).length := congrArg Moments.count hmoments
  rw [hcount, periodReturns, List.length_map]

/-- The period that starts from zero is skipped. -/
theorem returns_match_history_through_zero :
    (after (fun i => [100, 110, 0, 50, 40].getD i 0) 4).count = 3 ∧
      (after (fun i => [100, 110, 0, 50, 40].getD i 0) 4).meanReturn = -11 / 30 := by
  obtain ⟨hcount, hmean, -⟩ :=
    returns_match_history (e := fun i => [100, 110, 0, 50, 40].getD i 0) (by decide) 4
  exact ⟨hcount.trans (by decide), hmean.trans (by decide +kernel)⟩

end UltraBacktest.PerformanceAnalytics
