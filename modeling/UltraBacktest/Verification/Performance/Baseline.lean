import UltraBacktest.Verification.Performance.Equations

/-! The baseline of the performance metrics. A negative initial equity stands for "no
baseline yet", so that a baseline that is itself negative is taken again. -/

namespace UltraBacktest.PerformanceAnalytics

/-- Through the updates `0, ..., n` the first equity stays the baseline, no peak is lowered,
and the total return is that of the first and the last equity. -/
def BaselineKept (e : ℕ → ℚ) (n : ℕ) : Prop :=
  ∀ k ≤ n, (after e k).initialEquity = e 0 ∧
    (∀ j ≤ k, (after e j).peakEquity ≤ (after e k).peakEquity) ∧
    (after e k).totalReturn = totalReturn { initialEquity := e 0, lastEquity := e k }

theorem after_totalReturn {e : ℕ → ℚ} {k : ℕ} (h : (after e k).initialEquity = e 0) :
    (after e k).totalReturn = totalReturn { initialEquity := e 0, lastEquity := e k } := by
  rw [totalReturn, totalReturn, h, after_lastEquity]

theorem monotone_peakEquity {e : ℕ → ℚ} (h : 0 ≤ e 0) :
    Monotone (fun k => (after e k).peakEquity) := by
  apply monotone_nat_of_le_succ
  intro k
  rw [(tracks_after h k).peakEquity]
  exact le_max_left _ _

/-! ## Negative baselines -/

/-- The next update takes the baseline again. -/
theorem after_succ_of_neg {e : ℕ → ℚ} {k : ℕ} (h : (after e k).initialEquity < 0) :
    after e (k + 1) = (after e k).takeBaseline (e (k + 1)) := by
  rw [after_succ, update_of_neg h]

theorem after_of_constant {e : ℕ → ℚ} (h : e 0 < 0) {n : ℕ} (hconst : ∀ k ≤ n, e k = e 0) :
    ∀ k ≤ n, after e k = takeBaseline {} (e 0) := by
  intro k hk
  induction k with
  | zero => exact after_zero e
  | succ k ih =>
      have hbefore := ih (by omega)
      have hneg : (after e k).initialEquity < 0 := by
        rw [hbefore]
        exact h
      rw [after_succ_of_neg hneg, hbefore, hconst (k + 1) hk]
      rfl

/-- The baseline is captured once exactly when the first equity is not negative, or nothing
moves. -/
theorem baseline_kept_iff (e : ℕ → ℚ) (n : ℕ) :
    BaselineKept e n ↔ 0 ≤ e 0 ∨ ∀ k ≤ n, e k = e 0 := by
  constructor
  · intro hkept
    rcases le_or_gt 0 (e 0) with hnonneg | hneg
    · exact Or.inl hnonneg
    · refine Or.inr (fun k hk => ?_)
      cases k with
      | zero => rfl
      | succ k =>
          -- The baseline after update `k` is still negative, so update `k + 1` replaces it.
          have hbefore : (after e k).initialEquity < 0 := by
            rw [(hkept k (by omega)).1]
            exact hneg
          have hnext := (hkept (k + 1) hk).1
          rw [after_succ_of_neg hbefore, takeBaseline] at hnext
          exact hnext
  · intro h k hk
    rcases le_or_gt 0 (e 0) with hnonneg | hneg
    · have hinitial := after_initialEquity hnonneg k
      exact ⟨hinitial, fun j hj => monotone_peakEquity hnonneg hj, after_totalReturn hinitial⟩
    · have hsame := after_of_constant hneg (h.resolve_left (not_le.mpr hneg))
      have hinitial : (after e k).initialEquity = e 0 := by rw [hsame k hk, takeBaseline]
      refine ⟨hinitial, fun j hj => ?_, after_totalReturn hinitial⟩
      rw [hsame k hk, hsame j (hj.trans hk)]

/-- No cash and one unit bought at 100. Marks at 90, 80 and 120, each with an update: the peak
falls with the second one, and the third leaves 20 as the initial equity. -/
theorem baseline_retaken_after_loss :
    let toDouble : ℤ → ℚ := fun price => price / 10 ^ 8
    let first := Tracked.run toDouble { portfolio := Portfolio.init ⟨0, 0, {}, 0⟩ }
      [.step (.report ⟨1, .buy, 1, 100, true⟩), .step (.mark 1 90), .update]
    let second := first.run toDouble [.step (.mark 1 80), .update]
    let third := second.run toDouble [.step (.mark 1 120), .update]
    first.analytics.initialEquity = toDouble (-10) ∧
      second.analytics.peakEquity < first.analytics.peakEquity ∧
      third.analytics.initialEquity = toDouble 20 := by
  intro toDouble first second third
  exact ⟨by decide +kernel, by decide +kernel, by decide +kernel⟩

end UltraBacktest.PerformanceAnalytics
