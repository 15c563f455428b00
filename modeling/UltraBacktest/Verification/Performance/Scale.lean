import UltraBacktest.Model.Report
import UltraBacktest.Verification.Performance.Divisions

/-! The unit of the prices, with doubles as exact rationals. Under a conversion with another
scale the equities are multiplied by a factor; the report is made of ratios and does not
change, over any run of fills, marks and updates that divides by no zero. -/

namespace UltraBacktest

namespace PerformanceAnalytics

/-- The same history in another unit. The baseline is either taken in both or in neither. -/
structure Scaled (c : ℚ) (a a' : PerformanceAnalytics) : Prop where
  initialEquity : a'.initialEquity = c * a.initialEquity ∨
    a'.initialEquity < 0 ∧ a.initialEquity < 0
  lastEquity : a'.lastEquity = c * a.lastEquity
  peakEquity : a'.peakEquity = c * a.peakEquity
  maxDd : a'.maxDd = c * a.maxDd
  maxDdPct : a'.maxDdPct = a.maxDdPct
  moments : a'.moments = a.moments

theorem scaled_unset (c : ℚ) : Scaled c {} {} where
  initialEquity := Or.inr (by decide)
  lastEquity := (mul_zero c).symm
  peakEquity := (mul_zero c).symm
  maxDd := (mul_zero c).symm
  maxDdPct := rfl
  moments := rfl

@[simp] theorem trackReturn_lastEquity (a : PerformanceAnalytics) (equity : ℚ) :
    (a.trackReturn equity).lastEquity = a.lastEquity := by
  unfold trackReturn
  split_ifs <;> rfl

section Updates

variable {c : ℚ} (hc : 0 < c) {a a' : PerformanceAnalytics} (h : Scaled c a a')

include hc h

theorem Scaled.trackDrawdown (equity : ℚ) :
    Scaled c (a.trackDrawdown equity) (a'.trackDrawdown (c * equity)) := by
  have hpeak : c * equity > a'.peakEquity ↔ equity > a.peakEquity := by
    rw [h.peakEquity]
    exact mul_lt_mul_iff_of_pos_left hc
  have hdd : a'.peakEquity - c * equity = c * (a.peakEquity - equity) := by
    rw [h.peakEquity, mul_sub]
  rw [PerformanceAnalytics.trackDrawdown, PerformanceAnalytics.trackDrawdown]
  by_cases hnew : equity > a.peakEquity
  · rw [if_pos hnew, if_pos (hpeak.mpr hnew)]
    exact { h with peakEquity := rfl }
  · rw [if_neg hnew, if_neg (mt hpeak.mp hnew)]
    refine { h with maxDd := ?_, maxDdPct := ?_ }
    · simp only [hdd, h.maxDd, gt_iff_lt, mul_lt_mul_iff_of_pos_left hc, mul_ite]
    · have hratio : (a'.peakEquity - c * equity) / a'.peakEquity =
          (a.peakEquity - equity) / a.peakEquity := by
        rw [hdd, h.peakEquity, mul_div_mul_left _ _ hc.ne']
      simp only [hratio, h.maxDdPct]

theorem Scaled.trackReturn (equity : ℚ) :
    Scaled c (a.trackReturn equity) (a'.trackReturn (c * equity)) := by
  have hpos : a'.lastEquity > 0 ↔ a.lastEquity > 0 := by
    rw [h.lastEquity]
    exact mul_pos_iff_of_pos_left hc
  have hret : (c * equity - a'.lastEquity) / a'.lastEquity =
      (equity - a.lastEquity) / a.lastEquity := by
    rw [h.lastEquity, ← mul_sub, mul_div_mul_left _ _ hc.ne']
  have hmoments : (a'.trackReturn (c * equity)).moments = (a.trackReturn equity).moments := by
    rw [trackReturn_moments, trackReturn_moments, hret, h.moments]
    exact if_congr hpos rfl rfl
  refine ⟨?_, ?_, ?_, ?_, ?_, hmoments⟩
  · rw [trackReturn_initialEquity, trackReturn_initialEquity]
    exact h.initialEquity
  · rw [trackReturn_lastEquity, trackReturn_lastEquity]
    exact h.lastEquity
  · rw [trackReturn_peakEquity, trackReturn_peakEquity]
    exact h.peakEquity
  · rw [trackReturn_maxDd, trackReturn_maxDd]
    exact h.maxDd
  · rw [trackReturn_maxDdPct, trackReturn_maxDdPct]
    exact h.maxDdPct

theorem Scaled.initialEquity_neg_iff : a'.initialEquity < 0 ↔ a.initialEquity < 0 := by
  rcases h.initialEquity with heq | ⟨hneg', hneg⟩
  · have hzero := mul_lt_mul_iff_of_pos_left hc (b := a.initialEquity) (c := 0)
    rwa [mul_zero, ← heq] at hzero
  · exact iff_of_true hneg' hneg

theorem Scaled.update (equity : ℚ) : Scaled c (a.update equity) (a'.update (c * equity)) := by
  rw [PerformanceAnalytics.update, PerformanceAnalytics.update]
  by_cases hunset : a.initialEquity < 0
  · rw [if_pos hunset, if_pos ((h.initialEquity_neg_iff hc).mpr hunset)]
    exact { h with initialEquity := Or.inl rfl, lastEquity := rfl, peakEquity := rfl }
  · rw [if_neg hunset, if_neg (mt (h.initialEquity_neg_iff hc).mp hunset)]
    exact { (h.trackDrawdown hc equity).trackReturn hc equity with lastEquity := rfl }

/-- An update that divides by no zero does so in either unit. -/
theorem Scaled.update? {equity : ℚ} {b : PerformanceAnalytics}
    (hb : a.update? equity = some b) :
    ∃ b', a'.update? (c * equity) = some b' ∧ Scaled c b b' := by
  obtain ⟨hdefined, rfl⟩ := (update?_eq_some_iff a equity).mp hb
  refine ⟨_, update?_eq_some a' (c * equity) ?_, h.update hc equity⟩
  rw [h.initialEquity_neg_iff hc, h.peakEquity, gt_iff_lt, mul_lt_mul_iff_of_pos_left hc,
    mul_ne_zero_iff_left hc.ne']
  exact hdefined

theorem Scaled.initialEquity_nonpos_iff : a'.initialEquity ≤ 0 ↔ a.initialEquity ≤ 0 := by
  rcases h.initialEquity with heq | ⟨hneg', hneg⟩
  · have hzero := mul_le_mul_iff_of_pos_left hc (b := a.initialEquity) (c := 0)
    rwa [mul_zero, ← heq] at hzero
  · exact iff_of_true hneg'.le hneg.le

/-- Behind a positive baseline the growth is a ratio of scaled equities. -/
theorem Scaled.growth_eq (hpos : ¬ a.initialEquity ≤ 0) :
    a'.lastEquity / a'.initialEquity = a.lastEquity / a.initialEquity := by
  have heq : a'.initialEquity = c * a.initialEquity :=
    h.initialEquity.resolve_right (fun hneg => hpos hneg.2.le)
  rw [heq, h.lastEquity, mul_div_mul_left _ _ hc.ne']

theorem Scaled.totalReturn_eq : a'.totalReturn = a.totalReturn := by
  rw [totalReturn, totalReturn]
  by_cases hunset : a.initialEquity ≤ 0
  · rw [if_pos hunset, if_pos ((h.initialEquity_nonpos_iff hc).mpr hunset)]
  · have hunset' := mt (h.initialEquity_nonpos_iff hc).mp hunset
    rw [if_neg hunset, if_neg hunset', sub_div, sub_div, h.growth_eq hc hunset,
      div_self (fun heq => hunset' heq.le), div_self (fun heq => hunset heq.le)]

theorem Scaled.annualizedReturn_eq (pow : ℚ → ℚ → ℚ) (durationNs : ℤ) :
    a'.annualizedReturn pow durationNs = a.annualizedReturn pow durationNs := by
  rw [annualizedReturn, annualizedReturn]
  simp only [h.initialEquity_nonpos_iff hc]
  by_cases hnone : durationNs = 0 ∨ a.initialEquity ≤ 0
  · rw [if_pos hnone, if_pos hnone]
  · rw [if_neg hnone, if_neg hnone, h.growth_eq hc (not_or.mp hnone).2]

end Updates

theorem Scaled.sharpeRatio_eq {c : ℚ} {a a' : PerformanceAnalytics} (h : Scaled c a a')
    (sqrt : ℚ → ℚ) (riskFreeRate : ℚ) :
    a'.sharpeRatio sqrt riskFreeRate = a.sharpeRatio sqrt riskFreeRate := by
  obtain ⟨hcount, hmean, hm2⟩ := Welford.Moments.mk.inj h.moments
  rw [sharpeRatio, sharpeRatio, variance?, variance?, hcount, hmean, hm2]

end PerformanceAnalytics

/-! ## Runs -/

open PerformanceAnalytics

theorem Tracked.run?_scaled {c : ℚ} (hc : 0 < c) (toDouble : ℤ → ℚ) {t v : Tracked}
    (hportfolio : v.portfolio = t.portfolio) (h : Scaled c t.analytics v.analytics)
    {calls : List Call} {t' : Tracked} (hrun : t.run? toDouble calls = some t') :
    ∃ v', v.run? (fun price => c * toDouble price) calls = some v' ∧
      Scaled c t'.analytics v'.analytics := by
  induction calls generalizing t v with
  | nil =>
      cases hrun
      exact ⟨v, rfl, h⟩
  | cons q calls ih =>
      cases q with
      | step st =>
          exact ih (t := { t with portfolio := t.portfolio.step st })
            (v := { v with portfolio := v.portfolio.step st })
            (congrArg (·.step st) hportfolio) h hrun
      | update =>
          rw [run?, List.foldlM_cons] at hrun
          obtain ⟨t₁, hfirst, hrest⟩ := Option.bind_eq_some_iff.mp hrun
          obtain ⟨a, ha, rfl⟩ := Option.map_eq_some_iff.mp hfirst
          obtain ⟨a', ha', hscaled⟩ := h.update? hc ha
          obtain ⟨v', hv', hlast⟩ := ih (t := { t with analytics := a })
            (v := { v with analytics := a' }) hportfolio hscaled hrest
          refine ⟨v', ?_, hlast⟩
          rw [← hportfolio] at ha'
          rw [run?, List.foldlM_cons, call?, ha']
          exact hv'

theorem PerformanceAnalytics.Scaled.summary_eq {c : ℚ} (hc : 0 < c)
    {a a' : PerformanceAnalytics} (h : Scaled c a a') (lib : ReportLibrary) (durationNs : ℤ) :
    generateConsoleSummary lib a' durationNs = generateConsoleSummary lib a durationNs := by
  unfold generateConsoleSummary
  rw [h.totalReturn_eq hc, h.annualizedReturn_eq hc, maxDrawdownPct, maxDrawdownPct,
    h.maxDdPct, h.sharpeRatio_eq]

/-- The report of a run does not depend on the scale of the prices, and the drawdown in cash
follows it. -/
theorem report_independent_of_price_scale {c : ℚ} (hc : 0 < c) (toDouble : ℤ → ℚ)
    (config : BacktestConfig) (calls : List Tracked.Call) {t : Tracked}
    (hrun : Tracked.run? toDouble { portfolio := Portfolio.init config } calls = some t) :
    ∃ t', Tracked.run? (fun price => c * toDouble price) { portfolio := Portfolio.init config }
        calls = some t' ∧
      t'.analytics.maxDrawdown = c * t.analytics.maxDrawdown ∧
      ∀ (lib : ReportLibrary) (durationNs : ℤ),
        generateConsoleSummary lib t'.analytics durationNs =
          generateConsoleSummary lib t.analytics durationNs := by
  obtain ⟨t', hrun', hscaled⟩ := Tracked.run?_scaled hc toDouble rfl (scaled_unset c) hrun
  exact ⟨t', hrun', hscaled.maxDd, hscaled.summary_eq hc⟩

/-- A loss of ten price units is a tenth in prices of two decimals, and ten in whole ones. -/
theorem report_independent_of_price_scale_cents :
    ∃ t t', Tracked.run? (fun price => price / 100) { portfolio := Portfolio.init ⟨0, 0, {}, 1000⟩ }
        [.update, .step (.report ⟨1, .buy, 1, 100, true⟩), .step (.mark 1 90), .update] = some t ∧
      Tracked.run? (fun price => 100 * (price / 100))
        { portfolio := Portfolio.init ⟨0, 0, {}, 1000⟩ }
        [.update, .step (.report ⟨1, .buy, 1, 100, true⟩), .step (.mark 1 90), .update] =
          some t' ∧
      t.analytics.maxDrawdown = 1 / 10 ∧ t'.analytics.maxDrawdown = 10 := by
  have hcents : (Tracked.run? (fun price => price / 100)
      { portfolio := Portfolio.init ⟨0, 0, {}, 1000⟩ }
      [.update, .step (.report ⟨1, .buy, 1, 100, true⟩), .step (.mark 1 90), .update]).map
        (fun t => t.analytics.maxDrawdown) = some (1 / 10) := by
    decide +kernel
  obtain ⟨t, hrun, hdrawdown⟩ := Option.map_eq_some_iff.mp hcents
  obtain ⟨t', hrun', hscaled, -⟩ := report_independent_of_price_scale (c := 100) (by decide)
    (fun price => price / 100) ⟨0, 0, {}, 1000⟩ _ hrun
  refine ⟨t, t', hrun, hrun', hdrawdown, hscaled.trans ?_⟩
  rw [hdrawdown]
  norm_num

end UltraBacktest
