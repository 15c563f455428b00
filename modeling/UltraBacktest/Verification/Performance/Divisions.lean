import UltraBacktest.Verification.Performance.Equations

/-! The divisors of the performance metrics: the previous equity is guarded and the counter
has just been raised; the peak is zero as long as the baseline is zero and nothing was
gained. -/

namespace UltraBacktest

namespace PerformanceAnalytics

variable (a : PerformanceAnalytics) (equity : ℚ)

theorem div?_of_ne_zero {x y : ℚ} (h : y ≠ 0) : div? x y = some (x / y) := if_neg h

/-! ## One update -/

theorem trackDrawdown?_eq_some (h : equity > a.peakEquity ∨ a.peakEquity ≠ 0) :
    a.trackDrawdown? equity = some (a.trackDrawdown equity) := by
  unfold trackDrawdown? trackDrawdown
  split_ifs with hpeak
  · rfl
  · simp only [div?_of_ne_zero (h.resolve_left hpeak)]
    rfl

/-- The previous equity is positive where it divides, and the counter is not zero. -/
theorem trackReturn?_eq_some : a.trackReturn? equity = some (a.trackReturn equity) := by
  unfold trackReturn? trackReturn
  split_ifs with hlast
  · have hcount : ((a.count + 1 : ℕ) : ℚ) ≠ 0 := Nat.cast_ne_zero.mpr (Nat.succ_ne_zero _)
    rw [div?_of_ne_zero (ne_of_gt hlast)]
    simp only [Option.bind_eq_bind, Option.bind_some, div?_of_ne_zero hcount]
    rfl
  · rfl

theorem update?_eq_some
    (h : a.initialEquity < 0 ∨ equity > a.peakEquity ∨ a.peakEquity ≠ 0) :
    a.update? equity = some (a.update equity) := by
  unfold update? update
  split_ifs with hinitial
  · rfl
  · rw [trackDrawdown?_eq_some a equity (h.resolve_left hinitial)]
    simp only [Option.bind_eq_bind, Option.bind_some, trackReturn?_eq_some]
    rfl

theorem update?_eq_none (hinitial : 0 ≤ a.initialEquity) (hpeak : a.peakEquity = 0)
    (h : equity ≤ 0) : a.update? equity = none := by
  have htrack : a.trackDrawdown? equity = none := by
    rw [trackDrawdown?, if_neg (not_lt.mpr (hpeak.symm ▸ h)), hpeak]
    rfl
  rw [update?, if_neg (not_lt.mpr hinitial), htrack]
  rfl

theorem update?_eq_some_iff {a' : PerformanceAnalytics} : a.update? equity = some a' ↔
    (a.initialEquity < 0 ∨ equity > a.peakEquity ∨ a.peakEquity ≠ 0) ∧ a.update equity = a' := by
  by_cases h : a.initialEquity < 0 ∨ equity > a.peakEquity ∨ a.peakEquity ≠ 0
  · rw [update?_eq_some a equity h, Option.some_inj, and_iff_right h]
  · obtain ⟨hinitial, hgain, hpeak⟩ : 0 ≤ a.initialEquity ∧ equity ≤ a.peakEquity ∧
        a.peakEquity = 0 := by
      simpa [not_or] using h
    rw [update?_eq_none a equity hinitial hpeak (hgain.trans_eq hpeak)]
    exact iff_of_false (by simp) (fun hboth => h hboth.1)

/-! ## Runs of updates -/

variable {a} {equity}

/-- A positive peak stays positive. -/
theorem updates?_isSome_of_pos (hinitial : 0 ≤ a.initialEquity) (hpeak : 0 < a.peakEquity)
    (es : List ℚ) : (es.foldlM update? a).isSome := by
  induction es generalizing a with
  | nil => rfl
  | cons equity es ih =>
      have htracks := tracks_update hinitial equity
      rw [List.foldlM_cons, update?_eq_some a equity (Or.inr (Or.inr hpeak.ne'))]
      apply ih
      · rw [htracks.initialEquity]
        exact hinitial
      · rw [htracks.peakEquity]
        exact lt_max_of_lt_left hpeak

theorem updates?_isSome_of_zero (hinitial : 0 ≤ a.initialEquity) (hpeak : a.peakEquity = 0)
    (es : List ℚ) :
    (es.foldlM update? a).isSome ↔ ∀ next rest, es = next :: rest → 0 < next := by
  cases es with
  | nil => simp
  | cons equity es =>
      rw [List.foldlM_cons]
      constructor
      · rintro hsome next rest hes
        obtain ⟨rfl, rfl⟩ := List.cons.inj hes
        by_contra hnext
        rw [update?_eq_none a equity hinitial hpeak (not_lt.mp hnext)] at hsome
        cases hsome
      · intro h
        have hgain : 0 < equity := h equity es rfl
        have htracks := tracks_update hinitial equity
        rw [update?_eq_some a equity (Or.inr (Or.inl (hpeak.symm ▸ hgain)))]
        apply updates?_isSome_of_pos
        · rw [htracks.initialEquity]
          exact hinitial
        · rw [htracks.peakEquity]
          exact lt_max_of_lt_right hgain

/-- The first equity that is not negative is not a zero without a gain after it. -/
def GainsFromZero (es : List ℚ) : Prop :=
  ∀ next rest, es.dropWhile (· < 0) = 0 :: next :: rest → 0 < next

/-- Negative equities are baselines that the next update replaces. -/
theorem updates?_isSome_iff (hinitial : a.initialEquity < 0) (es : List ℚ) :
    (es.foldlM update? a).isSome ↔ GainsFromZero es := by
  induction es generalizing a with
  | nil => simp [GainsFromZero]
  | cons equity es ih =>
      rw [List.foldlM_cons, update?_eq_some a equity (Or.inl hinitial), update_of_neg hinitial]
      change (es.foldlM update? (a.takeBaseline equity)).isSome ↔ _
      rcases lt_trichotomy equity 0 with hneg | rfl | hpos
      · rw [ih hneg, GainsFromZero, GainsFromZero,
          List.dropWhile_cons_of_pos (by simpa using hneg)]
      · rw [updates?_isSome_of_zero le_rfl rfl, GainsFromZero,
          List.dropWhile_cons_of_neg (by simp)]
        simp
      · have hne : equity ≠ 0 := hpos.ne'
        rw [GainsFromZero, List.dropWhile_cons_of_neg (by simpa using hpos.le)]
        simp [updates?_isSome_of_pos (a := a.takeBaseline equity) hpos.le hpos es, hne]

end PerformanceAnalytics

/-! ## Runs of a portfolio -/

namespace Tracked

open PerformanceAnalytics

/-- The equities that the updates of a run are given. -/
def equities (toDouble : ℤ → ℚ) (p : Portfolio) : List Call → List ℚ
  | [] => []
  | .step st :: calls => equities toDouble (p.step st) calls
  | .update :: calls => toDouble p.totalEquity :: equities toDouble p calls

theorem run?_isSome (toDouble : ℤ → ℚ) (t : Tracked) (calls : List Call) :
    (t.run? toDouble calls).isSome =
      ((equities toDouble t.portfolio calls).foldlM update? t.analytics).isSome := by
  induction calls generalizing t with
  | nil => rfl
  | cons c calls ih =>
      cases c with
      | step st => exact ih { t with portfolio := t.portfolio.step st }
      | update =>
          rw [run?, equities, List.foldlM_cons, List.foldlM_cons, call?]
          cases t.analytics.update? (toDouble t.portfolio.totalEquity) with
          | none => rfl
          | some a => exact ih { t with analytics := a }

/-- No update of a run divides by zero, exactly when the first equity that is not negative is
not a zero without a gain after it. -/
theorem divisions_defined_iff (toDouble : ℤ → ℚ) (config : BacktestConfig)
    (calls : List Call) :
    (run? toDouble { portfolio := Portfolio.init config } calls).isSome ↔
      GainsFromZero (equities toDouble (Portfolio.init config) calls) := by
  have hunset : ({} : PerformanceAnalytics).initialEquity < 0 := by decide
  rw [run?_isSome]
  exact updates?_isSome_iff hunset _

/-- No cash, no trades, two updates: the second divides by a peak of zero. -/
theorem divides_by_zero_without_cash :
    (run? (fun price => price / 10 ^ 8) { portfolio := Portfolio.init ⟨0, 0, {}, 0⟩ }
      [.update, .update]).isSome = false := by
  decide +kernel

end Tracked

end UltraBacktest
