import UltraBacktest.Library.Welford
import UltraBacktest.Model.Performance

/-! Computation rules for the performance metrics: the fields after an update, and the
state after a sequence of equities. -/

namespace UltraBacktest

open Welford

namespace PerformanceAnalytics

/-- The part of the state that Welford's recurrence works on. -/
def moments (a : PerformanceAnalytics) : Moments ℚ := ⟨a.count, a.meanReturn, a.m2⟩

section Fields

variable (a : PerformanceAnalytics) (equity : ℚ)

@[simp] theorem trackDrawdown_initialEquity :
    (a.trackDrawdown equity).initialEquity = a.initialEquity := by
  unfold trackDrawdown
  split_ifs <;> rfl

@[simp] theorem trackDrawdown_lastEquity :
    (a.trackDrawdown equity).lastEquity = a.lastEquity := by
  unfold trackDrawdown
  split_ifs <;> rfl

@[simp] theorem trackDrawdown_moments : (a.trackDrawdown equity).moments = a.moments := by
  unfold trackDrawdown
  split_ifs <;> rfl

theorem trackDrawdown_peakEquity :
    (a.trackDrawdown equity).peakEquity = max a.peakEquity equity := by
  unfold trackDrawdown
  split_ifs with h
  · exact (max_eq_right h.le).symm
  · exact (max_eq_left (not_lt.mp h)).symm

/-- A new peak has no drawdown, so that one rule covers both branches. -/
theorem trackDrawdown_maxDd (h : 0 ≤ a.maxDd) :
    (a.trackDrawdown equity).maxDd = max a.maxDd (max a.peakEquity equity - equity) := by
  unfold trackDrawdown
  split_ifs with hpeak
  · rw [max_eq_right hpeak.le, sub_self, max_eq_left h]
  · rw [max_eq_left (not_lt.mp hpeak)]
    exact (max_def_lt _ _).symm

theorem trackDrawdown_maxDdPct (h : 0 ≤ a.maxDdPct) :
    (a.trackDrawdown equity).maxDdPct =
      max a.maxDdPct ((max a.peakEquity equity - equity) / max a.peakEquity equity) := by
  unfold trackDrawdown
  split_ifs with hpeak
  · rw [max_eq_right hpeak.le, sub_self, zero_div, max_eq_left h]
  · rw [max_eq_left (not_lt.mp hpeak)]
    exact (max_def_lt _ _).symm

@[simp] theorem trackReturn_initialEquity :
    (a.trackReturn equity).initialEquity = a.initialEquity := by
  unfold trackReturn
  split_ifs <;> rfl

@[simp] theorem trackReturn_peakEquity :
    (a.trackReturn equity).peakEquity = a.peakEquity := by
  unfold trackReturn
  split_ifs <;> rfl

@[simp] theorem trackReturn_maxDd : (a.trackReturn equity).maxDd = a.maxDd := by
  unfold trackReturn
  split_ifs <;> rfl

@[simp] theorem trackReturn_maxDdPct : (a.trackReturn equity).maxDdPct = a.maxDdPct := by
  unfold trackReturn
  split_ifs <;> rfl

/-- A period that starts with a positive equity is a step of Welford's recurrence. -/
theorem trackReturn_moments :
    (a.trackReturn equity).moments =
      if 0 < a.lastEquity then push a.moments ((equity - a.lastEquity) / a.lastEquity)
      else a.moments := by
  unfold trackReturn
  split_ifs
  · simp only [moments, push]
    push_cast
    rfl
  · rfl

end Fields

/-! ## Updates -/

/-- The fields after an update that finds a baseline. -/
structure Tracks (a a' : PerformanceAnalytics) (equity : ℚ) : Prop where
  initialEquity : a'.initialEquity = a.initialEquity
  lastEquity : a'.lastEquity = equity
  peakEquity : a'.peakEquity = max a.peakEquity equity
  maxDd : 0 ≤ a.maxDd → a'.maxDd = max a.maxDd (max a.peakEquity equity - equity)
  maxDdPct : 0 ≤ a.maxDdPct → a'.maxDdPct =
    max a.maxDdPct ((max a.peakEquity equity - equity) / max a.peakEquity equity)
  moments : a'.moments =
    if 0 < a.lastEquity then push a.moments ((equity - a.lastEquity) / a.lastEquity)
    else a.moments

theorem tracks_update {a : PerformanceAnalytics} (h : 0 ≤ a.initialEquity) (equity : ℚ) :
    a.Tracks (a.update equity) equity := by
  rw [update, if_neg (not_lt.mpr h)]
  constructor
  · exact (trackReturn_initialEquity _ _).trans (trackDrawdown_initialEquity _ _)
  · rfl
  · exact (trackReturn_peakEquity _ _).trans (a.trackDrawdown_peakEquity equity)
  · intro hdd
    exact (trackReturn_maxDd _ _).trans (a.trackDrawdown_maxDd equity hdd)
  · intro hdd
    exact (trackReturn_maxDdPct _ _).trans (a.trackDrawdown_maxDdPct equity hdd)
  · have hmoments := (a.trackDrawdown equity).trackReturn_moments equity
    rw [trackDrawdown_lastEquity, trackDrawdown_moments] at hmoments
    exact hmoments

theorem update_of_neg {a : PerformanceAnalytics} (h : a.initialEquity < 0) (equity : ℚ) :
    a.update equity = a.takeBaseline equity := if_pos h

@[simp] theorem update_lastEquity (a : PerformanceAnalytics) (equity : ℚ) :
    (a.update equity).lastEquity = equity := by
  unfold update
  split_ifs <;> rfl

/-! ## Sequences of equities -/

/-- The state after the equities `e 0, ..., e n`. -/
def after (e : ℕ → ℚ) (n : ℕ) : PerformanceAnalytics :=
  ((List.range (n + 1)).map e).foldl update {}

theorem after_zero (e : ℕ → ℚ) : after e 0 = takeBaseline {} (e 0) := by
  have hunset : ({} : PerformanceAnalytics).initialEquity < 0 := by decide
  exact update_of_neg hunset (e 0)

theorem after_succ (e : ℕ → ℚ) (n : ℕ) : after e (n + 1) = (after e n).update (e (n + 1)) := by
  rw [after, List.range_succ, List.map_append, List.foldl_append]
  rfl

theorem after_lastEquity (e : ℕ → ℚ) (n : ℕ) : (after e n).lastEquity = e n := by
  cases n with
  | zero => rw [after_zero, takeBaseline]
  | succ n => rw [after_succ, update_lastEquity]

/-- A baseline that is not negative stays. -/
theorem after_initialEquity {e : ℕ → ℚ} (h : 0 ≤ e 0) (n : ℕ) :
    (after e n).initialEquity = e 0 := by
  induction n with
  | zero => rw [after_zero, takeBaseline]
  | succ n ih => rw [after_succ, (tracks_update (ih ▸ h) _).initialEquity, ih]

theorem tracks_after {e : ℕ → ℚ} (h : 0 ≤ e 0) (n : ℕ) :
    (after e n).Tracks (after e (n + 1)) (e (n + 1)) := by
  rw [after_succ]
  exact tracks_update ((after_initialEquity h n).symm ▸ h) _

end PerformanceAnalytics

end UltraBacktest
