import UltraBacktest.Model.Portfolio
import Mathlib.Algebra.Order.Field.Rat

/-! The online performance metrics. Doubles are exact rationals, so nothing is rounded; where
an update divides by zero, `update?` and `Tracked.run?` are undefined. The time of an update is
not read. -/

namespace UltraBacktest

structure PerformanceAnalytics where
  /-- Negative while no baseline has been taken. -/
  initialEquity : ℚ := -1
  lastEquity : ℚ := 0
  peakEquity : ℚ := 0
  maxDd : ℚ := 0
  maxDdPct : ℚ := 0
  count : ℕ := 0
  meanReturn : ℚ := 0
  m2 : ℚ := 0
  deriving DecidableEq, Repr

namespace PerformanceAnalytics

/-! ## Updates -/

/-- The first equity is the baseline. -/
def takeBaseline (a : PerformanceAnalytics) (equity : ℚ) : PerformanceAnalytics :=
  { a with initialEquity := equity, lastEquity := equity, peakEquity := equity }

/-- The drawdown calculation of an update. -/
def trackDrawdown (a : PerformanceAnalytics) (equity : ℚ) : PerformanceAnalytics :=
  if equity > a.peakEquity then { a with peakEquity := equity }
  else
    let dd := a.peakEquity - equity
    let ddPct := dd / a.peakEquity
    { a with
      maxDd := if dd > a.maxDd then dd else a.maxDd
      maxDdPct := if ddPct > a.maxDdPct then ddPct else a.maxDdPct }

/-- The return statistics of an update. -/
def trackReturn (a : PerformanceAnalytics) (equity : ℚ) : PerformanceAnalytics :=
  if a.lastEquity > 0 then
    let ret := (equity - a.lastEquity) / a.lastEquity
    let count := a.count + 1
    let delta := ret - a.meanReturn
    let meanReturn := a.meanReturn + delta / count
    let delta2 := ret - meanReturn
    { a with count := count, meanReturn := meanReturn, m2 := a.m2 + delta * delta2 }
  else a

def update (a : PerformanceAnalytics) (equity : ℚ) : PerformanceAnalytics :=
  if a.initialEquity < 0 then a.takeBaseline equity
  else { (a.trackDrawdown equity).trackReturn equity with lastEquity := equity }

/-! ## Results -/

def maxDrawdown (a : PerformanceAnalytics) : ℚ := a.maxDd

def maxDrawdownPct (a : PerformanceAnalytics) : ℚ := a.maxDdPct

/-- The variance of the returns, where `sharpe_ratio` computes it. -/
def variance? (a : PerformanceAnalytics) : Option ℚ :=
  if a.count < 2 ∨ a.m2 = 0 then none else some (a.m2 / (a.count - 1 : ℕ))

/-- `sqrt` is the square root of the C library. -/
def sharpeRatio (sqrt : ℚ → ℚ) (a : PerformanceAnalytics) (riskFreeRate : ℚ) : ℚ :=
  a.variance?.elim 0 (fun variance => (a.meanReturn - riskFreeRate) / sqrt variance)

def totalReturn (a : PerformanceAnalytics) : ℚ :=
  if a.initialEquity ≤ 0 then 0 else (a.lastEquity - a.initialEquity) / a.initialEquity

/-! ## Updates with every division checked -/

/-- Division, with `none` for a zero divisor. -/
def div? (x y : ℚ) : Option ℚ := if y = 0 then none else some (x / y)

def trackDrawdown? (a : PerformanceAnalytics) (equity : ℚ) : Option PerformanceAnalytics :=
  if equity > a.peakEquity then some { a with peakEquity := equity }
  else do
    let dd := a.peakEquity - equity
    let ddPct ← div? dd a.peakEquity
    return { a with
      maxDd := if dd > a.maxDd then dd else a.maxDd
      maxDdPct := if ddPct > a.maxDdPct then ddPct else a.maxDdPct }

def trackReturn? (a : PerformanceAnalytics) (equity : ℚ) : Option PerformanceAnalytics :=
  if a.lastEquity > 0 then do
    let ret ← div? (equity - a.lastEquity) a.lastEquity
    let count := a.count + 1
    let delta := ret - a.meanReturn
    let change ← div? delta count
    let meanReturn := a.meanReturn + change
    let delta2 := ret - meanReturn
    return { a with count := count, meanReturn := meanReturn, m2 := a.m2 + delta * delta2 }
  else some a

def update? (a : PerformanceAnalytics) (equity : ℚ) : Option PerformanceAnalytics :=
  if a.initialEquity < 0 then some (a.takeBaseline equity)
  else do
    let a ← a.trackDrawdown? equity
    let a ← a.trackReturn? equity
    return { a with lastEquity := equity }

end PerformanceAnalytics

/-! ## Updates from a portfolio -/

/-- A portfolio with the analytics that watch it. -/
structure Tracked where
  portfolio : Portfolio
  analytics : PerformanceAnalytics := {}

namespace Tracked

inductive Call where
  | step (st : Step)
  | update
  deriving DecidableEq, Repr

/-- `toDouble` is UltraLOB's conversion of a price. -/
def call (toDouble : ℤ → ℚ) (t : Tracked) : Call → Tracked
  | .step st => { t with portfolio := t.portfolio.step st }
  | .update => { t with analytics := t.analytics.update (toDouble t.portfolio.totalEquity) }

def run (toDouble : ℤ → ℚ) (t : Tracked) (calls : List Call) : Tracked :=
  calls.foldl (call toDouble) t

/-- The result is `none` where an update would divide by zero. -/
def call? (toDouble : ℤ → ℚ) (t : Tracked) : Call → Option Tracked
  | .step st => some { t with portfolio := t.portfolio.step st }
  | .update =>
      (t.analytics.update? (toDouble t.portfolio.totalEquity)).map
        (fun a => { t with analytics := a })

def run? (toDouble : ℤ → ℚ) (t : Tracked) (calls : List Call) : Option Tracked :=
  calls.foldlM (call? toDouble) t

end Tracked

end UltraBacktest
