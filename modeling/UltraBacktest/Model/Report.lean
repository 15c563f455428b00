import UltraBacktest.Model.Performance

/-! The console report of the performance metrics. -/

namespace UltraBacktest

/-- `pow` is the power of the C library. -/
def PerformanceAnalytics.annualizedReturn (pow : ℚ → ℚ → ℚ) (a : PerformanceAnalytics)
    (durationNs : ℤ) : ℚ :=
  if durationNs = 0 ∨ a.initialEquity ≤ 0 then 0
  else
    let years : ℚ := durationNs / (365.25 * 24 * 60 * 60 * 1e9)
    if years ≤ 0 then 0 else pow (a.lastEquity / a.initialEquity) (1 / years) - 1

/-- The functions that the report takes from the C library and from `fmt`, whose format
`.2f` is `fixed2`. -/
structure ReportLibrary where
  sqrt : ℚ → ℚ
  pow : ℚ → ℚ → ℚ
  fixed2 : ℚ → String

/-- `ReportGenerator::generate_console_summary`. -/
def generateConsoleSummary (lib : ReportLibrary) (perf : PerformanceAnalytics)
    (durationNs : ℤ) : String :=
  let retPct := perf.totalReturn * 100
  let annRet := perf.annualizedReturn lib.pow durationNs * 100
  let ddPct := perf.maxDrawdownPct * 100
  let sharpe := perf.sharpeRatio lib.sqrt 0
  "────────────────────────────────────────\n" ++
  "         UltraBacktest Results          \n" ++
  "────────────────────────────────────────\n" ++
  "Total Return:       " ++ lib.fixed2 retPct ++ "%\n" ++
  "Annualized Return:  " ++ lib.fixed2 annRet ++ "%\n" ++
  "Max Drawdown:       " ++ lib.fixed2 ddPct ++ "%\n" ++
  "Sharpe Ratio:       " ++ lib.fixed2 sharpe ++ "\n" ++
  "────────────────────────────────────────\n"

end UltraBacktest
