import UltraBacktest.Verification.Portfolio.TotalPnl
import UltraBacktest.Verification.Risk.KillSwitch

/-! The loss that the pre-trade check compares and the loss of the portfolio. The check
reads the total profit of the positions; the fees are paid out of cash and do not enter
it. -/

namespace UltraBacktest

/-! ## Two notions of loss -/

/-- What the portfolio has lost: the initial cash less the cash and the value of the open
positions. -/
def Portfolio.netLoss (p : Portfolio) : ℤ :=
  p.config.initialCash - (p.cash + ∑ s, (p.positions s).unrealizedPnl)

instance (pos : Position) : Decidable pos.Skipped :=
  inferInstanceAs (Decidable (¬ (pos.numTrades > 0 ∨ pos.netQty ≠ 0)))

/-- The profit of the positions that the total passes over. -/
def Portfolio.skippedPnl (p : Portfolio) : ℤ :=
  ∑ s, if (p.positions s).Skipped then
    (p.positions s).realizedPnl + (p.positions s).unrealizedPnl else 0

theorem Portfolio.totalPnl_add_skippedPnl (p : Portfolio) :
    p.totalPnl + p.skippedPnl =
      ∑ s, ((p.positions s).realizedPnl + (p.positions s).unrealizedPnl) := by
  rw [totalPnl_eq_sum, skippedPnl, ← Finset.sum_add_distrib]
  refine Finset.sum_congr rfl (fun s _ => ?_)
  by_cases hskipped : (p.positions s).Skipped
  · rw [if_neg hskipped, if_pos hskipped, zero_add]
  · rw [if_pos (not_not.mp hskipped), if_neg hskipped, add_zero]

/-- The total profit is the net loss with the sign changed, but for the fees and for what
the total passes over. -/
theorem neg_totalPnl_run_init (config : BacktestConfig) (steps : List Step) :
    -((Portfolio.init config).run steps).totalPnl =
      ((Portfolio.init config).run steps).netLoss - feesCharged config.feeModel steps +
        ((Portfolio.init config).run steps).skippedPnl := by
  have htotal := ((Portfolio.init config).run steps).totalPnl_add_skippedPnl
  have hcash := Portfolio.run_init_cash config steps
  have hconfig : ((Portfolio.init config).run steps).config.initialCash =
      config.initialCash := by
    rw [Portfolio.run_config]
    rfl
  rw [Finset.sum_add_distrib, ← Portfolio.totalRealized] at htotal
  rw [Portfolio.netLoss, hconfig]
  linarith

/-! ## The check -/

/-- The net loss exceeds the limit, and the loss without the fees does not. -/
def FeesHideLoss (limits : RiskLimits) (config : BacktestConfig) (steps : List Step) : Prop :=
  ((Portfolio.init config).run steps).netLoss - feesCharged config.feeModel steps +
      ((Portfolio.init config).run steps).skippedPnl ≤ limits.maxLoss ∧
    limits.maxLoss < ((Portfolio.init config).run steps).netLoss

/-- Every order is rejected while the net loss exceeds the limit, exactly when it is not the
fees that carry the loss over the limit, or the order is rejected for another reason. -/
theorem max_loss_counts_fees_iff (config : BacktestConfig) (steps : List Step)
    {r : RiskEngine} (hloss : 0 < r.limits.maxLoss) (req : OrderRequest) :
    let p := (Portfolio.init config).run steps
    (r.limits.maxLoss < p.netLoss → Desk.Rejects ⟨p, r⟩ req) ↔
      ¬ FeesHideLoss r.limits config steps ∨ r.killed = true ∨ r.Oversized req ∨
        r.FailsPosition p req := by
  intro p
  have htotal : -p.totalPnl = p.netLoss - feesCharged config.feeModel steps + p.skippedPnl :=
    neg_totalPnl_run_init config steps
  have hbreached : r.Breached p ↔ ¬ p.netLoss - feesCharged config.feeModel steps +
      p.skippedPnl ≤ r.limits.maxLoss := by
    rw [RiskEngine.Breached, ← htotal]
    omega
  rw [Desk.rejects_iff, hbreached, FeesHideLoss]
  constructor
  · intro h
    by_contra hnot
    rw [not_or, not_or, not_or, not_not] at hnot
    obtain ⟨⟨hle, hlt⟩, hk, ho, hposition⟩ := hnot
    rcases h hlt with h | h | h | h
    · exact hk h
    · exact ho h
    · exact h hle
    · exact hposition h
  · intro h hlt
    rcases h with h | h | h | h
    · exact Or.inr (Or.inr (Or.inl (fun hle => h ⟨hle, hlt⟩)))
    · exact Or.inl h
    · exact Or.inr (Or.inl h)
    · exact Or.inr (Or.inr (Or.inr h))

/-- Without fees a mark at 80 under a purchase at 100 is seen as a loss of 2000. -/
theorem max_loss_counts_fees_without_fees :
    let p := (Portfolio.init ⟨0, 0, {}, 100000⟩).run
      [.report ⟨1, .buy, 100, 100, true⟩, .mark 1 80]
    let r : RiskEngine := { limits := { maxLoss := 1000 } }
    r.limits.maxLoss < p.netLoss ∧ Desk.Rejects ⟨p, r⟩ ⟨1, .buy, 10⟩ := by
  intro p r
  have hiff := max_loss_counts_fees_iff ⟨0, 0, {}, 100000⟩
    [.report ⟨1, .buy, 100, 100, true⟩, .mark 1 80] (show 0 < r.limits.maxLoss by decide)
    ⟨1, .buy, 10⟩
  have hlt : r.limits.maxLoss < p.netLoss := by decide +kernel
  refine ⟨hlt, hiff.mpr (Or.inl fun h => ?_) hlt⟩
  exact absurd h.1 (by decide +kernel)

/-- A flat fee of 2000 on one unit bought: the portfolio has lost 2000, more than its limit
of 1000, and the next order is approved. -/
theorem fees_escape_max_loss :
    let p := (Portfolio.init ⟨0, 0, { perTradeFee := 2000 }, 100000⟩).run
      [.report ⟨1, .buy, 1, 100, true⟩]
    let r : RiskEngine := { limits := { maxLoss := 1000 } }
    p.netLoss = 2000 ∧ r.checkPreTrade (some p) ⟨1, .buy, 10⟩ = some (.none, r) ∧
      ¬ (r.limits.maxLoss < p.netLoss → Desk.Rejects ⟨p, r⟩ ⟨1, .buy, 10⟩) := by
  intro p r
  have hloss : p.netLoss = 2000 := by decide +kernel
  have hcheck : r.checkPreTrade (some p) ⟨1, .buy, 10⟩ = some (.none, r) := by decide +kernel
  refine ⟨hloss, hcheck, fun h => ?_⟩
  obtain ⟨reason, engine, hanswer, hreason⟩ := h (by rw [hloss]; decide)
  cases hanswer.symm.trans hcheck
  exact hreason rfl

end UltraBacktest
