import UltraBacktest.Verification.Portfolio.Equity

/-! The mirror image of a run: buys and sells exchanged. The two sides of the source are
written out separately; the position after a mirrored fill is the mirror image of the
position after the fill, because the exposure to the fill is the same. -/

namespace UltraBacktest

/-! ## Mirror images -/

def Side.opposite : Side → Side
  | .buy => .sell
  | .sell => .buy

theorem Side.sign_opposite (side : Side) : side.opposite.sign = -side.sign := by
  cases side <;> rfl

def ExecutionReport.mirror (rpt : ExecutionReport) : ExecutionReport :=
  { rpt with side := rpt.side.opposite }

def Step.mirror : Step → Step
  | .report rpt => .report rpt.mirror
  | .mark sym lastPrice => .mark sym lastPrice

theorem Step.mirror_fill? (st : Step) :
    st.mirror.fill? = st.fill?.map ExecutionReport.mirror := by
  cases st with
  | report rpt => cases h : rpt.isFill <;> simp [mirror, fill?, ExecutionReport.mirror, h]
  | mark sym lastPrice => rfl

namespace Position

/-- Long and short exchanged, profits and losses exchanged. -/
def mirror (pos : Position) : Position :=
  { pos with
    netQty := -pos.netQty
    realizedPnl := -pos.realizedPnl
    unrealizedPnl := -pos.unrealizedPnl }

theorem mirror_exposure (pos : Position) (side : Side) :
    pos.mirror.exposure side.opposite = pos.exposure side := by
  rw [exposure, exposure, Side.sign_opposite]
  exact neg_mul_neg _ _

theorem mirror_book (pos : Position) (side : Side) (qty execPrice : ℤ) :
    pos.mirror.book side.opposite qty execPrice =
      ((pos.book side qty execPrice).1.mirror, -(pos.book side qty execPrice).2) := by
  have hexposure := pos.mirror_exposure side
  rcases lt_or_ge (pos.exposure side) 0 with h | h
  · rw [book_of_exposure_neg _ _ h, book_of_exposure_neg _ _ (hexposure ▸ h), hexposure,
      Side.sign_opposite]
    simp only [mirror, neg_mul, ← neg_add]
  · rw [book_of_exposure_nonneg _ _ h, book_of_exposure_nonneg _ _ (hexposure ▸ h), hexposure,
      Side.sign_opposite]
    simp only [mirror, neg_mul, ← neg_add, neg_zero]

theorem mirror_mark (pos : Position) (lastPrice : ℤ) :
    pos.mirror.mark lastPrice = (pos.mark lastPrice).mirror := by
  have hunrealized : (pos.mirror.mark lastPrice).unrealizedPnl =
      -(pos.mark lastPrice).unrealizedPnl := by
    rw [mark_unrealizedPnl, mark_unrealizedPnl]
    exact mul_neg _ _
  have hmirror : (pos.mark lastPrice).mirror = { pos.mirror.mark lastPrice with
      unrealizedPnl := -(pos.mark lastPrice).unrealizedPnl } := rfl
  rw [hmirror, ← hunrealized]

theorem mirror_fill (pos : Position) (rpt : ExecutionReport) :
    pos.mirror.fill rpt.mirror = (pos.fill rpt).mirror := by
  have hbook := congrArg Prod.fst (pos.mirror_book rpt.side rpt.execQty rpt.execPrice)
  rw [fill, fill, ← mirror_mark]
  exact congrArg (fun q => mark (countFill q rpt.execQty rpt.execPrice) rpt.execPrice) hbook

theorem mirror_step (s : Slot) (pos : Position) (st : Step) :
    pos.mirror.step s st.mirror = (pos.step s st).mirror := by
  cases st with
  | report rpt =>
      by_cases h : rpt.isFill ∧ rpt.symbol = s
      · have h' : rpt.mirror.isFill ∧ rpt.mirror.symbol = s := h
        rw [Step.mirror, step, step, if_pos h, if_pos h', mirror_fill]
      · have h' : ¬ (rpt.mirror.isFill ∧ rpt.mirror.symbol = s) := h
        rw [Step.mirror, step, step, if_neg h, if_neg h']
  | mark sym lastPrice =>
      by_cases hs : sym = s
      · rw [Step.mirror, step, step, if_pos hs, if_pos hs, mirror_mark]
      · rw [Step.mirror, step, step, if_neg hs, if_neg hs]

end Position

/-! ## Whole runs -/

theorem feesCharged_mirror (fm : FeeModel) (steps : List Step) :
    feesCharged fm (steps.map Step.mirror) = feesCharged fm steps := by
  induction steps with
  | nil => rfl
  | cons st steps ih =>
      rw [List.map_cons, feesCharged_cons, feesCharged_cons, ih, Step.mirror_fill?]
      cases st.fill? <;> rfl

theorem Portfolio.run_init_mirror (config : BacktestConfig) (steps : List Step) (s : Slot) :
    ((init config).run (steps.map Step.mirror)).positions s =
      (((init config).run steps).positions s).mirror := by
  have hinit : (init config).positions s = ((init config).positions s).mirror := rfl
  rw [run_positions, run_positions, List.foldl_map]
  conv_lhs => rw [hinit]
  exact List.foldl_hom Position.mirror (fun pos st => Position.mirror_step s pos st)

/-- The mirrored run ends with every position mirrored, and with the opposite trading
result in cash. -/
theorem mirror_symmetry (config : BacktestConfig) (steps : List Step) :
    let p := (Portfolio.init config).run steps
    let q := (Portfolio.init config).run (steps.map Step.mirror)
    let fees := feesCharged config.feeModel steps
    (∀ s, (q.positions s).netQty = -(p.positions s).netQty ∧
        (q.positions s).avgEntryPrice = (p.positions s).avgEntryPrice ∧
        (q.positions s).totalTraded = (p.positions s).totalTraded ∧
        (q.positions s).numTrades = (p.positions s).numTrades ∧
        (q.positions s).lastPrice = (p.positions s).lastPrice ∧
        (q.positions s).realizedPnl = -(p.positions s).realizedPnl ∧
        (q.positions s).unrealizedPnl = -(p.positions s).unrealizedPnl) ∧
      feesCharged config.feeModel (steps.map Step.mirror) = fees ∧
      q.cash - (config.initialCash - fees) = -(p.cash - (config.initialCash - fees)) := by
  intro p q fees
  have hpositions : ∀ s, q.positions s = (p.positions s).mirror :=
    Portfolio.run_init_mirror config steps
  have hfees := feesCharged_mirror config.feeModel steps
  refine ⟨?_, hfees, ?_⟩
  · intro s
    rw [hpositions s]
    exact ⟨rfl, rfl, rfl, rfl, rfl, rfl, rfl⟩
  · have hrealized : q.totalRealized = -p.totalRealized := by
      rw [Portfolio.totalRealized, Portfolio.totalRealized, ← Finset.sum_neg_distrib]
      refine Finset.sum_congr rfl (fun s _ => ?_)
      rw [hpositions s]
      rfl
    have hp : p.cash = _ := Portfolio.run_init_cash config steps
    have hq : q.cash = _ := Portfolio.run_init_cash config (steps.map Step.mirror)
    change q.cash = _ + q.totalRealized at hq
    change p.cash = _ + p.totalRealized at hp
    rw [hfees] at hq
    rw [hq, hp, hrealized]
    ring

end UltraBacktest
